import P2PNetwork.Client.File.FileManager
import P2PNetwork.Shared.SharedUtils
import Mathlib.Data.Option.Basic

/-!
# Download workers

`src/client/download/DownloadWorker.cpp` and the checks of `DownloadManager.cpp` that
watch the workers. Any number of workers run `work` on one file; a step is one call of
one worker, so the calls of `File` are atomic and interleave freely. What a peer answers
and what the system calls return is part of the event.
-/

namespace P2PNetwork.Client

/-- `peerIp` of `work` (`DownloadWorker.cpp:18–20`): the IPv4 address where there is one. -/
def PeerInfo.peerIp (peer : PeerInfo) : Bytes :=
  if peer.ipV4Address.isEmpty then peer.ipV6Address else peer.ipV4Address

/-- Where a worker stands inside `work` (`DownloadWorker.cpp:17–51`). The list holds the
fragment ids its loop has not reached yet. -/
inductive Pc
  /-- Before the address check and `start`. -/
  | connecting
  /-- Connected, before the list of fragments has arrived. -/
  | listing
  /-- At the head of the loop. -/
  | scanning (rest : List UInt32)
  /-- Holds `k` and waits for the reply to its request. -/
  | requesting (k : UInt32) (rest : List UInt32)
  /-- The reply was `F_ERROR`; `k` is about to be set FREE. -/
  | releasing (k : UInt32) (rest : List UInt32)
  /-- Any other reply; its bytes are about to be stored. -/
  | storing (k : UInt32) (fragmentBytes : Bytes) (rest : List UInt32)
  /-- Stored; `k` is about to be set COMPLETE. -/
  | completing (k : UInt32) (rest : List UInt32)
  | finished
  deriving DecidableEq, Repr

/-- The loop of this worker still has segment `i` to come. -/
def Pc.Ahead (i : Nat) : Pc → Prop
  | .connecting => True
  | .listing => True
  | .scanning rest => ∃ k ∈ rest, k.toNat = i
  | .requesting _ rest => ∃ k ∈ rest, k.toNat = i
  | .releasing _ rest => ∃ k ∈ rest, k.toNat = i
  | .storing _ _ rest => ∃ k ∈ rest, k.toNat = i
  | .completing _ rest => ∃ k ∈ rest, k.toNat = i
  | .finished => False

instance (i : Nat) : (p : Pc) → Decidable (p.Ahead i)
  | .connecting | .listing => isTrue trivial
  | .scanning rest | .requesting _ rest | .releasing _ rest | .storing _ _ rest
  | .completing _ rest => inferInstanceAs (Decidable (∃ k ∈ rest, k.toNat = i))
  | .finished => isFalse id

/-- The workers of one file, with the machine they store it on. -/
structure Download (W : Type) where
  file : File
  host : Host
  pc : W → Pc

/-- One call of a worker together with its outcome, or the manager's completeness check. -/
inductive Event (W : Type)
  | connect (w : W) (state : SocketState)
  | list (w : W) (response : ListResponse)
  | claim (w : W) (k : UInt32)
  | skip (w : W) (k : UInt32)
  | reply (w : W) (k : UInt32) (response : FragmentResponse)
  | release (w : W) (k : UInt32)
  | store (w : W) (k : UInt32) (io : StoreIo)
  | complete (w : W) (k : UInt32)
  | finish (w : W)
  | checkComplete

/-- The peer of `g` can be reached and lists segment `i`. -/
def Offers {W : Type} (peer : W → PeerInfo) (g : W) (i : Nat) : Event W → Prop
  | .connect w state => w = g → (peer g).peerIp.isEmpty = false ∧ state = .open
  | .list w response => w = g → ∃ k ∈ response.fragments, k.toNat = i
  | _ => True

/-- The worker that makes a call. -/
def Event.worker {W : Type} : Event W → Option W
  | .connect w _ => some w
  | .list w _ => some w
  | .claim w _ => some w
  | .skip w _ => some w
  | .reply w _ _ => some w
  | .release w _ => some w
  | .store w _ _ => some w
  | .complete w _ => some w
  | .finish w => some w
  | .checkComplete => none

/-- The state a call gives to a segment. -/
def Event.sets {W : Type} : Event W → Option (UInt32 × SegmentState)
  | .claim _ k => some (k, .downloading)
  | .release _ k => some (k, .free)
  | .complete _ k => some (k, .complete)
  | _ => none

namespace Download

variable {W : Type}

/-- Nobody has done anything yet. -/
def start (file : File) (host : Host) : Download W where
  file := file
  host := host
  pc := fun _ ↦ .connecting

/-- These workers have finished `work`. What `checkIfWorkersWork` (`DownloadManager.cpp:64–69`) sees
of that is not modelled: it reads the flag of the elements of a vector, which may have moved away
from under the threads. -/
def AllFinished (d : Download W) (workers : List W) : Prop := ∀ w ∈ workers, d.pc w = .finished

instance (d : Download W) (workers : List W) : Decidable (d.AllFinished workers) :=
  List.decidableBAll _ workers

variable [DecidableEq W]

/-- Move one worker. -/
def goto (d : Download W) (w : W) (p : Pc) : Download W :=
  { d with pc := Function.update d.pc w p }

@[simp] theorem file_goto (d : Download W) (w : W) (p : Pc) : (d.goto w p).file = d.file := rfl

@[simp] theorem host_goto (d : Download W) (w : W) (p : Pc) : (d.goto w p).host = d.host := rfl

@[simp] theorem pc_goto_self (d : Download W) (w : W) (p : Pc) : (d.goto w p).pc w = p :=
  Function.update_self _ _ _

theorem pc_goto_of_ne (d : Download W) {w v : W} (p : Pc) (h : v ≠ w) :
    (d.goto w p).pc v = d.pc v :=
  Function.update_of_ne h _ _

/-! ### The calls of `work`

A call has no result where it is not the worker's next one, where it waits, and where it
leaves the vector of segments. -/

/-- The address check and `start` (`DownloadWorker.cpp:18–32`). -/
def connect (peer : W → PeerInfo) (d : Download W) (w : W) (state : SocketState) :
    Option (Download W) :=
  match d.pc w with
  | .connecting =>
    if (peer w).peerIp.isEmpty then some (d.goto w .finished)
    else if state ≠ .open then some (d.goto w .finished)
    else some (d.goto w .listing)
  | _ => none

/-- `requestFragmentsList` has returned (`DownloadWorker.cpp:33`); its file code is not
looked at. -/
def list (d : Download W) (w : W) (response : ListResponse) : Option (Download W) :=
  match d.pc w with
  | .listing => some (d.goto w (.scanning response.fragments))
  | _ => none

/-- `tryToSetStateSegmentStateToDownload` returns `won` (`DownloadWorker.cpp:35`). -/
def tryToClaim (d : Download W) (w : W) (k : UInt32) (won : Bool) : Option (Download W) :=
  match d.pc w with
  | .scanning (fragmentId :: rest) => do
    guard (fragmentId = k)
    let (file, success) ← d.file.tryToSetStateSegmentStateToDownload (idOf k)
    guard (success = won)
    some (({ d with file := file }).goto w (if won then .requesting k rest else .scanning rest))
  | _ => none

/-- `requestFragment` has returned (`DownloadWorker.cpp:36–41`): every code but `F_ERROR`
counts as a delivery. -/
def reply (d : Download W) (w : W) (k : UInt32) (response : FragmentResponse) :
    Option (Download W) :=
  match d.pc w with
  | .requesting fragmentId rest =>
    if fragmentId = k then
      if response.fileCode = .error then some (d.goto w (.releasing k rest))
      else some (d.goto w (.storing k response.fragment rest))
    else none
  | _ => none

/-- `setSegmentState(fragmentId, FREE)` (`DownloadWorker.cpp:38`). -/
def release (d : Download W) (w : W) (k : UInt32) : Option (Download W) :=
  match d.pc w with
  | .releasing fragmentId rest => do
    guard (fragmentId = k)
    let (file, thrown) ← d.file.setSegmentState (idOf k) .free
    guard (!thrown)
    some (({ d with file := file }).goto w (.scanning rest))
  | _ => none

/-- `storeSegmentToFile` (`DownloadWorker.cpp:42`). -/
def store (d : Download W) (w : W) (k : UInt32) (io : StoreIo) : Option (Download W) :=
  match d.pc w with
  | .storing fragmentId fragmentBytes rest => do
    guard (fragmentId = k)
    let host ← d.host.storeSegmentToFile d.file.torrent.fileName d.file.path (idOf k)
      fragmentBytes io
    some (({ d with host := host }).goto w (.completing k rest))
  | _ => none

/-- `setSegmentState(fragmentId, COMPLETE)` (`DownloadWorker.cpp:43`). -/
def complete (d : Download W) (w : W) (k : UInt32) : Option (Download W) :=
  match d.pc w with
  | .completing fragmentId rest => do
    guard (fragmentId = k)
    let (file, thrown) ← d.file.setSegmentState (idOf k) .complete
    guard (!thrown)
    some (({ d with file := file }).goto w (.scanning rest))
  | _ => none

/-- The loop is over (`DownloadWorker.cpp:49–50`). -/
def finish (d : Download W) (w : W) : Option (Download W) :=
  match d.pc w with
  | .scanning [] => some (d.goto w .finished)
  | _ => none

/-- One call of one worker, or the check of `manageWorkers` (`DownloadManager.cpp:26`). -/
def step (peer : W → PeerInfo) (d : Download W) : Event W → Option (Download W)
  | .connect w state => d.connect peer w state
  | .list w response => d.list w response
  | .claim w k => d.tryToClaim w k true
  | .skip w k => d.tryToClaim w k false
  | .reply w k response => d.reply w k response
  | .release w k => d.release w k
  | .store w k io => d.store w k io
  | .complete w k => d.complete w k
  | .finish w => d.finish w
  | .checkComplete => some { d with file := d.file.isComplete.2 }

/-! ### What each call does -/

variable {peer : W → PeerInfo} {d d' : Download W} {w : W} {k : UInt32}

/-- A worker connects, or it finishes at once. -/
theorem connect_spec {state : SocketState} (h : d.connect peer w state = some d') :
    d.pc w = .connecting ∧
      (((peer w).peerIp.isEmpty = false ∧ state = .open ∧ d' = d.goto w .listing) ∨
        (((peer w).peerIp.isEmpty = true ∨ state ≠ .open) ∧ d' = d.goto w .finished)) := by
  unfold connect at h
  split at h
  · next hpc =>
    refine ⟨hpc, ?_⟩
    split at h
    · next hip => exact .inr ⟨.inl hip, (Option.some_inj.mp h).symm⟩
    · next hip =>
      split at h
      · next hopen => exact .inr ⟨.inr hopen, (Option.some_inj.mp h).symm⟩
      · next hopen =>
        exact .inl ⟨by simpa using hip, by simpa using hopen, (Option.some_inj.mp h).symm⟩
  · cases h

/-- The list of a peer is what the loop goes through. -/
theorem list_spec {response : ListResponse} (h : d.list w response = some d') :
    d.pc w = .listing ∧ d' = d.goto w (.scanning response.fragments) := by
  unfold list at h
  split at h
  · next hpc => exact ⟨hpc, (Option.some_inj.mp h).symm⟩
  · cases h

private theorem tryToClaim_spec {won : Bool} (h : d.tryToClaim w k won = some d') :
    ∃ rest file, d.pc w = .scanning (k :: rest) ∧
      d.file.tryToSetStateSegmentStateToDownload (idOf k) = some (file, won) ∧
      d' = ({ d with file := file }).goto w
        (if won then .requesting k rest else .scanning rest) := by
  unfold tryToClaim at h
  split at h
  · next fragmentId rest hpc =>
    simp only [Option.bind_eq_bind, Option.bind_eq_some_iff, Option.guard_eq_some'] at h
    obtain ⟨_, rfl, ⟨file, success⟩, htry, _, rfl, hd⟩ := h
    exact ⟨rest, file, hpc, htry, (Option.some_inj.mp hd).symm⟩
  · cases h

/-- A worker wins a FREE segment. -/
theorem claim_spec (h : d.tryToClaim w k true = some d') :
    ∃ rest, d.pc w = .scanning (k :: rest) ∧ idOf k = k.toNat ∧
      d.file.stateOf k.toNat = some .free ∧
      d' = ({ d with file := d.file.setState k.toNat .downloading }).goto w
        (.requesting k rest) := by
  obtain ⟨rest, file, hpc, htry, rfl⟩ := tryToClaim_spec h
  obtain ⟨hid, hfree, rfl⟩ := File.try_won htry
  exact ⟨rest, hpc, hid, hfree, rfl⟩

/-- A worker passes a segment that is not FREE. -/
theorem skip_spec (h : d.tryToClaim w k false = some d') :
    ∃ rest st, d.pc w = .scanning (k :: rest) ∧ d.file.stateOf k.toNat = some st ∧ st ≠ .free ∧
      d' = d.goto w (.scanning rest) := by
  obtain ⟨rest, file, hpc, htry, rfl⟩ := tryToClaim_spec h
  obtain ⟨st, hst, hne, rfl⟩ := File.try_lost htry
  exact ⟨rest, st, hpc, hst, hne, rfl⟩

/-- Only `F_ERROR` makes a worker give its segment back (`DownloadWorker.cpp:37`). -/
theorem reply_spec {response : FragmentResponse}
    (h : d.reply w k response = some d') :
    ∃ rest, d.pc w = .requesting k rest ∧
      ((response.fileCode = .error ∧ d' = d.goto w (.releasing k rest)) ∨
        (response.fileCode ≠ .error ∧ d' = d.goto w (.storing k response.fragment rest))) := by
  unfold reply at h
  split at h
  · next id rest hpc =>
    split at h
    · next hk =>
      subst hk
      refine ⟨rest, hpc, ?_⟩
      split at h
      · next hcode => exact .inl ⟨hcode, (Option.some_inj.mp h).symm⟩
      · next hcode => exact .inr ⟨hcode, (Option.some_inj.mp h).symm⟩
    · cases h
  · cases h

/-- What is common to the two calls of `setSegmentState`. -/
private theorem set_spec {fragmentId : UInt32} {rest : List UInt32} {st : SegmentState}
    (h : (do
      guard (fragmentId = k)
      let (file, thrown) ← d.file.setSegmentState (idOf k) st
      guard (!thrown)
      some (({ d with file := file }).goto w (.scanning rest))) = some d') :
    fragmentId = k ∧ k.toNat < d.file.segments.length ∧
      d' = ({ d with file := d.file.setState k.toNat st }).goto w (.scanning rest) := by
  simp only [Option.bind_eq_bind, Option.bind_eq_some_iff, Option.guard_eq_some'] at h
  obtain ⟨_, rfl, ⟨file, thrown⟩, hset, _, _, hd⟩ := h
  obtain ⟨hlt, rfl⟩ := File.set_spec hset
  exact ⟨rfl, hlt, (Option.some_inj.mp hd).symm⟩

/-- A worker gives its segment back. -/
theorem release_spec (h : d.release w k = some d') :
    ∃ rest, d.pc w = .releasing k rest ∧ k.toNat < d.file.segments.length ∧
      d' = ({ d with file := d.file.setState k.toNat .free }).goto w (.scanning rest) := by
  unfold release at h
  split at h
  · next fragmentId rest hpc =>
    obtain ⟨rfl, hlt, rfl⟩ := set_spec h
    exact ⟨rest, hpc, hlt, rfl⟩
  · cases h

/-- A worker stores the bytes of its reply. -/
theorem store_spec {io : StoreIo} (h : d.store w k io = some d') :
    ∃ fragmentBytes rest host, d.pc w = .storing k fragmentBytes rest ∧
      d.host.storeSegmentToFile d.file.torrent.fileName d.file.path (idOf k) fragmentBytes io =
        some host ∧
      d' = ({ d with host := host }).goto w (.completing k rest) := by
  unfold store at h
  split at h
  · next fragmentId fragmentBytes rest hpc =>
    simp only [Option.bind_eq_bind, Option.bind_eq_some_iff, Option.guard_eq_some'] at h
    obtain ⟨_, rfl, host, hstore, hd⟩ := h
    exact ⟨fragmentBytes, rest, host, hpc, hstore, (Option.some_inj.mp hd).symm⟩
  · cases h

/-- A worker marks its segment COMPLETE. -/
theorem complete_spec (h : d.complete w k = some d') :
    ∃ rest, d.pc w = .completing k rest ∧ k.toNat < d.file.segments.length ∧
      d' = ({ d with file := d.file.setState k.toNat .complete }).goto w (.scanning rest) := by
  unfold complete at h
  split at h
  · next fragmentId rest hpc =>
    obtain ⟨rfl, hlt, rfl⟩ := set_spec h
    exact ⟨rest, hpc, hlt, rfl⟩
  · cases h

/-- A worker finishes when its loop has nothing left. -/
theorem finish_spec (h : d.finish w = some d') :
    d.pc w = .scanning [] ∧ d' = d.goto w .finished := by
  unfold finish at h
  split at h
  · next hpc => exact ⟨hpc, (Option.some_inj.mp h).symm⟩
  · cases h

/-- The control flow of `work`: how a call takes its worker from one point to the next. -/
inductive Goes (peer : W → PeerInfo) (w : W) : Pc → Event W → Pc → Prop
  | connect : Goes peer w .connecting (.connect w .open) .listing
  | refused {state : SocketState} : (peer w).peerIp.isEmpty = true ∨ state ≠ .open →
      Goes peer w .connecting (.connect w state) .finished
  | list {response : ListResponse} :
      Goes peer w .listing (.list w response) (.scanning response.fragments)
  | claim {k : UInt32} {rest : List UInt32} :
      Goes peer w (.scanning (k :: rest)) (.claim w k) (.requesting k rest)
  | skip {k : UInt32} {rest : List UInt32} :
      Goes peer w (.scanning (k :: rest)) (.skip w k) (.scanning rest)
  | error {k : UInt32} {rest : List UInt32} {response : FragmentResponse} :
      response.fileCode = .error →
      Goes peer w (.requesting k rest) (.reply w k response) (.releasing k rest)
  | accept {k : UInt32} {rest : List UInt32} {response : FragmentResponse} :
      response.fileCode ≠ .error →
      Goes peer w (.requesting k rest) (.reply w k response) (.storing k response.fragment rest)
  | release {k : UInt32} {rest : List UInt32} :
      Goes peer w (.releasing k rest) (.release w k) (.scanning rest)
  | store {k : UInt32} {fragmentBytes : Bytes} {rest : List UInt32} {io : StoreIo} :
      Goes peer w (.storing k fragmentBytes rest) (.store w k io) (.completing k rest)
  | complete {k : UInt32} {rest : List UInt32} :
      Goes peer w (.completing k rest) (.complete w k) (.scanning rest)
  | finish : Goes peer w (.scanning []) (.finish w) .finished

/-- What a call does: it takes its own worker along the control flow of `work` and leaves the
others where they are, it sets the segment it is about or checks completeness, and only a
store touches the machine. -/
structure Effect (peer : W → PeerInfo) (d : Download W) (e : Event W) (d' : Download W) : Prop where
  moves : ∀ w, e.worker = some w → Goes peer w (d.pc w) e (d'.pc w)
  others : ∀ v, e.worker ≠ some v → d'.pc v = d.pc v
  file : (∃ k st, e.sets = some (k, st) ∧ d'.file = d.file.setState k.toNat st) ∨
    (e.sets = none ∧ (d'.file = d.file ∨ d'.file = d.file.isComplete.2))
  host : d'.host = d.host ∨ ∃ w k io, e = .store w k io

private theorem effect_goto {e : Event W} {before after : Pc} {file : File} {host : Host}
    (hw : e.worker = some w) (hpc : d.pc w = before) (hgoes : Goes peer w before e after)
    (hfile : (∃ k st, e.sets = some (k, st) ∧ file = d.file.setState k.toNat st) ∨
      (e.sets = none ∧ file = d.file))
    (hhost : host = d.host ∨ ∃ w k io, e = .store w k io) :
    Effect peer d e (({ d with file := file, host := host }).goto w after) where
  moves := by
    intro v hv
    obtain rfl : w = v := Option.some_inj.mp (hw.symm.trans hv)
    rw [pc_goto_self, hpc]
    exact hgoes
  others := by
    intro v hv
    apply pc_goto_of_ne
    rintro rfl
    exact hv hw
  file := by
    cases hfile with
    | inl hset => exact .inl hset
    | inr hsame => exact .inr ⟨hsame.1, .inl hsame.2⟩
  host := hhost

/-- Every call that is made has its effect. -/
theorem step_effect {e : Event W} (h : step peer d e = some d') : Effect peer d e d' := by
  cases e with
  | connect w state =>
    obtain ⟨hpc, ⟨_, rfl, rfl⟩ | ⟨hfail, rfl⟩⟩ := connect_spec h
    · exact effect_goto rfl hpc .connect (.inr ⟨rfl, rfl⟩) (.inl rfl)
    · exact effect_goto rfl hpc (.refused hfail) (.inr ⟨rfl, rfl⟩) (.inl rfl)
  | list w response =>
    obtain ⟨hpc, rfl⟩ := list_spec h
    exact effect_goto rfl hpc .list (.inr ⟨rfl, rfl⟩) (.inl rfl)
  | claim w k =>
    obtain ⟨rest, hpc, _, _, rfl⟩ := claim_spec h
    exact effect_goto rfl hpc .claim (.inl ⟨k, .downloading, rfl, rfl⟩) (.inl rfl)
  | skip w k =>
    obtain ⟨rest, _, hpc, _, _, rfl⟩ := skip_spec h
    exact effect_goto rfl hpc .skip (.inr ⟨rfl, rfl⟩) (.inl rfl)
  | reply w k response =>
    obtain ⟨rest, hpc, ⟨hcode, rfl⟩ | ⟨hcode, rfl⟩⟩ := reply_spec h
    · exact effect_goto rfl hpc (.error hcode) (.inr ⟨rfl, rfl⟩) (.inl rfl)
    · exact effect_goto rfl hpc (.accept hcode) (.inr ⟨rfl, rfl⟩) (.inl rfl)
  | release w k =>
    obtain ⟨rest, hpc, _, rfl⟩ := release_spec h
    exact effect_goto rfl hpc .release (.inl ⟨k, .free, rfl, rfl⟩) (.inl rfl)
  | store w k io =>
    obtain ⟨_, rest, _, hpc, _, rfl⟩ := store_spec h
    exact effect_goto rfl hpc .store (.inr ⟨rfl, rfl⟩) (.inr ⟨w, k, io, rfl⟩)
  | complete w k =>
    obtain ⟨rest, hpc, _, rfl⟩ := complete_spec h
    exact effect_goto rfl hpc .complete (.inl ⟨k, .complete, rfl, rfl⟩) (.inl rfl)
  | finish w =>
    obtain ⟨hpc, rfl⟩ := finish_spec h
    exact effect_goto rfl hpc .finish (.inr ⟨rfl, rfl⟩) (.inl rfl)
  | checkComplete =>
    cases h
    exact ⟨fun w hw ↦ (by cases hw), fun _ _ ↦ rfl, .inr ⟨rfl, .inr rfl⟩, .inl rfl⟩

private theorem ahead_tail {k : UInt32} {rest : List UInt32} {i : Nat} (hne : k.toNat ≠ i)
    (h : ∃ x ∈ k :: rest, x.toNat = i) : ∃ x ∈ rest, x.toNat = i := by
  obtain ⟨x, hx, hi⟩ := h
  rcases List.mem_cons.mp hx with rfl | hx
  · exact absurd hi hne
  · exact ⟨x, hx, hi⟩

/-- A worker passes a segment that its peer offers only when it is taken. -/
theorem ahead_step {e : Event W} {g : W} {i : Nat} (h : step peer d e = some d')
    (hoffers : Offers peer g i e) (hfree : ¬ d'.file.Taken i) (hahead : (d.pc g).Ahead i) :
    (d'.pc g).Ahead i := by
  by_cases hg : e.worker = some g
  · have hgoes := (step_effect h).moves g hg
    generalize d'.pc g = p' at hgoes ⊢
    generalize d.pc g = p at hgoes hahead
    cases hgoes with
    | connect => trivial
    | refused hfail =>
      obtain ⟨hip, hopen⟩ := hoffers rfl
      rcases hfail with hfail | hfail
      · rw [hip] at hfail
        cases hfail
      · exact absurd hopen hfail
    | list => exact hoffers rfl
    | claim =>
      obtain ⟨_, _, _, hk, rfl⟩ := claim_spec h
      apply ahead_tail _ hahead
      rintro rfl
      apply hfree
      refine ⟨.downloading, ?_, by decide⟩
      rw [file_goto, File.stateOf_setState, if_pos rfl, hk]
      rfl
    | skip =>
      obtain ⟨_, _, _, hst, hne, rfl⟩ := skip_spec h
      apply ahead_tail _ hahead
      rintro rfl
      exact hfree ⟨_, hst, hne⟩
    | error => exact hahead
    | accept => exact hahead
    | release => exact hahead
    | store => exact hahead
    | complete => exact hahead
    | finish =>
      obtain ⟨k, hk, -⟩ := hahead
      cases hk
  · rw [(step_effect h).others g hg]
    exact hahead

end Download

end P2PNetwork.Client
