import P2PNetwork.Client.Download.Ownership
import P2PNetwork.Client.Networking.ResponderThread
import Mathlib.Data.Fintype.Defs
import Mathlib.Data.Fintype.Basic

/-!
# When a download is complete

Two facts about the end of a download. All workers finishing means that the file is
complete only if no segment is given back behind the last good worker. A segment being
COMPLETE means that it was delivered only if the peers answer with a delivery or with
`F_ERROR`.
-/

open Lib

namespace P2PNetwork.Client

/-- A reply that delivers fragment `k` of a torrent. -/
def Delivers (torrent : Torrent) (k : UInt32) (response : FragmentResponse) : Prop :=
  response.fileCode = .fine ∧ response.hashedTorrent = torrent.hashed ∧ response.fragNum = k

instance (torrent : Torrent) (k : UInt32) (response : FragmentResponse) :
    Decidable (Delivers torrent k response) :=
  inferInstanceAs (Decidable (_ ∧ _ ∧ _))

/-- The peers answer a request with a delivery or with `F_ERROR`. -/
def Honest {W : Type} (torrent : Torrent) : Event W → Prop
  | .reply _ k response => response.fileCode = .error ∨ Delivers torrent k response
  | _ => True

instance {W : Type} (torrent : Torrent) : (e : Event W) → Decidable (Honest torrent e)
  | .reply _ k response =>
    inferInstanceAs (Decidable (response.fileCode = .error ∨ Delivers torrent k response))
  | .connect .. | .list .. | .claim .. | .skip .. | .release .. | .store .. | .complete ..
  | .finish _ | .checkComplete => isTrue trivial

/-- The fragment whose reply a worker has accepted. -/
def Pc.accepted : Pc → Option UInt32
  | .storing k _ _ => some k
  | .completing k _ => some k
  | _ => none

/-- What the peer of a good worker `g` does: it can be reached, it lists every segment,
and it delivers every fragment it is asked for. -/
def Serves {W : Type} (peer : W → PeerInfo) (g : W) (d : Download W) : Event W → Prop
  | .connect w state => w = g → (peer g).peerIp.isEmpty = false ∧ state = .open
  | .list w response =>
    w = g → ∀ i, i < d.file.segments.length → ∃ k ∈ response.fragments, k.toNat = i
  | .reply w k response => w = g → Delivers d.file.torrent k response
  | _ => True

instance {W : Type} [DecidableEq W] (peer : W → PeerInfo) (g : W) (d : Download W) :
    (e : Event W) → Decidable (Serves peer g d e)
  | .connect w state => inferInstanceAs (Decidable (w = g → _ ∧ state = .open))
  | .list w response => inferInstanceAs (Decidable (w = g →
      ∀ i, i < d.file.segments.length → ∃ k ∈ response.fragments, k.toNat = i))
  | .reply w k response => inferInstanceAs (Decidable (w = g → Delivers d.file.torrent k response))
  | .claim .. | .skip .. | .release .. | .store .. | .complete .. | .finish _ | .checkComplete =>
    isTrue trivial

/-- A good worker's peer offers every segment of the file. -/
theorem Serves.offers {W : Type} {peer : W → PeerInfo} {g : W} {d : Download W} {e : Event W}
    {i : Nat} (h : Serves peer g d e) (hi : i < d.file.segments.length) : Offers peer g i e := by
  cases e with
  | connect w state => exact h
  | list w response => exact fun hw ↦ h hw i hi
  | _ => trivial

/-- A segment is given back only where a good worker still has it to come. -/
def Revisited {W : Type} (good : W → Prop) (d : Download W) : Event W → Prop
  | .release _ k => ∃ g, good g ∧ (d.pc g).Ahead k.toNat
  | _ => True

/-- The peers of all good workers serve, and no segment is given back behind them. -/
def GoodRun {W : Type} (peer : W → PeerInfo) (good : W → Prop) (d : Download W) (e : Event W) :
    Prop :=
  (∀ g, good g → Serves peer g d e) ∧ Revisited good d e

section

variable {W : Type} [Fintype W] [DecidableEq W] (peer : W → PeerInfo) (good : W → Prop)
  [DecidablePred good] (d : Download W)

instance : (e : Event W) → Decidable (Revisited good d e)
  | .release _ k => inferInstanceAs (Decidable (∃ g, good g ∧ (d.pc g).Ahead k.toNat))
  | .connect .. | .list .. | .claim .. | .skip .. | .reply .. | .store .. | .complete .. | .finish _
  | .checkComplete => isTrue trivial

instance (e : Event W) : Decidable (GoodRun peer good d e) :=
  inferInstanceAs (Decidable ((∀ g, good g → Serves peer g d e) ∧ Revisited good d e))

end

namespace Download

section

variable {W : Type} [DecidableEq W] {d d' : Download W} {peer : W → PeerInfo} {e : Event W}

/-- A segment becomes COMPLETE only when a worker that has accepted a reply marks it. -/
theorem complete_step {i : Nat} (h : step peer d e = some d')
    (hcomplete : d'.file.stateOf i = some .complete) :
    d.file.stateOf i = some .complete ∨ ∃ w k, k.toNat = i ∧ (d.pc w).accepted = some k := by
  rcases stateOf_step h hcomplete with hold | ⟨k, hk, hsets⟩
  · exact .inl hold
  · cases e <;> cases hsets
    obtain ⟨rest, hpc, -, -⟩ := complete_spec h
    exact .inr ⟨_, k, hk, by rw [hpc]; rfl⟩

/-- A worker accepts the replies whose code is not `F_ERROR`. -/
theorem accepted_step {v : W} {k : UInt32} (h : step peer d e = some d')
    (hacc : (d'.pc v).accepted = some k) :
    (d.pc v).accepted = some k ∨
      ∃ response, e = .reply v k response ∧ response.fileCode ≠ .error := by
  by_cases hv : e.worker = some v
  · have hgoes := (step_effect h).moves v hv
    generalize d'.pc v = p' at hgoes hacc
    generalize d.pc v = p at hgoes ⊢
    cases hgoes with
    | accept hcode =>
      cases hacc
      exact .inr ⟨_, rfl, hcode⟩
    | store => exact .inl hacc
    | _ => cases hacc
  · rw [(step_effect h).others v hv] at hacc
    exact .inl hacc

variable {file : File} {host : Host} {es : List (Event W)} {good : W → Prop} {workers : List W}

private theorem free_ahead (hgood : ∃ g, good g)
    (hrun : Run (step peer) (GoodRun peer good) (start file host) es d) :
    ∀ i, d.file.stateOf i = some .free → ∃ g, good g ∧ (d.pc g).Ahead i := by
  refine hrun.invariant (P := fun d ↦ ∀ i, d.file.stateOf i = some .free →
    ∃ g, good g ∧ (d.pc g).Ahead i) ?_ ?_
  · intro i _
    obtain ⟨g, hg⟩ := hgood
    exact ⟨g, hg, trivial⟩
  · intro d e d' hinv hok hstep i hfree
    have hbefore : ∃ g, good g ∧ (d.pc g).Ahead i := by
      rcases free_step hstep hfree with hold | ⟨w, k, rfl, rfl⟩
      · exact hinv i hold
      · exact hok.2
    obtain ⟨g, hg, hahead⟩ := hbefore
    have hlt := File.lt_of_stateOf hfree
    rw [(step_frame hstep).2.2] at hlt
    exact ⟨g, hg, ahead_step hstep ((hok.1 g hg).offers hlt)
      (File.not_taken_of_free hfree) hahead⟩

/-- With a good worker, and no segment given back behind the good workers, all workers
have finished only when the file is complete. -/
theorem complete_of_finished (hfresh : file.Fresh) (hgood : ∃ g, good g)
    (hall : ∀ w, w ∈ workers)
    (hrun : Run (step peer) (GoodRun peer good) (start file host) es d)
    (hdone : d.AllFinished workers) : d.file.AllComplete := by
  have hfinished : ∀ w, d.pc w = .finished := fun w ↦ hdone w (hall w)
  obtain ⟨b, -, ht⟩ := (tracks_start hfresh host).run hrun
  intro i hi
  obtain ⟨st, hst⟩ := File.exists_stateOf hi
  cases st with
  | complete => exact hst
  | free =>
    obtain ⟨g, -, hahead⟩ := free_ahead hgood hrun i hst
    rw [hfinished g] at hahead
    exact hahead.elim
  | downloading =>
    obtain ⟨w, hw, -⟩ := ht.existsUnique hst
    rw [hfinished w] at hw
    cases hw

/-! ### What COMPLETE says about the replies -/

/-- In the states after these events every accepted reply was a delivery: the one a
worker is storing and the one behind every COMPLETE segment. -/
structure Delivered (torrent : Torrent) (es : List (Event W)) (d : Download W) : Prop where
  accepted : ∀ w k, (d.pc w).accepted = some k →
    ∃ response, Event.reply w k response ∈ es ∧ Delivers torrent k response
  complete : ∀ i, d.file.stateOf i = some .complete →
    ∃ w k response, k.toNat = i ∧ Event.reply w k response ∈ es ∧ Delivers torrent k response

/-- Under honest peers every call keeps what has been delivered. -/
private theorem Delivered.step {torrent : Torrent} (hd : Delivered torrent es d)
    (hok : Honest torrent e) (h : Download.step peer d e = some d') :
    Delivered torrent (es ++ [e]) d' where
  accepted := by
    intro w k hacc
    rcases accepted_step h hacc with hold | ⟨response, rfl, hcode⟩
    · obtain ⟨response, hmem, hdel⟩ := hd.accepted w k hold
      exact ⟨response, List.mem_append_left _ hmem, hdel⟩
    · rcases hok with herror | hdel
      · exact absurd herror hcode
      · exact ⟨response, List.mem_append_right _ (List.mem_singleton_self _), hdel⟩
  complete := by
    intro i hcomplete
    rcases complete_step h hcomplete with hold | ⟨w, k, hk, hacc⟩
    · obtain ⟨w, k, response, hk, hmem, hdel⟩ := hd.complete i hold
      exact ⟨w, k, response, hk, List.mem_append_left _ hmem, hdel⟩
    · obtain ⟨response, hmem, hdel⟩ := hd.accepted w k hacc
      exact ⟨w, k, response, hk, List.mem_append_left _ hmem, hdel⟩

/-- Worker `w` is about to give `k` back: its only call is the release, which can be made,
sets the segment FREE and leaves the machine alone. -/
structure GivesBack (peer : W → PeerInfo) (d : Download W) (w : W) (k : UInt32) : Prop where
  only : ∀ e d', Download.step peer d e = some d' → e.worker = some w → e = .release w k
  enabled : ∃ d', Download.step peer d (.release w k) = some d'
  effect : ∀ d', Download.step peer d (.release w k) = some d' →
    d'.file.stateOf k.toNat = some .free ∧ d'.host = d.host

private theorem only_release {w : W} {k : UInt32} {rest : List UInt32}
    (hpc : d.pc w = .releasing k rest) (h : Download.step peer d e = some d')
    (hw : e.worker = some w) : e = .release w k := by
  have hgoes := (step_effect h).moves w hw
  rw [hpc] at hgoes
  generalize d'.pc w = p' at hgoes
  cases hgoes
  rfl

private theorem givesBack (hfresh : file.Fresh) {ok : Download W → Event W → Prop} {w : W}
    {k : UInt32} {rest : List UInt32} (hrun : Run (Download.step peer) ok (start file host) es d)
    (hpc : d.pc w = .releasing k rest) : GivesBack peer d w k := by
  obtain ⟨b, -, ht⟩ := (tracks_start hfresh host).run hrun
  have hstate := ht.downloading (w := w) (i := k.toNat) (by rw [hpc]; rfl)
  refine ⟨fun e d' h hw ↦ only_release hpc h hw, ?_, ?_⟩
  · have hid : idOf k = k.toNat := idOf_run hrun (v := w) (by rw [hpc]; rfl)
    have hset := File.set_of_lt .free (File.lt_of_stateOf hstate)
    rw [← hid] at hset
    refine ⟨({ d with file := d.file.setState k.toNat .free }).goto w (.scanning rest), ?_⟩
    show d.release w k = _
    simp only [release, hpc, hset]
    rfl
  · intro d' h
    obtain ⟨_, _, hlt, rfl⟩ := release_spec h
    rw [file_goto, File.stateOf_setState, if_pos rfl, hstate]
    exact ⟨rfl, rfl⟩

/-- A reply that does not deliver is `F_ERROR`, and its worker still has to react to it. -/
private theorem releasing_run {torrent : Torrent} {w : W} {k : UInt32} {response : FragmentResponse}
    {es₁ es₂ : List (Event W)}
    (hrun : Run (Download.step peer) (fun _ e ↦ Honest torrent e) (start file host) es d)
    (hes : es = es₁ ++ .reply w k response :: es₂) (hnot : ¬ Delivers torrent k response)
    (hidle : ∀ e ∈ es₂, e.worker ≠ some w) : ∃ rest, d.pc w = .releasing k rest := by
  induction hrun generalizing es₂ with
  | nil => simp at hes
  | @snoc es d d' e _ hok hstep ih =>
    rcases split_snoc hes with ⟨rfl, rfl, rfl⟩ | ⟨es₃, rfl, hbefore⟩
    · -- the reply is the last event
      obtain ⟨rest, _, ⟨_, rfl⟩ | ⟨hcode, _⟩⟩ := reply_spec hstep
      · exact ⟨rest, pc_goto_self _ _ _⟩
      · rcases hok with herror | hdel
        · exact absurd herror hcode
        · exact absurd hdel hnot
    · rw [(step_effect hstep).others w (hidle e (by simp))]
      exact ih hbefore fun x hx ↦ hidle x (by simp [hx])

/-- If the peers answer with deliveries and `F_ERROR` only, then a COMPLETE segment was
delivered for its hash and number, after every other reply the worker gives its segment
back and does nothing else, and only delivered bytes are ever stored. -/
theorem delivered_of_complete (hfresh : file.Fresh)
    (hrun : Run (Download.step peer) (fun _ e ↦ Honest file.torrent e) (start file host) es d) :
    (∀ i, d.file.stateOf i = some .complete → ∃ w k response,
      k.toNat = i ∧ Event.reply w k response ∈ es ∧ Delivers file.torrent k response) ∧
    (∀ es₁ w k response es₂, es = es₁ ++ .reply w k response :: es₂ →
      ¬ Delivers file.torrent k response → (∀ e ∈ es₂, e.worker ≠ some w) → GivesBack peer d w k) ∧
    (∀ e d', Download.step peer d e = some d' → d'.host ≠ d.host → ∃ w k io response,
      e = .store w k io ∧ Event.reply w k response ∈ es ∧ Delivers file.torrent k response) := by
  have hdelivered : Delivered file.torrent es d := by
    refine hrun.traceInvariant (P := Delivered file.torrent) ⟨?_, ?_⟩ ?_
    · intro w k h
      cases h
    · intro i h
      have hfree := hfresh.free i _ h
      cases hfree
    · intro es d e d' _ hd hok hstep
      exact hd.step hok hstep
  refine ⟨hdelivered.complete, ?_, ?_⟩
  · intro es₁ w k response es₂ hes hnot hidle
    obtain ⟨rest, hpc⟩ := releasing_run hrun hes hnot hidle
    exact givesBack hfresh hrun hpc
  · intro e d' hstep hhost
    rcases (step_effect hstep).host with hsame | ⟨w, k, io, rfl⟩
    · exact absurd hsame hhost
    · obtain ⟨_, _, _, hpc, _⟩ := store_spec hstep
      obtain ⟨response, hmem, hdel⟩ := hdelivered.accepted w k (by rw [hpc]; rfl)
      exact ⟨w, k, io, response, rfl, hmem, hdel⟩

end

/-! ### One good peer and one bad peer -/

/-- A reply that delivers fragment `0` of the one-byte torrent. -/
def byteReply : FragmentResponse := { fragNum := 0, fileCode := .fine, fragment := [7] }

/-- The good worker `false` finds the segment taken and passes it before the bad worker
`true` gives it back. -/
def passed : List (Event Bool) :=
  [.connect false .open, .connect true .open, .list false (listOf [0]), .list true (listOf [0]),
    .claim true 0, .skip false 0, .finish false, .reply true 0 { fileCode := .error },
    .release true 0, .finish true]

/-- The bad worker gives the segment back before the good worker comes to it. -/
def revisited : List (Event Bool) :=
  [.connect false .open, .connect true .open, .list true (listOf [0]), .claim true 0,
    .reply true 0 { fileCode := .error }, .release true 0, .finish true, .list false (listOf [0]),
    .claim false 0, .reply false 0 byteReply, .store false 0 (.success fun _ ↦ 0),
    .complete false 0, .finish false]

/-- The one-byte file and the machine it is stored on. -/
def byteStart : Download Bool :=
  start (.ofTorrent byteTorrent []) (emptyHost.createLocalFile byteTorrent)

/-- The bad worker fails, the good one completes the file. -/
theorem complete_of_finished_revisited :
    ∃ d, revisited.foldlM (step somePeer) byteStart = some d ∧
      d.AllFinished [false, true] ∧ d.file.AllComplete := by
  have hruns : (revisited.foldlM (step somePeer) byteStart).any
      (fun d ↦ d.AllFinished [false, true]) = true := by decide
  have hmeets : Meets (step somePeer) (GoodRun somePeer (· = false)) byteStart revisited := by
    decide
  obtain ⟨d, hd, hdone⟩ := (Option.any_eq_true _ _).mp hruns
  have hstopped : d.AllFinished [false, true] := of_decide_eq_true hdone
  have hgood : ∃ g : Bool, g = false := ⟨false, rfl⟩
  exact ⟨d, hd, hstopped, complete_of_finished (File.fresh_ofTorrent byteTorrent []) hgood
    (by decide) (Run.of_foldlM hd hmeets) hstopped⟩

/-- A good peer alone does not suffice: both workers have finished and the only segment
is FREE. -/
theorem not_complete_of_finished_passed :
    ¬ ∀ (es : List (Event Bool)) (d : Download Bool),
      Run (step somePeer) (Serves somePeer false) byteStart es d →
      d.AllFinished [false, true] → d.file.AllComplete := by
  have hruns : (passed.foldlM (step somePeer) byteStart).any
      (fun d ↦ d.AllFinished [false, true] && d.file.stateOf 0 == some .free) = true := by
    decide
  have hmeets : Meets (step somePeer) (Serves somePeer false) byteStart passed := by decide
  obtain ⟨d, hd, hlast⟩ := (Option.any_eq_true _ _).mp hruns
  rw [Bool.and_eq_true, beq_iff_eq] at hlast
  intro hclaim
  have hall := hclaim passed d (Run.of_foldlM hd hmeets) (of_decide_eq_true hlast.1)
  have hcomplete := hall 0 (File.lt_of_stateOf hlast.2)
  rw [hlast.2] at hcomplete
  cases hcomplete

/-! ### A peer that no longer has the file -/

/-- What a client that has no segment of the file answers to a request for fragment `0`. -/
def noFileReply : FragmentResponse :=
  (ResponderThread.fragmentResponse [.ofTorrent byteTorrent []] (fun _ ↦ [])
    { hashedTorrent := byteTorrent.hashed, fragNum := 0 }).getD byteReply

/-- A download from that client. -/
def undelivered : List (Event Bool) :=
  [.connect true .open, .list true (listOf [0]), .claim true 0, .reply true 0 noFileReply,
    .store true 0 (.success fun _ ↦ 0), .complete true 0]

/-- The run with a failing and a good peer meets the condition. -/
theorem delivered_of_complete_revisited :
    ∃ d, revisited.foldlM (step somePeer) byteStart = some d ∧
      (∀ i, d.file.stateOf i = some .complete → ∃ w k response,
        k.toNat = i ∧ Event.reply w k response ∈ revisited ∧ Delivers byteTorrent k response) ∧
      (∀ es₁ w k response es₂, revisited = es₁ ++ .reply w k response :: es₂ →
        ¬ Delivers byteTorrent k response → (∀ e ∈ es₂, e.worker ≠ some w) →
        GivesBack somePeer d w k) ∧
      (∀ e d', step somePeer d e = some d' → d'.host ≠ d.host → ∃ w k io response,
        e = .store w k io ∧ Event.reply w k response ∈ revisited ∧
          Delivers byteTorrent k response) := by
  have hruns : (revisited.foldlM (step somePeer) byteStart).isSome = true := by decide
  have hmeets : Meets (step somePeer) (fun _ e ↦ Honest byteTorrent e) byteStart revisited := by
    decide
  obtain ⟨d, hd⟩ := Option.isSome_iff_exists.mp hruns
  have hrun := Run.of_foldlM hd hmeets
  exact ⟨d, hd, delivered_of_complete (File.fresh_ofTorrent byteTorrent []) hrun⟩

/-- The client says `F_NO_FILE`, and the segment becomes COMPLETE all the same. -/
theorem complete_without_delivery :
    ¬ ∀ (es : List (Event Bool)) (d : Download Bool), Run (step somePeer) Any byteStart es d →
      ∀ i, d.file.stateOf i = some .complete → ∃ w k response,
        k.toNat = i ∧ Event.reply w k response ∈ es ∧ Delivers byteTorrent k response := by
  have hruns : (undelivered.foldlM (step somePeer) byteStart).any
      (fun d ↦ d.file.stateOf 0 == some .complete) = true := by decide
  obtain ⟨d, hd, hlast⟩ := (Option.any_eq_true _ _).mp hruns
  intro hclaim
  obtain ⟨w, k, response, -, hmem, hdel⟩ :=
    hclaim undelivered d (Run.of_foldlM hd Meets.any) 0 (beq_iff_eq.mp hlast)
  have hreply : response = noFileReply := by
    simp only [undelivered, List.mem_cons, List.not_mem_nil, reduceCtorEq, false_or, or_false,
      Event.reply.injEq] at hmem
    exact hmem.2.2
  have hnot : noFileReply.fileCode ≠ .fine := by decide
  exact hnot (hreply ▸ hdel.1)

end Download

end P2PNetwork.Client
