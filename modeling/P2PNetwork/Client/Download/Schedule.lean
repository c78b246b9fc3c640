import P2PNetwork.Client.Download.Ownership
import P2PNetwork.Lib.BlockFile

/-!
# Schedule independence

Any number of workers with arbitrary fragment lists, whose peers deliver what they are
asked for: whatever the interleaving, the finished download is determined by the union
of the lists.
-/

open Lib

namespace P2PNetwork.Client

/-- What the peers hold: the list each of them sends and the payload of each segment. -/
structure Plan (W : Type) where
  lists : W → List UInt32
  payload : Nat → Bytes

namespace Plan

variable {W : Type} (plan : Plan W)

/-- The segments that some peer lists. -/
def fragments (workers : List W) : Finset Nat :=
  ((workers.flatMap plan.lists).map UInt32.toNat).toFinset

variable {plan}

theorem mem_fragments {workers : List W} {i : Nat} :
    i ∈ plan.fragments workers ↔ ∃ w ∈ workers, ∃ k ∈ plan.lists w, k.toNat = i := by
  simp only [fragments, List.mem_toFinset, List.mem_map, List.mem_flatMap]
  constructor
  · rintro ⟨k, ⟨w, hw, hk⟩, hi⟩
    exact ⟨w, hw, k, hk, hi⟩
  · rintro ⟨w, hw, k, hk, hi⟩
    exact ⟨k, ⟨w, hw, hk⟩, hi⟩

end Plan

/-- The peers keep to the plan and every store succeeds. A peer that cannot be reached
lists nothing. -/
def Planned {W : Type} (peer : W → PeerInfo) (plan : Plan W) : Event W → Prop
  | .connect w state => ((peer w).peerIp.isEmpty = false ∧ state = .open) ∨ plan.lists w = []
  | .list w response => response.fragments = plan.lists w
  | .reply _ k response => response.fileCode = .fine ∧ response.fragment = plan.payload k.toNat
  | .store _ _ io => ∃ beyond, io = .success beyond
  | _ => True

/-- The fragments a worker holds or still has to come to. -/
def Pc.ids : Pc → List UInt32
  | .scanning rest => rest
  | .requesting k rest => k :: rest
  | .releasing k rest => k :: rest
  | .storing k _ rest => k :: rest
  | .completing k rest => k :: rest
  | _ => []

/-- A worker inside the plan: it works through its list, stores the payloads of the plan,
and never has to give a segment back. -/
structure OnPlan {W : Type} (plan : Plan W) (w : W) (p : Pc) : Prop where
  ids : ∀ k ∈ p.ids, k ∈ plan.lists w
  keeps : ∀ k rest, p ≠ .releasing k rest
  bytes : ∀ k fragmentBytes rest, p = .storing k fragmentBytes rest →
    fragmentBytes = plan.payload k.toNat

section

variable {W : Type} {peer : W → PeerInfo} {plan : Plan W} {e : Event W}

/-- A call keeps its worker inside the plan. -/
theorem OnPlan.goes {w : W} {p p' : Pc} (hp : OnPlan plan w p) (hok : Planned peer plan e)
    (hgoes : Download.Goes peer w p e p') : OnPlan plan w p' := by
  cases hgoes with
  | connect => exact ⟨by simp [Pc.ids], by simp, by simp⟩
  | refused _ => exact ⟨by simp [Pc.ids], by simp, by simp⟩
  | list =>
    refine ⟨?_, by simp, by simp⟩
    intro k hk
    rwa [← show _ = plan.lists w from hok]
  | claim => exact ⟨hp.ids, by simp, by simp⟩
  | skip => exact ⟨fun k hk ↦ hp.ids k (List.mem_cons_of_mem _ hk), by simp, by simp⟩
  | error herror =>
    rw [hok.1] at herror
    cases herror
  | accept _ =>
    refine ⟨hp.ids, by simp, ?_⟩
    intro k fragmentBytes rest h
    cases h
    exact hok.2
  | release => exact absurd rfl (hp.keeps _ _)
  | store => exact ⟨hp.ids, by simp, by simp⟩
  | complete => exact ⟨fun k hk ↦ hp.ids k (List.mem_cons_of_mem _ hk), by simp, by simp⟩
  | finish => exact ⟨by simp [Pc.ids], by simp, by simp⟩

/-- A peer that keeps to the plan offers what it lists. -/
theorem Planned.offers {w : W} {k : UInt32} (hok : Planned peer plan e) (hk : k ∈ plan.lists w) :
    Offers peer w k.toNat e := by
  cases e with
  | connect v state =>
    rintro rfl
    rcases hok with hopen | hnil
    · exact hopen
    · rw [hnil] at hk
      cases hk
  | list v response =>
    rintro rfl
    have hlist : response.fragments = plan.lists v := hok
    exact ⟨k, by rwa [hlist], rfl⟩
  | _ => trivial

end

namespace Download

section

variable {W : Type} [DecidableEq W] {d d' : Download W} {b b' : Board W Nat} {peer : W → PeerInfo}
  {plan : Plan W} {e : Event W}

/-- Every call keeps all workers inside the plan. -/
theorem onPlan_step (hplan : ∀ w, OnPlan plan w (d.pc w)) (hok : Planned peer plan e)
    (h : step peer d e = some d') (w : W) : OnPlan plan w (d'.pc w) := by
  by_cases hw : e.worker = some w
  · exact (hplan w).goes hok ((step_effect h).moves w hw)
  · rw [(step_effect h).others w hw]
    exact hplan w

/-- The file behind the board: the blocks of exactly the settled segments are written. -/
structure Stored (plan : Plan W) (torrent : Torrent) (d : Download W) (b : Board W Nat) : Prop where
  sameTorrent : d.file.torrent = torrent
  length : d.file.segments.length = File.blocks torrent.size.toNat
  unlocked : d.host.openedFile torrent.fileName = none
  content : ∃ D : Finset Nat, (∀ i, i ∈ D ↔ Board.Settled b i) ∧
    d.host.disk torrent.fileName =
      some (assembled 0 defaultSegmentSize torrent.size.toNat plan.payload D)

private theorem settled_follows {m : Option (Move W Nat)} (h : Follows Board.step b m b')
    (i : Nat) :
    Board.Settled b' i ↔ Board.Settled b i ∨ ∃ m', m = some m' ∧ m'.isCommit i = true := by
  cases m with
  | none =>
    have hb : b' = b := h
    simp [hb]
  | some m =>
    have hs : Board.step b m = some b' := h
    simp [Board.settled_step hs]

/-- A call that is not a store keeps the file and the settled segments. -/
private theorem stored_other {torrent : Torrent} (hs : Stored plan torrent d b)
    (hfollows : Follows Board.step b e.move b') (h : step peer d e = some d')
    (hne : ∀ w k io, e ≠ .store w k io) : Stored plan torrent d' b' := by
  have hhost : d'.host = d.host := by
    rcases (step_effect h).host with hsame | ⟨w, k, io, he⟩
    · exact hsame
    · exact absurd he (hne w k io)
  obtain ⟨hframe, -, hlength⟩ := step_frame h
  have hunlocked : d'.host.openedFile torrent.fileName = none := by
    rw [hhost]
    exact hs.unlocked
  refine ⟨by rw [hframe, hs.sameTorrent], by rw [hlength, hs.length], hunlocked, ?_⟩
  obtain ⟨D, hD, hdisk⟩ := hs.content
  refine ⟨D, ?_, by rw [hhost, hdisk]⟩
  intro i
  rw [settled_follows hfollows, hD]
  constructor
  · exact .inl
  · rintro (hset | ⟨m, hm, hc⟩)
    · exact hset
    · exfalso
      cases e <;> cases hm <;> first | cases hc | exact hne _ _ _ rfl

/-- A store adds the block of its segment. -/
private theorem stored_store {torrent : Torrent} {w : W} {k : UInt32} {beyond : Nat → UInt8}
    (hsize : torrent.size.toNat < 2 ^ 31)
    (hpayload : ∀ i, i < File.blocks torrent.size.toNat →
      (plan.payload i).length = defaultSegmentSize)
    (hs : Stored plan torrent d b) (ht : Tracks d b) (hplan : OnPlan plan w (d.pc w))
    (hfollows : Follows Board.step b (Event.store w k (.success beyond)).move b')
    (h : step peer d (.store w k (.success beyond)) = some d') : Stored plan torrent d' b' := by
  obtain ⟨hframe, -, hlength⟩ := step_frame h
  obtain ⟨fragmentBytes, rest, host, hpc, hstore, rfl⟩ := store_spec h
  have hlt : k.toNat < File.blocks torrent.size.toNat := by
    rw [← hs.length]
    exact File.lt_of_stateOf (ht.downloading (w := w) (by rw [hpc]; rfl))
  have hoff := File.lt_of_lt_blocks hlt
  have hid : idOf k = k.toNat := by
    apply idOf_of_lt
    unfold defaultSegmentSize at hoff
    omega
  have hlen := hpayload k.toNat hlt
  obtain ⟨D, hD, hdisk⟩ := hs.content
  obtain ⟨stored, hstored, hupdate, htable⟩ := Host.store_of_success d.file.path
    (plan.payload k.toNat) beyond (i := k.toNat) hs.unlocked hdisk (by omega)
  rw [hplan.bytes k fragmentBytes rest hpc, hs.sameTorrent, hid, hstored, Option.some_inj] at hstore
  subst hstore
  refine ⟨hs.sameTorrent, hs.length, ?_, insert k.toNat D, ?_, ?_⟩
  · rw [host_goto, Host.openedFile, htable]
    exact hs.unlocked
  · intro i
    rw [Finset.mem_insert, settled_follows hfollows, hD, or_comm]
    constructor
    · rintro (hset | rfl)
      · exact .inl hset
      · exact .inr ⟨_, rfl, by simp [Move.isCommit]⟩
    · rintro (hset | ⟨m, hm, hc⟩)
      · exact .inl hset
      · cases hm
        exact .inr (of_decide_eq_true hc).symm
  · rw [host_goto, hupdate, Function.update_self, cStr_of_length _ hlen,
      overwrite_assembled defaultSegmentSize_pos hlen]

/-- What holds while the workers keep to the plan: beside the board and the file, every
listed segment is still to come or taken, and only listed segments are taken. -/
structure Progress (plan : Plan W) (torrent : Torrent) (d : Download W) (b : Board W Nat) :
    Prop where
  tracks : Tracks d b
  onPlan : ∀ w, OnPlan plan w (d.pc w)
  stored : Stored plan torrent d b
  visited : ∀ w, ∀ k ∈ plan.lists w, (d.pc w).Ahead k.toNat ∨ d.file.Taken k.toNat
  listed : ∀ i, d.file.Taken i → ∃ w, ∃ k ∈ plan.lists w, k.toNat = i

private theorem visited_step (hplan : ∀ w, OnPlan plan w (d.pc w)) (hok : Planned peer plan e)
    (hvisited : ∀ w, ∀ k ∈ plan.lists w, (d.pc w).Ahead k.toNat ∨ d.file.Taken k.toNat)
    (h : step peer d e = some d') :
    ∀ w, ∀ k ∈ plan.lists w, (d'.pc w).Ahead k.toNat ∨ d'.file.Taken k.toNat := by
  intro w k hk
  by_cases htaken : d'.file.Taken k.toNat
  · exact .inr htaken
  · left
    rcases hvisited w k hk with hahead | hold
    · exact ahead_step h (hok.offers hk) htaken hahead
    · rcases taken_step h hold with hnew | ⟨v, k', rfl, -⟩
      · exact absurd hnew htaken
      · obtain ⟨rest, hpc, -⟩ := release_spec h
        exact absurd hpc ((hplan v).keeps k' rest)

private theorem listed_step (hplan : ∀ w, OnPlan plan w (d.pc w))
    (hlisted : ∀ i, d.file.Taken i → ∃ w, ∃ k ∈ plan.lists w, k.toNat = i)
    (h : step peer d e = some d') :
    ∀ i, d'.file.Taken i → ∃ w, ∃ k ∈ plan.lists w, k.toNat = i := by
  rintro i ⟨st, hst, hne⟩
  rcases stateOf_step h hst with hold | ⟨k, hk, hsets⟩
  · exact hlisted i ⟨st, hold, hne⟩
  · cases e with
    | claim w k' =>
      cases hsets
      obtain ⟨rest, hpc, -⟩ := claim_spec h
      exact ⟨w, k, (hplan w).ids k (by rw [hpc]; simp [Pc.ids]), hk⟩
    | complete w k' =>
      cases hsets
      obtain ⟨rest, hpc, -⟩ := complete_spec h
      exact ⟨w, k, (hplan w).ids k (by rw [hpc]; simp [Pc.ids]), hk⟩
    | release w k' =>
      cases hsets
      exact absurd rfl hne
    | _ => cases hsets

/-- Every call of workers that keep to the plan keeps `Progress`. -/
theorem Progress.step {torrent : Torrent} (hsize : torrent.size.toNat < 2 ^ 31)
    (hpayload : ∀ i, i < File.blocks torrent.size.toNat →
      (plan.payload i).length = defaultSegmentSize)
    (hp : Progress plan torrent d b) (hok : Planned peer plan e)
    (h : Download.step peer d e = some d') :
    ∃ b', Follows Board.step b e.move b' ∧ Progress plan torrent d' b' := by
  obtain ⟨b', hfollows, ht⟩ := hp.tracks.step h
  refine ⟨b', hfollows, ht, onPlan_step hp.onPlan hok h, ?_,
    visited_step hp.onPlan hok hp.visited h, listed_step hp.onPlan hp.listed h⟩
  cases e with
  | store w k io =>
    obtain ⟨beyond, rfl⟩ := hok
    exact stored_store hsize hpayload hp.stored hp.tracks (hp.onPlan w) hfollows h
  | _ => exact stored_other hp.stored hfollows h fun _ _ _ he ↦ by cases he

end

section

variable {W : Type} {d : Download W} {b : Board W Nat} {plan : Plan W} {torrent : Torrent}
  {workers : List W}

/-- A fresh download of a file that has just been created. -/
theorem progress_start (path : Bytes) {host : Host}
    (hsize : torrent.size.toNat < 2 ^ 31) (hunlocked : host.openedFile torrent.fileName = none) :
    Progress plan torrent (start (File.ofTorrent torrent path) (host.createLocalFile torrent))
      (Board.fresh : Board W Nat) where
  tracks := tracks_start (File.fresh_ofTorrent torrent path) _
  onPlan := fun w ↦ ⟨by simp [start, Pc.ids], by simp [start], by simp [start]⟩
  stored := by
    refine ⟨rfl, File.length_segments_ofTorrent path hsize, hunlocked, ∅, ?_, ?_⟩
    · intro i
      simp [Board.Settled, Board.fresh]
    · rw [assembled_empty]
      exact Host.disk_createLocalFile torrent
  visited := fun w k hk ↦ .inl trivial
  listed := by
    rintro i ⟨st, hst, hne⟩
    exact absurd ((File.fresh_ofTorrent torrent path).free i st hst) hne

/-- When all workers have finished, exactly the listed segments are COMPLETE. -/
theorem Progress.complete_iff (hp : Progress plan torrent d b) (hall : ∀ w, w ∈ workers)
    (hdone : ∀ w, d.pc w = .finished) {i : Nat} :
    d.file.stateOf i = some .complete ↔ i ∈ plan.fragments workers := by
  constructor
  · intro h
    obtain ⟨w, k, hk, hi⟩ := hp.listed i ⟨_, h, by decide⟩
    exact Plan.mem_fragments.mpr ⟨w, hall w, k, hk, hi⟩
  · intro h
    obtain ⟨w, _, k, hk, rfl⟩ := Plan.mem_fragments.mp h
    rcases hp.visited w k hk with hahead | ⟨st, hst, hne⟩
    · rw [hdone w] at hahead
      exact hahead.elim
    · cases st with
      | complete => exact hst
      | free => exact absurd rfl hne
      | downloading =>
        obtain ⟨v, hv, -⟩ := hp.tracks.existsUnique hst
        rw [hdone v] at hv
        cases hv

/-- When all workers have finished, exactly the listed segments are settled. -/
theorem Progress.settled_iff (hp : Progress plan torrent d b) (hall : ∀ w, w ∈ workers)
    (hdone : ∀ w, d.pc w = .finished) {i : Nat} :
    Board.Settled b i ↔ i ∈ plan.fragments workers := by
  rw [← hp.complete_iff hall hdone, hp.tracks.complete_iff]
  constructor
  · rintro (⟨w, hw⟩ | hclosed)
    · have hcell := hp.tracks.owner w i (by rw [hw]; rfl)
      rw [hdone w] at hcell
      cases hcell
    · exact hclosed
  · exact .inr

/-- A segment nobody lists stays FREE. -/
theorem Progress.free_of_not_mem (hp : Progress plan torrent d b) (hall : ∀ w, w ∈ workers)
    {i : Nat} (hi : i < File.blocks torrent.size.toNat)
    (hnot : i ∉ plan.fragments workers) : d.file.stateOf i = some .free := by
  rw [← hp.stored.length] at hi
  obtain ⟨st, hst⟩ := File.exists_stateOf hi
  by_cases hfree : st = .free
  · rw [hst, hfree]
  · obtain ⟨w, k, hk, hki⟩ := hp.listed i ⟨st, hst, hfree⟩
    exact absurd (Plan.mem_fragments.mpr ⟨w, hall w, k, hk, hki⟩) hnot

end

section

variable {W : Type} [DecidableEq W] {d : Download W} {peer : W → PeerInfo} {plan : Plan W}
  {torrent : Torrent} {host : Host} {es : List (Event W)} {workers : List W}

/-- When all workers have finished, the listed segments are COMPLETE, all others are FREE,
and the file holds the payloads of the listed segments over zero bytes: nothing depends on
the interleaving. -/
theorem schedule_independent (path : Bytes) (hsize : torrent.size.toNat < 2 ^ 31)
    (hpayload : ∀ i, i < File.blocks torrent.size.toNat →
      (plan.payload i).length = defaultSegmentSize)
    (hunlocked : host.openedFile torrent.fileName = none) (hall : ∀ w, w ∈ workers)
    (hrun : Run (step peer) (fun _ e ↦ Planned peer plan e)
      (start (File.ofTorrent torrent path) (host.createLocalFile torrent)) es d)
    (hdone : d.AllFinished workers) :
    (∀ i, d.file.stateOf i = some .complete ↔ i ∈ plan.fragments workers) ∧
    (∀ i, i < File.blocks torrent.size.toNat → i ∉ plan.fragments workers →
      d.file.stateOf i = some .free) ∧
    d.host.disk torrent.fileName = some (assembled 0 defaultSegmentSize torrent.size.toNat
      plan.payload (plan.fragments workers)) := by
  obtain ⟨b, -, hp⟩ := hrun.simulate (R := Progress plan torrent)
    (progress_start path hsize hunlocked) fun _ _ _ _ hp hok hs ↦ hp.step hsize hpayload hok hs
  have hfinished : ∀ w, d.pc w = .finished := fun w ↦ hdone w (hall w)
  refine ⟨fun i ↦ hp.complete_iff hall hfinished,
    fun i hi hnot ↦ hp.free_of_not_mem hall hi hnot, ?_⟩
  obtain ⟨D, hD, hdisk⟩ := hp.stored.content
  have hset : D = plan.fragments workers := by
    ext i
    rw [hD, hp.settled_iff hall hfinished]
  rw [hdisk, hset]

end

/-! ### Two workers that list the same segment -/

/-- Both peers list segment `0`, one of them twice. -/
def bytePlan : Plan Bool where
  lists := fun w ↦ if w then [0, 0] else [0]
  payload := fun _ ↦ List.replicate defaultSegmentSize 7

/-- One of the interleavings of the two workers. -/
def agreed : List (Event Bool) :=
  [.connect false .open, .connect true .open, .list false (listOf [0]), .list true (listOf [0, 0]),
    .claim true 0, .skip false 0,
    .reply true 0 { fileCode := .fine, fragment := List.replicate defaultSegmentSize 7 },
    .finish false, .store true 0 (.success fun _ ↦ 0), .complete true 0, .skip true 0, .finish true]

private theorem planned_agreed : ∀ e ∈ agreed, Planned somePeer bytePlan e := by
  simp only [agreed, List.forall_mem_cons, List.not_mem_nil, false_implies, implies_true, and_true]
  exact ⟨.inl ⟨rfl, rfl⟩, .inl ⟨rfl, rfl⟩, rfl, rfl, trivial, trivial, ⟨rfl, rfl⟩, trivial,
    ⟨_, rfl⟩, trivial, trivial, trivial⟩

/-- The listed segment is COMPLETE and its payload is stored. -/
theorem schedule_independent_agreed :
    ∃ d, agreed.foldlM (step somePeer) (start (File.ofTorrent byteTorrent [])
        (emptyHost.createLocalFile byteTorrent)) = some d ∧
      (∀ i, d.file.stateOf i = some .complete ↔ i ∈ bytePlan.fragments [false, true]) ∧
      (∀ i, i < File.blocks byteTorrent.size.toNat → i ∉ bytePlan.fragments [false, true] →
        d.file.stateOf i = some .free) ∧
      d.host.disk byteTorrent.fileName = some (assembled 0 defaultSegmentSize
        byteTorrent.size.toNat bytePlan.payload (bytePlan.fragments [false, true])) := by
  have hruns : (agreed.foldlM (step somePeer) (start (File.ofTorrent byteTorrent [])
      (emptyHost.createLocalFile byteTorrent))).any
      (fun d ↦ d.AllFinished [false, true]) = true := by decide
  obtain ⟨d, hd, hdone⟩ := (Option.any_eq_true _ _).mp hruns
  exact ⟨d, hd, schedule_independent [] (by decide) (fun _ _ ↦ List.length_replicate) rfl
    (by decide) (Run.of_foldlM hd (Meets.of_forall planned_agreed)) (by simpa using hdone)⟩

end Download

end P2PNetwork.Client
