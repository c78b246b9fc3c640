import P2PNetwork.Client.Download.DownloadWorker
import P2PNetwork.Lib.TaskBoard

/-!
# Who owns a segment

The workers of one file refine a task board: claiming a segment, giving it back, storing
it and marking it COMPLETE are the moves of the board, every other call is silent. The
owner of a cell is the worker whose program point lies between the successful
`tryToSetStateSegmentStateToDownload` and the next `setSegmentState`.
-/

open Lib

namespace P2PNetwork.Client

/-- The segment state a cell of the board stands for. -/
def segmentState {W : Type} : Cell W → SegmentState
  | .free => .free
  | .claimed _ => .downloading
  | .committed _ => .downloading
  | .done => .complete

/-- A DOWNLOADING segment is an owned cell. -/
theorem segmentState_eq_downloading {W : Type} {c : Cell W} :
    .downloading = segmentState c ↔ ∃ w, c.owner = some w := by
  cases c <;> simp [segmentState, Cell.owner]

/-- A COMPLETE segment is a closed cell. -/
theorem segmentState_eq_complete {W : Type} {c : Cell W} :
    .complete = segmentState c ↔ c = .done := by
  cases c <;> simp [segmentState]

/-- A FREE segment is a free cell. -/
theorem segmentState_eq_free {W : Type} {c : Cell W} :
    .free = segmentState c ↔ c = .free := by
  cases c <;> simp [segmentState]

namespace Pc

/-- The fragment a worker holds at its program point. -/
def fragment : Pc → Option UInt32
  | .requesting k _ => some k
  | .releasing k _ => some k
  | .storing k _ _ => some k
  | .completing k _ => some k
  | _ => none

/-- The segment a worker holds at its program point. -/
def segment (p : Pc) : Option Nat := p.fragment.map UInt32.toNat

/-- The cell a worker accounts for: its segment is stored already or not yet. -/
def cell {W : Type} (w : W) (p : Pc) : Option (Nat × Cell W) :=
  match p with
  | .completing k _ => some (k.toNat, .committed w)
  | p => p.segment.map fun i ↦ (i, .claimed w)

/-- A worker that holds a segment owns the cell it accounts for. -/
theorem owner_cell {W : Type} {w : W} {p : Pc} {i : Nat} {c : Cell W} (h : p.cell w = some (i, c)) :
    c.owner = some w ∧ p.segment = some i := by
  cases p <;> cases h <;> exact ⟨rfl, rfl⟩

/-- A worker accounts for every segment it holds. -/
theorem exists_cell {W : Type} (w : W) {p : Pc} {i : Nat} (h : p.segment = some i) :
    ∃ c, p.cell w = some (i, c) := by
  cases p <;> cases h <;> exact ⟨_, rfl⟩

end Pc

/-- The move of the board that a call means. -/
def Event.move {W : Type} : Event W → Option (Move W Nat)
  | .claim w k => some (.claim w k.toNat)
  | .release w k => some (.abandon w k.toNat)
  | .store w k _ => some (.commit w k.toNat)
  | .complete w k => some (.close w k.toNat)
  | _ => none

/-- The calls of `storeSegmentToFile` for segment `i`. -/
def Event.stores {W : Type} (i : Nat) : Event W → Bool
  | .store _ k _ => decide (k.toNat = i)
  | _ => false

namespace Download

variable {W : Type}

/-- The board describes the file and the workers: every segment is in the state of its
cell, and cells and program points agree about the owners. -/
structure Tracks (d : Download W) (b : Board W Nat) : Prop where
  state : ∀ i st, d.file.stateOf i = some st → st = segmentState (b i)
  outside : ∀ i, d.file.stateOf i = none → b i = .free
  holder : ∀ w i c, (d.pc w).cell w = some (i, c) → b i = c
  owner : ∀ w i, (b i).owner = some w → (d.pc w).cell w = some (i, b i)

section

variable {d d' : Download W} {b : Board W Nat}

/-- On a fresh file nobody owns anything. -/
theorem tracks_start {file : File} (hfresh : file.Fresh) (host : Host) :
    Tracks (start file host) (Board.fresh : Board W Nat) where
  state := fun i st h ↦ hfresh.free i st h
  outside := fun _ _ ↦ rfl
  holder := by
    intro w i c h
    cases h
  owner := by
    intro w i h
    cases h

/-- A held segment is DOWNLOADING and in range. -/
theorem Tracks.downloading (ht : Tracks d b) {w : W} {i : Nat} (h : (d.pc w).segment = some i) :
    d.file.stateOf i = some .downloading := by
  obtain ⟨c, hc⟩ := Pc.exists_cell w h
  have howner := (Pc.owner_cell hc).1
  have hb := ht.holder w i c hc
  cases hst : d.file.stateOf i with
  | none =>
    rw [← hb, ht.outside i hst] at howner
    cases howner
  | some st =>
    rw [ht.state i st hst, hb, ← segmentState_eq_downloading.mpr ⟨w, howner⟩]

/-- A DOWNLOADING segment has exactly one holder. -/
theorem Tracks.existsUnique (ht : Tracks d b) {i : Nat}
    (h : d.file.stateOf i = some .downloading) : ∃! w, (d.pc w).segment = some i := by
  obtain ⟨w, hw⟩ := segmentState_eq_downloading.mp (ht.state i _ h)
  refine ⟨w, (Pc.owner_cell (ht.owner w i hw)).2, ?_⟩
  intro v hv
  obtain ⟨c, hc⟩ := Pc.exists_cell v hv
  have hb := ht.holder v i c hc
  have hown := (Pc.owner_cell hc).1
  rw [← hb, hw] at hown
  exact (Option.some_inj.mp hown).symm

/-- A COMPLETE segment is a closed task, and conversely. -/
theorem Tracks.complete_iff (ht : Tracks d b) {i : Nat} :
    d.file.stateOf i = some .complete ↔ b i = .done := by
  constructor
  · intro h
    exact segmentState_eq_complete.mp (ht.state i _ h)
  · intro h
    cases hst : d.file.stateOf i with
    | none =>
      rw [ht.outside i hst] at h
      cases h
    | some st => rw [ht.state i st hst, h]; rfl

/-- A FREE segment is a free task. -/
theorem Tracks.free (ht : Tracks d b) {i : Nat} (h : d.file.stateOf i = some .free) :
    b i = .free :=
  segmentState_eq_free.mp (ht.state i _ h)

/-- A call that changes no segment and nobody's holdings keeps the board. -/
theorem Tracks.silent (ht : Tracks d b) (hstates : ∀ i, d'.file.stateOf i = d.file.stateOf i)
    (hcell : ∀ w, (d'.pc w).cell w = (d.pc w).cell w) : Tracks d' b where
  state := fun i st h ↦ ht.state i st (by rw [← hstates, h])
  outside := fun i h ↦ ht.outside i (by rw [← hstates, h])
  holder := fun w i c h ↦ ht.holder w i c (by rw [← hcell, h])
  owner := fun w i h ↦ by rw [hcell, ht.owner w i h]

variable [DecidableEq W]

/-- A call that means a move: it changes the segment and the worker of the move alone. -/
theorem Tracks.move (ht : Tracks d b) (m : Move W Nat) (hsource : b m.task = m.source)
    (hother : ∀ i, i ≠ m.task → d'.file.stateOf i = d.file.stateOf i)
    (htarget : d'.file.stateOf m.task = some (segmentState m.target))
    (hbefore : (d.pc m.worker).cell m.worker = m.source.owner.map fun _ ↦ (m.task, m.source))
    (hafter : (d'.pc m.worker).cell m.worker = m.target.owner.map fun _ ↦ (m.task, m.target))
    (hpc : ∀ v, v ≠ m.worker → d'.pc v = d.pc v) :
    ∃ b', Board.step b m = some b' ∧ Tracks d' b' := by
  refine ⟨Function.update b m.task m.target, Board.step_eq_some.mpr ⟨hsource, rfl⟩, ?_⟩
  refine ⟨?_, ?_, ?_, ?_⟩
  · intro i st h
    by_cases hi : i = m.task
    · subst hi
      rw [htarget, Option.some_inj] at h
      rw [Function.update_self, h]
    · rw [hother i hi] at h
      rw [Function.update_of_ne hi, ht.state i st h]
  · intro i h
    have hi : i ≠ m.task := by
      rintro rfl
      rw [htarget] at h
      cases h
    rw [hother i hi] at h
    rw [Function.update_of_ne hi, ht.outside i h]
  · intro v i c h
    by_cases hv : v = m.worker
    · subst hv
      rw [hafter] at h
      obtain ⟨_, _, hc⟩ := Option.map_eq_some_iff.mp h
      cases hc
      exact Function.update_self _ _ _
    · rw [hpc v hv] at h
      have hb := ht.holder v i c h
      -- another worker's segment is not the one of the move
      have hi : i ≠ m.task := by
        rintro rfl
        apply hv
        apply Move.owner_source
        rw [← hsource, hb, (Pc.owner_cell h).1]
      rw [Function.update_of_ne hi, hb]
  · intro v i h
    by_cases hi : i = m.task
    · subst hi
      rw [Function.update_self] at h ⊢
      have hv := Move.owner_target h
      subst hv
      rw [hafter, h]
      rfl
    · rw [Function.update_of_ne hi] at h ⊢
      have hcell := ht.owner v i h
      have hv : v ≠ m.worker := by
        rintro rfl
        rw [hbefore] at hcell
        obtain ⟨_, _, hc⟩ := Option.map_eq_some_iff.mp hcell
        exact hi (Prod.mk.inj hc).1.symm
      rw [hpc v hv, hcell]

private theorem cell_goto (d : Download W) {w : W} {p : Pc} (h : p.cell w = (d.pc w).cell w)
    (v : W) : ((d.goto w p).pc v).cell v = (d.pc v).cell v := by
  by_cases hv : v = w
  · subst hv
    rw [pc_goto_self, h]
  · rw [pc_goto_of_ne d p hv]

/-- Moving one worker without changing its holdings is silent. -/
theorem Tracks.goto (ht : Tracks d b) {w : W} {p : Pc} (h : p.cell w = (d.pc w).cell w) :
    Tracks (d.goto w p) b :=
  ht.silent (fun _ ↦ rfl) (cell_goto d h)

private theorem stateOf_isComplete (f : File) (i : Nat) :
    f.isComplete.2.stateOf i = f.stateOf i := by
  rw [File.isComplete_frame]
  rfl

private theorem stateOf_set_self {f : File} {i : Nat} (st : SegmentState)
    (h : i < f.segments.length) : (f.setState i st).stateOf i = some st := by
  obtain ⟨old, hold⟩ := File.exists_stateOf h
  rw [File.stateOf_setState, if_pos rfl, hold]
  rfl

private theorem stateOf_set_other (f : File) {i j : Nat} (st : SegmentState) (h : j ≠ i) :
    (f.setState i st).stateOf j = f.stateOf j := by
  rw [File.stateOf_setState, if_neg fun hij ↦ h hij.symm]

/-- Every call follows the board: it is silent or the move it means. -/
theorem Tracks.step {peer : W → PeerInfo} {e : Event W} (ht : Tracks d b)
    (h : step peer d e = some d') : ∃ b', Follows Board.step b e.move b' ∧ Tracks d' b' := by
  cases e with
  | connect w state =>
    obtain ⟨hpc, ⟨_, _, rfl⟩ | ⟨_, rfl⟩⟩ := connect_spec h
    · exact ⟨b, rfl, ht.goto (by rw [hpc]; rfl)⟩
    · exact ⟨b, rfl, ht.goto (by rw [hpc]; rfl)⟩
  | list w response =>
    obtain ⟨hpc, rfl⟩ := list_spec h
    exact ⟨b, rfl, ht.goto (by rw [hpc]; rfl)⟩
  | claim w k =>
    obtain ⟨rest, hpc, -, hfree, rfl⟩ := claim_spec h
    refine ht.move (.claim w k.toNat) (ht.free hfree) (fun i hi ↦ stateOf_set_other _ _ hi)
      (stateOf_set_self _ (File.lt_of_stateOf hfree)) ?_ ?_ fun v hv ↦ pc_goto_of_ne _ _ hv
    · rw [Move.worker, hpc]
      rfl
    · rw [Move.worker, pc_goto_self]
      rfl
  | skip w k =>
    obtain ⟨rest, st, hpc, _, _, rfl⟩ := skip_spec h
    exact ⟨b, rfl, ht.goto (by rw [hpc]; rfl)⟩
  | reply w k response =>
    obtain ⟨rest, hpc, ⟨_, rfl⟩ | ⟨_, rfl⟩⟩ := reply_spec h
    · exact ⟨b, rfl, ht.goto (by rw [hpc]; rfl)⟩
    · exact ⟨b, rfl, ht.goto (by rw [hpc]; rfl)⟩
  | release w k =>
    obtain ⟨rest, hpc, hlt, rfl⟩ := release_spec h
    refine ht.move (.abandon w k.toNat) (ht.holder w _ _ (by rw [hpc]; rfl))
      (fun i hi ↦ stateOf_set_other _ _ hi) (stateOf_set_self _ hlt) ?_ ?_
      fun v hv ↦ pc_goto_of_ne _ _ hv
    · rw [Move.worker, hpc]
      rfl
    · rw [Move.worker, pc_goto_self]
      rfl
  | store w k io =>
    obtain ⟨fragmentBytes, rest, host, hpc, -, rfl⟩ := store_spec h
    refine ht.move (.commit w k.toNat) (ht.holder w _ _ (by rw [hpc]; rfl)) (fun _ _ ↦ rfl)
      (ht.downloading (w := w) (by rw [hpc]; rfl)) ?_ ?_ fun v hv ↦ pc_goto_of_ne _ _ hv
    · rw [Move.worker, hpc]
      rfl
    · rw [Move.worker, pc_goto_self]
      rfl
  | complete w k =>
    obtain ⟨rest, hpc, hlt, rfl⟩ := complete_spec h
    refine ht.move (.close w k.toNat) (ht.holder w _ _ (by rw [hpc]; rfl))
      (fun i hi ↦ stateOf_set_other _ _ hi) (stateOf_set_self _ hlt) ?_ ?_
      fun v hv ↦ pc_goto_of_ne _ _ hv
    · rw [Move.worker, hpc]
      rfl
    · rw [Move.worker, pc_goto_self]
      rfl
  | finish w =>
    obtain ⟨hpc, rfl⟩ := finish_spec h
    exact ⟨b, rfl, ht.goto (by rw [hpc]; rfl)⟩
  | checkComplete =>
    cases h
    exact ⟨b, rfl, ht.silent (stateOf_isComplete d.file) fun _ ↦ rfl⟩

/-- A segment has the state it had, or the one the call has just set. -/
theorem stateOf_step {peer : W → PeerInfo} {e : Event W} {i : Nat} {st : SegmentState}
    (h : Download.step peer d e = some d') (hst : d'.file.stateOf i = some st) :
    d.file.stateOf i = some st ∨ ∃ k, k.toNat = i ∧ e.sets = some (k, st) := by
  rcases (step_effect h).file with ⟨k, new, hsets, hf⟩ | ⟨-, hf | hf⟩
  · rw [hf, File.stateOf_setState] at hst
    split at hst
    · next hk =>
      obtain ⟨_, _, rfl⟩ := Option.map_eq_some_iff.mp hst
      exact .inr ⟨k, hk, hsets⟩
    · exact .inl hst
  · rw [hf] at hst
    exact .inl hst
  · rw [hf, stateOf_isComplete] at hst
    exact .inl hst

/-- A segment becomes FREE only when a worker gives it back. -/
theorem free_step {peer : W → PeerInfo} {e : Event W} {i : Nat}
    (h : Download.step peer d e = some d') (hfree : d'.file.stateOf i = some .free) :
    d.file.stateOf i = some .free ∨ ∃ w k, e = .release w k ∧ k.toNat = i := by
  rcases stateOf_step h hfree with hold | ⟨k, hk, hsets⟩
  · exact .inl hold
  · cases e <;> cases hsets
    exact .inr ⟨_, k, rfl, hk⟩

/-- No call changes the torrent, the path or the number of segments. -/
theorem step_frame {peer : W → PeerInfo} {e : Event W} (h : Download.step peer d e = some d') :
    d'.file.torrent = d.file.torrent ∧ d'.file.path = d.file.path ∧
      d'.file.segments.length = d.file.segments.length := by
  rcases (step_effect h).file with ⟨k, st, -, hf⟩ | ⟨-, hf | hf⟩
  · rw [hf]
    exact ⟨rfl, rfl, File.length_setState k.toNat st⟩
  · rw [hf]
    exact ⟨rfl, rfl, rfl⟩
  · rw [hf, File.isComplete_frame]
    exact ⟨rfl, rfl, rfl⟩

/-- A taken segment stays taken unless a worker gives it back. -/
theorem taken_step {peer : W → PeerInfo} {e : Event W} {i : Nat}
    (h : Download.step peer d e = some d') (htaken : d.file.Taken i) :
    d'.file.Taken i ∨ ∃ w k, e = .release w k ∧ k.toNat = i := by
  obtain ⟨st, hst, hne⟩ := htaken
  have hlt := File.lt_of_stateOf hst
  rw [← (step_frame h).2.2] at hlt
  obtain ⟨st', hst'⟩ := File.exists_stateOf hlt
  by_cases hfree : st' = .free
  · rcases free_step h (by rw [hst', hfree]) with hold | hrelease
    · rw [hst, Option.some_inj] at hold
      exact absurd hold hne
    · exact .inr hrelease
  · exact .inl ⟨st', hst', hfree⟩

/-! ### Whole runs -/

variable {peer : W → PeerInfo} {ok : Download W → Event W → Prop} {file : File} {host : Host}
  {es : List (Event W)}

/-- Every run of the workers follows a run of the board. -/
theorem Tracks.run (ht : Tracks d b) (hrun : Run (Download.step peer) ok d es d') :
    ∃ b', Run Board.step Any b (es.filterMap Event.move) b' ∧ Tracks d' b' :=
  hrun.simulate (R := Tracks) ht fun _ _ _ _ hR _ hs ↦ hR.step hs

/-- The fragments that workers hold are valid ids: they were claimed in range. -/
theorem idOf_run {v : W} {k : UInt32} (hrun : Run (Download.step peer) ok (start file host) es d)
    (h : (d.pc v).fragment = some k) : idOf k = k.toNat := by
  refine hrun.invariant (P := fun d ↦ ∀ v k, (d.pc v).fragment = some k → idOf k = k.toNat) ?_ ?_
    v k h
  · intro v k h
    cases h
  · intro d e d' ih _ hstep v k h
    by_cases hv : e.worker = some v
    · have hgoes := (step_effect hstep).moves v hv
      have hold := ih v k
      generalize d'.pc v = p' at hgoes h
      generalize d.pc v = p at hgoes hold
      cases hgoes with
      | claim =>
        obtain ⟨_, _, hid, _⟩ := claim_spec hstep
        cases h
        exact hid
      | error => exact hold h
      | accept => exact hold h
      | store => exact hold h
      | _ => cases h
    · rw [(step_effect hstep).others v hv] at h
      exact ih v k h

/-- The number of segments never changes. -/
theorem length_run (hrun : Run (Download.step peer) ok d es d') :
    d'.file.segments.length = d.file.segments.length := by
  refine hrun.invariant (P := fun x ↦ x.file.segments.length = d.file.segments.length) rfl ?_
  intro s e s' hs _ hstep
  rw [(step_frame hstep).2.2, hs]

/-- A COMPLETE segment stays COMPLETE along every run. -/
theorem Tracks.complete_run (ht : Tracks d b) {i : Nat} (h : d.file.stateOf i = some .complete)
    (hrun : Run (Download.step peer) ok d es d') : d'.file.stateOf i = some .complete := by
  obtain ⟨b', hmoves, ht'⟩ := ht.run hrun
  exact ht'.complete_iff.mpr (Board.done_run hmoves (ht.complete_iff.mp h))

/-- A complete file stays complete along every run. -/
theorem Tracks.allComplete_run (ht : Tracks d b) (h : d.file.AllComplete)
    (hrun : Run (Download.step peer) ok d es d') : d'.file.AllComplete := by
  intro i hi
  rw [length_run hrun] at hi
  exact ht.complete_run (h i hi) hrun

/-- In every state of a run over a fresh file a board describes it, and the cached answer of
`isComplete` is right. -/
theorem tracks_and_flag (hfresh : file.Fresh)
    (hrun : Run (Download.step peer) ok (start file host) es d) :
    (∃ b, Tracks d b) ∧ (d.file.isCompleted = true → d.file.AllComplete) := by
  refine hrun.invariant (P := fun d ↦ (∃ b, Tracks d b) ∧
    (d.file.isCompleted = true → d.file.AllComplete)) ?_ ?_
  · refine ⟨⟨_, tracks_start hfresh host⟩, ?_⟩
    intro h
    rw [start, hfresh.unset] at h
    cases h
  · rintro d e d' ⟨⟨b, ht⟩, hflag⟩ _ hstep
    obtain ⟨b', -, ht'⟩ := ht.step hstep
    refine ⟨⟨b', ht'⟩, ?_⟩
    have hone : Run (Download.step peer) Any d [e] d' := Run.single trivial hstep
    have hkeep : d.file.AllComplete → d'.file.AllComplete := fun h ↦ ht.allComplete_run h hone
    intro h
    apply hkeep
    rcases (step_effect hstep).file with ⟨k, st, -, hf⟩ | ⟨-, hf | hf⟩
    · rw [hf, File.isCompleted_setState] at h
      exact hflag h
    · exact hflag (by rw [← hf, h])
    · rw [hf, ← File.isComplete_flag.1] at h
      rcases File.isComplete_flag.2.mp h with hold | hall
      · exact hflag hold
      · exact hall

/-- Once `isComplete` answers yes, every segment is COMPLETE. -/
theorem allComplete_of_isComplete (hfresh : file.Fresh)
    (hrun : Run (Download.step peer) ok (start file host) es d)
    (h : d.file.isComplete.1 = true) : d.file.AllComplete := by
  rcases File.isComplete_flag.2.mp h with hold | hall
  · exact (tracks_and_flag hfresh hrun).2 hold
  · exact hall

/-- In every state of every run over a fresh file, whatever the peers answer and however
the calls interleave: a DOWNLOADING segment has exactly one holder, every segment is
stored at most once, a COMPLETE segment never changes again, and once `isComplete` answers
yes every segment is COMPLETE for good. -/
theorem exclusive_ownership (hfresh : file.Fresh)
    (hrun : Run (Download.step peer) Any (start file host) es d) :
    (∀ i, d.file.stateOf i = some .downloading → ∃! w, (d.pc w).segment = some i) ∧
      (∀ i, es.countP (Event.stores i) ≤ 1) ∧
      (∀ i es' d', d.file.stateOf i = some .complete →
        Run (Download.step peer) Any d es' d' → d'.file.stateOf i = some .complete) ∧
      (d.file.isComplete.1 = true → ∀ es' d', Run (Download.step peer) Any d es' d' →
        d'.file.AllComplete) := by
  obtain ⟨⟨b, ht⟩, -⟩ := tracks_and_flag hfresh hrun
  refine ⟨fun i h ↦ ht.existsUnique h, ?_, fun i es' d' h hrun' ↦ ht.complete_run h hrun', ?_⟩
  · intro i
    obtain ⟨b', hmoves, -⟩ := (tracks_start hfresh host).run hrun
    have hcount := Board.commits_le_one hmoves i
    rw [List.countP_filterMap] at hcount
    have hstores : (fun e : Event W ↦ (e.move.map (Move.isCommit i)).getD false) =
        Event.stores i := by
      ext e
      cases e <;> rfl
    rwa [hstores] at hcount
  · intro h es' d' hrun'
    exact ht.allComplete_run (allComplete_of_isComplete hfresh hrun h) hrun'

/-! ### Two workers for one segment -/

/-- A peer with an IPv4 address. -/
def somePeer (_ : Bool) : PeerInfo :=
  { id := 1, ipV4Address := [49], ipV6Address := [], port := 2000 }

/-- The list of one peer. -/
def listOf (fragments : List UInt32) : ListResponse :=
  { fileCode := .fragComplete, fragments := fragments }

/-- Both workers list the segment; the one that loses the claim passes it. -/
def contested : List (Event Bool) :=
  [.connect false .open, .connect true .open, .list false (listOf [0]), .list true (listOf [0, 0]),
    .claim false 0, .skip true 0, .reply false 0 { fileCode := .fine }, .checkComplete,
    .store false 0 (.success fun _ ↦ 0), .complete false 0, .skip true 0, .checkComplete,
    .finish true, .finish false]

private theorem contested_runs :
    (contested.foldlM (Download.step somePeer) (start (.ofTorrent byteTorrent [])
      (emptyHost.createLocalFile byteTorrent))).isSome = true := by
  decide

/-- The contested segment has one owner at a time, is stored once and stays COMPLETE. -/
theorem exclusive_ownership_contested :
    ∃ d : Download Bool, contested.foldlM (Download.step somePeer)
        (start (.ofTorrent byteTorrent []) (emptyHost.createLocalFile byteTorrent)) = some d ∧
      (∀ i, d.file.stateOf i = some .downloading → ∃! w, (d.pc w).segment = some i) ∧
      (∀ i, contested.countP (Event.stores i) ≤ 1) ∧
      (∀ i es' d', d.file.stateOf i = some .complete →
        Run (Download.step somePeer) Any d es' d' → d'.file.stateOf i = some .complete) ∧
      (d.file.isComplete.1 = true → ∀ es' d', Run (Download.step somePeer) Any d es' d' →
        d'.file.AllComplete) := by
  obtain ⟨d, hd⟩ := Option.isSome_iff_exists.mp contested_runs
  have hrun := Run.of_foldlM hd Meets.any
  exact ⟨d, hd, exclusive_ownership (File.fresh_ofTorrent byteTorrent []) hrun⟩

end

end Download

end P2PNetwork.Client
