import P2PNetwork.Client.Download.Ownership

/-!
# What a worker's thread leaves behind

The thread body of `startWorker` (`DownloadWorker.cpp:4–15`) runs `work` inside a `try` whose
handler only writes to the log. `finished` is set by the three ends of `work` and by nothing
else, so an exception leaves the flag and the claimed segment as they are at that moment.
-/

open Lib

namespace P2PNetwork.Client

/-- The threads of the workers of one file. -/
structure WorkerThreads (W : Type) where
  download : Download W
  /-- An exception has left `work`. -/
  thrown : W → Bool

/-- What a thread does next. A call that throws after it has had its effect is the call
followed by the exception. -/
inductive ThreadEvent (W : Type)
  /-- A call of `work` or the manager's check returns. -/
  | returns (e : Event W)
  /-- The next call throws; a store leaves the machine as `left`. -/
  | throws (w : W) (left : Host)

/-- The worker that moved segment `i` to DOWNLOADING last. -/
def lastClaim {W : Type} (i : Nat) (es : List (ThreadEvent W)) : Option W :=
  es.foldl (fun last e ↦ match e with
    | .returns (.claim w k) => if k.toNat = i then some w else last
    | _ => last) none

namespace WorkerThreads

open Download (somePeer listOf)

variable {W : Type}

/-- `isDone` (`DownloadWorker.cpp:57–59`): `finished` is set at the ends of `work` only. -/
def isDone (t : WorkerThreads W) (w : W) : Prop := t.download.pc w = .finished

instance (t : WorkerThreads W) (w : W) : Decidable (t.isDone w) :=
  inferInstanceAs (Decidable (_ = _))

/-- The thread body has ended: `work` has returned, or the handler has caught its exception. -/
def Ended (t : WorkerThreads W) (w : W) : Prop := t.isDone w ∨ t.thrown w = true

/-- The workers are about to connect, and nothing has been thrown. -/
def start (file : File) (host : Host) : WorkerThreads W where
  download := .start file host
  thrown := fun _ ↦ false

variable [DecidableEq W]

/-- A thread that has left `work` makes no call, and behind the last statement of `work` there is
none that could throw. -/
def step (peer : W → PeerInfo) (t : WorkerThreads W) : ThreadEvent W → Option (WorkerThreads W)
  | .returns e =>
    if e.worker.any t.thrown then none
    else (Download.step peer t.download e).map fun d ↦ { t with download := d }
  | .throws w left =>
    if t.thrown w = true ∨ t.isDone w then none
    else
      let host := match t.download.pc w with
        | .storing .. => left
        | _ => t.download.host
      some { download := { t.download with host := host },
             thrown := Function.update t.thrown w true }

/-- What the thread of `w` has to leave: the object that it works on is done (the vector of the
manager may have moved its element away by then), and no segment is DOWNLOADING because of it. -/
structure CleanedUp (es : List (ThreadEvent W)) (t : WorkerThreads W) (w : W) : Prop where
  done : t.isDone w
  restored : ∀ i, t.download.file.stateOf i = some .downloading → lastClaim i es ≠ some w

section

variable {peer : W → PeerInfo} {t t' : WorkerThreads W} {es : List (ThreadEvent W)}

/-- A returning call is one of a thread that is still inside `work`. -/
private theorem returns_spec {e : Event W} (h : step peer t (.returns e) = some t') :
    (∀ w, e.worker = some w → t.thrown w = false) ∧
      Download.step peer t.download e = some t'.download ∧ t'.thrown = t.thrown := by
  simp only [step] at h
  split at h
  · cases h
  · next hnone =>
    obtain ⟨d, hstep, rfl⟩ := Option.map_eq_some_iff.mp h
    refine ⟨?_, hstep, rfl⟩
    intro w hw
    rw [hw, Option.any_some] at hnone
    exact Bool.eq_false_iff.mpr hnone

/-- An exception ends the calls of its thread and changes no segment. -/
private theorem throws_spec {w : W} {left : Host} (h : step peer t (.throws w left) = some t') :
    ¬ t.isDone w ∧ t'.thrown = Function.update t.thrown w true ∧
      t'.download.file = t.download.file ∧ t'.download.pc = t.download.pc := by
  simp only [step] at h
  split at h
  · cases h
  · next hinside =>
    cases h
    exact ⟨fun hdone ↦ hinside (.inr hdone), rfl, rfl, rfl⟩

omit [DecidableEq W] in
/-- Only a claim changes who moved a segment to DOWNLOADING last. -/
private theorem lastClaim_snoc (i : Nat) (es : List (ThreadEvent W)) (e : ThreadEvent W) :
    lastClaim i (es ++ [e]) = match e with
      | .returns (.claim w k) => if k.toNat = i then some w else lastClaim i es
      | _ => lastClaim i es := by
  simp only [lastClaim, List.foldl_append, List.foldl_cons, List.foldl_nil]

/-- What holds in every state the threads reach: the segments follow a task board, a held
segment was claimed last by its holder, and `thrown` records the exceptions, none of which
left behind the end of `work`. -/
private structure Accounted (es : List (ThreadEvent W)) (t : WorkerThreads W) : Prop where
  board : ∃ b, t.download.Tracks b
  holder : ∀ w i, (t.download.pc w).segment = some i → lastClaim i es = some w
  thrown : ∀ w, t.thrown w = true ↔ ∃ left, .throws w left ∈ es
  inside : ∀ w, t.thrown w = true → ¬ t.isDone w

/-- A worker that holds a segment behind a call has just claimed it or held it before. -/
private theorem holder_step {d d' : Download W} {b : Board W Nat} {e : Event W} {v : W} {i : Nat}
    (ht : d.Tracks b) (h : Download.step peer d e = some d')
    (hheld : (d'.pc v).segment = some i) :
    (∃ k, e = .claim v k ∧ k.toNat = i) ∨
      ((d.pc v).segment = some i ∧ ∀ w k, e = .claim w k → k.toNat ≠ i) := by
  by_cases hv : e.worker = some v
  · have hgoes := (Download.step_effect h).moves v hv
    generalize d.pc v = p, d'.pc v = p' at hgoes hheld
    cases hgoes with
    | claim => exact .inl ⟨_, rfl, Option.some_inj.mp hheld⟩
    | error => exact .inr ⟨hheld, by simp⟩
    | accept => exact .inr ⟨hheld, by simp⟩
    | store => exact .inr ⟨hheld, by simp⟩
    | connect => cases hheld
    | refused => cases hheld
    | list => cases hheld
    | skip => cases hheld
    | release => cases hheld
    | complete => cases hheld
    | finish => cases hheld
  · rw [(Download.step_effect h).others v hv] at hheld
    refine .inr ⟨hheld, ?_⟩
    rintro w k rfl rfl
    -- the segment of a claim is FREE, the one that `v` holds is DOWNLOADING
    obtain ⟨_, _, _, hfree, _⟩ := Download.claim_spec h
    rw [ht.downloading hheld] at hfree
    cases hfree

private theorem Accounted.returns (ha : Accounted es t) {e : Event W}
    (h : step peer t (.returns e) = some t') : Accounted (es ++ [.returns e]) t' := by
  obtain ⟨halive, hstep, hthrown⟩ := returns_spec h
  obtain ⟨b, ht⟩ := ha.board
  refine ⟨?_, ?_, ?_, ?_⟩
  · obtain ⟨b', -, ht'⟩ := ht.step hstep
    exact ⟨b', ht'⟩
  · intro v i hheld
    rw [lastClaim_snoc]
    rcases holder_step ht hstep hheld with ⟨k, rfl, rfl⟩ | ⟨hbefore, hother⟩
    · exact if_pos rfl
    · have hlast := ha.holder v i hbefore
      cases e with
      | claim w k => exact (if_neg (hother w k rfl)).trans hlast
      | _ => exact hlast
  · intro w
    rw [hthrown, ha.thrown w]
    simp
  · intro w hw hdone
    rw [hthrown] at hw
    -- the thread of `w` has left `work`, so the call was not one of its own
    have hother : e.worker ≠ some w := by
      intro hworker
      rw [halive w hworker] at hw
      cases hw
    apply ha.inside w hw
    rw [isDone, ← (Download.step_effect hstep).others w hother]
    exact hdone

private theorem Accounted.throws (ha : Accounted es t) {w : W} {left : Host}
    (h : step peer t (.throws w left) = some t') : Accounted (es ++ [.throws w left]) t' := by
  obtain ⟨hinside, hthrown, hfile, hpc⟩ := throws_spec h
  refine ⟨?_, ?_, ?_, ?_⟩
  · obtain ⟨b, ht⟩ := ha.board
    exact ⟨b, ht.silent (fun i ↦ by rw [hfile]) fun v ↦ by rw [hpc]⟩
  · intro v i hheld
    rw [hpc] at hheld
    rw [lastClaim_snoc]
    exact ha.holder v i hheld
  · intro v
    rw [hthrown, Function.update_apply]
    split
    · next hv =>
      rw [hv]
      exact iff_of_true rfl ⟨left, by simp⟩
    · next hv =>
      rw [ha.thrown v]
      simp [hv]
  · intro v hv
    rw [isDone, hpc]
    rw [hthrown, Function.update_apply] at hv
    split at hv
    · next heq =>
      rw [heq]
      exact hinside
    · exact ha.inside v hv

private theorem accounted_run {file : File} {host : Host} (hfresh : file.Fresh)
    (hrun : Run (step peer) Any (start file host) es t) : Accounted es t := by
  refine hrun.traceInvariant (P := Accounted) ⟨?_, ?_, ?_, ?_⟩ ?_
  · exact ⟨_, Download.tracks_start hfresh host⟩
  · intro w i hheld
    cases hheld
  · simp [start]
  · intro w hw
    cases hw
  · intro es t e t' _ ha _ hstep
    cases e with
    | returns e => exact ha.returns hstep
    | throws w left => exact ha.throws hstep

/-- When the thread body of a worker has ended, in whatever interleaving with the others, it has
cleaned up exactly when no exception has left its `work`. -/
theorem cleanedUp_iff {file : File} {host : Host} (hfresh : file.Fresh)
    (hrun : Run (step peer) Any (start file host) es t) {w : W} (hended : t.Ended w) :
    CleanedUp es t w ↔ ∀ left, .throws w left ∉ es := by
  have ha := accounted_run hfresh hrun
  constructor
  · intro hclean left hmem
    exact ha.inside w ((ha.thrown w).mpr ⟨left, hmem⟩) hclean.done
  · intro hreturns
    have hdone : t.isDone w := by
      refine hended.resolve_right fun hthrown ↦ ?_
      obtain ⟨left, hmem⟩ := (ha.thrown w).mp hthrown
      exact hreturns left hmem
    refine ⟨hdone, ?_⟩
    intro i hdownloading hlast
    obtain ⟨b, ht⟩ := ha.board
    obtain ⟨v, hheld, -⟩ := ht.existsUnique hdownloading
    -- the holder claimed the segment last, so it is `w`, but a worker that is done holds nothing
    rw [ha.holder v i hheld, Option.some_inj] at hlast
    rw [hlast, hdone] at hheld
    cases hheld

end

/-! ### An exception behind a claim -/

/-- Two workers of the file of one byte. -/
def byteThreads : WorkerThreads Bool :=
  start (.ofTorrent byteTorrent []) (emptyHost.createLocalFile byteTorrent)

/-- The request of one worker throws behind its claim; the other passes the segment. -/
def brokenOff : List (ThreadEvent Bool) :=
  [.returns (.connect false .open), .returns (.connect true .open),
    .returns (.list false (listOf [0])), .returns (.list true (listOf [0])),
    .returns (.claim true 0), .throws true emptyHost, .returns (.skip false 0),
    .returns (.finish false)]

/-- Both threads have ended. -/
private theorem brokenOff_runs :
    ((brokenOff.foldlM (step somePeer) byteThreads).map fun t ↦
      (t.thrown true, t.download.file.stateOf 0, decide (t.isDone true), decide (t.isDone false))) =
        some (true, some .downloading, false, true) := by
  decide

/-- The worker that has passed the segment has cleaned up, the other one has not. -/
theorem cleanedUp_iff_brokenOff :
    ∃ t, brokenOff.foldlM (step somePeer) byteThreads = some t ∧ ∀ w,
      (CleanedUp brokenOff t w ↔ ∀ left, .throws w left ∉ brokenOff) := by
  obtain ⟨t, ht, hvalues⟩ := Option.map_eq_some_iff.mp brokenOff_runs
  simp only [Prod.mk.injEq, decide_eq_true_eq, decide_eq_false_iff_not] at hvalues
  obtain ⟨hthrown, -, -, hdone⟩ := hvalues
  refine ⟨t, ht, fun w ↦ ?_⟩
  apply cleanedUp_iff (File.fresh_ofTorrent byteTorrent []) (Run.of_foldlM ht Meets.any)
  cases w with
  | false => exact .inl hdone
  | true => exact .inr hthrown

/-- The worker is not done, and its segment is DOWNLOADING. -/
theorem not_cleanedUp_brokenOff :
    ∃ t, brokenOff.foldlM (step somePeer) byteThreads = some t ∧ t.Ended true ∧
      t.download.file.stateOf 0 = some .downloading ∧ lastClaim 0 brokenOff = some true ∧
      ¬ CleanedUp brokenOff t true := by
  obtain ⟨t, ht, hvalues⟩ := Option.map_eq_some_iff.mp brokenOff_runs
  simp only [Prod.mk.injEq, decide_eq_true_eq, decide_eq_false_iff_not] at hvalues
  obtain ⟨hthrown, hstate, hdone, -⟩ := hvalues
  exact ⟨t, ht, .inr hthrown, hstate, rfl, fun hclean ↦ hdone hclean.done⟩

end WorkerThreads

end P2PNetwork.Client
