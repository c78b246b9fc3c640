import P2PNetwork.Client.File.Exclusion
import Mathlib.Data.List.Count

/-!
# Readers behind a store that could not open its file

A storing method that cannot open its file returns with the write lock taken
(`src/client/file/FileManager.cpp:28–31`, `60–63`). The entry it leaves in the table of the
writers is nobody's: every other entry goes with the `writeUnlock` of its thread, this one stays.
-/

open Lib

namespace P2PNetwork.Client

/-- The file that a thread waits for in `readLock`. -/
def LockPc.awaits : LockPc → Option Filename
  | .testing .read fileName => some fileName
  | .blocked .read fileName => some fileName
  | .asleep .read fileName => some fileName
  | _ => none

namespace Locks

variable {T : Type}

/-- The write locks of a file that a thread still has to give back. -/
def due (s : Locks T) (t : T) (f : Filename) : Nat := if s.pc t = .storing f then 1 else 0

section

variable {s : Locks T} {t : T} {f : Filename}

theorem due_of_eq (h : s.pc t = .storing f) : s.due t f = 1 := if_pos h

theorem due_of_ne (h : s.pc t ≠ .storing f) : s.due t f = 0 := if_neg h

end

variable [DecidableEq T]

/-- Among the events a store of the file by the thread has failed to open. -/
def FailedBy (host : Host) (es : List (LockEvent T)) (t : T) (f : Filename) : Prop :=
  ∃ es₁ es₂ s₁, es = es₁ ++ .openFails t :: es₂ ∧ Run step Any (start host) es₁ s₁ ∧
    s₁.pc t = .storing f

/-- Among the events a store of the file has failed to open. -/
def Abandoned (host : Host) (es : List (LockEvent T)) (f : Filename) : Prop :=
  ∃ t, FailedBy host es t f

/-- What helps a reader: a store that gives its lock back, and the reader's own way round its loop,
on which `wait` may return without a notification. -/
def Helps (t : T) (_ : Locks T) : LockEvent T → Prop
  | .writeUnlock _ => True
  | .test u | .sleep u | .wake u => u = t
  | _ => False

/-- A thread has more write locks of a file than it still gives back. -/
def Left (s : Locks T) (t : T) (f : Filename) : Prop := s.due t f < s.writers.count (t, f)

variable {s s' : Locks T} {e : LockEvent T} {t : T} {f : Filename}

/-! ### What a step does to the write locks -/

private theorem storing_woken {pc : LockPc} : woken pc = .storing f ↔ pc = .storing f := by
  cases pc <;> simp [woken]

private theorem due_of_other (he : Effect s e s') (ht : t ≠ e.thread) :
    s'.due t f = s.due t f := by
  unfold due
  rw [he.others t ht]
  split
  · simp only [storing_woken]
  · rfl

private theorem count_of_other (htables : Tables s s' e) (ht : t ≠ e.thread) :
    s'.writers.count (t, f) = s.writers.count (t, f) := by
  cases htables with
  | silent _ _ _ _ h => rw [h]
  | share _ _ _ _ _ h => rw [h]
  | «open» _ _ _ _ _ h => rw [h]
  | readUnlock _ _ _ _ h => rw [h]
  | writeLock _ _ _ _ _ _ h =>
    rw [h]
    apply List.count_cons_of_ne
    exact fun heq ↦ ht (Prod.mk.inj heq).1.symm
  | writeUnlock _ _ _ _ h =>
    rw [h]
    apply List.count_erase_of_ne
    exact fun heq ↦ ht (Prod.mk.inj heq).1

/-- A step that takes its thread neither into a store nor out of one. -/
private theorem left_of_free (hbefore : ∀ g, s.pc t ≠ .storing g)
    (hafter : ∀ g, s'.pc t ≠ .storing g) (hwriters : s'.writers = s.writers) :
    Left s' t f ↔ Left s t f := by
  unfold Left
  rw [due_of_ne (hbefore f), due_of_ne (hafter f), hwriters]

/-- A store begins with one lock more, and still gives it back. -/
private theorem left_of_writeLock {g : Filename} (hbefore : ∀ g, s.pc t ≠ .storing g)
    (hafter : s'.pc t = .storing g) (hwriters : s'.writers = (t, g) :: s.writers) :
    Left s' t f ↔ Left s t f := by
  unfold Left
  rw [due_of_ne (hbefore f), hwriters]
  by_cases hfg : g = f
  · rw [hfg] at hafter ⊢
    rw [due_of_eq hafter, List.count_cons_self]
    omega
  · have hne : s'.pc t ≠ .storing f := by
      rw [hafter]
      exact fun heq ↦ hfg (LockPc.storing.inj heq)
    rw [due_of_ne hne, List.count_cons_of_ne fun heq ↦ hfg (Prod.mk.inj heq).2]

/-- A store that gives its lock back takes nothing from what was left before. -/
private theorem left_of_writeUnlock {g : Filename} (hl : Ledger s) (hbefore : s.pc t = .storing g)
    (hafter : ∀ g, s'.pc t ≠ .storing g) (hwriters : s'.writers = s.writers.erase (t, g)) :
    Left s' t f ↔ Left s t f := by
  unfold Left
  rw [due_of_ne (hafter f), hwriters]
  by_cases hfg : g = f
  · rw [hfg] at hbefore ⊢
    have hheld : 0 < s.writers.count (t, f) := List.count_pos_iff.mpr (hl.storing t f hbefore)
    rw [due_of_eq hbefore, List.count_erase_self]
    omega
  · have hne : s.pc t ≠ .storing f := by
      rw [hbefore]
      exact fun heq ↦ hfg (LockPc.storing.inj heq)
    rw [due_of_ne hne, List.count_erase_of_ne fun heq ↦ hfg (Prod.mk.inj heq).2.symm]

/-- A store that returns early leaves its lock. -/
private theorem left_of_openFails {g : Filename} (hl : Ledger s) (hbefore : s.pc t = .storing g)
    (hafter : ∀ g, s'.pc t ≠ .storing g) (hwriters : s'.writers = s.writers) :
    Left s' t f ↔ Left s t f ∨ g = f := by
  unfold Left
  rw [due_of_ne (hafter f), hwriters]
  by_cases hfg : g = f
  · rw [hfg] at hbefore
    have hheld : 0 < s.writers.count (t, f) := List.count_pos_iff.mpr (hl.storing t f hbefore)
    exact iff_of_true hheld (.inr hfg)
  · have hne : s.pc t ≠ .storing f := by
      rw [hbefore]
      exact fun heq ↦ hfg (LockPc.storing.inj heq)
    rw [due_of_ne hne]
    exact (or_iff_left hfg).symm

private theorem left_test (h : s.test t = some s') : Left s' t f ↔ Left s t f := by
  unfold test at h
  split at h
  · next g hpc =>
    split at h <;> cases h <;> exact left_of_free (by simp [hpc]) (by simp) rfl
  · next g hpc =>
    unfold Host.writeLock at h
    split_ifs at h
    · cases h
      exact left_of_free (by simp [hpc]) (by simp) rfl
    · cases h
      exact left_of_writeLock (by simp [hpc]) (pc_goto_self _ _ _) rfl
  · cases h

private theorem left_writeUnlock (hl : Ledger s) (h : s.writeUnlock t = some s') :
    Left s' t f ↔ Left s t f := by
  unfold writeUnlock at h
  split at h
  · next g hpc =>
    cases h
    refine left_of_writeUnlock hl hpc (fun g' ↦ ?_) rfl
    rw [pc_goto_self]
    split <;> simp
  · cases h

private theorem left_openFails (hl : Ledger s) (h : step s (.openFails t) = some s') :
    Left s' t f ↔ Left s t f ∨ s.pc t = .storing f := by
  simp only [step] at h
  split at h
  · next g hpc =>
    cases h
    rw [hpc, LockPc.storing.injEq]
    apply left_of_openFails hl hpc
    · simp
    · rfl
  · cases h

/-- A step leaves a lock of its thread exactly if it is a store that cannot open its file. -/
private theorem left_own (hl : Ledger s) (h : step s e = some s') :
    Left s' e.thread f ↔
      Left s e.thread f ∨ e = .openFails e.thread ∧ s.pc e.thread = .storing f := by
  have hown := (step_effect h).own
  have htables := (step_effect h).tables
  generalize hbefore : s.pc e.thread = before at hown
  generalize hafter : s'.pc e.thread = after at hown
  -- the last three events are the ones that touch the write locks
  have hfree : (∀ g, before ≠ .storing g) → (∀ g, after ≠ .storing g) →
      s'.writers = s.writers → (Left s' e.thread f ↔ Left s e.thread f) := by
    intro hb ha hw
    exact left_of_free (by rw [hbefore]; exact hb) (by rw [hafter]; exact ha) hw
  cases e with
  | test t => simpa [LockEvent.thread] using left_test h
  | writeUnlock t => simpa [LockEvent.thread] using left_writeUnlock hl h
  | openFails t =>
    simp only [LockEvent.thread] at hbefore ⊢
    simpa [hbefore] using left_openFails (f := f) hl h
  | _ =>
    have hwriters : s'.writers = s.writers := by
      cases htables with
      | _ => assumption
    rw [hfree (by cases hown with | _ => simp) (by cases hown with | _ => simp) hwriters]
    simp [LockEvent.thread]

/-- A step of a thread leaves a lock of its own, and of no other thread. -/
private theorem left_step (hl : Ledger s) (h : step s e = some s') :
    Left s' t f ↔ Left s t f ∨ e = .openFails t ∧ s.pc t = .storing f := by
  by_cases ht : t = e.thread
  · rw [ht]
    exact left_own hl h
  · have hsame : Left s' t f ↔ Left s t f := by
      unfold Left
      rw [due_of_other (step_effect h) ht, count_of_other (step_effect h).tables ht]
    rw [hsame]
    refine (or_iff_left ?_).symm
    rintro ⟨rfl, -⟩
    exact ht rfl

/-! ### Whole runs -/

variable {host : Host} {es es' : List (LockEvent T)}

private theorem failedBy_snoc (hrun : Run step Any (start host) es s) :
    FailedBy host (es ++ [e]) t f ↔
      FailedBy host es t f ∨ e = .openFails t ∧ s.pc t = .storing f := by
  constructor
  · rintro ⟨es₁, es₂, s₁, hsplit, hrun₁, hpc⟩
    rcases split_snoc hsplit with ⟨-, rfl, rfl⟩ | ⟨es₃, rfl, rfl⟩
    · have hsame : some s₁ = some s := by rw [← hrun₁.foldlM_eq, hrun.foldlM_eq]
      exact .inr ⟨rfl, Option.some_inj.mp hsame ▸ hpc⟩
    · exact .inl ⟨es₁, es₃, s₁, rfl, hrun₁, hpc⟩
  · rintro (⟨es₁, es₂, s₁, rfl, hrun₁, hpc⟩ | ⟨rfl, hpc⟩)
    · exact ⟨es₁, es₂ ++ [e], s₁, by simp, hrun₁, hpc⟩
    · exact ⟨es, [], s, rfl, hrun, hpc⟩

/-- A thread has a lock left exactly if one of its stores of the file has failed to open. -/
theorem left_iff (hrun : Run step Any (start host) es s) :
    Left s t f ↔ FailedBy host es t f := by
  refine hrun.traceInvariant (P := fun es s ↦ Left s t f ↔ FailedBy host es t f) ?_ ?_
  · refine iff_of_false (by simp [Left, start]) ?_
    rintro ⟨es₁, es₂, -, hsplit, -⟩
    simp at hsplit
  · intro es s e s' hprefix ih _ hstep
    rw [left_step (ledger_run hprefix) hstep, failedBy_snoc hprefix, ih]

/-- A file is in the table of the writers exactly if a thread stores into it or a store of it has
failed to open. -/
theorem mem_writeLocked_iff (hrun : Run step Any (start host) es s) :
    f ∈ s.writeLocked ↔ (∃ t, s.pc t = .storing f) ∨ Abandoned host es f := by
  have hl := ledger_run hrun
  constructor
  · intro hmem
    obtain ⟨t, ht⟩ := hl.exists_writer hmem
    by_cases hpc : s.pc t = .storing f
    · exact .inl ⟨t, hpc⟩
    · refine .inr ⟨t, (left_iff hrun).mp ?_⟩
      unfold Left
      rw [due_of_ne hpc]
      exact List.count_pos_iff.mpr ht
  · rintro (⟨t, hpc⟩ | ⟨t, hfailed⟩)
    · exact hl.mem_writeLocked (hl.storing t f hpc)
    · apply hl.mem_writeLocked (t := t)
      exact List.count_pos_iff.mp (Nat.zero_lt_of_lt ((left_iff hrun).mpr hfailed))

/-! ### Readers that wait -/

omit [DecidableEq T] in
private theorem awaits_woken {pc : LockPc} : (woken pc).awaits = pc.awaits := by
  cases pc with
  | asleep a g => cases a <;> rfl
  | _ => rfl

omit [DecidableEq T] in
/-- While the file is in the table of the writers, a reader goes round the loop of `readLock`. -/
private theorem Goes.awaits {locked : List Filename} {before after : LockPc}
    (h : Goes locked t before e after) (hlocked : f ∈ locked) (hwait : before.awaits = some f) :
    after.awaits = some f := by
  cases h with
  | passed hfree =>
    cases hwait
    exact absurd hlocked hfree
  | @blocked a g => cases a <;> exact hwait
  | @sleep a g => cases a <;> exact hwait
  | @wake a g => cases a <;> exact hwait
  | _ => cases hwait

private theorem awaits_step (he : Effect s e s') (hlocked : f ∈ s.writeLocked)
    (hwait : (s.pc t).awaits = some f) : (s'.pc t).awaits = some f := by
  by_cases ht : t = e.thread
  · rw [ht] at hwait ⊢
    exact he.own.awaits hlocked hwait
  · rw [he.others t ht]
    split
    · rw [awaits_woken, hwait]
    · exact hwait

private theorem Abandoned.append (h : Abandoned host es f) (es' : List (LockEvent T)) :
    Abandoned host (es ++ es') f := by
  obtain ⟨t, es₁, es₂, s₁, rfl, hrun₁, hpc⟩ := h
  exact ⟨t, es₁, es₂ ++ es', s₁, by simp, hrun₁, hpc⟩

/-- Behind a store that could not open its file, a reader of the file waits in every state that
is ever reached. -/
theorem awaits_of_abandoned (hrun : Run step Any (start host) es s) (h : Abandoned host es f)
    (hwait : (s.pc t).awaits = some f) (hrun' : Run step Any s es' s') :
    (s'.pc t).awaits = some f := by
  refine hrun'.traceInvariant (P := fun _ s' ↦ (s'.pc t).awaits = some f) hwait ?_
  intro es₁ s₁ e s₂ hprefix ih _ hstep
  apply awaits_step (step_effect hstep) _ ih
  exact (mem_writeLocked_iff (hrun.append hprefix)).mpr (.inr (h.append es₁))

/-- A reader of a file that is not in the table of the writers gets behind the test. -/
private theorem passes_of_free (hfree : f ∉ s.writeLocked) (hwait : (s.pc t).awaits = some f) :
    ∃ es' s', Run step (Helps t) s es' s' ∧ s'.pc t = .registering f := by
  have hunlocked : f ∉ s.host.fm.writeLockedFiles := hfree
  have htests : ∀ u : Locks T, Helps t u (.test t) := fun _ ↦ rfl
  have hsleeps : Helps t s (.sleep t) := rfl
  have hwakes : ∀ u : Locks T, Helps t u (.wake t) := fun _ ↦ rfl
  have htest : ∀ u : Locks T, u.host = s.host → u.pc t = .testing .read f →
      step u (.test t) = some (u.goto t (.registering f)) := by
    intro u hhost hpc
    simp [step, test, hpc, hhost, hunlocked]
  have hwake : ∀ u : Locks T, u.host = s.host → u.pc t = .asleep .read f →
      Run step (Helps t) u [.wake t, .test t]
        ((u.goto t (.testing .read f)).goto t (.registering f)) := by
    intro u hhost hpc
    have hfirst : step u (.wake t) = some (u.goto t (.testing .read f)) := by simp [step, hpc]
    exact (Run.single (hwakes u) hfirst).snoc (htests _) (htest _ hhost (pc_goto_self _ _ _))
  cases hpc : s.pc t with
  | testing a g =>
    cases a <;> rw [hpc] at hwait <;> cases hwait
    exact ⟨_, _, Run.single (htests s) (htest s rfl hpc), pc_goto_self _ _ _⟩
  | blocked a g =>
    cases a <;> rw [hpc] at hwait <;> cases hwait
    have hsleep : step s (.sleep t) = some (s.goto t (.asleep .read f)) := by simp [step, hpc]
    exact ⟨_, _, (Run.single hsleeps hsleep).append (hwake _ rfl (pc_goto_self _ _ _)),
      pc_goto_self _ _ _⟩
  | asleep a g =>
    cases a <;> rw [hpc] at hwait <;> cases hwait
    exact ⟨_, _, hwake s rfl hpc, pc_goto_self _ _ _⟩
  | _ =>
    rw [hpc] at hwait
    cases hwait

/-- A store gives its lock back, and leaves a thread that waits where it is. -/
private theorem exists_writeUnlock {u : T} (hpc : s.pc u = .storing f) (hut : t ≠ u) :
    ∃ s', step s (.writeUnlock u) = some s' ∧ s'.pc t = s.pc t ∧
      s'.writeLocked = s.writeLocked.erase f := by
  have hstep : (step s (.writeUnlock u)).isSome := by simp [step, writeUnlock, hpc]
  obtain ⟨s', hs'⟩ := Option.isSome_iff_exists.mp hstep
  refine ⟨s', hs', (step_effect hs').others t hut, ?_⟩
  simp only [step, writeUnlock, hpc, Option.some.injEq] at hs'
  rw [← hs']
  rfl

/-- Where no store of its file has failed to open, a reader can get behind the test of
`readLock`. -/
private theorem exists_passes (hrun : Run step Any (start host) es s)
    (hwait : (s.pc t).awaits = some f) (h : ¬ Abandoned host es f) :
    ∃ es' s', Run step (Helps t) s es' s' ∧ s'.pc t = .registering f := by
  -- each store that ends takes one entry out of the table
  induction hn : s.writeLocked.count f generalizing es s with
  | zero => exact passes_of_free (List.count_eq_zero.mp hn) hwait
  | succ n ih =>
    have hmem : f ∈ s.writeLocked := List.count_pos_iff.mp (by omega)
    obtain ⟨u, hu⟩ := ((mem_writeLocked_iff hrun).mp hmem).resolve_right h
    have hut : t ≠ u := by
      rintro rfl
      rw [hu] at hwait
      cases hwait
    obtain ⟨s₁, hstep, hpc, hlocked⟩ := exists_writeUnlock hu hut
    have hrun₁ := hrun.snoc (e := .writeUnlock u) trivial hstep
    have hkept : ¬ Abandoned host (es ++ [.writeUnlock u]) f := by
      rintro ⟨v, hv⟩
      rcases (failedBy_snoc hrun).mp hv with hv | ⟨heq, -⟩
      · exact h ⟨v, hv⟩
      · cases heq
    obtain ⟨es', s', hrun', hpassed⟩ := ih hrun₁ (by rw [hpc]; exact hwait) hkept
      (by rw [hlocked, List.count_erase_self, hn]; rfl)
    exact ⟨_, s', (Run.single trivial hstep).append hrun', hpassed⟩

/-- A file is in the table of the writers exactly if a thread stores into it or a store of it has
failed to open. A thread that waits to read a file waits for ever behind such a failure; without
one it can get behind the test of `readLock`, if the stores of the file give their locks back and
its own `wait` returns. -/
theorem passes_unless_abandoned (hrun : Run step Any (start host) es s) :
    (∀ f, f ∈ s.writeLocked ↔ (∃ t, s.pc t = .storing f) ∨ Abandoned host es f) ∧
      ∀ t f, (s.pc t).awaits = some f →
        (Abandoned host es f → ∀ es' s', Run step Any s es' s' → (s'.pc t).awaits = some f) ∧
        (¬ Abandoned host es f →
          ∃ es' s', Run step (Helps t) s es' s' ∧ s'.pc t = .registering f) := by
  refine ⟨fun f ↦ mem_writeLocked_iff hrun, fun t f hwait ↦ ⟨?_, ?_⟩⟩
  · exact fun h es' s' hrun' ↦ awaits_of_abandoned hrun h hwait hrun'
  · exact exists_passes hrun hwait

/-! ### One store and one reader -/

/-- The store cannot open its file, and the reader falls asleep. -/
def orphaned : List (LockEvent Bool) :=
  [.lock true .write [97], .test true, .openFails true, .lock false .read [97], .test false,
    .sleep false]

/-- The reader sleeps for ever. -/
theorem passes_unless_abandoned_orphaned :
    ∃ s, orphaned.foldlM step (start emptyHost) = some s ∧ [97] ∈ s.writeLocked ∧
      ∀ es' s', Run step Any s es' s' → (s'.pc false).awaits = some [97] := by
  have hruns : ((orphaned.foldlM step (start emptyHost)).map fun s ↦ s.pc false) =
      some (.asleep .read [97]) := by decide
  have hopens : (([.lock true .write [97], .test true] : List (LockEvent Bool)).foldlM step
      (start emptyHost)).map (fun s ↦ s.pc true) = some (.storing [97]) := by decide
  obtain ⟨s, hs, hpc⟩ := Option.map_eq_some_iff.mp hruns
  obtain ⟨s₁, hs₁, hpc₁⟩ := Option.map_eq_some_iff.mp hopens
  have hwait : (s.pc false).awaits = some [97] := by rw [hpc]; rfl
  have hfailed : Abandoned emptyHost orphaned [97] :=
    ⟨true, _, _, s₁, rfl, Run.of_foldlM hs₁ Meets.any, hpc₁⟩
  obtain ⟨htable, hreaders⟩ := passes_unless_abandoned (Run.of_foldlM hs Meets.any)
  exact ⟨s, hs, (htable [97]).mpr (.inr hfailed), (hreaders false [97] hwait).1 hfailed⟩

end Locks

end P2PNetwork.Client
