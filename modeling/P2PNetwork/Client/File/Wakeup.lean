import P2PNetwork.Client.File.Locks
import Mathlib.Data.Fintype.Defs

/-!
# Threads that wait for a lock

When all threads are outside the file manager or asleep, nobody is left who could notify. A
sleeping thread is right to sleep then, if no thread has gone to sleep behind the last
notification for it and no `readUnlock`, which does not notify, has taken an entry from under
it.
-/

open Lib

namespace P2PNetwork.Client

/-- The lock that a thread has found taken and is about to wait for. -/
def LockPc.waits : LockPc → Option (Access × Filename)
  | .blocked access fileName => some (access, fileName)
  | _ => none

namespace Locks

variable {T : Type}

/-- The table that a thread tests for its access. -/
def tested (s : Locks T) : Access → List Filename
  | .read => s.writeLocked
  | .write => s.readLocked

/-- The locks that keep a thread from its access. -/
def holders (s : Locks T) : Access → List (T × Filename)
  | .read => s.writers
  | .write => s.readers

/-- Every thread is outside the file manager or asleep. -/
def Quiet (s : Locks T) : Prop := ∀ t, s.pc t = .outside ∨ ∃ a f, s.pc t = .asleep a f

/-- Some thread is about to notify. -/
def Notifies (s : Locks T) : Prop := ∃ u, s.pc u = .notifying

/-- Every sleeping thread waits for a file that is still in its table and that some thread
holds. -/
structure NoneLost (s : Locks T) : Prop where
  tested : ∀ t a f, s.pc t = .asleep a f → f ∈ s.tested a
  held : ∀ t a f, s.pc t = .asleep a f → ∃ u, (u, f) ∈ s.holders a

/-- A thread goes to sleep only while its file is still in the table or somebody is about to
notify, and the entry of a file for which a writer sleeps is taken out only in front of a
notification. -/
def Heard (s : Locks T) : LockEvent T → Prop
  | .sleep t => ∀ w ∈ (s.pc t).waits, w.2 ∈ s.tested w.1 ∨ s.Notifies
  | .readUnlock _ f => (∀ u, s.pc u ≠ .asleep .write f) ∨ s.Notifies
  | _ => True

instance [Fintype T] (s : Locks T) : Decidable s.Notifies :=
  inferInstanceAs (Decidable (∃ u, s.pc u = .notifying))

instance [Fintype T] (s : Locks T) : (e : LockEvent T) → Decidable (Heard s e)
  | .sleep t =>
    inferInstanceAs (Decidable (∀ w ∈ (s.pc t).waits, w.2 ∈ s.tested w.1 ∨ s.Notifies))
  | .readUnlock _ f =>
    inferInstanceAs (Decidable ((∀ u, s.pc u ≠ .asleep .write f) ∨ s.Notifies))
  | .lock .. | .test _ | .wake _ | .register .. | .openFails _ | .writeUnlock _ | .notify _ =>
    isTrue trivial

section

variable {s s' : Locks T} {e : LockEvent T}

/-- Only a notification takes a thread away from the point in front of it. -/
private theorem Goes.notifying {locked : List Filename} {t : T} {before after : LockPc}
    (h : Goes locked t before e after) (hbefore : before = .notifying) : e.notifies = true := by
  cases h with
  | notify => rfl
  | _ => cases hbefore

/-- A thread falls asleep behind its own test. -/
private theorem Goes.asleep {locked : List Filename} {t : T} {a : Access} {f : Filename}
    {before after : LockPc} (h : Goes locked t before e after) (hafter : after = .asleep a f) :
    e = .sleep t ∧ before = .blocked a f := by
  cases h with
  | sleep =>
    cases hafter
    exact ⟨rfl, rfl⟩
  | writeUnlock => split at hafter <;> cases hafter
  | _ => cases hafter

/-- Nobody sleeps behind a notification. -/
private theorem not_asleep_of_notifies [DecidableEq T] (he : Effect s e s')
    (hnotify : e.notifies = true) (t : T) (a : Access) (f : Filename) :
    s'.pc t ≠ .asleep a f := by
  intro hasleep
  by_cases ht : t = e.thread
  · rw [ht] at hasleep
    rw [(he.own.asleep hasleep).1] at hnotify
    cases hnotify
  · have hpc := he.others t ht
    rw [if_pos hnotify, hasleep] at hpc
    cases hbefore : s.pc t <;> rw [hbefore] at hpc <;> cases hpc

private theorem notifies_step [DecidableEq T] (he : Effect s e s') (hnotify : e.notifies = false)
    (h : s.Notifies) : s'.Notifies := by
  obtain ⟨u, hu⟩ := h
  have hother : u ≠ e.thread := by
    rintro rfl
    rw [he.own.notifying hu] at hnotify
    cases hnotify
  refine ⟨u, ?_⟩
  rw [he.others u hother, hnotify]
  exact hu

/-- A file leaves the table of the writers by a `writeUnlock`, which notifies. -/
private theorem mem_writeLocked_step [DecidableEq T] (he : Effect s e s') {f : Filename}
    (h : f ∈ s.writeLocked) : f ∈ s'.writeLocked ∨ s'.Notifies := by
  have hown := he.own
  cases he.tables with
  | silent _ _ hwrite => exact .inl (hwrite ▸ h)
  | share _ _ _ hwrite => exact .inl (hwrite ▸ h)
  | «open» _ _ _ hwrite => exact .inl (hwrite ▸ h)
  | readUnlock _ _ hwrite => exact .inl (hwrite ▸ h)
  | writeLock _ _ _ _ hwrite => exact .inl (hwrite ▸ List.mem_append_left _ h)
  | @writeUnlock t g hpc _ hwrite =>
    by_cases hfg : f = g
    · refine .inr ⟨t, ?_⟩
      rw [LockEvent.thread, hpc] at hown
      generalize s'.pc t = after at hown ⊢
      cases hown
      exact if_pos (List.contains_iff_mem.mpr (hfg ▸ h))
    · rw [hwrite]
      exact .inl ((List.mem_erase_of_ne hfg).mpr h)

/-- A file leaves the table of the readers by a `readUnlock` of the file. -/
private theorem mem_readLocked_step [DecidableEq T] (htables : Tables s s' e)
    (hnodup : s.readLocked.Nodup) {f : Filename} (h : f ∈ s.readLocked) :
    f ∈ s'.readLocked ∨ ∃ t, e = .readUnlock t f := by
  cases htables with
  | silent _ hread => exact .inl (hread ▸ h)
  | share _ _ hread => exact .inl (hread ▸ h)
  | writeLock _ _ _ hread => exact .inl (hread ▸ h)
  | writeUnlock _ hread => exact .inl (hread ▸ h)
  | «open» _ _ hread => exact .inl (hread ▸ List.mem_append_left _ h)
  | @readUnlock t g _ hread =>
    by_cases hfg : f = g
    · exact .inr ⟨t, by rw [hfg]⟩
    · rw [hread hnodup]
      exact .inl ((List.mem_erase_of_ne hfg).mpr h)

/-- Every sleeping thread waits for a file that is still in its table, or it will be notified. -/
private def Heeded (s : Locks T) : Prop :=
  ∀ t a f, s.pc t = .asleep a f → f ∈ s.tested a ∨ s.Notifies

private theorem heeded_step [DecidableEq T] (hh : Heeded s) (hnodup : s.readLocked.Nodup)
    (hok : Heard s e) (he : Effect s e s') : Heeded s' := by
  intro t a f hasleep
  cases hnotify : e.notifies with
  | true => exact absurd hasleep (not_asleep_of_notifies he hnotify t a f)
  | false =>
    have hbefore : f ∈ s.tested a ∨ s.Notifies := by
      by_cases ht : t = e.thread
      · rw [ht] at hasleep
        obtain ⟨hsleep, hpc⟩ := he.own.asleep hasleep
        rw [hsleep] at hok
        exact hok (a, f) (by rw [hpc]; rfl)
      · have hpc := he.others t ht
        rw [hnotify, hasleep] at hpc
        exact hh t a f hpc.symm
    rcases hbefore with hmem | hnotifies
    · cases a with
      | read => exact mem_writeLocked_step he hmem
      | write =>
        rcases mem_readLocked_step he.tables hnodup hmem with hmem' | ⟨u, rfl⟩
        · exact .inl hmem'
        · -- the entry is taken from under the sleeping writer
          refine .inr (notifies_step he hnotify (hok.resolve_left fun hnobody ↦ ?_))
          have ht : t ≠ u := by
            rintro rfl
            cases (he.own.asleep hasleep).1
          have hpc := he.others t ht
          rw [hasleep] at hpc
          exact hnobody t hpc.symm
    · exact .inr (notifies_step he hnotify hnotifies)

/-- In every run in which each thread is heard, no wake-up is lost. -/
theorem noneLost_of_heard [DecidableEq T] {host : Host} {es : List (LockEvent T)}
    (hrun : Run step Heard (start host) es s) (hquiet : s.Quiet) : s.NoneLost := by
  have hl := ledger_run hrun
  have hheeded : Heeded s := by
    refine hrun.traceInvariant (P := fun _ s ↦ Heeded s) ?_ ?_
    · intro t a f h
      cases h
    · intro es s e s' hprefix hh hok hstep
      exact heeded_step hh (ledger_run hprefix).nodup hok (step_effect hstep)
  have htested : ∀ t a f, s.pc t = .asleep a f → f ∈ s.tested a := by
    intro t a f hasleep
    refine (hheeded t a f hasleep).resolve_right ?_
    rintro ⟨u, hu⟩
    rcases hquiet u with hout | ⟨b, g, hsleeps⟩
    · rw [hu] at hout
      cases hout
    · rw [hu] at hsleeps
      cases hsleeps
  refine ⟨htested, ?_⟩
  intro t a f hasleep
  cases a with
  | read => exact hl.exists_writer (htested t .read f hasleep)
  | write => exact hl.reader f (htested t .write f hasleep)

end

/-! ### A writer that waits for a reader -/

/-- A reader of two files, and a writer of the first that falls asleep. -/
def writerWaits : List (LockEvent Bool) :=
  [.lock true .read [97], .test true, .register true true, .lock true .read [98], .test true,
    .register true true, .lock false .write [97], .test false, .sleep false]

/-- The reader has the file. -/
theorem noneLost_of_heard_writerWaits :
    ∃ s, writerWaits.foldlM step (start emptyHost) = some s ∧
      s.pc false = .asleep .write [97] ∧ NoneLost s := by
  have hruns : ((writerWaits.foldlM step (start emptyHost)).map fun s ↦
      (s.pc true, s.pc false)) = some (.outside, .asleep .write [97]) := by decide
  have hmeets : Meets step Heard (start emptyHost) writerWaits := by decide
  obtain ⟨s, hs, hpcs⟩ := Option.map_eq_some_iff.mp hruns
  obtain ⟨htrue, hfalse⟩ := Prod.mk.inj hpcs
  refine ⟨s, hs, hfalse, noneLost_of_heard (Run.of_foldlM hs hmeets) fun t ↦ ?_⟩
  cases t with
  | false => exact .inr ⟨.write, [97], hfalse⟩
  | true => exact .inl htrue

/-- Then the reader gives the file back. -/
def writerForgotten : List (LockEvent Bool) := writerWaits ++ [.readUnlock true [97]]

/-- The writer sleeps on. -/
theorem not_noneLost_writerForgotten :
    ∃ s, writerForgotten.foldlM step (start emptyHost) = some s ∧ s.Quiet ∧ ¬ NoneLost s := by
  have hruns : ((writerForgotten.foldlM step (start emptyHost)).map fun s ↦
      (s.pc true, s.pc false, s.readLocked)) =
        some (.outside, .asleep .write [97], [[98]]) := by decide
  obtain ⟨s, hs, hvalues⟩ := Option.map_eq_some_iff.mp hruns
  simp only [Prod.mk.injEq] at hvalues
  obtain ⟨htrue, hfalse, hlocked⟩ := hvalues
  refine ⟨s, hs, fun t ↦ ?_, fun hnone ↦ ?_⟩
  · cases t with
    | false => exact .inr ⟨.write, [97], hfalse⟩
    | true => exact .inl htrue
  · have hmem := hnone.tested false .write [97] hfalse
    rw [tested, hlocked] at hmem
    exact absurd hmem (by decide)

end Locks

end P2PNetwork.Client
