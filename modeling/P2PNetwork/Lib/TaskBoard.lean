import P2PNetwork.Lib.Run
import Mathlib.Logic.Function.Basic

/-!
# Tasks claimed and committed by competing workers

An abstract board for work that must be done once. A free task is claimed by one
worker, who either abandons it, which frees it again, or commits its effect and
then closes it. The owner is part of the cell, so two owners of one task cannot
be written down. Results: a committed task is never freed, and along any run each
task is committed at most once.
-/

namespace Lib

universe u v

variable {W : Type u} {ι : Type v}

/-- The state of one task, with the worker that owns it where there is one. -/
inductive Cell (W : Type u)
  | free
  | claimed (w : W)
  | committed (w : W)
  | done
  deriving DecidableEq

/-- The worker that owns a task. -/
def Cell.owner : Cell W → Option W
  | .free => none
  | .claimed w => some w
  | .committed w => some w
  | .done => none

/-- What a worker can do to a task. -/
inductive Move (W : Type u) (ι : Type v)
  | claim (w : W) (i : ι)
  | abandon (w : W) (i : ι)
  | commit (w : W) (i : ι)
  | close (w : W) (i : ι)

namespace Move

/-- The task a move is about. -/
def task : Move W ι → ι
  | .claim _ i => i
  | .abandon _ i => i
  | .commit _ i => i
  | .close _ i => i

/-- The worker that makes a move. -/
def worker : Move W ι → W
  | .claim w _ => w
  | .abandon w _ => w
  | .commit w _ => w
  | .close w _ => w

/-- The cell a move starts from: a worker can only act on what it owns. -/
def source : Move W ι → Cell W
  | .claim _ _ => .free
  | .abandon w _ => .claimed w
  | .commit w _ => .claimed w
  | .close w _ => .committed w

/-- The cell a move leaves behind. -/
def target : Move W ι → Cell W
  | .claim w _ => .claimed w
  | .abandon _ _ => .free
  | .commit w _ => .committed w
  | .close _ _ => .done

/-- Nobody but the worker of a move owns its task before it. -/
theorem owner_source {m : Move W ι} {w : W} (h : m.source.owner = some w) : w = m.worker := by
  cases m <;> cases h <;> rfl

/-- Nobody but the worker of a move owns its task after it. -/
theorem owner_target {m : Move W ι} {w : W} (h : m.target.owner = some w) : w = m.worker := by
  cases m <;> cases h <;> rfl

/-- The moves that commit task `i`. -/
def isCommit [DecidableEq ι] (i : ι) : Move W ι → Bool
  | .commit _ j => decide (j = i)
  | _ => false

end Move

/-- A board assigns a cell to every task. -/
abbrev Board (W : Type u) (ι : Type v) := ι → Cell W

namespace Board

/-- The board on which nobody has claimed anything. -/
def fresh : Board W ι := fun _ ↦ .free

/-- The effect of task `i` has taken place. -/
def Settled (b : Board W ι) (i : ι) : Prop := (∃ w, b i = .committed w) ∨ b i = .done

section

variable [DecidableEq W] [DecidableEq ι]

/-- One move, possible only from the cell it starts from. -/
def step (b : Board W ι) (m : Move W ι) : Option (Board W ι) :=
  if b m.task = m.source then some (Function.update b m.task m.target) else none

/-- A move happens exactly in its source cell and changes nothing but its task. -/
theorem step_eq_some {b b' : Board W ι} {m : Move W ι} :
    step b m = some b' ↔ b m.task = m.source ∧ Function.update b m.task m.target = b' := by
  simp [step]

/-- A move leaves every other task alone. -/
theorem step_other {b b' : Board W ι} {m : Move W ι} {i : ι} (h : step b m = some b')
    (hi : i ≠ m.task) : b' i = b i := by
  obtain ⟨-, rfl⟩ := step_eq_some.mp h
  exact Function.update_of_ne hi _ _

/-- A move turns its task from its source cell into its target cell. -/
theorem step_task {b b' : Board W ι} {m : Move W ι} (h : step b m = some b') :
    b m.task = m.source ∧ b' m.task = m.target := by
  obtain ⟨hs, rfl⟩ := step_eq_some.mp h
  exact ⟨hs, Function.update_self _ _ _⟩

/-- A closed task stays closed under every move: no move starts from a closed cell. -/
theorem done_step {b b' : Board W ι} {m : Move W ι} {i : ι}
    (h : step b m = some b') (hd : b i = .done) : b' i = .done := by
  have hi : i ≠ m.task := by
    rintro rfl
    have hs := (step_task h).1
    rw [hd] at hs
    cases m <;> cases hs
  rw [step_other h hi, hd]

/-- A closed task stays closed along every run. -/
theorem done_run {ok : Board W ι → Move W ι → Prop} {b b' : Board W ι} {ms : List (Move W ι)}
    {i : ι} (hrun : Run step ok b ms b') (hd : b i = .done) : b' i = .done :=
  hrun.invariant (P := fun b ↦ b i = .done) hd fun _ _ _ hd _ hs ↦ done_step hs hd

/-- A move settles the task it commits and leaves every other task as settled as it was. -/
theorem settled_step {b b' : Board W ι} {m : Move W ι} (h : step b m = some b') (i : ι) :
    Settled b' i ↔ Settled b i ∨ m.isCommit i = true := by
  by_cases hi : i = m.task
  · subst hi
    obtain ⟨hs, ht⟩ := step_task h
    unfold Settled
    rw [hs, ht]
    cases m <;> simp [Move.source, Move.target, Move.isCommit, Move.task]
  · have hc : m.isCommit i = false := by
      cases m <;> simp_all [Move.isCommit, Move.task, eq_comm]
    simp [Settled, step_other h hi, hc]

/-- Only a task that is not settled yet can be committed. -/
theorem not_settled_of_commit {b b' : Board W ι} {m : Move W ι} {i : ι}
    (h : step b m = some b') (hc : m.isCommit i = true) : ¬ Settled b i := by
  cases m with
  | commit w j =>
    have hj : j = i := by simpa [Move.isCommit] using hc
    subst hj
    have hs : b j = .claimed w := (step_task h).1
    simp [Settled, hs]
  | claim w j => simp [Move.isCommit] at hc
  | abandon w j => simp [Move.isCommit] at hc
  | close w j => simp [Move.isCommit] at hc

/-- Along a run from the fresh board a task has been committed exactly once if it is
settled and never if it is not. -/
theorem commits_eq {ok : Board W ι → Move W ι → Prop} {b : Board W ι} {ms : List (Move W ι)}
    (hrun : Run step ok fresh ms b) (i : ι) :
    (Settled b i → ms.countP (Move.isCommit i) = 1) ∧
      (¬ Settled b i → ms.countP (Move.isCommit i) = 0) := by
  refine hrun.traceInvariant (P := fun ms b ↦ (Settled b i → ms.countP (Move.isCommit i) = 1) ∧
    (¬ Settled b i → ms.countP (Move.isCommit i) = 0)) ?_ ?_
  · simp [Settled, fresh]
  · intro ms b m b' _ ih _ hs
    have hset := settled_step hs i
    rw [List.countP_append, List.countP_singleton]
    cases hc : m.isCommit i with
    | true =>
      have hnot := not_settled_of_commit hs hc
      have hb' : Settled b' i := hset.mpr (.inr hc)
      simp [ih.2 hnot, hb']
    | false =>
      have hiff : Settled b' i ↔ Settled b i := by simp [hset, hc]
      simpa [hiff] using ih

/-- Along a run from the fresh board every task is committed at most once. -/
theorem commits_le_one {ok : Board W ι → Move W ι → Prop} {b : Board W ι} {ms : List (Move W ι)}
    (hrun : Run step ok fresh ms b) (i : ι) : ms.countP (Move.isCommit i) ≤ 1 := by
  by_cases h : Settled b i
  · exact Nat.le_of_eq ((commits_eq hrun i).1 h)
  · simp [(commits_eq hrun i).2 h]

end

end Board

end Lib
