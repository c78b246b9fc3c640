import P2PNetwork.Lib.Run
import Mathlib.Logic.Function.Basic

/-!
# Readers and writers

What a lock with shared and exclusive access is for, without the tables of an implementation:
the locks that threads have taken and not given back, and the moves that take and return them. A
lock is granted where it leaves every writer alone with its resource.
-/

namespace Lib

universe u v

variable {T : Type u} {ι : Type v}

/-- The locks that threads have taken and not given back. -/
structure Holdings (T : Type u) (ι : Type v) where
  readers : List (T × ι)
  writers : List (T × ι)

/-- A thread takes a lock of a resource, or it gives one back. -/
inductive LockMove (T : Type u) (ι : Type v)
  | share (t : T) (i : ι)
  | own (t : T) (i : ι)
  | unshare (t : T) (i : ι)
  | disown (t : T) (i : ι)

namespace Holdings

/-- Nobody has a lock. -/
def empty : Holdings T ι := ⟨[], []⟩

/-- No resource has a writer beside a reader or a second writer in another thread. -/
structure Exclusive (h : Holdings T ι) : Prop where
  readers : ∀ i t u, (t, i) ∈ h.writers → (u, i) ∈ h.readers → u = t
  writers : ∀ i t u, (t, i) ∈ h.writers → (u, i) ∈ h.writers → u = t

variable [DecidableEq T] [BEq ι] [LawfulBEq ι]

/-- One move. A shared lock needs a resource without a writer, an exclusive one a resource that
no other thread has at all. -/
def step (h : Holdings T ι) : LockMove T ι → Option (Holdings T ι)
  | .share t i =>
    if ∀ w ∈ h.writers, w.2 == i → w.1 = t then some { h with readers := (t, i) :: h.readers }
    else none
  | .own t i =>
    if ∀ l ∈ h.readers ++ h.writers, l.2 == i → l.1 = t then
      some { h with writers := (t, i) :: h.writers }
    else none
  | .unshare t i =>
    if (t, i) ∈ h.readers then some { h with readers := h.readers.erase (t, i) } else none
  | .disown t i =>
    if (t, i) ∈ h.writers then some { h with writers := h.writers.erase (t, i) } else none

variable {h h' : Holdings T ι}

private theorem exclusive_share {t : T} {i : ι} (hex : h.Exclusive)
    (hstep : h.step (.share t i) = some h') : h'.Exclusive := by
  simp only [step] at hstep
  split at hstep
  · next halone =>
    cases hstep
    refine ⟨?_, hex.writers⟩
    intro j w r hw hr
    rcases List.mem_cons.mp hr with heq | hr
    · obtain ⟨rfl, rfl⟩ := Prod.mk.inj heq
      exact (halone (w, j) hw (beq_self_eq_true j)).symm
    · exact hex.readers j w r hw hr
  · cases hstep

private theorem exclusive_own {t : T} {i : ι} (hex : h.Exclusive)
    (hstep : h.step (.own t i) = some h') : h'.Exclusive := by
  simp only [step] at hstep
  split at hstep
  · next halone =>
    cases hstep
    refine ⟨?_, ?_⟩
    · intro j w r hw hr
      rcases List.mem_cons.mp hw with heq | hw
      · obtain ⟨rfl, rfl⟩ := Prod.mk.inj heq
        exact halone (r, j) (List.mem_append_left _ hr) (beq_self_eq_true j)
      · exact hex.readers j w r hw hr
    · intro j w r hw hr
      rcases List.mem_cons.mp hw with hnew | hold
      · obtain ⟨rfl, rfl⟩ := Prod.mk.inj hnew
        rcases List.mem_cons.mp hr with hsame | hother
        · exact (Prod.mk.inj hsame).1
        · exact halone (r, j) (List.mem_append_right _ hother) (beq_self_eq_true j)
      · rcases List.mem_cons.mp hr with hnew | hother
        · obtain ⟨rfl, rfl⟩ := Prod.mk.inj hnew
          exact (halone (w, j) (List.mem_append_right _ hold) (beq_self_eq_true j)).symm
        · exact hex.writers j w r hold hother
  · cases hstep

omit [DecidableEq T] [BEq ι] [LawfulBEq ι] in
/-- Giving locks back breaks nothing. -/
private theorem Exclusive.subset (hex : h.Exclusive) (hreaders : h'.readers ⊆ h.readers)
    (hwriters : h'.writers ⊆ h.writers) : h'.Exclusive where
  readers := fun i t u hw hr ↦ hex.readers i t u (hwriters hw) (hreaders hr)
  writers := fun i t u hw hr ↦ hex.writers i t u (hwriters hw) (hwriters hr)

/-- Every move leaves writers alone. -/
theorem exclusive_step {m : LockMove T ι} (hex : h.Exclusive) (hstep : h.step m = some h') :
    h'.Exclusive := by
  cases m with
  | share t i => exact exclusive_share hex hstep
  | own t i => exact exclusive_own hex hstep
  | unshare t i =>
    simp only [step] at hstep
    split at hstep
    · cases hstep
      exact hex.subset List.erase_subset (List.Subset.refl _)
    · cases hstep
  | disown t i =>
    simp only [step] at hstep
    split at hstep
    · cases hstep
      exact hex.subset (List.Subset.refl _) List.erase_subset
    · cases hstep

/-- In every run of moves a writer is alone with its resource. -/
theorem exclusive_run {ok : Holdings T ι → LockMove T ι → Prop} {ms : List (LockMove T ι)}
    (hrun : Run step ok empty ms h) : h.Exclusive := by
  refine hrun.invariant (P := Exclusive) ⟨?_, ?_⟩ fun _ _ _ hex _ hstep ↦
    exclusive_step hex hstep
  · intro i t u hw
    cases hw
  · intro i t u hw
    cases hw

end Holdings

/-! ### Shared locks without their holders -/

/-- How often each resource is shared. -/
abbrev Shares (ι : Type v) := ι → Nat

namespace Shares

variable [DecidableEq ι] {c : Shares ι} {i j : ι}

/-- One more share of a resource. -/
def share (c : Shares ι) (i : ι) : Shares ι := Function.update c i (c i + 1)

/-- One share less. -/
def unshare (c : Shares ι) (i : ι) : Shares ι := Function.update c i (c i - 1)

/-- A resource is shared after one more share if it is that one or was shared before. -/
theorem share_pos : 0 < c.share i j ↔ j = i ∨ 0 < c j := by
  by_cases hj : j = i
  · subst hj
    simp [share]
  · simp [share, hj]

/-- A resource that is not given back is shared as before. -/
theorem unshare_pos_of_ne (hj : j ≠ i) : 0 < c.unshare i j ↔ 0 < c j := by
  simp [unshare, hj]

/-- One that is given back stays shared if it was shared more than once. -/
theorem unshare_pos_self : 0 < c.unshare i i ↔ 1 < c i := by
  simp only [unshare, Function.update_self]
  omega

end Shares

end Lib
