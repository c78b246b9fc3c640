import Mathlib.Data.List.Basic
import Mathlib.Data.List.Nodup
import Mathlib.Data.Nat.Find

/-!
# Probing for a free candidate

Candidates are tried one after the other until one is free. If the keys of the first
candidates are pairwise different and outnumber the keys that are taken, one of them is free.
-/

namespace Lib

universe u v

variable {α : Type u} {κ : Type v}

/-- The first free candidate from the `i`-th on, among `fuel` of them. -/
def probe (candidate : Nat → α) (free : α → Bool) : Nat → Nat → Option α
  | 0, _ => none
  | fuel + 1, i =>
    if free (candidate i) then some (candidate i) else probe candidate free fuel (i + 1)

variable {candidate : Nat → α} {free : α → Bool} {fuel i : Nat}

/-- A search ends at the first free candidate, if it gets there. -/
theorem probe_of_first_free {k : Nat} (hfree : free (candidate (i + k)) = true)
    (hfirst : ∀ j < k, free (candidate (i + j)) = false) :
    probe candidate free fuel i = if k < fuel then some (candidate (i + k)) else none := by
  induction fuel generalizing i k with
  | zero => rfl
  | succ fuel ih =>
    rw [probe]
    cases k with
    | zero =>
      rw [Nat.add_zero] at hfree
      rw [if_pos hfree, if_pos (Nat.zero_lt_succ fuel), Nat.add_zero]
    | succ k =>
      have hnot : free (candidate i) = false := hfirst 0 (Nat.zero_lt_succ k)
      have hshift : i + (k + 1) = i + 1 + k := by omega
      rw [hshift] at hfree ⊢
      rw [hnot, if_neg Bool.false_ne_true, ih hfree]
      · simp only [Nat.add_lt_add_iff_right]
      · intro j hj
        rw [show i + 1 + j = i + (j + 1) by omega]
        exact hfirst (j + 1) (by omega)

/-- What a search finds is free, and no candidate in front of it is. -/
theorem probe_eq_some {a : α} (h : probe candidate free fuel i = some a) :
    ∃ k, a = candidate (i + k) ∧ free (candidate (i + k)) = true ∧
      ∀ j < k, free (candidate (i + j)) = false := by
  induction fuel generalizing i with
  | zero => cases h
  | succ fuel ih =>
    rw [probe] at h
    split at h
    · next hfree =>
      cases h
      exact ⟨0, rfl, hfree, fun j hj ↦ absurd hj (Nat.not_lt_zero j)⟩
    · next hnot =>
      obtain ⟨k, rfl, hfree, hfirst⟩ := ih h
      have hshift : i + 1 + k = i + (k + 1) := by omega
      rw [hshift] at hfree ⊢
      refine ⟨k + 1, rfl, hfree, ?_⟩
      intro j hj
      cases j with
      | zero => exact eq_false_of_ne_true hnot
      | succ j =>
        rw [show i + (j + 1) = i + 1 + j by omega]
        exact hfirst j (by omega)

/-- Among pairwise different keys, one more than there are taken ones, some key is not taken. -/
theorem exists_not_taken {key : Nat → κ} {taken : List κ}
    (hinj : ∀ i ≤ taken.length, ∀ j ≤ taken.length, key i = key j → i = j) :
    ∃ k ≤ taken.length, key k ∉ taken := by
  by_contra hall
  have htaken : ∀ k ≤ taken.length, key k ∈ taken := by
    intro k hk
    by_contra hnot
    exact hall ⟨k, hk, hnot⟩
  have hnodup : ((List.range (taken.length + 1)).map key).Nodup := by
    refine List.Nodup.map_on ?_ List.nodup_range
    intro i hi j hj heq
    exact hinj i (Nat.lt_succ_iff.mp (List.mem_range.mp hi)) j
      (Nat.lt_succ_iff.mp (List.mem_range.mp hj)) heq
  have hsubset : (List.range (taken.length + 1)).map key ⊆ taken := by
    intro x hx
    obtain ⟨k, hk, rfl⟩ := List.mem_map.mp hx
    exact htaken k (Nat.lt_succ_iff.mp (List.mem_range.mp hk))
  have hlength := hnodup.length_le_of_subset hsubset
  rw [List.length_map, List.length_range] at hlength
  omega

/-- The first of these keys that is not taken. -/
theorem exists_first_not_taken {key : Nat → κ} {taken : List κ}
    (hinj : ∀ i ≤ taken.length, ∀ j ≤ taken.length, key i = key j → i = j) :
    ∃ k ≤ taken.length, key k ∉ taken ∧ ∀ j < k, key j ∈ taken := by
  classical
  obtain ⟨n, hn, hnot⟩ := exists_not_taken hinj
  have hex : ∃ k, key k ∉ taken := ⟨n, hnot⟩
  refine ⟨Nat.find hex, le_trans (Nat.find_min' hex hnot) hn, Nat.find_spec hex, ?_⟩
  intro j hj
  exact not_not.mp (Nat.find_min hex hj)

end Lib
