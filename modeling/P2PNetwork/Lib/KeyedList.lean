import Mathlib.Data.List.Nodup
import Mathlib.Data.List.Basic

/-!
# Lists searched by key

A list of entries searched from the front stands for a map from keys to entries, as
long as no two entries have the same key. Every operation says what it does to the map
and keeps the keys distinct.
-/

namespace Lib

universe u v

variable {α : Type u} {κ : Type v}

/-- Change the first element that satisfies `p`. -/
def modifyFirst (p : α → Bool) (g : α → α) : List α → List α
  | [] => []
  | a :: l => if p a then g a :: l else a :: modifyFirst p g l

/-- The changed element is found where the old one was. -/
theorem find?_modifyFirst {p : α → Bool} {g : α → α} (hg : ∀ a, p (g a) = p a) (l : List α) :
    (modifyFirst p g l).find? p = (l.find? p).map g := by
  induction l with
  | nil => rfl
  | cons a l ih =>
    cases ha : p a with
    | true => simp [modifyFirst, ha, hg]
    | false => simp [modifyFirst, ha, ih]

/-- An element after the change was there before, or it is the changed one. -/
theorem mem_modifyFirst {p : α → Bool} {g : α → α} {l : List α} {b : α}
    (h : b ∈ modifyFirst p g l) : b ∈ l ∨ ∃ a ∈ l, b = g a := by
  induction l with
  | nil => cases h
  | cons a l ih =>
    rw [modifyFirst] at h
    split at h
    · rcases List.mem_cons.mp h with rfl | h
      · exact .inr ⟨a, List.mem_cons_self, rfl⟩
      · exact .inl (List.mem_cons_of_mem a h)
    · rcases List.mem_cons.mp h with rfl | h
      · exact .inl List.mem_cons_self
      · rcases ih h with hl | ⟨x, hx, rfl⟩
        · exact .inl (List.mem_cons_of_mem a hl)
        · exact .inr ⟨x, List.mem_cons_of_mem a hx, rfl⟩

section

variable (key : α → κ)

/-- No two entries have the same key. -/
def Distinct (l : List α) : Prop := (l.map key).Nodup

variable {key} {l : List α}

/-- Changing an entry keeps all keys. -/
theorem map_key_modifyFirst {p : α → Bool} {g : α → α} (hg : ∀ a, key (g a) = key a) :
    (modifyFirst p g l).map key = l.map key := by
  induction l with
  | nil => rfl
  | cons a l ih =>
    rw [modifyFirst]
    split
    · rw [List.map_cons, List.map_cons, hg]
    · rw [List.map_cons, List.map_cons, ih]

/-- Changing an entry keeps the keys distinct. -/
theorem distinct_modifyFirst {p : α → Bool} {g : α → α} (h : Distinct key l)
    (hg : ∀ a, key (g a) = key a) : Distinct key (modifyFirst p g l) := by
  unfold Distinct
  rw [map_key_modifyFirst hg]
  exact h

/-- Removing entries keeps the keys distinct. -/
theorem distinct_filter (h : Distinct key l) (p : α → Bool) : Distinct key (l.filter p) :=
  h.sublist (List.filter_sublist.map key)

end

section

variable [DecidableEq κ] (key : α → κ)

/-- The entry with key `k`. -/
def lookup (l : List α) (k : κ) : Option α := l.find? fun a ↦ key a = k

variable {key} {l : List α} {k : κ}

/-- The entry that is found has the key it was looked up by. -/
theorem key_lookup {a : α} (h : lookup key l k = some a) : a ∈ l ∧ key a = k :=
  ⟨List.mem_of_find?_eq_some h, by simpa using List.find?_some h⟩

/-- A key without an entry. -/
theorem lookup_eq_none_iff : lookup key l k = none ↔ ∀ a ∈ l, key a ≠ k := by
  simp [lookup]

/-- With distinct keys, an entry is in the list exactly when its key leads to it. -/
theorem mem_iff_lookup (h : Distinct key l) {a : α} : a ∈ l ↔ lookup key l (key a) = some a := by
  constructor
  · intro ha
    cases hl : lookup key l (key a) with
    | none => exact absurd rfl (lookup_eq_none_iff.mp hl a ha)
    | some b =>
      obtain ⟨hb, hkey⟩ := key_lookup hl
      rw [List.inj_on_of_nodup_map h hb ha hkey]
  · intro ha
    exact (key_lookup ha).1

/-- A loop that passes the entries of other keys acts on the entry of `k`, if there is one. -/
theorem foldlM_of_distinct {β : Type u} {g : β → α → Option β} (h : Distinct key l)
    (hskip : ∀ b, ∀ a, key a ≠ k → g b a = some b) (b : β) :
    l.foldlM g b = (lookup key l k).elim (some b) (g b) := by
  induction l generalizing b with
  | nil => rfl
  | cons a l ih =>
    obtain ⟨hnot, hrest⟩ := List.nodup_cons.mp h
    rw [List.foldlM_cons, Option.bind_eq_bind]
    by_cases ha : key a = k
    · have hnone : lookup key l k = none := by
        rw [lookup_eq_none_iff]
        intro a' ha' hkey
        exact hnot (List.mem_map.mpr ⟨a', ha', hkey.trans ha.symm⟩)
      have hfound : lookup key (a :: l) k = some a := by simp [lookup, ha]
      rw [hfound]
      cases hg : g b a with
      | none => simp [hg]
      | some b' => simp [hg, ih hrest b', hnone]
    · have hpass : lookup key (a :: l) k = lookup key l k := by simp [lookup, ha]
      rw [hskip b a ha, hpass, Option.bind_some]
      exact ih hrest b

/-- Changing the entry of `k` changes the map at `k` only. -/
theorem lookup_modifyFirst {g : α → α} (hg : ∀ a, key (g a) = key a) (k' : κ) :
    lookup key (modifyFirst (fun a ↦ key a = k) g l) k' =
      if k' = k then (lookup key l k).map g else lookup key l k' := by
  by_cases hk : k' = k
  · subst hk
    rw [if_pos rfl]
    exact find?_modifyFirst (fun a ↦ by rw [hg]) l
  · rw [if_neg hk]
    induction l with
    | nil => rfl
    | cons a l ih =>
      by_cases ha : key a = k
      · simp [modifyFirst, lookup, ha, hg, Ne.symm hk]
      · unfold lookup at ih ⊢
        rw [modifyFirst, if_neg (by simpa using ha), List.find?_cons, List.find?_cons, ih]

/-- A new entry is added to the map. -/
theorem lookup_append_new {a : α} (hnew : lookup key l (key a) = none) (k' : κ) :
    lookup key (l ++ [a]) k' = if k' = key a then some a else lookup key l k' := by
  by_cases hk : k' = key a
  · subst hk
    have hnone : l.find? (fun b ↦ key b = key a) = none := hnew
    simp [lookup, List.find?_append, hnone]
  · have hne : ¬ key a = k' := fun h ↦ hk h.symm
    simp [lookup, List.find?_append, hk, hne]

/-- A new key keeps the keys distinct. -/
theorem distinct_append_new {a : α} (h : Distinct key l) (hnew : lookup key l (key a) = none) :
    Distinct key (l ++ [a]) := by
  unfold Distinct
  rw [List.map_append, List.nodup_append]
  refine ⟨h, List.nodup_singleton _, ?_⟩
  intro x hx y hy
  obtain ⟨b, hb, rfl⟩ := List.mem_map.mp hx
  have hya : y = key a := by simpa using hy
  rw [hya]
  exact lookup_eq_none_iff.mp hnew b hb

/-- Removing the entries of a key removes it from the map. -/
theorem lookup_filter_ne (k' : κ) :
    lookup key (l.filter fun a ↦ key a ≠ k) k' = if k' = k then none else lookup key l k' := by
  by_cases hk : k' = k
  · subst hk
    simp [lookup]
  · rw [if_neg hk, lookup, List.find?_filter, lookup]
    congr 1
    ext a
    by_cases ha : key a = k'
    · have hne : ¬ key a = k := fun h ↦ hk (ha.symm.trans h)
      simp [ha, hk]
    · simp [ha]

end

end Lib
