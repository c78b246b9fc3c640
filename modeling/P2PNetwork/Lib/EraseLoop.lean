import Mathlib.Data.List.Induction
import Mathlib.Logic.Relation

/-!
# Loops that erase at their iterator

A loop goes through a vector from its beginning to its end and erases elements in its body. The
elements behind an erased one move up by one place, and the iterator moves on all the same.
-/

namespace Lib

universe u

variable {α : Type u}

/-- A vector and a position of it: an index, or the one behind the last. -/
structure Cursor (α : Type u) where
  entries : List α
  pos : Nat
  deriving DecidableEq

namespace Cursor

/-- A position that can be advanced to, and compared with the end. -/
def Inside (c : Cursor α) : Prop := c.pos ≤ c.entries.length

instance (c : Cursor α) : Decidable c.Inside := inferInstanceAs (Decidable (_ ≤ _))

/-- One round: look at the element, erase it if `p` says so, advance. There is none at a position
without an element. -/
def round (p : α → Bool) (c : Cursor α) : Option (Cursor α) :=
  (c.entries[c.pos]?).map fun a ↦
    ⟨if p a then c.entries.eraseIdx c.pos else c.entries, c.pos + 1⟩

/-- At most `fuel` rounds up to the end: what is left of the vector, or nothing where the loop
looks for an element outside of it. -/
def loop (p : α → Bool) : Nat → Cursor α → Option (Option (List α))
  | 0, _ => none
  | fuel + 1, c =>
    if c.pos = c.entries.length then some (some c.entries)
    else
      match c.round p with
      | none => some none
      | some c' => loop p fuel c'

/-- The places that the loop gets to. -/
def Reaches (p : α → Bool) : Cursor α → Cursor α → Prop :=
  Relation.ReflTransGen fun c c' ↦ c.round p = some c'

variable {p : α → Bool} {c c' : Cursor α} {before after : List α} {a : α}

/-- A round at the element between two lists. -/
theorem round_between : round p ⟨before ++ a :: after, before.length⟩ =
    some ⟨if p a then before ++ after else before ++ a :: after, before.length + 1⟩ := by
  have herase : (before ++ a :: after).eraseIdx before.length = before ++ after := by
    simp [List.eraseIdx_append_of_length_le]
  simp only [round, List.getElem?_append_right (Nat.le_refl _), Nat.sub_self,
    List.getElem?_cons_zero, Option.map_some, herase]

/-- The loop goes on behind a round. -/
theorem loop_between (fuel : Nat) : loop p (fuel + 1) ⟨before ++ a :: after, before.length⟩ =
    loop p fuel ⟨if p a then before ++ after else before ++ a :: after, before.length + 1⟩ := by
  rw [loop, if_neg (by simp), round_between]

/-- It ends at the end. -/
theorem loop_end (fuel : Nat) : loop p (fuel + 1) ⟨before, before.length⟩ = some (some before) := by
  rw [loop, if_pos rfl]

/-- Past the end it does not find it any more. -/
theorem loop_past_end (fuel : Nat) : loop p (fuel + 1) ⟨before, before.length + 1⟩ = some none := by
  simp [loop, round]

/-- The loop passes what it does not erase. -/
theorem reaches_of_kept (h : ∀ b ∈ before, p b = false) :
    Reaches p ⟨before ++ after, 0⟩ ⟨before ++ after, before.length⟩ := by
  induction before using List.reverseRecOn generalizing after with
  | nil => exact .refl
  | append_singleton before b ih =>
    have hb : p b = false := h b (by simp)
    have hbefore := @ih (b :: after) fun b' hb' ↦ h b' (by simp [hb'])
    have hround := @round_between α p before after b
    rw [hb, if_neg Bool.false_ne_true] at hround
    rw [List.append_assoc, List.singleton_append, List.length_append, List.length_singleton]
    exact hbefore.tail hround

/-- A loop that erases nothing leaves the vector alone, -/
theorem entries_of_kept (h : ∀ b ∈ c.entries, p b = false) (hreach : Reaches p c c') :
    c'.entries = c.entries := by
  induction hreach with
  | refl => rfl
  | tail _ hround ih =>
    obtain ⟨b, hb, rfl⟩ := Option.map_eq_some_iff.mp hround
    rw [ih] at hb
    simp only [h b (List.mem_of_getElem? hb), Bool.false_eq_true, ↓reduceIte, ih]

/-- stays inside of it -/
theorem inside_of_kept (h : ∀ b ∈ c.entries, p b = false) (hinside : c.Inside)
    (hreach : Reaches p c c') : c'.Inside := by
  induction hreach with
  | refl => exact hinside
  | @tail c₁ c₂ hreach hround ih =>
    have hentries := entries_of_kept h hreach
    have hentries' := entries_of_kept h (hreach.tail hround)
    obtain ⟨b, hb, rfl⟩ := Option.map_eq_some_iff.mp hround
    obtain ⟨hlt, -⟩ := List.getElem?_eq_some_iff.mp hb
    unfold Inside
    rw [hentries', ← hentries]
    exact hlt

/-- and ends with it. -/
theorem loop_of_kept (h : ∀ b ∈ after, p b = false) :
    loop p (after.length + 1) ⟨before ++ after, before.length⟩ = some (some (before ++ after)) := by
  induction after generalizing before with
  | nil =>
    rw [List.append_nil]
    exact loop_end 0
  | cons b after ih =>
    have hb : p b = false := h b List.mem_cons_self
    have hrest := @ih (before ++ [b]) fun b' hb' ↦ h b' (List.mem_cons_of_mem b hb')
    rw [List.length_append, List.length_singleton, List.append_assoc,
      List.singleton_append] at hrest
    rw [List.length_cons, loop_between, hb, if_neg Bool.false_ne_true]
    exact hrest

/-- A loop with something to erase gets to the first such element and erases it there. -/
theorem exists_first_erased {l : List α} (ha : a ∈ l) (hp : p a = true) :
    ∃ before b after, l = before ++ b :: after ∧ Reaches p ⟨l, 0⟩ ⟨l, before.length⟩ ∧
      round p ⟨l, before.length⟩ = some ⟨before ++ after, before.length + 1⟩ := by
  have hfound : (l.find? p).isSome = true := List.find?_isSome.mpr ⟨a, ha, hp⟩
  obtain ⟨b, hb⟩ := Option.isSome_iff_exists.mp hfound
  obtain ⟨hpb, before, after, rfl, hbefore⟩ := List.find?_eq_some_iff_append.mp hb
  refine ⟨before, b, after, rfl, ?_, ?_⟩
  · apply reaches_of_kept
    intro b' hb'
    simpa using hbefore b' hb'
  · rw [round_between, if_pos hpb]

end Cursor

end Lib
