import Mathlib.Data.Finset.Lattice.Fold
import Mathlib.Data.Finset.Range
import Mathlib.Data.List.GetD
import Mathlib.Order.Lattice.Nat

/-!
# Random-access files and their assembly from blocks

A file is a list of cells. Writing past the end extends it, and the gap between the
old end and the write reads as padding, so a file is determined by its length and
by the padded value at every position. A file assembled from equally long blocks is
described by the set of blocks written so far; one more block write is one more
element of that set, whatever the order of the writes.
-/

namespace Lib

universe u

variable {α : Type u}

/-- Files of one length that agree at every padded position are equal. -/
theorem ext_getD {f g : List α} (pad : α) (hlen : f.length = g.length)
    (h : ∀ p, f.getD p pad = g.getD p pad) : f = g := by
  apply List.ext_getElem hlen
  intro p hf hg
  have hp := h p
  rwa [List.getD_eq_getElem f pad hf, List.getD_eq_getElem g pad hg] at hp

/-- Write `b` at offset `off`; writing nothing changes nothing. -/
def overwrite (pad : α) (f : List α) (off : Nat) (b : List α) : List α :=
  if b.isEmpty then f
  else (f ++ List.replicate (off - f.length) pad).take off ++ b ++ f.drop (off + b.length)

/-- A write ends where its last cell ends, or where the file ended already. -/
theorem length_overwrite (pad : α) (f : List α) (off : Nat) {b : List α} (hb : b ≠ []) :
    (overwrite pad f off b).length = max f.length (off + b.length) := by
  have he : b.isEmpty = false := by simpa using hb
  simp only [overwrite, he, Bool.false_eq_true, ↓reduceIte, List.length_append, List.length_take,
    List.length_replicate, List.length_drop]
  omega

/-- A write changes its own window and nothing else. -/
theorem getD_overwrite (pad : α) (f : List α) (off : Nat) (b : List α) (p : Nat) :
    (overwrite pad f off b).getD p pad =
      if off ≤ p ∧ p < off + b.length then b.getD (p - off) pad else f.getD p pad := by
  by_cases hb : b = []
  · subst hb
    simp [overwrite]
  · have he : b.isEmpty = false := by simpa using hb
    have hl : ((f ++ List.replicate (off - f.length) pad).take off).length = off := by
      simp only [List.length_take, List.length_append, List.length_replicate]
      omega
    simp only [overwrite, he, Bool.false_eq_true, ↓reduceIte, List.getD_eq_getElem?_getD]
    by_cases hp : p < off
    · have hw : ¬ (off ≤ p ∧ p < off + b.length) := by omega
      rw [List.append_assoc, List.getElem?_append_left (by omega), List.getElem?_take_of_lt hp,
        if_neg hw]
      by_cases hf : p < f.length
      · rw [List.getElem?_append_left hf]
      · rw [List.getElem?_append_right (by omega), List.getElem?_replicate,
          List.getElem?_eq_none (by omega)]
        split <;> rfl
    · rw [List.append_assoc, List.getElem?_append_right (by omega), hl]
      by_cases hq : p < off + b.length
      · rw [List.getElem?_append_left (by omega), if_pos ⟨by omega, hq⟩]
      · rw [List.getElem?_append_right (by omega), List.getElem?_drop, if_neg (by omega)]
        congr 2
        omega

/-- Where a file ends that started with length `len` and received the blocks in `D`. -/
def extent (w len : Nat) (D : Finset Nat) : Nat := max len (D.sup fun i ↦ w * (i + 1))

/-- The file of initial length `len` whose blocks in `D` hold their payload, all other
cells being padding. -/
def assembled (pad : α) (w len : Nat) (payload : Nat → List α) (D : Finset Nat) : List α :=
  (List.range (extent w len D)).map fun p ↦
    if p / w ∈ D then (payload (p / w)).getD (p % w) pad else pad

section

variable {pad : α} {w len : Nat} {payload : Nat → List α} {D : Finset Nat}

/-- Assembly decides the length by its blocks alone. -/
@[simp] theorem length_assembled :
    (assembled pad w len payload D).length = extent w len D := by
  simp [assembled]

/-- A received block lies inside the file. -/
theorem lt_extent (hw : 0 < w) {p : Nat} (hp : p / w ∈ D) : p < extent w len D := by
  have hle : w * (p / w + 1) ≤ D.sup fun i ↦ w * (i + 1) :=
    Finset.le_sup (f := fun i ↦ w * (i + 1)) hp
  have hlt : p < w * (p / w + 1) := Nat.lt_mul_div_succ p hw
  unfold extent
  omega

/-- Every position holds the payload of its block or padding. -/
theorem getD_assembled (hw : 0 < w) (p : Nat) :
    (assembled pad w len payload D).getD p pad =
      if p / w ∈ D then (payload (p / w)).getD (p % w) pad else pad := by
  by_cases hp : p < extent w len D
  · rw [List.getD_eq_getElem _ _ (by simpa using hp)]
    simp [assembled]
  · rw [List.getD_eq_default _ _ (by simpa using Nat.le_of_not_lt hp),
      if_neg fun hd ↦ hp (lt_extent hw hd)]

/-- Before any block arrives the file is padding. -/
theorem assembled_empty : assembled pad w len payload ∅ = List.replicate len pad := by
  simp [assembled, extent]

/-- Writing a block is adding it to the set of received blocks. -/
theorem overwrite_assembled (hw : 0 < w) {i : Nat} (hi : (payload i).length = w) :
    overwrite pad (assembled pad w len payload D) (w * i) (payload i) =
      assembled pad w len payload (insert i D) := by
  have hne : payload i ≠ [] := by
    intro he
    rw [he] at hi
    simp only [List.length_nil] at hi
    omega
  apply ext_getD pad
  · rw [length_overwrite _ _ _ hne, length_assembled, length_assembled, hi]
    simp only [extent, Finset.sup_insert, Nat.mul_succ]
    omega
  · intro p
    rw [getD_overwrite, getD_assembled hw, getD_assembled hw, hi]
    by_cases hp : p / w = i
    · -- the position lies in the block just written
      subst hp
      have hmod := Nat.div_add_mod p w
      have hlt := Nat.mod_lt p hw
      rw [if_pos (by omega), if_pos (by simp)]
      congr 1
      omega
    · have hout : ¬ (w * i ≤ p ∧ p < w * i + w) := by
        rintro ⟨hlo, hhi⟩
        apply hp
        apply Nat.div_eq_of_lt_le
        · rwa [Nat.mul_comm]
        · rw [Nat.succ_mul, Nat.mul_comm]
          exact hhi
      rw [if_neg hout]
      simp [Finset.mem_insert, hp]

end

/-- Block `i` of a file, padded to the block width. -/
def block (pad : α) (w : Nat) (c : List α) (i : Nat) : List α :=
  (c.drop (w * i)).take w ++ List.replicate (w - (c.length - w * i)) pad

section

variable {pad : α} {w : Nat} {c : List α}

/-- Every block has the block width. -/
theorem length_block (i : Nat) : (block pad w c i).length = w := by
  simp only [block, List.length_append, List.length_take, List.length_drop, List.length_replicate]
  omega

/-- A block holds the cells of its window. -/
theorem getD_block (i : Nat) {j : Nat} (hj : j < w) :
    (block pad w c i).getD j pad = c.getD (w * i + j) pad := by
  simp only [block, List.getD_eq_getElem?_getD]
  by_cases h : j < c.length - w * i
  · rw [List.getElem?_append_left (by simp only [List.length_take, List.length_drop]; omega),
      List.getElem?_take_of_lt hj, List.getElem?_drop]
  · rw [List.getElem?_append_right (by simp only [List.length_take, List.length_drop]; omega),
      List.getElem?_replicate, List.getElem?_eq_none (by omega)]
    split <;> rfl

/-- Reassembling all blocks of a file restores it exactly when the last block does not
reach past its end. -/
theorem assembled_blocks_eq_iff (hw : 0 < w) {n : Nat} (hn : c.length ≤ w * n) :
    assembled pad w c.length (block pad w c) (Finset.range n) = c ↔ w * n ≤ c.length := by
  have hsup : (Finset.range n).sup (fun i ↦ w * (i + 1)) = w * n := by
    cases n with
    | zero => simp
    | succ n =>
      apply le_antisymm
      · apply Finset.sup_le
        intro i hi
        exact Nat.mul_le_mul_left w (Finset.mem_range.mp hi)
      · exact Finset.le_sup (f := fun i ↦ w * (i + 1)) (by simp)
  constructor
  · intro h
    have hl := congrArg List.length h
    rw [length_assembled, extent, hsup] at hl
    omega
  · intro h
    apply ext_getD pad
    · rw [length_assembled, extent, hsup]
      omega
    · intro p
      rw [getD_assembled hw]
      split
      · rw [getD_block _ (Nat.mod_lt p hw), Nat.div_add_mod]
      · next hp =>
        -- beyond the last block both files read as padding
        have hge : w * n ≤ p := by
          have hnp : n ≤ p / w := by simpa using hp
          calc w * n ≤ w * (p / w) := Nat.mul_le_mul_left w hnp
            _ ≤ p := Nat.mul_div_le p w
        rw [List.getD_eq_default _ _ (by omega)]

end

end Lib
