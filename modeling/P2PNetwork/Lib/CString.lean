import Mathlib.Data.List.Basic

/-!
# Strings that end with a zero

A pointer taken as a string stands for the bytes up to the first zero, whatever its owner
meant to hold there. It stands for a block of known length exactly if the block has no zero and
memory has one behind it.
-/

namespace Lib

universe u

variable {β : Type u} {memory : Int → β} {a : Int}

/-- `n` values of memory from an address on. -/
def blockAt (memory : Int → β) (a : Int) (n : Nat) : List β :=
  (List.range n).map fun i ↦ memory (a + i)

@[simp] theorem length_blockAt (n : Nat) : (blockAt memory a n).length = n := by
  simp [blockAt]

variable {zero : β}

/-- The values from an address up to the first that is `zero`. -/
structure IsCString (zero : β) (memory : Int → β) (a : Int) (s : List β) : Prop where
  content : s = blockAt memory a s.length
  nonzero : ∀ i < s.length, memory (a + i) ≠ zero
  terminated : memory (a + s.length) = zero

/-- A block has a zero where memory has one. -/
theorem zero_mem_blockAt {n : Nat} :
    zero ∈ blockAt memory a n ↔ ∃ i < n, memory (a + i) = zero := by
  simp [blockAt]

/-- A string is a given block exactly if the block ends with the first zero behind it. -/
theorem IsCString.eq_blockAt_iff {s : List β} (h : IsCString zero memory a s) (n : Nat) :
    s = blockAt memory a n ↔ zero ∉ blockAt memory a n ∧ memory (a + n) = zero := by
  rw [zero_mem_blockAt]
  constructor
  · intro heq
    have hlength : s.length = n := by rw [heq, length_blockAt]
    subst hlength
    refine ⟨?_, h.terminated⟩
    rintro ⟨i, hi, hzero⟩
    exact h.nonzero i hi hzero
  · rintro ⟨hnone, hend⟩
    have hlength : s.length = n := by
      rcases Nat.lt_trichotomy s.length n with hlt | heq | hgt
      · exact absurd ⟨s.length, hlt, h.terminated⟩ hnone
      · exact heq
      · exact absurd hend (h.nonzero n hgt)
    rw [h.content, hlength]

end Lib
