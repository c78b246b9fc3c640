import Mathlib.Data.List.Basic

/-!
# Read buffers

A buffer of fixed size that is read into from the front, again and again. A chunk is
what one read delivers: at least one cell and no more than the buffer holds. The cells
behind a chunk keep what earlier reads left there.
-/

namespace Lib

universe u

variable {α : Type u} {n : Nat}

/-- A buffer of `n` cells. -/
structure ReadBuffer (α : Type u) (n : Nat) where
  cells : List α
  length_cells : cells.length = n
  deriving DecidableEq

/-- What one successful read delivers into a buffer of `n` cells. -/
structure Chunk (α : Type u) (n : Nat) where
  cells : List α
  nonempty : cells ≠ []
  fits : cells.length ≤ n
  deriving DecidableEq

namespace ReadBuffer

/-- A buffer that has been cleared. -/
def clear (a : α) (n : Nat) : ReadBuffer α n := ⟨List.replicate n a, List.length_replicate⟩

/-- The cells behind the first `k`. -/
def behind (b : ReadBuffer α n) (k : Nat) : List α := b.cells.drop k

/-- Read a chunk into the front of the buffer. -/
def fill (b : ReadBuffer α n) (c : Chunk α n) : ReadBuffer α n where
  cells := c.cells ++ b.behind c.cells.length
  length_cells := by
    have hfits := c.fits
    have hlen := b.length_cells
    simp only [behind, List.length_append, List.length_drop]
    omega

/-- The front of a filled buffer is the chunk. -/
theorem take_fill (b : ReadBuffer α n) (c : Chunk α n) :
    (b.fill c).cells.take c.cells.length = c.cells :=
  List.take_left

/-- The cells behind a chunk keep what was there. -/
theorem behind_fill (b : ReadBuffer α n) (c : Chunk α n) :
    (b.fill c).behind c.cells.length = b.behind c.cells.length :=
  List.drop_left

/-- Behind a chunk that does not fill it, a cleared buffer is cleared still. -/
theorem behind_clear (a : α) (c : Chunk α n) :
    (clear a n).behind c.cells.length = List.replicate (n - c.cells.length) a :=
  List.drop_replicate

end ReadBuffer

end Lib
