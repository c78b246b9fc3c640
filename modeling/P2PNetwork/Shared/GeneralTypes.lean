import Mathlib.Algebra.Group.Int.Defs
import Mathlib.Algebra.Group.Nat.Defs
import Mathlib.Data.List.Basic

/-!
# Shared types and constants

`src/shared/GeneralTypes.h`, with the C++ types it is written in. Strings and buffers
are lists of bytes. The type `int`, which `Id` and `Port` name, is an integer together
with the conversion that brings a value into its range.
-/

namespace P2PNetwork

/-- The bytes of a `std::string` or of a buffer. -/
abbrev Bytes := List UInt8

/-- `typedef uint64_t Hash` (`GeneralTypes.h:11`). -/
abbrev Hash := UInt64

/-- `typedef std::string Filename` (`GeneralTypes.h:15`). -/
abbrev Filename := Bytes

/-- `#define DEFAULTSEGMENTSIZE 8000` (`GeneralTypes.h:9`). -/
def defaultSegmentSize : Nat := 8000

theorem defaultSegmentSize_pos : 0 < defaultSegmentSize := by decide

/-- The value an `int` of 32 bits holds after `n` is converted to it. -/
def toInt32 (n : Int) : Int :=
  if n % 2 ^ 32 < 2 ^ 31 then n % 2 ^ 32 else n % 2 ^ 32 - 2 ^ 32

/-- Values in the range of `int` are kept. -/
theorem toInt32_of_range {n : Int} (hlo : -2 ^ 31 ≤ n) (hhi : n < 2 ^ 31) : toInt32 n = n := by
  unfold toInt32
  omega

/-- A `uint32_t` passed where an `Id` (`typedef int Id`, `GeneralTypes.h:10`) is expected. -/
def idOf (n : UInt32) : Int := toInt32 n.toNat

/-- Small unsigned values keep their value as an `int`. -/
theorem idOf_of_lt {n : UInt32} (h : n.toNat < 2 ^ 31) : idOf n = n.toNat :=
  toInt32_of_range (by omega) (by omega)

/-- A non-negative `Id` has the value it was converted from. -/
theorem toNat_of_idOf {n : UInt32} {i : Nat} (h : idOf n = i) : i = n.toNat := by
  have hn := n.toNat_lt
  unfold idOf toInt32 at h
  omega

/-- A `Hash` passed where an `Id` is expected: the low 32 bits, as an `int`. -/
def idOfHash (h : Hash) : Int := toInt32 h.toNat

/-- Two hashes are the same `Id` exactly when their low 32 bits agree. -/
theorem idOfHash_inj {g h : Hash} : idOfHash g = idOfHash h ↔ g.toUInt32 = h.toUInt32 := by
  rw [← UInt32.toNat_inj, UInt64.toNat_toUInt32, UInt64.toNat_toUInt32]
  unfold idOfHash toInt32
  omega

/-- The product `segmentId * DEFAULTSEGMENTSIZE` of two `int`s
(`FileManager.cpp:69,127`). -/
def segmentOffset (segmentId : Int) : Int := toInt32 (segmentId * defaultSegmentSize)

/-- Below 2³¹ the product does not overflow. -/
theorem segmentOffset_of_lt {i : Nat} (h : defaultSegmentSize * i < 2 ^ 31) :
    segmentOffset (i : Int) = ((defaultSegmentSize * i : Nat) : Int) := by
  unfold segmentOffset
  rw [toInt32_of_range] <;> push_cast <;> rw [Int.mul_comm] <;> omega

end P2PNetwork
