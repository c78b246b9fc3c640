import Mathlib.Data.List.Basic

/-!
# Formatted input

Decimal numbers and words at the front of a byte range, and streams of text from which they are
extracted. A stream that has failed, or has met its end, yields nothing any more.
-/

namespace Lib

/-- White space: a blank, a tab, or one of the bytes that end lines. -/
def isSpace (b : UInt8) : Bool := b == 32 || (9 ≤ b && b ≤ 13)

/-- A decimal digit. -/
def isDigit (b : UInt8) : Bool := 48 ≤ b && b ≤ 57

/-- What is left behind the white space at the front. -/
def skipSpaces (bs : List UInt8) : List UInt8 := bs.dropWhile isSpace

/-- The value of digits. -/
def decimal (digits : List UInt8) : Nat := digits.foldl (fun n d ↦ 10 * n + (d.toNat - 48)) 0

/-- The digits at the front, and what is left behind them; nothing if there is no digit. -/
def digits (bs : List UInt8) : Option (Nat × List UInt8) :=
  if (bs.takeWhile isDigit).isEmpty then none
  else some (decimal (bs.takeWhile isDigit), bs.dropWhile isDigit)

/-- A number with an optional sign, and what is left behind it. -/
def number (bs : List UInt8) : Option (Int × List UInt8) :=
  match bs with
  | 43 :: bs => (digits bs).map fun r ↦ (r.1, r.2)
  | 45 :: bs => (digits bs).map fun r ↦ (-r.1, r.2)
  | bs => (digits bs).map fun r ↦ (r.1, r.2)

/-- What is left behind the elements that satisfy `p` is shorter if there is one. -/
private theorem length_dropWhile_lt {p : UInt8 → Bool} {bs : List UInt8}
    (h : bs.takeWhile p ≠ []) : (bs.dropWhile p).length < bs.length := by
  have hpos := List.length_pos_iff.mpr h
  have hsplit : (bs.takeWhile p).length + (bs.dropWhile p).length = bs.length := by
    rw [← List.length_append, List.takeWhile_append_dropWhile]
  omega

theorem length_skipSpaces_le (bs : List UInt8) : (skipSpaces bs).length ≤ bs.length :=
  (List.dropWhile_sublist isSpace).length_le

theorem length_digits_lt {bs rest : List UInt8} {n : Nat} (h : digits bs = some (n, rest)) :
    rest.length < bs.length := by
  rw [digits] at h
  split at h
  · cases h
  · next hsome =>
    cases h
    apply length_dropWhile_lt
    simpa using hsome

/-- A number takes at least one byte. -/
theorem length_number_lt {bs rest : List UInt8} {n : Int} (h : number bs = some (n, rest)) :
    rest.length < bs.length := by
  have hmap {f : Nat → Int} {bs' : List UInt8} (hle : bs'.length ≤ bs.length)
      (hdigits : (digits bs').map (fun r ↦ (f r.1, r.2)) = some (n, rest)) :
      rest.length < bs.length := by
    obtain ⟨r, hr, heq⟩ := Option.map_eq_some_iff.mp hdigits
    cases heq
    exact Nat.lt_of_lt_of_le (length_digits_lt hr) hle
  unfold number at h
  split at h
  · exact hmap (by simp) h
  · next unsigned => exact @hmap (fun m ↦ -(m : Int)) unsigned (by simp) h
  · exact hmap Nat.le.refl h

/-- A stream of text: what has not been read, and its two error bits. -/
structure TextStream where
  rest : List UInt8
  eof : Bool := false
  failed : Bool := false
  deriving DecidableEq, Repr

namespace TextStream

variable (s : TextStream)

/-- The bits after bytes have been read up to `rest`. -/
def upTo (rest : List UInt8) : TextStream := { rest := rest, eof := rest.isEmpty }

/-- Extract a word: the bytes behind white space up to the next one. -/
def readWord : TextStream × Option (List UInt8) :=
  if s.failed || s.eof then ({ s with failed := true }, none)
  else
    let front := skipSpaces s.rest
    let word := front.takeWhile fun b ↦ !isSpace b
    if word.isEmpty then ({ rest := [], eof := true, failed := true }, none)
    else (upTo (front.dropWhile fun b ↦ !isSpace b), some word)

/-- Extract a number that has to lie between `lo` and `hi`. -/
def readNumber (lo hi : Int) : TextStream × Option Int :=
  if s.failed || s.eof then ({ s with failed := true }, none)
  else
    match number (skipSpaces s.rest) with
    | none => ({ s with failed := true }, none)
    | some (n, rest) =>
      if lo ≤ n ∧ n ≤ hi then (upTo rest, some n) else ({ upTo rest with failed := true }, none)

variable {s}

/-- A word takes at least one byte. -/
theorem length_readWord_lt {s' : TextStream} {word : List UInt8}
    (h : s.readWord = (s', some word)) : s'.rest.length < s.rest.length := by
  simp only [readWord] at h
  split at h
  · cases h
  · split at h
    · cases h
    · next hword =>
      cases h
      have hle := length_skipSpaces_le s.rest
      have hlt := @length_dropWhile_lt (fun b ↦ !isSpace b) (skipSpaces s.rest)
        (by simpa using hword)
      exact Nat.lt_of_lt_of_le hlt hle

/-- So does a number. -/
theorem length_readNumber_lt {s' : TextStream} {lo hi n : Int}
    (h : s.readNumber lo hi = (s', some n)) : s'.rest.length < s.rest.length := by
  rw [readNumber] at h
  split at h
  · cases h
  · split at h
    · cases h
    · next m rest hnumber =>
      split at h
      · cases h
        exact Nat.lt_of_lt_of_le (length_number_lt hnumber) (length_skipSpaces_le s.rest)
      · cases h

/-- Reading a word never gives bytes back. -/
theorem length_readWord_le : s.readWord.1.rest.length ≤ s.rest.length := by
  cases h : s.readWord with
  | mk s' word =>
    cases word with
    | some word => exact Nat.le_of_lt (length_readWord_lt h)
    | none =>
      simp only [readWord] at h
      split at h
      · cases h
        exact Nat.le.refl
      · split at h
        · cases h
          exact Nat.zero_le _
        · cases h

end TextStream

end Lib
