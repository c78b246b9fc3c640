import Mathlib.Data.List.Basic

/-!
# Decoding a byte range field by field

A decoder reads one field at a time from the front of a byte range, keeps what it has
read in a state, and stops where no field can be read: at the end, at a zero tag, at
a malformed field or at one that is cut short. What it reads does not depend on the
bytes behind the field. The laws are fields of the structure, so every decoder obeys
them.
-/

namespace Lib

universe u

/-- A field-by-field decoder of messages `M`. -/
structure FieldDecoder (M : Type u) where
  /-- What has been decoded so far, with any context the next field needs. -/
  State : Type u
  start : State
  /-- Read one field from the front; `none` where decoding stops. -/
  next : State → List UInt8 → Option (State × List UInt8)
  message : State → M
  /-- The next field starts with a tag. -/
  expectsTag : State → Bool
  next_shrinks : ∀ {s s' bs rest}, next s bs = some (s', rest) → rest.length < bs.length
  next_append : ∀ {s s' bs rest} (more : List UInt8), next s bs = some (s', rest) →
    next s (bs ++ more) = some (s', rest ++ more)
  next_zero : ∀ {s} rest, expectsTag s = true → next s (0 :: rest) = none

namespace FieldDecoder

variable {M : Type u} (d : FieldDecoder M)

/-- Read at most `n` fields; the state reached and the bytes that were not read. -/
def drain : Nat → d.State → List UInt8 → d.State × List UInt8
  | 0, s, bs => (s, bs)
  | n + 1, s, bs =>
    match d.next s bs with
    | none => (s, bs)
    | some (s', rest) => drain n s' rest

/-- Decode a byte range: every field shortens it, so its length bounds the fields. -/
def decode (bs : List UInt8) : M := d.message (d.drain bs.length d.start bs).1

/-- No field is read across the end of `bs` when the bytes `stale` follow it. -/
def Sealed (bs stale : List UInt8) : Prop :=
  d.next (d.drain bs.length d.start bs).1 ((d.drain bs.length d.start bs).2 ++ stale) = none

instance (bs stale : List UInt8) : Decidable (d.Sealed bs stale) :=
  decidable_of_iff ((d.next (d.drain bs.length d.start bs).1
    ((d.drain bs.length d.start bs).2 ++ stale)).isNone = true) Option.isNone_iff_eq_none

/-- The range consists of whole fields, and a tag has to follow. -/
def Whole (bs : List UInt8) : Prop :=
  (d.drain bs.length d.start bs).2 = [] ∧ d.expectsTag (d.drain bs.length d.start bs).1 = true

instance (bs : List UInt8) : Decidable (d.Whole bs) :=
  inferInstanceAs (Decidable (_ ∧ _))

variable {d}

/-- Draining is done once the length of the range is spent. -/
theorem next_drain (n : Nat) (s : d.State) (bs : List UInt8) (h : bs.length ≤ n) :
    d.next (d.drain n s bs).1 (d.drain n s bs).2 = none := by
  induction n generalizing s bs with
  | zero =>
    have hb : bs = [] := List.length_eq_zero_iff.mp (Nat.le_zero.mp h)
    subst hb
    cases hn : d.next s [] with
    | none => exact hn
    | some p =>
      have hlt : p.2.length < ([] : List UInt8).length := d.next_shrinks hn
      simp at hlt
  | succ n ih =>
    cases hn : d.next s bs with
    | none => simp only [drain, hn]
    | some p =>
      have hlt : p.2.length < bs.length := d.next_shrinks hn
      simpa only [drain, hn] using ih p.1 p.2 (by omega)

/-- Reading stops where it stopped before when nothing can be read there any more. -/
theorem drain_append (n m : Nat) (s : d.State) (bs more : List UInt8) (hm : n ≤ m)
    (hseal : d.next (d.drain n s bs).1 ((d.drain n s bs).2 ++ more) = none) :
    (d.drain m s (bs ++ more)).1 = (d.drain n s bs).1 := by
  have stuck (k : Nat) (t : d.State) (xs : List UInt8) (h : d.next t xs = none) :
      (d.drain k t xs).1 = t := by
    cases k with
    | zero => rfl
    | succ k => simp only [drain, h]
  induction n generalizing m s bs with
  | zero => exact stuck m s _ hseal
  | succ n ih =>
    cases hn : d.next s bs with
    | none =>
      simp only [drain, hn] at hseal ⊢
      exact stuck m s _ hseal
    | some p =>
      obtain ⟨m, rfl⟩ : ∃ k, m = k + 1 := ⟨m - 1, by omega⟩
      simp only [drain, hn, d.next_append more hn] at hseal ⊢
      exact ih m p.1 p.2 (by omega) hseal

/-- Bytes behind a sealed range do not change what it decodes to. -/
theorem decode_append {bs stale : List UInt8} (h : d.Sealed bs stale) :
    d.decode (bs ++ stale) = d.decode bs :=
  congrArg d.message
    (drain_append bs.length (bs ++ stale).length d.start bs stale (by simp) h)

/-- Nothing follows the range. -/
theorem sealed_nil (bs : List UInt8) : d.Sealed bs [] := by
  simpa only [Sealed, List.append_nil] using next_drain bs.length d.start bs Nat.le.refl

/-- A range of whole fields is sealed by a zero byte. -/
theorem sealed_zero {bs : List UInt8} (h : d.Whole bs) (stale : List UInt8) :
    d.Sealed bs (0 :: stale) := by
  rw [Sealed, h.1, List.nil_append]
  exact d.next_zero stale h.2

end FieldDecoder

end Lib
