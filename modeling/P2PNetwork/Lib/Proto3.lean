import P2PNetwork.Lib.FieldDecoder
import Mathlib.Algebra.Group.Nat.Defs

/-!
# The wire format of proto3

Readers for varints, tags and fields, and the field-by-field decoder of a message type
given by its schema. A nested message, or a packed list, is entered where it begins: its
fields change the message at once, and a stack of frames holds the bytes each open
message still has. What was read before a cut is therefore kept.
-/

namespace Lib

/-- A reader takes a value from the front of a byte range and returns what is left. -/
abbrev Reader (α : Type) := List UInt8 → Option (α × List UInt8)

namespace Reader

variable {α β : Type}

/-- A reader that does not look behind what it takes. -/
structure Local (r : Reader α) : Prop where
  le : ∀ {bs a rest}, r bs = some (a, rest) → rest.length ≤ bs.length
  append : ∀ {bs a rest} (more : List UInt8), r bs = some (a, rest) →
    r (bs ++ more) = some (a, rest ++ more)

/-- A reader that takes at least one byte. -/
structure Eats (r : Reader α) : Prop where
  lt : ∀ {bs a rest}, r bs = some (a, rest) → rest.length < bs.length

/-- Read one value and continue with a reader that depends on it. -/
def andThen (r : Reader α) (f : α → Reader β) : Reader β := fun bs ↦
  (r bs).bind fun p ↦ f p.1 p.2

/-- Convert or refuse a value that has been read. -/
def mapMaybe (r : Reader α) (f : α → Option β) : Reader β := fun bs ↦
  (r bs).bind fun p ↦ (f p.1).map fun b ↦ (b, p.2)

/-- Read nothing and fail. -/
def refuse : Reader α := fun _ ↦ none

/-- Take exactly `n` bytes. -/
def take (n : Nat) : Reader (List UInt8) := fun bs ↦
  if n ≤ bs.length then some (bs.take n, bs.drop n) else none

/-- A varint of at most `n` bytes, seven bits each, the lowest first. -/
def varint : Nat → Reader Nat
  | 0, _ => none
  | _ + 1, [] => none
  | n + 1, b :: bs =>
    if b.toNat < 128 then some (b.toNat, bs)
    else (varint n bs).map fun p ↦ (b.toNat - 128 + 128 * p.1, p.2)

theorem Local.andThen {r : Reader α} {f : α → Reader β} (hr : r.Local) (hf : ∀ a, (f a).Local) :
    (r.andThen f).Local where
  le := by
    intro bs b rest h
    obtain ⟨p, hp, hfp⟩ := Option.bind_eq_some_iff.mp h
    exact Nat.le_trans ((hf p.1).le hfp) (hr.le hp)
  append := by
    intro bs b rest more h
    obtain ⟨p, hp, hfp⟩ := Option.bind_eq_some_iff.mp h
    exact Option.bind_eq_some_iff.mpr ⟨_, hr.append more hp, (hf p.1).append more hfp⟩

theorem Eats.andThen {r : Reader α} {f : α → Reader β} (hr : r.Eats) (hf : ∀ a, (f a).Local) :
    (r.andThen f).Eats where
  lt := by
    intro bs b rest h
    obtain ⟨p, hp, hfp⟩ := Option.bind_eq_some_iff.mp h
    exact Nat.lt_of_le_of_lt ((hf p.1).le hfp) (hr.lt hp)

theorem Local.mapMaybe {r : Reader α} (hr : r.Local) (f : α → Option β) : (r.mapMaybe f).Local where
  le := by
    intro bs b rest h
    obtain ⟨p, hp, hf⟩ := Option.bind_eq_some_iff.mp h
    obtain ⟨c, -, hc⟩ := Option.map_eq_some_iff.mp hf
    cases hc
    exact hr.le hp
  append := by
    intro bs b rest more h
    obtain ⟨p, hp, hf⟩ := Option.bind_eq_some_iff.mp h
    obtain ⟨c, hc, he⟩ := Option.map_eq_some_iff.mp hf
    cases he
    exact Option.bind_eq_some_iff.mpr ⟨_, hr.append more hp, by simp [hc]⟩

theorem Eats.mapMaybe {r : Reader α} (hr : r.Eats) (f : α → Option β) : (r.mapMaybe f).Eats where
  lt := by
    intro bs b rest h
    obtain ⟨p, hp, hf⟩ := Option.bind_eq_some_iff.mp h
    obtain ⟨c, -, hc⟩ := Option.map_eq_some_iff.mp hf
    cases hc
    exact hr.lt hp

theorem local_refuse : (refuse : Reader α).Local where
  le := fun h ↦ by cases h
  append := fun _ h ↦ by cases h

theorem local_take (n : Nat) : (take n).Local where
  le := by
    intro bs xs rest h
    simp only [take, Option.ite_none_right_eq_some, Option.some.injEq, Prod.mk.injEq] at h
    rw [← h.2.2, List.length_drop]
    omega
  append := by
    intro bs xs rest more h
    simp only [take, Option.ite_none_right_eq_some, Option.some.injEq, Prod.mk.injEq] at h ⊢
    obtain ⟨hn, rfl, rfl⟩ := h
    refine ⟨by simp only [List.length_append]; omega, ?_, ?_⟩
    · rw [List.take_append_of_le_length hn]
    · rw [List.drop_append_of_le_length hn]

/-- The first byte of a varint either ends it or is followed by the rest. -/
private theorem varint_cons {n : Nat} {b : UInt8} {bs rest : List UInt8} {v : Nat}
    (h : varint (n + 1) (b :: bs) = some (v, rest)) :
    (b.toNat < 128 ∧ v = b.toNat ∧ rest = bs) ∨
      (¬ b.toNat < 128 ∧ ∃ w, varint n bs = some (w, rest) ∧ v = b.toNat - 128 + 128 * w) := by
  rw [varint] at h
  by_cases hb : b.toNat < 128
  · rw [if_pos hb] at h
    cases h
    exact .inl ⟨hb, rfl, rfl⟩
  · rw [if_neg hb] at h
    obtain ⟨⟨w, rest'⟩, hw, he⟩ := Option.map_eq_some_iff.mp h
    cases he
    exact .inr ⟨hb, w, hw, rfl⟩

theorem eats_varint (n : Nat) : (varint n).Eats where
  lt := by
    induction n with
    | zero =>
      intro bs v rest h
      cases h
    | succ n ih =>
      intro bs v rest h
      cases bs with
      | nil => cases h
      | cons b bs =>
        rw [List.length_cons]
        cases varint_cons h with
        | inl hlast => rw [hlast.2.2]; omega
        | inr hmore =>
          obtain ⟨-, w, hw, -⟩ := hmore
          have hlt := ih hw
          omega

theorem local_varint (n : Nat) : (varint n).Local where
  le := fun h ↦ Nat.le_of_lt ((eats_varint n).lt h)
  append := by
    induction n with
    | zero =>
      intro bs v rest more h
      cases h
    | succ n ih =>
      intro bs v rest more h
      cases bs with
      | nil => cases h
      | cons b bs =>
        rw [List.cons_append, varint]
        cases varint_cons h with
        | inl hlast => rw [if_pos hlast.1, hlast.2.1, hlast.2.2]
        | inr hmore =>
          obtain ⟨hb, w, hw, rfl⟩ := hmore
          rw [if_neg hb, ih more hw]
          rfl

end Reader

open Reader

/-- One field, or one element of a packed list. -/
inductive Field
  | scalar (number value : Nat)
  | bytes (number : Nat) (payload : List UInt8)
  /-- The tag and the length of a nested message or of a packed list. -/
  | enter (number length : Nat)
  /-- A field of a fixed width. -/
  | fixed (number : Nat)

namespace Field

/-- A tag, which is not zero: the field number and the wire type. -/
def tag : Reader Nat := (varint 5).mapMaybe fun t ↦
  if t % 2 ^ 32 / 8 = 0 then none else some (t % 2 ^ 32)

/-- What follows the tag of field `number`; fields with `nested number` are entered. -/
def content (nested : Nat → Bool) (number : Nat) : Nat → Reader Field
  | 0 => (varint 10).mapMaybe fun v ↦ some (.scalar number v)
  | 1 => (take 8).mapMaybe fun _ ↦ some (.fixed number)
  | 2 =>
    if nested number then (varint 5).mapMaybe fun n ↦ some (.enter number n)
    else (varint 5).andThen fun n ↦ (take n).mapMaybe fun bs ↦ some (.bytes number bs)
  | 5 => (take 4).mapMaybe fun _ ↦ some (.fixed number)
  | _ => refuse

/-- A field of a message. -/
def read (nested : Nat → Bool) : Reader Field :=
  tag.andThen fun t ↦ content nested (t / 8) (t % 8)

/-- An element of a packed list. -/
def readPacked : Reader Field := (varint 10).mapMaybe fun v ↦ some (.scalar 0 v)

theorem eats_tag : tag.Eats := (eats_varint 5).mapMaybe _

theorem local_tag : tag.Local := (local_varint 5).mapMaybe _

theorem local_content (nested : Nat → Bool) (number wireType : Nat) :
    (content nested number wireType).Local := by
  unfold content
  split
  · exact (local_varint 10).mapMaybe _
  · exact (local_take 8).mapMaybe _
  · split
    · exact (local_varint 5).mapMaybe _
    · exact (local_varint 5).andThen fun n ↦ (local_take n).mapMaybe _
  · exact (local_take 4).mapMaybe _
  · exact local_refuse

theorem eats_read (nested : Nat → Bool) : (read nested).Eats :=
  eats_tag.andThen fun _ ↦ local_content nested _ _

theorem local_read (nested : Nat → Bool) : (read nested).Local :=
  local_tag.andThen fun _ ↦ local_content nested _ _

/-- No field starts with a zero byte. -/
theorem read_zero (nested : Nat → Bool) (rest : List UInt8) : read nested (0 :: rest) = none := by
  simp [read, andThen, tag, mapMaybe, varint]

theorem eats_readPacked : readPacked.Eats := (eats_varint 10).mapMaybe _

theorem local_readPacked : readPacked.Local := (local_varint 10).mapMaybe _

end Field

/-- A message type. The decoder is inside a scope: the message itself, or a nested message
or a packed list that it has entered. -/
structure Schema (M : Type) where
  Scope : Type
  root : Scope
  isPacked : Scope → Bool
  /-- The scope that a length-delimited field opens. -/
  child : Scope → Nat → Option Scope
  /-- What opening a scope does to the message. -/
  enter : Scope → M → M
  scalar : Scope → Nat → Nat → M → M
  bytes : Scope → Nat → List UInt8 → M → M
  empty : M

namespace Schema

variable {M : Type} (sch : Schema M)

/-- The message so far, and the open scopes, the innermost first, with the bytes that each
still has. -/
structure Parse where
  message : M
  frames : List (sch.Scope × Nat)

variable {sch}

/-- The innermost open scope. -/
def Parse.scope (p : sch.Parse) : sch.Scope := (p.frames.head?.map Prod.fst).getD sch.root

/-- Read a field of the innermost scope. -/
def Parse.field (p : sch.Parse) : Reader Field :=
  if sch.isPacked p.scope then Field.readPacked
  else Field.read fun number ↦ (sch.child p.scope number).isSome

/-- `used` bytes have been read; none where a scope ends before them. -/
def spend (used : Nat) (frames : List (sch.Scope × Nat)) : Option (List (sch.Scope × Nat)) :=
  frames.mapM fun f ↦ if used ≤ f.2 then some (f.1, f.2 - used) else none

/-- Open a scope of `length` bytes inside the innermost one. -/
def push (scope : sch.Scope) (length : Nat) (frames : List (sch.Scope × Nat)) :
    Option (List (sch.Scope × Nat)) :=
  if frames.head?.all fun f ↦ length ≤ f.2 then some ((scope, length) :: frames) else none

/-- Close the scopes that have ended. -/
def close (frames : List (sch.Scope × Nat)) : List (sch.Scope × Nat) :=
  frames.dropWhile fun f ↦ f.2 == 0

/-- A field of `used` bytes changes the message and the open scopes. -/
def Parse.advance (p : sch.Parse) (used : Nat) (field : Field) : Option sch.Parse := do
  let frames ← spend used p.frames
  match field with
  | .scalar number value => some ⟨sch.scalar p.scope number value p.message, close frames⟩
  | .bytes number payload => some ⟨sch.bytes p.scope number payload p.message, close frames⟩
  | .fixed _ => some ⟨p.message, close frames⟩
  | .enter number length => do
    let scope ← sch.child p.scope number
    let frames ← push scope length frames
    some ⟨sch.enter scope p.message, close frames⟩

/-- Read one field and account for it. -/
def Parse.next (p : sch.Parse) (bs : List UInt8) : Option (sch.Parse × List UInt8) :=
  (p.field bs).bind fun r ↦ (p.advance (bs.length - r.2.length) r.1).map fun p' ↦ (p', r.2)

theorem Parse.eats_field (p : sch.Parse) : p.field.Eats := by
  unfold Parse.field
  split
  · exact Field.eats_readPacked
  · exact Field.eats_read _

theorem Parse.local_field (p : sch.Parse) : p.field.Local := by
  unfold Parse.field
  split
  · exact Field.local_readPacked
  · exact Field.local_read _

variable (sch)

/-- The decoder of a message type. -/
def decoder : FieldDecoder M where
  State := sch.Parse
  start := ⟨sch.empty, []⟩
  next := Parse.next
  message := Parse.message
  expectsTag := fun p ↦ !sch.isPacked p.scope
  next_shrinks := by
    intro p p' bs rest h
    obtain ⟨r, hr, hp⟩ := Option.bind_eq_some_iff.mp h
    obtain ⟨q, -, he⟩ := Option.map_eq_some_iff.mp hp
    cases he
    exact p.eats_field.lt hr
  next_append := by
    intro p p' bs rest more h
    obtain ⟨r, hr, hp⟩ := Option.bind_eq_some_iff.mp h
    obtain ⟨q, hq, he⟩ := Option.map_eq_some_iff.mp hp
    cases he
    refine Option.bind_eq_some_iff.mpr ⟨_, p.local_field.append more hr, ?_⟩
    have hused : (bs ++ more).length - (r.2 ++ more).length = bs.length - r.2.length := by
      simp only [List.length_append]
      omega
    rw [hused, hq]
    rfl
  next_zero := by
    intro p rest h
    have hpacked : sch.isPacked p.scope = false := by simpa using h
    have hfield : p.field (0 :: rest) = none := by
      rw [Parse.field, if_neg (by simp [hpacked])]
      exact Field.read_zero _ rest
    show (p.field (0 :: rest)).bind _ = none
    rw [hfield]
    rfl

end Schema

/-! ### Writing fields -/

namespace Wire

/-- A varint of at most `n` bytes. -/
def encodeVarint : Nat → Nat → List UInt8
  | 0, _ => []
  | n + 1, v =>
    if v < 128 then [UInt8.ofNat v] else UInt8.ofNat (v % 128 + 128) :: encodeVarint n (v / 128)

/-- A scalar field; zero is left out. -/
def scalarField (number value : Nat) : List UInt8 :=
  if value = 0 then [] else encodeVarint 5 (8 * number) ++ encodeVarint 10 value

/-- A number of 32 bits with a sign, as one of 64 bits. -/
def signExtend (value : Nat) : Nat := if value < 2 ^ 31 then value else value + (2 ^ 64 - 2 ^ 32)

/-- An enumeration field. -/
def enumField (number value : Nat) : List UInt8 := scalarField number (signExtend value)

/-- A length-delimited field. -/
def lengthDelimited (number : Nat) (payload : List UInt8) : List UInt8 :=
  encodeVarint 5 (8 * number + 2) ++ encodeVarint 5 payload.length ++ payload

/-- A bytes, string or packed field; an empty one is left out. -/
def bytesField (number : Nat) (payload : List UInt8) : List UInt8 :=
  if payload.isEmpty then [] else lengthDelimited number payload

end Wire

end Lib
