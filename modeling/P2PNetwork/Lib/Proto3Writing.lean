import P2PNetwork.Lib.Proto3

/-!
# What is written is read

The writers of the wire format against its decoder. A byte string writes a change of the message
inside a scope when the decoder, with this scope open, reads all of it and makes this change.
Such byte strings can be put behind each other, and into a field of an outer scope.
-/

namespace Lib

universe u

namespace FieldDecoder

variable {M : Type u} {d : FieldDecoder M}

/-- The decoder gets from one state to another by reading exactly these bytes. -/
inductive Reads (d : FieldDecoder M) : d.State → List UInt8 → d.State → Prop
  | nil (s : d.State) : Reads d s [] s
  | cons {s s' s'' : d.State} {bs rest : List UInt8} :
      d.next s bs = some (s', []) → Reads d s' rest s'' → Reads d s (bs ++ rest) s''

theorem Reads.single {s s' : d.State} {bs : List UInt8} (h : d.next s bs = some (s', [])) :
    Reads d s bs s' := by
  simpa using Reads.cons h (.nil s')

theorem Reads.trans {s s' s'' : d.State} {bs bs' : List UInt8} (h : Reads d s bs s')
    (h' : Reads d s' bs' s'') : Reads d s (bs ++ bs') s'' := by
  induction h with
  | nil => exact h'
  | cons hnext _ ih =>
    rw [List.append_assoc]
    exact .cons hnext (ih h')

/-- Draining reads all of it. -/
theorem Reads.drain {s s' : d.State} {bs : List UInt8} (h : Reads d s bs s') {n : Nat}
    (hn : bs.length ≤ n) : d.drain n s bs = (s', []) := by
  induction h generalizing n with
  | nil s =>
    have hend : d.next s [] = none := by
      cases hnext : d.next s [] with
      | none => rfl
      | some p => exact absurd (d.next_shrinks hnext) (Nat.not_lt_zero _)
    cases n with
    | zero => rfl
    | succ n => simp only [FieldDecoder.drain, hend]
  | @cons s s₁ s₂ bs rest hnext _ ih =>
    have hlt := d.next_shrinks hnext
    rw [List.length_append] at hn
    obtain ⟨n, rfl⟩ : ∃ k, n = k + 1 := ⟨n - 1, by simp at hlt; omega⟩
    have hfirst : d.next s (bs ++ rest) = some (s₁, rest) := d.next_append rest hnext
    simp only [FieldDecoder.drain, hfirst]
    apply ih
    simp at hlt
    omega

/-- A range that is read from the start decodes to what has been read. -/
theorem Reads.decode {s : d.State} {bs : List UInt8} (h : Reads d d.start bs s) :
    d.decode bs = d.message s := by
  rw [FieldDecoder.decode, h.drain Nat.le.refl]

theorem Reads.whole {s : d.State} {bs : List UInt8} (h : Reads d d.start bs s)
    (htag : d.expectsTag s = true) : d.Whole bs := by
  rw [Whole, h.drain Nat.le.refl]
  exact ⟨rfl, htag⟩

end FieldDecoder

namespace Wire

open Reader

/-! ### Varints, tags and fields -/

/-- A varint that fits into its bytes is read back. -/
theorem varint_encodeVarint {n v : Nat} (hv : v < 128 ^ (n + 1)) (more : List UInt8) :
    varint (n + 1) (encodeVarint (n + 1) v ++ more) = some (v, more) := by
  induction n generalizing v with
  | zero =>
    have hsmall : v < 128 := by simpa using hv
    have hbyte : (UInt8.ofNat v).toNat = v := by
      rw [UInt8.toNat_ofNat']
      omega
    simp [encodeVarint, hsmall, varint, hbyte]
  | succ n ih =>
    rw [encodeVarint]
    split
    · next hsmall =>
      have hbyte : (UInt8.ofNat v).toNat = v := by
        rw [UInt8.toNat_ofNat']
        omega
      simp [varint, hbyte, hsmall]
    · next hlarge =>
      have hbyte : (UInt8.ofNat (v % 128 + 128)).toNat = v % 128 + 128 := by
        rw [UInt8.toNat_ofNat']
        omega
      have hrest : v / 128 < 128 ^ (n + 1) := by
        rw [Nat.div_lt_iff_lt_mul (by decide)]
        simpa [Nat.pow_succ] using hv
      have hmore : ¬ v % 128 + 128 < 128 := by omega
      rw [List.cons_append, varint, hbyte, if_neg hmore, ih hrest]
      simp only [Option.map_some, Option.some_inj, Prod.mk.injEq, and_true]
      omega

theorem encodeVarint_ne_nil (n v : Nat) : encodeVarint (n + 1) v ≠ [] := by
  rw [encodeVarint]
  split <;> simp

/-- A varint has as many bytes as there is room for at most. -/
theorem length_encodeVarint_le (n v : Nat) : (encodeVarint n v).length ≤ n := by
  induction n generalizing v with
  | zero => exact Nat.le_refl 0
  | succ n ih =>
    rw [encodeVarint]
    split
    · simp
    · exact Nat.succ_le_succ (ih (v / 128))

/-- A larger number is not written with fewer bytes. -/
theorem length_encodeVarint_mono (n : Nat) {v v' : Nat} (h : v ≤ v') :
    (encodeVarint n v).length ≤ (encodeVarint n v').length := by
  induction n generalizing v v' with
  | zero => exact Nat.le_refl 0
  | succ n ih =>
    rw [encodeVarint, encodeVarint]
    by_cases hsmall : v < 128
    · rw [if_pos hsmall]
      split
      · exact Nat.le_refl 1
      · exact Nat.succ_le_succ (Nat.zero_le _)
    · have hlarge : ¬ v' < 128 := by omega
      rw [if_neg hsmall, if_neg hlarge]
      exact Nat.succ_le_succ (ih (Nat.div_le_div_right h))

theorem length_scalarField_le (number v : Nat) : (scalarField number v).length ≤ 15 := by
  have htag := length_encodeVarint_le 5 (8 * number)
  have hvalue := length_encodeVarint_le 10 v
  rw [scalarField]
  split
  · simp
  · rw [List.length_append]
    omega

theorem length_enumField_le (number v : Nat) : (enumField number v).length ≤ 15 :=
  length_scalarField_le number (signExtend v)

/-- The sign is in the upper half only. -/
theorem signExtend_mod {v : Nat} (hv : v < 2 ^ 32) : signExtend v % 2 ^ 32 = v := by
  rw [signExtend]
  split <;> omega

theorem signExtend_lt {v : Nat} (hv : v < 2 ^ 32) : signExtend v < 2 ^ 64 := by
  rw [signExtend]
  split <;> omega

theorem signExtend_eq_zero_iff {v : Nat} : signExtend v = 0 ↔ v = 0 := by
  rw [signExtend]
  split <;> omega

theorem length_scalarField_mono (number : Nat) {v v' : Nat} (h : v ≤ v') :
    (scalarField number v).length ≤ (scalarField number v').length := by
  have hvalue := length_encodeVarint_mono 10 h
  rw [scalarField, scalarField]
  by_cases hzero : v = 0
  · simp [hzero]
  · have hpos : v' ≠ 0 := by omega
    rw [if_neg hzero, if_neg hpos, List.length_append, List.length_append]
    omega

theorem length_lengthDelimited_le (number : Nat) (payload : List UInt8) :
    (lengthDelimited number payload).length ≤ payload.length + 10 := by
  have htag := length_encodeVarint_le 5 (8 * number + 2)
  have hlength := length_encodeVarint_le 5 payload.length
  rw [lengthDelimited, List.length_append, List.length_append]
  omega

/-- The tag of a field with a small number is one byte. -/
theorem length_lengthDelimited_mono {number number' : Nat} (hnumber : number < 15)
    {payload payload' : List UInt8} (h : payload.length ≤ payload'.length) :
    (lengthDelimited number payload).length ≤ (lengthDelimited number' payload').length := by
  have htag : (encodeVarint 5 (8 * number + 2)).length = 1 := by
    rw [encodeVarint, if_pos (by omega)]
    rfl
  have htag' : 0 < (encodeVarint 5 (8 * number' + 2)).length :=
    List.length_pos_iff.mpr (encodeVarint_ne_nil 4 _)
  have hlength := length_encodeVarint_mono 5 h
  rw [lengthDelimited, lengthDelimited]
  simp only [List.length_append]
  omega

theorem length_bytesField_le (number : Nat) (payload : List UInt8) :
    (bytesField number payload).length ≤ payload.length + 10 := by
  rw [bytesField]
  split
  · simp
  · exact length_lengthDelimited_le number payload

/-- The tag of a field. -/
theorem tag_encodeVarint {t : Nat} (ht : t < 2 ^ 32) (hnumber : 8 ≤ t) (more : List UInt8) :
    Field.tag (encodeVarint 5 t ++ more) = some (t, more) := by
  have hread : varint 5 (encodeVarint 5 t ++ more) = some (t, more) :=
    varint_encodeVarint (by omega) more
  have hmod : t % 2 ^ 32 = t := Nat.mod_eq_of_lt ht
  have hne : ¬ t / 8 = 0 := by omega
  simp only [Field.tag, mapMaybe, hread, Option.bind_some, hmod, if_neg hne, Option.map_some]

/-- A scalar field that is not left out. -/
theorem read_scalarField {nested : Nat → Bool} {number v : Nat} (hpos : 0 < number)
    (hnumber : number < 2 ^ 29) (hv : v < 2 ^ 64) (hne : v ≠ 0) :
    Field.read nested (scalarField number v) = some (.scalar number v, []) := by
  have hvalue : varint 10 (encodeVarint 10 v) = some (v, []) := by
    simpa using varint_encodeVarint (n := 9) (v := v) (by omega) []
  have htag := tag_encodeVarint (t := 8 * number) (by omega) (by omega) (encodeVarint 10 v)
  have htype : 8 * number % 8 = 0 := by omega
  have hnum : 8 * number / 8 = number := by omega
  rw [scalarField, if_neg hne, Field.read, andThen, htag]
  simp [htype, hnum, Field.content, mapMaybe, hvalue]

/-- A field with a payload. -/
theorem read_lengthDelimited {nested : Nat → Bool} {number : Nat} {payload : List UInt8}
    (hpos : 0 < number) (hnumber : number < 2 ^ 28) (hlength : payload.length < 2 ^ 35)
    (hleaf : nested number = false) :
    Field.read nested (lengthDelimited number payload) = some (.bytes number payload, []) := by
  have hvalue : varint 5 (encodeVarint 5 payload.length ++ payload) =
      some (payload.length, payload) := varint_encodeVarint (by omega) payload
  have htag := tag_encodeVarint (t := 8 * number + 2) (by omega) (by omega)
    (encodeVarint 5 payload.length ++ payload)
  have htype : (8 * number + 2) % 8 = 2 := by omega
  have hnum : (8 * number + 2) / 8 = number := by omega
  rw [lengthDelimited, List.append_assoc, Field.read, andThen, htag]
  simp [htype, hnum, Field.content, hleaf, andThen, mapMaybe, hvalue, take]

/-- The tag and the length of a field that is entered. -/
theorem read_enter {nested : Nat → Bool} {number length : Nat} (hpos : 0 < number)
    (hnumber : number < 2 ^ 28) (hlength : length < 2 ^ 35) (hnested : nested number = true) :
    Field.read nested (encodeVarint 5 (8 * number + 2) ++ encodeVarint 5 length) =
      some (.enter number length, []) := by
  have hvalue : varint 5 (encodeVarint 5 length) = some (length, []) := by
    simpa using varint_encodeVarint (n := 4) (v := length) (by omega) []
  have htag := tag_encodeVarint (t := 8 * number + 2) (by omega) (by omega)
    (encodeVarint 5 length)
  have htype : (8 * number + 2) % 8 = 2 := by omega
  have hnum : (8 * number + 2) / 8 = number := by omega
  rw [Field.read, andThen, htag]
  simp [htype, hnum, Field.content, hnested, mapMaybe, hvalue]

theorem readPacked_encodeVarint {v : Nat} (hv : v < 2 ^ 64) :
    Field.readPacked (encodeVarint 10 v) = some (.scalar 0 v, []) := by
  have hvalue : varint 10 (encodeVarint 10 v) = some (v, []) := by
    simpa using varint_encodeVarint (n := 9) (v := v) (by omega) []
  simp [Field.readPacked, mapMaybe, hvalue]

end Wire

namespace Schema

variable {M : Type} {sch : Schema M}

/-- The open scopes when `n` more bytes have been read. -/
def spent (n : Nat) (frames : List (sch.Scope × Nat)) : List (sch.Scope × Nat) :=
  frames.map fun f ↦ (f.1, f.2 - n)

/-- Every open scope has at least `n` bytes left. -/
def Room (n : Nat) (frames : List (sch.Scope × Nat)) : Prop := ∀ f ∈ frames, n ≤ f.2

/-- The innermost open scope. -/
def scopeOf (frames : List (sch.Scope × Nat)) : sch.Scope :=
  (frames.head?.map Prod.fst).getD sch.root

/-- The innermost scope has not ended. -/
def Open (frames : List (sch.Scope × Nat)) : Prop := ∀ f ∈ frames.head?, 0 < f.2

variable {frames : List (sch.Scope × Nat)} {n k : Nat}

theorem spend_eq (h : Room n frames) : spend n frames = some (spent n frames) := by
  unfold spend spent
  induction frames with
  | nil => rfl
  | cons f frames ih =>
    have hf : n ≤ f.2 := h f List.mem_cons_self
    rw [List.mapM_cons, if_pos hf, ih fun g hg ↦ h g (List.mem_cons_of_mem _ hg)]
    rfl

theorem close_eq (h : Open frames) : close frames = frames := by
  cases frames with
  | nil => rfl
  | cons f frames =>
    have hf : 0 < f.2 := h f rfl
    rw [close, List.dropWhile_cons_of_neg]
    simpa using Nat.ne_of_gt hf

theorem spent_spent (frames : List (sch.Scope × Nat)) (n k : Nat) :
    spent k (spent n frames) = spent (n + k) frames := by
  simp [spent, Nat.sub_sub]

theorem scopeOf_spent (frames : List (sch.Scope × Nat)) (n : Nat) :
    scopeOf (spent n frames) = scopeOf frames := by
  cases frames <;> rfl

theorem room_spent (h : Room (n + k) frames) : Room k (spent n frames) := by
  intro f hf
  obtain ⟨g, hg, rfl⟩ := List.mem_map.mp hf
  have hle := h g hg
  show k ≤ g.2 - n
  omega

/-- Where there is room for more, the innermost scope has not ended. -/
theorem open_of_room (h : Room n frames) (hn : 0 < n) : Open frames := by
  intro f hf
  exact Nat.lt_of_lt_of_le hn (h f (List.mem_of_mem_head? hf))

/-- The bytes make the change in the scope: the decoder reads them with the scope open and room
for them in every open scope. No bytes make no change. -/
structure Writes (scope : sch.Scope) (bs : List UInt8) (change : M → M) : Prop where
  reads : bs ≠ [] → ∀ m frames, scopeOf frames = scope → Room bs.length frames →
    FieldDecoder.Reads sch.decoder (⟨m, frames⟩ : sch.Parse) bs
      (⟨change m, close (spent bs.length frames)⟩ : sch.Parse)
  nothing : bs = [] → ∀ m, change m = m

variable {scope : sch.Scope} {bs bs' : List UInt8} {change change' : M → M} {number : Nat}

theorem Writes.nil : Writes scope ([] : List UInt8) (id : M → M) :=
  ⟨fun h ↦ absurd rfl h, fun _ _ ↦ rfl⟩

theorem Writes.congr (h : Writes scope bs change) (hchange : ∀ m, change m = change' m) :
    Writes scope bs change' := by
  rwa [← funext hchange]

/-- Byte strings can be put behind each other. -/
theorem Writes.append (h : Writes scope bs change) (h' : Writes scope bs' change') :
    Writes scope (bs ++ bs') (change' ∘ change) where
  reads := by
    intro hne m frames hscope hroom
    rw [List.length_append] at hroom ⊢
    by_cases hbs : bs = []
    · subst hbs
      have hsame : change m = m := h.nothing rfl m
      simp only [List.nil_append, List.length_nil, Nat.zero_add, Function.comp, hsame]
        at hne hroom ⊢
      exact h'.reads hne m frames hscope hroom
    · have hfirst := h.reads hbs m frames hscope fun f hf ↦ by
        have hle := hroom f hf
        omega
      by_cases hbs' : bs' = []
      · subst hbs'
        simpa [h'.nothing rfl] using hfirst
      · have hlength : 0 < bs'.length := List.length_pos_iff.mpr hbs'
        have hrest := room_spent hroom
        rw [close_eq (open_of_room hrest hlength)] at hfirst
        have hsecond := h'.reads hbs' (change m) (spent bs.length frames)
          (by rw [scopeOf_spent, hscope]) hrest
        rw [spent_spent] at hsecond
        exact hfirst.trans hsecond
  nothing := by
    intro hnil m
    obtain ⟨hbs, hbs'⟩ := List.append_eq_nil_iff.mp hnil
    rw [Function.comp, h.nothing hbs, h'.nothing hbs']

/-- A list of byte strings, one behind the other. -/
theorem Writes.flatMap {α : Type} {f : α → List UInt8} {g : α → M → M} {l : List α}
    (h : ∀ x ∈ l, Writes scope (f x) (g x)) :
    Writes scope (l.flatMap f) fun m ↦ l.foldl (fun m x ↦ g x m) m := by
  induction l with
  | nil => exact .nil
  | cons x l ih =>
    rw [List.flatMap_cons]
    exact (h x List.mem_cons_self).append (ih fun y hy ↦ h y (List.mem_cons_of_mem _ hy))

/-- One field. -/
private theorem writes_field (field : Field) (hne : bs ≠ [])
    (hread : ∀ p : sch.Parse, p.scope = scope → p.field bs = some (field, []))
    (hadvance : ∀ p : sch.Parse, p.scope = scope → ∀ n, Room n p.frames →
      p.advance n field = some ⟨change p.message, close (spent n p.frames)⟩) :
    Writes scope bs change where
  reads := by
    intro _ m frames hscope hroom
    apply FieldDecoder.Reads.single
    show ((⟨m, frames⟩ : sch.Parse).field bs).bind _ = _
    rw [hread ⟨m, frames⟩ hscope, Option.bind_some, List.length_nil, Nat.sub_zero,
      hadvance ⟨m, frames⟩ hscope _ hroom]
    rfl
  nothing := fun hnil ↦ absurd hnil hne

/-- A scalar field; zero is left out. -/
theorem Writes.scalarField {v : Nat} (hpacked : sch.isPacked scope = false) (hpos : 0 < number)
    (hnumber : number < 2 ^ 29) (hv : v < 2 ^ 64) :
    Writes scope (Wire.scalarField number v)
      fun m ↦ if v = 0 then m else sch.scalar scope number v m := by
  by_cases hzero : v = 0
  · simp only [Wire.scalarField, hzero, ↓reduceIte]
    exact .nil
  · simp only [hzero, ↓reduceIte]
    refine writes_field (.scalar number v) ?_ (fun p hp ↦ ?_) fun p hp n hroom ↦ ?_
    · simp [Wire.scalarField, hzero, Wire.encodeVarint_ne_nil]
    · rw [Parse.field, hp, hpacked]
      exact Wire.read_scalarField hpos hnumber hv hzero
    · simp only [Parse.advance, spend_eq hroom, hp]
      rfl

/-- A field with a payload. -/
theorem Writes.lengthDelimited {payload : List UInt8} (hpacked : sch.isPacked scope = false)
    (hleaf : sch.child scope number = none) (hpos : 0 < number) (hnumber : number < 2 ^ 28)
    (hlength : payload.length < 2 ^ 35) :
    Writes scope (Wire.lengthDelimited number payload) (sch.bytes scope number payload) := by
  refine writes_field (.bytes number payload) ?_ (fun p hp ↦ ?_) fun p hp n hroom ↦ ?_
  · simp [Wire.lengthDelimited, Wire.encodeVarint_ne_nil]
  · rw [Parse.field, hp, hpacked]
    exact Wire.read_lengthDelimited hpos hnumber hlength (by rw [hleaf]; rfl)
  · simp only [Parse.advance, spend_eq hroom, hp]
    rfl

/-- A payload field that is left out where it is empty. -/
theorem Writes.bytesField {payload : List UInt8} (hpacked : sch.isPacked scope = false)
    (hleaf : sch.child scope number = none) (hpos : 0 < number) (hnumber : number < 2 ^ 28)
    (hlength : payload.length < 2 ^ 35) :
    Writes scope (Wire.bytesField number payload)
      fun m ↦ if payload = [] then m else sch.bytes scope number payload m := by
  by_cases hnil : payload = []
  · simp only [Wire.bytesField, hnil, List.isEmpty_nil, ↓reduceIte]
    exact .nil
  · simp only [Wire.bytesField, List.isEmpty_iff, hnil, ↓reduceIte]
    exact .lengthDelimited hpacked hleaf hpos hnumber hlength

/-- An element of a packed list. -/
theorem Writes.packed {v : Nat} (hpacked : sch.isPacked scope = true) (hv : v < 2 ^ 64) :
    Writes scope (Wire.encodeVarint 10 v) (sch.scalar scope 0 v) := by
  refine writes_field (.scalar 0 v) (Wire.encodeVarint_ne_nil 9 v) (fun p hp ↦ ?_)
    fun p hp n hroom ↦ ?_
  · rw [Parse.field, hp, hpacked]
    exact Wire.readPacked_encodeVarint hv
  · simp only [Parse.advance, spend_eq hroom, hp]
    rfl

theorem push_eq {child : sch.Scope} (h : Room n frames) :
    push child n frames = some ((child, n) :: frames) := by
  rw [push, if_pos]
  cases frames with
  | nil => rfl
  | cons f frames => simpa using h f List.mem_cons_self

/-- A scope that has been written to its end is closed. -/
private theorem close_cons (child : sch.Scope) (frames : List (sch.Scope × Nat)) :
    close ((child, 0) :: frames) = close frames :=
  List.dropWhile_cons_of_pos rfl

/-- A field of an outer scope that holds a scope. -/
theorem Writes.enter {child : sch.Scope} (hpacked : sch.isPacked scope = false)
    (hchild : sch.child scope number = some child) (hpos : 0 < number) (hnumber : number < 2 ^ 28)
    (hlength : bs.length < 2 ^ 35) (h : Writes child bs change) :
    Writes scope (Wire.lengthDelimited number bs) (change ∘ sch.enter child) where
  reads := by
    intro _ m frames hscope hroom
    rw [Wire.lengthDelimited] at hroom ⊢
    generalize hheader : Wire.encodeVarint 5 (8 * number + 2) ++ Wire.encodeVarint 5 bs.length =
      header at hroom ⊢
    rw [List.length_append] at hroom ⊢
    have hrest := room_spent hroom
    have hread : (⟨m, frames⟩ : sch.Parse).field header = some (.enter number bs.length, []) := by
      have hp : (⟨m, frames⟩ : sch.Parse).scope = scope := hscope
      rw [Parse.field, hp, hpacked, ← hheader]
      exact Wire.read_enter hpos hnumber hlength (by rw [hchild]; rfl)
    have hheld : Room header.length frames := fun f hf ↦ by
      have hle := hroom f hf
      omega
    have hadvance : (⟨m, frames⟩ : sch.Parse).advance header.length (.enter number bs.length) =
        some ⟨sch.enter child m, close ((child, bs.length) :: spent header.length frames)⟩ := by
      have hp : (⟨m, frames⟩ : sch.Parse).scope = scope := hscope
      simp only [Parse.advance, spend_eq hheld, hp, hchild, Option.bind_eq_bind,
        Option.bind_some, push_eq hrest]
    have hfirst : FieldDecoder.Reads sch.decoder (⟨m, frames⟩ : sch.Parse) header
        (⟨sch.enter child m, close ((child, bs.length) :: spent header.length frames)⟩ :
          sch.Parse) := by
      apply FieldDecoder.Reads.single
      show ((⟨m, frames⟩ : sch.Parse).field header).bind _ = _
      rw [hread, Option.bind_some, List.length_nil, Nat.sub_zero, hadvance]
      rfl
    by_cases hbs : bs = []
    · subst hbs
      rw [List.length_nil, close_cons] at hfirst
      simpa [h.nothing rfl] using hfirst
    · have hnonempty : 0 < bs.length := List.length_pos_iff.mpr hbs
      have hopen : Open ((child, bs.length) :: spent header.length frames) := by
        intro f hf
        cases hf
        exact hnonempty
      rw [close_eq hopen] at hfirst
      have hsecond := h.reads hbs (sch.enter child m)
        ((child, bs.length) :: spent header.length frames) rfl (by
          intro f hf
          rcases List.mem_cons.mp hf with rfl | hf
          · exact Nat.le.refl
          · exact hrest f hf)
      have hend : close (spent bs.length ((child, bs.length) :: spent header.length frames)) =
          close (spent (header.length + bs.length) frames) := by
        rw [← spent_spent]
        simp [spent, close]
      rw [hend] at hsecond
      exact hfirst.trans hsecond
  nothing := by
    intro hnil
    simp [Wire.lengthDelimited, Wire.encodeVarint_ne_nil] at hnil

/-- What is written in the outermost scope is what the decoder finds in it. -/
theorem Writes.decode (h : Writes sch.root bs change) :
    sch.decoder.decode bs = change sch.empty := by
  by_cases hbs : bs = []
  · subst hbs
    rw [h.nothing rfl]
    exact (FieldDecoder.Reads.nil (d := sch.decoder) _).decode
  · exact (h.reads hbs sch.empty [] rfl fun f hf ↦ by cases hf).decode

/-- It consists of whole fields. -/
theorem Writes.whole (hpacked : sch.isPacked sch.root = false) (h : Writes sch.root bs change) :
    sch.decoder.Whole bs := by
  have htag : sch.decoder.expectsTag (⟨change sch.empty, []⟩ : sch.Parse) = true := by
    show (!sch.isPacked sch.root) = true
    rw [hpacked]
    rfl
  by_cases hbs : bs = []
  · subst hbs
    rw [h.nothing rfl] at htag
    exact (FieldDecoder.Reads.nil (d := sch.decoder) _).whole htag
  · exact (h.reads hbs sch.empty [] rfl fun f hf ↦ by cases hf).whole htag

end Schema

end Lib
