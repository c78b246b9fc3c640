import Mathlib.Data.Nat.Digits.Defs

/-!
# Sequential binary files

Numbers of fixed width in little-endian order, strings behind their length, and an input stream
that reads them back. A read goes into a buffer that has a value already; a stream that has come
to its end fails, and what it has not delivered keeps the old value.
-/

namespace Lib

/-! ### Numbers -/

/-- The low `w` bytes of `n`, the lowest first. -/
def toLe : Nat → Nat → List UInt8
  | 0, _ => []
  | w + 1, n => UInt8.ofNat n :: toLe w (n / 256)

/-- The number that bytes stand for, the lowest first. -/
def ofLe (bytes : List UInt8) : Nat := Nat.ofDigits 256 (bytes.map UInt8.toNat)

@[simp] theorem length_toLe (w n : Nat) : (toLe w n).length = w := by
  induction w generalizing n with
  | zero => rfl
  | succ w ih => rw [toLe, List.length_cons, ih]

/-- A number that is written in `w` bytes is read back modulo `256 ^ w`. -/
theorem ofLe_toLe (w n : Nat) : ofLe (toLe w n) = n % 256 ^ w := by
  induction w generalizing n with
  | zero => simp [toLe, ofLe, Nat.mod_one]
  | succ w ih =>
    have hbyte : (UInt8.ofNat n).toNat = n % 256 := by simp
    have hrest : ofLe (toLe (w + 1) n) = n % 256 + 256 * ofLe (toLe w (n / 256)) := by
      simp only [toLe, ofLe, List.map_cons, Nat.ofDigits_cons, hbyte]
    rw [hrest, ih, Nat.pow_succ', Nat.mod_mul]

theorem ofLe_cons (b : UInt8) (bytes : List UInt8) :
    ofLe (b :: bytes) = b.toNat + 256 * ofLe bytes := by
  simp only [ofLe, List.map_cons, Nat.ofDigits_cons]

/-- Bytes are written back as the number that they stand for. -/
theorem toLe_ofLe {bytes : List UInt8} {w : Nat} (hlength : bytes.length = w) :
    toLe w (ofLe bytes) = bytes := by
  subst hlength
  induction bytes with
  | nil => rfl
  | cons b bytes ih =>
    have hb := b.toNat_lt
    have hdiv : (b.toNat + 256 * ofLe bytes) / 256 = ofLe bytes := by omega
    have hlow : UInt8.ofNat (b.toNat + 256 * ofLe bytes) = b := by
      apply UInt8.toNat_inj.mp
      rw [UInt8.toNat_ofNat']
      omega
    rw [List.length_cons, ofLe_cons, toLe, hdiv, hlow, ih]

/-- Numbers of one width are equal only if their bytes are. -/
theorem ofLe_inj {bytes bytes' : List UInt8} (hlength : bytes.length = bytes'.length) :
    ofLe bytes = ofLe bytes' ↔ bytes = bytes' := by
  constructor
  · intro h
    rw [← toLe_ofLe hlength, h, toLe_ofLe rfl]
  · rintro rfl
    rfl

/-- A number of `w` bytes. -/
theorem ofLe_lt {bytes : List UInt8} {w : Nat} (hlength : bytes.length = w) :
    ofLe bytes < 256 ^ w := by
  have hmod := ofLe_toLe w (ofLe bytes)
  rw [toLe_ofLe hlength] at hmod
  rw [hmod]
  exact Nat.mod_lt _ (by positivity)

/-- Bytes stand for zero only if each of them is zero. -/
theorem ofLe_eq_zero_iff {bytes : List UInt8} : ofLe bytes = 0 ↔ ∀ b ∈ bytes, b = 0 := by
  induction bytes with
  | nil => exact iff_of_true rfl (by simp)
  | cons b bytes ih =>
    have hzero : b.toNat = 0 ↔ b = 0 := UInt8.toNat_inj (b := 0)
    rw [ofLe_cons, List.forall_mem_cons, ← ih, ← hzero]
    omega

/-- Zeros at the end make no difference. -/
theorem ofLe_append_zeros (bytes : List UInt8) (n : Nat) :
    ofLe (bytes ++ List.replicate n 0) = ofLe bytes := by
  induction bytes with
  | nil =>
    rw [List.nil_append, ofLe_eq_zero_iff.mpr fun b ↦ List.eq_of_mem_replicate]
    rfl
  | cons b bytes ih => rw [List.cons_append, ofLe_cons, ofLe_cons, ih]

theorem toLe_zero (w : Nat) : toLe w 0 = List.replicate w 0 := by
  induction w with
  | zero => rfl
  | succ w ih => rw [toLe, Nat.zero_div, ih, List.replicate_succ]; rfl

/-! ### Codes -/

/-- What is read back whatever follows it is not the beginning of anything else. -/
theorem eq_of_prefix {α β γ : Type} {encode : α → List β} {decode : List β → γ} {x y : α}
    {vx vy : γ}
    (hx : ∀ rest, decode (encode x ++ rest) = vx) (hy : ∀ rest, decode (encode y ++ rest) = vy)
    (h : encode x <+: encode y) : vx = vy := by
  obtain ⟨rest, hrest⟩ := h
  rw [← hx rest, hrest, ← hy [], List.append_nil]

/-! ### Streams -/

/-- An input stream: the bytes to come, and whether a read has failed. -/
structure InStream where
  rest : List UInt8
  failed : Bool

namespace InStream

/-- A stream at the beginning of a file. -/
def opened (content : List UInt8) : InStream := ⟨content, false⟩

/-- Read into a buffer. At the end of the file the buffer keeps its last bytes and the stream
fails; a failed stream delivers nothing. -/
def read (s : InStream) (buffer : List UInt8) : InStream × List UInt8 :=
  if s.failed then (s, buffer)
  else
    let data := s.rest.take buffer.length
    (⟨s.rest.drop buffer.length, decide (data.length < buffer.length)⟩,
      data ++ buffer.drop data.length)

/-- Read a number of `w` bytes into a variable that has the value `old`. -/
def readNat (s : InStream) (w old : Nat) : InStream × Nat :=
  let r := s.read (toLe w old)
  (r.1, ofLe r.2)

/-- Read a string behind its length of `w` bytes; `old` is what the variable for the length
has. -/
def readString (s : InStream) (w old : Nat) : InStream × List UInt8 :=
  let r := s.readNat w old
  r.1.read (List.replicate r.2 0)

variable {data rest buffer : List UInt8} {w old : Nat}

/-- As many bytes as the buffer holds. -/
theorem read_append (h : data.length = buffer.length) :
    (opened (data ++ rest)).read buffer = (opened rest, data) := by
  simp only [opened, read, Bool.false_eq_true, ↓reduceIte, ← h, List.take_left, List.drop_left,
    Nat.lt_irrefl, decide_false]
  rw [h, List.drop_length, List.append_nil]

/-- At the end of the file a read fails and changes nothing. -/
theorem read_nil (h : buffer ≠ []) : (opened []).read buffer = (⟨[], true⟩, buffer) := by
  have hpos : 0 < buffer.length := List.length_pos_iff.mpr h
  simp [opened, read, hpos]

/-- A failed stream delivers nothing. -/
theorem read_failed (buffer : List UInt8) :
    (⟨rest, true⟩ : InStream).read buffer = (⟨rest, true⟩, buffer) :=
  if_pos rfl

/-- Of a content that is long enough a read delivers the first bytes. -/
theorem read_of_le {content : List UInt8} (h : buffer.length ≤ content.length) :
    (opened content).read buffer =
      (opened (content.drop buffer.length), content.take buffer.length) := by
  have hlength : (content.take buffer.length).length = buffer.length := by
    rw [List.length_take, Nat.min_eq_left h]
  conv_lhs => rw [← List.take_append_drop buffer.length content]
  exact read_append hlength

/-- Of a content that is too short it delivers all there is, and fails. -/
theorem read_of_lt {content : List UInt8} (h : content.length < buffer.length) :
    (opened content).read buffer = (⟨[], true⟩, content ++ buffer.drop content.length) := by
  simp [opened, read, List.take_of_length_le h.le, List.drop_of_length_le h.le, h]

/-- A read gives as many bytes as the buffer holds. -/
theorem length_read (s : InStream) (buffer : List UInt8) :
    (s.read buffer).2.length = buffer.length := by
  unfold read
  split
  · rfl
  · simp only [List.length_append, List.length_take, List.length_drop]
    omega

/-- A number is read from the first bytes of a content that is long enough. -/
theorem readNat_of_le {content : List UInt8} (h : w ≤ content.length) (old : Nat) :
    (opened content).readNat w old = (opened (content.drop w), ofLe (content.take w)) := by
  have hle : (toLe w old).length ≤ content.length := by rwa [length_toLe]
  simp only [readNat, read_of_le hle, length_toLe]

/-- Of a content that is too short the lowest bytes are read. -/
theorem readNat_of_lt {content : List UInt8} (h : content.length < w) (old : Nat) :
    (opened content).readNat w old =
      (⟨[], true⟩, ofLe (content ++ (toLe w old).drop content.length)) := by
  have hlt : content.length < (toLe w old).length := by rwa [length_toLe]
  simp only [readNat, read_of_lt hlt]

/-- Into a zero as many bytes are read as there are. -/
theorem readNat_zero (content : List UInt8) (w : Nat) :
    ((opened content).readNat w 0).2 = ofLe (content.take w) := by
  by_cases h : w ≤ content.length
  · rw [readNat_of_le h]
  · rw [readNat_of_lt (by omega), toLe_zero, List.drop_replicate, ofLe_append_zeros,
      List.take_of_length_le (by omega)]

/-- A failed stream leaves a number modulo its width. -/
theorem readNat_failed (rest : List UInt8) (w old : Nat) :
    (⟨rest, true⟩ : InStream).readNat w old = (⟨rest, true⟩, old % 256 ^ w) := by
  simp only [readNat, read_failed, ofLe_toLe]

/-- A number is read back modulo its width. -/
theorem readNat_toLe (n : Nat) :
    (opened (toLe w n ++ rest)).readNat w old = (opened rest, n % 256 ^ w) := by
  have hlength : (toLe w n).length = (toLe w old).length := by rw [length_toLe, length_toLe]
  simp only [readNat, read_append hlength, ofLe_toLe]

end InStream

/-- A string behind its length: what the length of `w` bytes counts is written. -/
def lengthPrefixed (w : Nat) (s : List UInt8) : List UInt8 :=
  toLe w s.length ++ s.take (s.length % 256 ^ w)

namespace InStream

variable {rest : List UInt8} {w old : Nat}

/-- A string is read back up to the length that was written. -/
theorem readString_lengthPrefixed (s : List UInt8) :
    (opened (lengthPrefixed w s ++ rest)).readString w old =
      (opened rest, s.take (s.length % 256 ^ w)) := by
  have hlength : (s.take (s.length % 256 ^ w)).length =
      (List.replicate (s.length % 256 ^ w) (0 : UInt8)).length := by
    rw [List.length_take, List.length_replicate, Nat.min_eq_left (Nat.mod_le _ _)]
  simp only [readString, lengthPrefixed, List.append_assoc, readNat_toLe, read_append hlength]

/-- The string that is read has the length in front of it. -/
theorem length_readString {content : List UInt8} (h : w ≤ content.length) :
    ((opened content).readString w old).2.length = ofLe (content.take w) := by
  rw [readString, readNat_of_le h, length_read, List.length_replicate]

/-- Where the length is cut off, its lowest bytes are read. -/
theorem length_readString_of_lt {content : List UInt8} (h : content.length < w) :
    ((opened content).readString w old).2.length =
      ofLe (content ++ (toLe w old).drop content.length) := by
  rw [readString, readNat_of_lt h, length_read, List.length_replicate]

/-- A failed stream gives a string as long as the variable says. -/
theorem length_readString_failed (rest : List UInt8) (w old : Nat) :
    ((⟨rest, true⟩ : InStream).readString w old).2.length = old % 256 ^ w := by
  rw [readString, readNat_failed, length_read, List.length_replicate]

/-- A length that is there does not depend on the variable. -/
theorem readString_old {content : List UInt8} (h : w ≤ content.length) (old old' : Nat) :
    (opened content).readString w old = (opened content).readString w old' := by
  rw [readString, readString, readNat_of_le h, readNat_of_le h]

/-- A string that is there as its length says is read as it is. -/
theorem readString_of_le {content : List UInt8} (h : w ≤ content.length)
    (hfits : w + ofLe (content.take w) ≤ content.length) :
    (opened content).readString w old =
      (opened (content.drop (w + ofLe (content.take w))),
        (content.drop w).take (ofLe (content.take w))) := by
  have hle : (List.replicate (ofLe (content.take w)) (0 : UInt8)).length ≤
      (content.drop w).length := by
    rw [List.length_replicate, List.length_drop]
    omega
  simp only [readString, readNat_of_le h, read_of_le hle, List.length_replicate, List.drop_drop]

/-- It is written back as it was. -/
theorem lengthPrefixed_take {content : List UInt8} (h : w ≤ content.length)
    (hfits : w + ofLe (content.take w) ≤ content.length) :
    lengthPrefixed w ((content.drop w).take (ofLe (content.take w))) =
      content.take (w + ofLe (content.take w)) := by
  have hwidth : (content.take w).length = w := by rw [List.length_take, Nat.min_eq_left h]
  have hlength : ((content.drop w).take (ofLe (content.take w))).length =
      ofLe (content.take w) := by
    rw [List.length_take, List.length_drop]
    omega
  rw [lengthPrefixed, hlength, Nat.mod_eq_of_lt (ofLe_lt hwidth), List.take_take, Nat.min_self,
    toLe_ofLe hwidth, List.take_add]

/-- Behind the last string the stream fails, and the string read is one of zeros. -/
theorem readString_nil (hw : 0 < w) (old : Nat) :
    ∃ size, (opened []).readString w old = (⟨[], true⟩, List.replicate size 0) := by
  have hne : toLe w old ≠ [] := by
    rw [← List.length_pos_iff, length_toLe]
    exact hw
  refine ⟨ofLe (toLe w old), ?_⟩
  simp only [readString, readNat, read_nil hne, read_failed]

/-- So is every string of a failed stream. -/
theorem readString_failed (rest : List UInt8) (w old : Nat) :
    ∃ size, (⟨rest, true⟩ : InStream).readString w old =
      (⟨rest, true⟩, List.replicate size 0) := by
  refine ⟨ofLe (toLe w old), ?_⟩
  simp only [readString, readNat, read_failed]

end InStream

end Lib
