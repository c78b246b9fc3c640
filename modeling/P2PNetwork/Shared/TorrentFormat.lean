import P2PNetwork.Shared.TorrentFile

/-!
# The format of torrent files

What `saveToFile` writes (`src/shared/Torrent.cpp:66–75`) and what `Torrent(std::string)` makes of
any content (`Torrent.cpp:49–64`). The name stands behind its length, so a torrent ends by itself;
that a content ends too early is not noticed.
-/

open Lib

namespace P2PNetwork

/-- The 16 bytes of the numbers are there, and the name that the last of them counts. -/
def Complete (b : Bytes) : Prop :=
  16 ≤ b.length ∧ 16 + ofLe ((b.drop 12).take 4) ≤ b.length

instance (b : Bytes) : Decidable (Complete b) := inferInstanceAs (Decidable (_ ∧ _))

/-- The four bytes of the size are there, and make up 2³² - 1. -/
def MarkedMissing (b : Bytes) : Prop := (b.drop 8).take 4 = [255, 255, 255, 255]

instance (b : Bytes) : Decidable (MarkedMissing b) :=
  inferInstanceAs (Decidable ((b.drop 8).take 4 = [255, 255, 255, 255]))

namespace Torrent

/-- What may be loaded from a content: a torrent that it begins with, or the value that stands for
failure. -/
def Justified (b : Bytes) (t : Torrent) : Prop := t.fileContents <+: b ∨ t.size = -1

section

variable {t t' : Torrent}

/-- A torrent file has the numbers, and what is left of the name. -/
theorem length_fileContents (t : Torrent) :
    t.fileContents.length = 16 + min (t.fileName.length % 256 ^ 4) t.fileName.length := by
  simp only [fileContents, lengthPrefixed, List.length_append, length_toLe, List.length_take]
  omega

/-- A torrent is not the beginning of a different one. -/
theorem same_of_prefix (hname : t.fileName.length < 2 ^ 32) (hname' : t'.fileName.length < 2 ^ 32)
    (h : t.fileContents <+: t'.fileContents) : t.same t' = true := by
  let decode (content : Bytes) : Torrent := ofFile (fun _ ↦ some content) 0 [1]
  have hread : ∀ u : Torrent, u.fileName.length < 2 ^ 32 → ∀ rest,
      decode (u.fileContents ++ rest) = u.setPath [1] := by
    intro u hu rest
    have hcontents := @ofFile_of_append (fun _ ↦ some (u.fileContents ++ rest)) [1] rest u rfl rfl 0
    rwa [stored_of_lt hu] at hcontents
  have heq := eq_of_prefix (hread t hname) (hread t' hname') h
  simp only [setPath, Torrent.mk.injEq, and_true] at heq
  simp [same, heq]

/-- A torrent that has been saved is read back from its file with any bytes behind it, and no
different torrent has a file that begins with this one. -/
theorem readBack (hname : t.fileName.length < 2 ^ 32) :
    (∀ (disk : Disk) (path more : Bytes) (nameSize : UInt32), cPath path ≠ [] →
      ofFile ((t.saveToFile path true disk).1.append path more) nameSize path = t.setPath path) ∧
    ∀ t' : Torrent, t'.fileName.length < 2 ^ 32 → t.fileContents <+: t'.fileContents →
      t.same t' = true := by
  constructor
  · intro disk path more nameSize hpath
    have hcontents : ((t.saveToFile path true disk).1.append path more) (cPath path) =
        some (t.fileContents ++ more) := by
      simp [saveToFile, Disk.append, Disk.write]
    have hstat : ((t.saveToFile path true disk).1.append path more).stat path = true := by
      simp [Disk.stat, hcontents, hpath]
    rw [ofFile_of_append hstat hcontents, stored_of_lt hname]
  · intro t' hname' hbegins
    exact same_of_prefix hname hname' hbegins

/-- A torrent with a zero byte in its name. -/
def zeroNamed : Torrent := { hashed := 101, size := 909, fileName := [0, 97] }

/-- It is read back. -/
theorem readBack_zeroNamed :
    (∀ (disk : Disk) (path more : Bytes) (nameSize : UInt32), cPath path ≠ [] →
      ofFile ((zeroNamed.saveToFile path true disk).1.append path more) nameSize path =
        zeroNamed.setPath path) ∧
    ∀ t' : Torrent, t'.fileName.length < 2 ^ 32 → zeroNamed.fileContents <+: t'.fileContents →
      zeroNamed.same t' = true :=
  readBack (by decide)

end

section

variable {disk : Disk} {path b : Bytes} {nameSize : UInt32}

/-- What is read of an existing file. -/
private theorem ofFile_eq (hstat : disk.stat path = true) (hcontents : disk (cPath path) = some b) :
    ofFile disk nameSize path =
      ({ hashed := UInt64.ofNat ((InStream.opened b).readNat 8 0).2
         size := UInt32.ofNat (((InStream.opened b).readNat 8 0).1.readNat 4 0).2
         fileName := ((((InStream.opened b).readNat 8 0).1.readNat 4 0).1.readString 4
            nameSize.toNat).2 } : Torrent).setPath path := by
  simp only [ofFile, hstat, if_true, Disk.openFile, hcontents, Option.getD_some]

/-- Of a content with the first two numbers. -/
private theorem ofFile_of_le (hstat : disk.stat path = true)
    (hcontents : disk (cPath path) = some b) (hlength : 12 ≤ b.length) :
    ofFile disk nameSize path =
      ({ hashed := UInt64.ofNat (ofLe (b.take 8))
         size := UInt32.ofNat (ofLe ((b.drop 8).take 4))
         fileName := ((InStream.opened (b.drop 12)).readString 4 nameSize.toNat).2 } :
        Torrent).setPath path := by
  have hfour : 4 ≤ (b.drop 8).length := by
    rw [List.length_drop]
    omega
  rw [ofFile_eq hstat hcontents, InStream.readNat_of_le (by omega), InStream.readNat_of_le hfour,
    List.drop_drop]

/-- The name is as long as the content says, where it says so. -/
theorem length_fileName_ofFile (hstat : disk.stat path = true)
    (hcontents : disk (cPath path) = some b) (hlength : 16 ≤ b.length) :
    (ofFile disk nameSize path).fileName.length = ofLe ((b.drop 12).take 4) := by
  rw [ofFile_of_le hstat hcontents (by omega)]
  apply InStream.length_readString
  rw [List.length_drop]
  omega

/-- Of a content with the numbers the variable for the length makes no difference. -/
theorem ofFile_nameSize (hstat : disk.stat path = true) (hcontents : disk (cPath path) = some b)
    (hlength : 16 ≤ b.length) (nameSize nameSize' : UInt32) :
    ofFile disk nameSize path = ofFile disk nameSize' path := by
  have hfour : 4 ≤ (b.drop 12).length := by
    rw [List.length_drop]
    omega
  rw [ofFile_of_le hstat hcontents (by omega), ofFile_of_le hstat hcontents (by omega),
    InStream.readString_old hfour nameSize.toNat nameSize'.toNat]

/-- Of one that ends in front of the name the length has the bytes of the variable that are not
read. -/
theorem length_fileName_of_lt (hstat : disk.stat path = true)
    (hcontents : disk (cPath path) = some b) (hlength : b.length < 16) :
    (ofFile disk nameSize path).fileName.length =
      ofLe (b.drop 12 ++ (toLe 4 nameSize.toNat).drop (b.drop 12).length) := by
  by_cases hlong : 12 ≤ b.length
  · rw [ofFile_of_le hstat hcontents hlong]
    apply InStream.length_readString_of_lt
    rw [List.length_drop]
    omega
  · have hnone : b.drop 12 = [] := List.drop_of_length_le (by omega)
    rw [ofFile_eq hstat hcontents, hnone, List.nil_append, List.length_nil, List.drop_zero,
      ofLe_toLe, setPath]
    by_cases hhash : 8 ≤ b.length
    · have hlt : (b.drop 8).length < 4 := by
        rw [List.length_drop]
        omega
      rw [InStream.readNat_of_le hhash, InStream.readNat_of_lt hlt]
      exact InStream.length_readString_failed _ _ _
    · rw [InStream.readNat_of_lt (by omega), InStream.readNat_failed]
      exact InStream.length_readString_failed _ _ _

/-- The hash has as many of its bytes as there are. -/
theorem hashed_ofFile (hstat : disk.stat path = true) (hcontents : disk (cPath path) = some b) :
    (ofFile disk nameSize path).hashed = UInt64.ofNat (ofLe (b.take 8)) := by
  rw [ofFile_eq hstat hcontents, setPath, InStream.readNat_zero]

/-- So has the size. -/
theorem size_eq_ofFile (hstat : disk.stat path = true) (hcontents : disk (cPath path) = some b) :
    (ofFile disk nameSize path).size = UInt32.ofNat (ofLe ((b.drop 8).take 4)) := by
  rw [ofFile_eq hstat hcontents, setPath]
  by_cases hhash : 8 ≤ b.length
  · rw [InStream.readNat_of_le hhash, InStream.readNat_zero]
  · have hnone : b.drop 8 = [] := List.drop_of_length_le (by omega)
    rw [InStream.readNat_of_lt (by omega), InStream.readNat_failed, hnone]
    rfl

/-- Up to four bytes make up 2³² - 1 only if there are four of 255. -/
private theorem ofNat_ofLe_iff {bytes : Bytes} (hlength : bytes.length ≤ 4) :
    UInt32.ofNat (ofLe bytes) = -1 ↔ bytes = [255, 255, 255, 255] := by
  have hmax : (-1 : UInt32).toNat = ofLe [255, 255, 255, 255] := by decide
  have hpow : 256 ^ bytes.length ≤ 256 ^ 4 := Nat.pow_le_pow_right (by decide) hlength
  have hlt : ofLe bytes < 2 ^ 32 := (ofLe_lt rfl).trans_le hpow
  rw [← UInt32.toNat_inj, UInt32.toNat_ofNat', Nat.mod_eq_of_lt hlt, hmax]
  constructor
  · intro h
    have hfour : ¬ bytes.length ≤ 3 := by
      intro hle
      have hsmall : 256 ^ bytes.length ≤ 256 ^ 3 := Nat.pow_le_pow_right (by decide) hle
      have hbelow : ofLe bytes < 256 ^ 3 := (ofLe_lt rfl).trans_le hsmall
      rw [h] at hbelow
      exact absurd hbelow (by decide)
    exact (ofLe_inj (by simp; omega)).mp h
  · rintro rfl
    rfl

/-- The size that is read is 2³² - 1 only if its bytes say so. -/
theorem size_ofFile (hstat : disk.stat path = true) (hcontents : disk (cPath path) = some b) :
    (ofFile disk nameSize path).size = -1 ↔ MarkedMissing b := by
  rw [size_eq_ofFile hstat hcontents]
  exact ofNat_ofLe_iff (List.length_take_le 4 _)

/-- A zero in the variable for the length leaves what is read of it. -/
private theorem length_fileName_zero (hstat : disk.stat path = true)
    (hcontents : disk (cPath path) = some b) :
    (ofFile disk 0 path).fileName.length = ofLe ((b.drop 12).take 4) := by
  by_cases hlength : 16 ≤ b.length
  · exact length_fileName_ofFile hstat hcontents hlength
  · have hshort : (b.drop 12).length ≤ 4 := by
      rw [List.length_drop]
      omega
    rw [length_fileName_of_lt hstat hcontents (by omega), UInt32.toNat_zero, toLe_zero,
      List.drop_replicate, ofLe_append_zeros, List.take_of_length_le hshort]

/-- An empty name has a length of zero bytes, as far as there are any. -/
private theorem ofLe_eq_zero_of_fileName (hstat : disk.stat path = true)
    (hcontents : disk (cPath path) = some b) (hname : (ofFile disk nameSize path).fileName = []) :
    ofLe ((b.drop 12).take 4) = 0 := by
  by_cases hlength : 16 ≤ b.length
  · have hcount := @length_fileName_ofFile disk path b nameSize hstat hcontents hlength
    rw [← hcount, hname, List.length_nil]
  · have hzero := @length_fileName_of_lt disk path b nameSize hstat hcontents (by omega)
    rw [hname, List.length_nil, eq_comm, ofLe_eq_zero_iff] at hzero
    apply ofLe_eq_zero_iff.mpr
    intro x hx
    exact hzero x (List.mem_append_left _ (List.mem_of_mem_take hx))

/-- A number is zero if its bytes are. -/
private theorem ofNat_ofLe_eq_zero_iff {bytes : Bytes} :
    (bytes.length ≤ 8 → (UInt64.ofNat (ofLe bytes) = 0 ↔ ofLe bytes = 0)) ∧
      (bytes.length ≤ 4 → (UInt32.ofNat (ofLe bytes) = 0 ↔ ofLe bytes = 0)) := by
  constructor
  · intro hlength
    have hpow : 256 ^ bytes.length ≤ 256 ^ 8 := Nat.pow_le_pow_right (by decide) hlength
    have hlt : ofLe bytes < 2 ^ 64 := (ofLe_lt rfl).trans_le hpow
    rw [← UInt64.toNat_inj, UInt64.toNat_ofNat_of_lt' hlt, UInt64.toNat_zero]
  · intro hlength
    have hpow : 256 ^ bytes.length ≤ 256 ^ 4 := Nat.pow_le_pow_right (by decide) hlength
    have hlt : ofLe bytes < 2 ^ 32 := (ofLe_lt rfl).trans_le hpow
    rw [← UInt32.toNat_inj, UInt32.toNat_ofNat_of_lt' hlt, UInt32.toNat_zero]

/-- The torrent without a name that `Torrent()` makes is read of a content exactly if its first 16
bytes are zero, as far as there are any. -/
theorem empty_same_ofFile_iff (hstat : disk.stat path = true)
    (hcontents : disk (cPath path) = some b) :
    (∃ nameSize, empty.same (ofFile disk nameSize path) = true) ↔ ∀ x ∈ b.take 16, x = 0 := by
  have hfields : ∀ nameSize, empty.same (ofFile disk nameSize path) = true ↔
      ofLe (b.take 8) = 0 ∧ ofLe ((b.drop 8).take 4) = 0 ∧
        (ofFile disk nameSize path).fileName = [] := by
    intro nameSize
    rw [← ofNat_ofLe_eq_zero_iff.1 (List.length_take_le 8 b),
      ← ofNat_ofLe_eq_zero_iff.2 (List.length_take_le 4 _), ← hashed_ofFile hstat hcontents,
      ← size_eq_ofFile hstat hcontents]
    simp only [same, empty, Bool.and_eq_true, beq_iff_eq, and_assoc]
    exact and_congr eq_comm (and_congr eq_comm eq_comm)
  have hsplit : b.take 16 = b.take 8 ++ (b.drop 8).take 4 ++ (b.drop 12).take 4 := by
    rw [← List.take_add, ← List.take_add]
  rw [hsplit]
  simp only [hfields, List.forall_mem_append, ← ofLe_eq_zero_iff]
  constructor
  · rintro ⟨nameSize, hhash, hsize, hname⟩
    exact ⟨⟨hhash, hsize⟩, ofLe_eq_zero_of_fileName hstat hcontents hname⟩
  · rintro ⟨⟨hhash, hsize⟩, hname⟩
    refine ⟨0, hhash, hsize, ?_⟩
    rw [← List.length_eq_zero_iff, length_fileName_zero hstat hcontents, hname]

/-- A complete content is written back as far as the name goes. -/
theorem fileContents_ofFile (hstat : disk.stat path = true) (hcontents : disk (cPath path) = some b)
    (hcomplete : Complete b) :
    (ofFile disk nameSize path).fileContents = b.take (16 + ofLe ((b.drop 12).take 4)) := by
  obtain ⟨hlength, hfits⟩ := hcomplete
  have hhashed : (b.take 8).length = 8 := by simp; omega
  have hsize : ((b.drop 8).take 4).length = 4 := by simp; omega
  have hfour : 4 ≤ (b.drop 12).length := by simp; omega
  have hrest : 4 + ofLe ((b.drop 12).take 4) ≤ (b.drop 12).length := by
    rw [List.length_drop]
    omega
  have htake : b.take (16 + ofLe ((b.drop 12).take 4)) =
      b.take 8 ++ (b.drop 8).take 4 ++ (b.drop 12).take (4 + ofLe ((b.drop 12).take 4)) := by
    rw [← List.take_add, ← List.take_add, ← Nat.add_assoc]
  have hnumber : (UInt64.ofNat (ofLe (b.take 8))).toNat = ofLe (b.take 8) :=
    UInt64.toNat_ofNat_of_lt' (ofLe_lt hhashed)
  have hnumber' : (UInt32.ofNat (ofLe ((b.drop 8).take 4))).toNat = ofLe ((b.drop 8).take 4) :=
    UInt32.toNat_ofNat_of_lt' (ofLe_lt hsize)
  rw [ofFile_of_le hstat hcontents (by omega), InStream.readString_of_le hfour hrest,
    fileContents, setPath, hnumber, hnumber', toLe_ofLe hhashed, toLe_ofLe hsize,
    InStream.lengthPrefixed_take hfour hrest, htake]

/-- What is loaded is what the content begins with exactly if the content is complete. -/
theorem fileContents_prefix_iff (hstat : disk.stat path = true)
    (hcontents : disk (cPath path) = some b) :
    (ofFile disk nameSize path).fileContents <+: b ↔ Complete b := by
  constructor
  · intro h
    have hle := h.length_le
    rw [length_fileContents] at hle
    have hlength : 16 ≤ b.length := by omega
    have hname := @length_fileName_ofFile disk path b nameSize hstat hcontents hlength
    have hlt : ofLe ((b.drop 12).take 4) < 256 ^ 4 := ofLe_lt (by simp; omega)
    rw [hname, Nat.mod_eq_of_lt hlt, Nat.min_self] at hle
    exact ⟨hlength, hle⟩
  · intro hcomplete
    rw [fileContents_ofFile hstat hcontents hcomplete]
    exact List.take_prefix _ b

/-- What is loaded from a content is justified by it exactly if the content is complete, or has the
size that stands for failure. -/
theorem justified_iff (hstat : disk.stat path = true) (hcontents : disk (cPath path) = some b) :
    Justified b (ofFile disk nameSize path) ↔ Complete b ∨ MarkedMissing b := by
  rw [Justified, fileContents_prefix_iff hstat hcontents, size_ofFile hstat hcontents]

end

/-! ### An empty file -/

/-- The content of an empty file. -/
theorem justified_iff_empty :
    Justified [] (ofFile (fun _ ↦ some []) 3 [97]) ↔ Complete [] ∨ MarkedMissing [] :=
  justified_iff rfl rfl

/-- The torrent that is loaded from it has a name of three zero bytes, where the variable for the
length has the value 3. -/
theorem not_justified_empty :
    ofFile (fun _ ↦ some []) 3 [97] =
        { hashed := 0, size := 0, fileName := [0, 0, 0], hasPath := true, currentPath := [97] } ∧
      ¬ Justified [] (ofFile (fun _ ↦ some []) 3 [97]) := by
  refine ⟨by decide, ?_⟩
  rintro (hbegins | hsize)
  · exact absurd hbegins (by decide)
  · exact absurd hsize (by decide)

end Torrent

end P2PNetwork
