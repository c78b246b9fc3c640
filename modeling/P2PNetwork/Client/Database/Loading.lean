import P2PNetwork.Client.Database.Persistence
import P2PNetwork.Shared.TorrentFormat

/-!
# Loading any index

`loadFromFile` (`src/client/database/Database.cpp:29–56`) on any content of its file. The old files
are gone before the first read, no read is checked, and the code is 0 for every file that exists.
-/

open Lib

namespace P2PNetwork.Client

/-- A content that begins with a count and that many complete paths, each behind its length. -/
structure IndexOf (content : Bytes) (paths : List Bytes) : Prop where
  count_lt : paths.length < 2 ^ 16
  length_lt : ∀ p ∈ paths, p.length < 2 ^ 32
  begins : toLe 2 paths.length ++ paths.flatMap (lengthPrefixed 4) <+: content

namespace Database

/-- What `loadFromFile` should return: a code other than zero and the database as it was, or zero
and a file for each path of an index whose torrent file is there, in the order of the paths. -/
def AllOrNothing (db : Database) (disk : Disk) (content : Bytes) (result : Database × Nat) :
    Prop :=
  result.2 ≠ 0 ∧ result.1.files = db.files ∨
    result.2 = 0 ∧ ∃ paths, IndexOf content paths ∧
      List.Forall₂ (MadeFrom disk) (paths.filter disk.stat) result.1.files

/-- The first 16 bytes of a torrent file are zero, as far as there are any. -/
def Blank (disk : Disk) (torrentPath : Bytes) : Prop :=
  ∀ content, disk (cPath torrentPath) = some content → ∀ x ∈ content.take 16, x = 0

section

variable {db : Database} {disk : Disk} {unset : Unset} {filename content : Bytes}

/-- From a content that begins with an index the files of its paths are made, and copied. -/
theorem loadFromFile_of_index {paths : List Bytes} (db : Database) (unset : Unset)
    (hstat : disk.stat filename = true) (hcontent : disk (cPath filename) = some content)
    (hindex : IndexOf content paths) :
    ∃ made : List File, List.Forall₂ (MadeFrom disk) (paths.filter disk.stat) made ∧
      (db.loadFromFile disk unset filename).1.files = made.map File.copy := by
  obtain ⟨rest, hrest⟩ := hindex.begins
  have hcount : readTorrentCount disk unset filename =
      (.opened (paths.flatMap (lengthPrefixed 4) ++ rest), paths.length) := by
    have hmod : paths.length % 256 ^ 2 = paths.length := Nat.mod_eq_of_lt hindex.count_lt
    rw [readTorrentCount, Disk.openFile, hcontent, Option.getD_some, ← hrest, List.append_assoc,
      InStream.readNat_toLe, hmod]
  have hall : (paths.take (List.range paths.length).length).map counted = paths := by
    rw [List.length_range, List.take_length]
    have hcounted : paths.map counted = paths.map id :=
      List.map_congr_left fun p hp ↦ counted_of_lt (hindex.length_lt p hp)
    rw [hcounted, List.map_id]
  obtain ⟨made, hmade, hfiles⟩ := foldl_loadRecord_paths disk { files := [] } unset paths rest
    (List.range paths.length) (.inl (by simp))
  rw [hall] at hmade
  refine ⟨made, hmade, ?_⟩
  rw [loadFromFile, hstat, hcount]
  simpa using hfiles

/-- A copied file is made of a torrent file that is there exactly if that is blank. -/
theorem madeFrom_copy_iff {torrentPath : Bytes} {f : File} (hstat : disk.stat torrentPath = true) :
    MadeFrom disk torrentPath f.copy ↔ Blank disk torrentPath := by
  obtain ⟨content, hcontent⟩ := Option.isSome_iff_exists.mp (Bool.and_eq_true_iff.mp hstat).2
  have hcopy : MadeFrom disk torrentPath f.copy ↔
      ∃ nameSize, Torrent.empty.same (Torrent.ofFile disk nameSize torrentPath) = true := Iff.rfl
  rw [hcopy, Torrent.empty_same_ofFile_iff hstat hcontent, Blank, hcontent]
  simp

/-- So the copies of files are made of the same torrent files exactly if these are blank. -/
private theorem forall₂_madeFrom_copy_iff {paths : List Bytes} {made : List File}
    (hmade : List.Forall₂ (MadeFrom disk) paths made)
    (hthere : ∀ p ∈ paths, disk.stat p = true) :
    List.Forall₂ (MadeFrom disk) paths (made.map File.copy) ↔ ∀ p ∈ paths, Blank disk p := by
  induction hmade with
  | nil => simp
  | cons _ _ ih =>
    obtain ⟨hfirst, hrest⟩ := List.forall_mem_cons.mp hthere
    rw [List.map_cons, List.forall₂_cons, List.forall_mem_cons, madeFrom_copy_iff hfirst, ih hrest]

/-- Loading an index that is there returns zero. -/
private theorem loadFromFile_code (hstat : disk.stat filename = true) :
    (db.loadFromFile disk unset filename).2 = 0 := by
  rw [loadFromFile, hstat]
  rfl

/-- For every database, every disk and every content of the file, `loadFromFile` loads all or
nothing exactly if the content begins with an index, and the torrent files of its paths that are
there are blank. -/
theorem allOrNothing_iff (hstat : disk.stat filename = true)
    (hcontent : disk (cPath filename) = some content) (db : Database) (unset : Unset) :
    AllOrNothing db disk content (db.loadFromFile disk unset filename) ↔
      ∃ paths, IndexOf content paths ∧ ∀ p ∈ paths, disk.stat p = true → Blank disk p := by
  have hcode := @loadFromFile_code db disk unset filename hstat
  have hloaded : AllOrNothing db disk content (db.loadFromFile disk unset filename) ↔
      ∃ paths, IndexOf content paths ∧ List.Forall₂ (MadeFrom disk) (paths.filter disk.stat)
        (db.loadFromFile disk unset filename).1.files := by
    simp [AllOrNothing, hcode]
  rw [hloaded]
  refine exists_congr fun paths ↦ and_congr_right fun hindex ↦ ?_
  obtain ⟨made, hmade, hfiles⟩ := loadFromFile_of_index db unset hstat hcontent hindex
  have hthere : ∀ p ∈ paths.filter disk.stat, disk.stat p = true :=
    fun p hp ↦ (List.mem_filter.mp hp).2
  rw [hfiles, forall₂_madeFrom_copy_iff hmade hthere]
  simp only [List.mem_filter, and_imp]

end

/-! ### Contents that are no index -/

/-- A disk with a file of this content under the name `saveTest`. -/
def diskWith (content : Bytes) : Disk := fun name ↦ if name.beq saveTest then some content else none

/-- An index that promises one path of nine bytes, and ends behind three of them. -/
def cutIndex : Bytes := toLe 2 1 ++ toLe 4 9 ++ [116, 111, 114]

/-- It is no index: its path would need six more bytes. -/
private theorem not_indexOf_cutIndex (paths : List Bytes) : ¬ IndexOf cutIndex paths := by
  intro h
  obtain ⟨rest, hrest⟩ := h.begins
  rw [List.append_assoc] at hrest
  have hcount : paths.length = 1 := by
    have hread := @InStream.readNat_toLe (paths.flatMap (lengthPrefixed 4) ++ rest) 2 0 paths.length
    have hmod : paths.length % 256 ^ 2 = paths.length := Nat.mod_eq_of_lt h.count_lt
    have hone : ((InStream.opened cutIndex).readNat 2 0).2 = 1 := by decide
    rw [← hone, ← hrest, hread, hmod]
  obtain ⟨p, rfl⟩ := List.length_eq_one_iff.mp hcount
  have hrecord : lengthPrefixed 4 p ++ rest = cutIndex.drop 2 := by
    rw [← hrest]
    simp
  have hlength : p.length = 9 := by
    have hread := @InStream.readNat_toLe (p.take (p.length % 256 ^ 4) ++ rest) 4 0 p.length
    have hmod : p.length % 256 ^ 4 = p.length :=
      Nat.mod_eq_of_lt (h.length_lt p List.mem_cons_self)
    have hnine : ((InStream.opened (cutIndex.drop 2)).readNat 4 0).2 = 9 := by decide
    rw [← hnine, ← hrecord, lengthPrefixed, List.append_assoc, hread, hmod]
  have hfits := congrArg List.length hrecord
  simp [lengthPrefixed, hlength, cutIndex] at hfits
  omega

/-- It is loaded into the database of the test. -/
theorem allOrNothing_iff_cutIndex :
    AllOrNothing testDb (diskWith cutIndex) cutIndex
        (testDb.loadFromFile (diskWith cutIndex) zeros saveTest) ↔
      ∃ paths, IndexOf cutIndex paths ∧
        ∀ p ∈ paths, (diskWith cutIndex).stat p = true → Blank (diskWith cutIndex) p :=
  allOrNothing_iff (by decide) (by decide) testDb zeros

/-- The code is zero, and the files of the database are gone. -/
theorem not_allOrNothing_cutIndex :
    testDb.loadFromFile (diskWith cutIndex) zeros saveTest = ({ files := [] }, 0) ∧
      ¬ AllOrNothing testDb (diskWith cutIndex) cutIndex
        (testDb.loadFromFile (diskWith cutIndex) zeros saveTest) := by
  have hload : testDb.loadFromFile (diskWith cutIndex) zeros saveTest = ({ files := [] }, 0) := by
    decide
  refine ⟨hload, ?_⟩
  rw [hload]
  rintro (⟨hcode, -⟩ | ⟨-, paths, hindex, -⟩)
  · exact hcode rfl
  · exact not_indexOf_cutIndex paths hindex

end Database

end P2PNetwork.Client
