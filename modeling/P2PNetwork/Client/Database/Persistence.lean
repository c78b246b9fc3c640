import P2PNetwork.Client.Database.Database
import P2PNetwork.Shared.TorrentFile
import Mathlib.Data.List.Forall2

/-!
# The saved database

`src/client/database/Database.cpp:29–75`: a count of 16 bits and one record for every file whose
torrent has a path, the path behind its length. The count is that of all files, and the files
that are loaded go through `addFile`, which copies them.
-/

open Lib

namespace P2PNetwork.Client

/-- What identifies the torrent of a file. -/
def File.description (f : File) : Hash × UInt32 × Bytes :=
  (f.torrent.hashed, f.torrent.size, f.torrent.fileName)

/-- The description of a file that has been copied. -/
def noDescription : Hash × UInt32 × Bytes := (0, 0, [])

namespace Database

/-- The values that the variables of `loadFromFile` and `Torrent` have before they are read. -/
structure Unset where
  torrentCount : UInt16
  nameSize : Nat → UInt32
  torrentNameSize : Nat → UInt32

/-- The files that `saveToFile` writes a record of. -/
def filesWithPath (db : Database) : List File := db.files.filter fun f ↦ f.torrent.hasPath

/-- As much of a path as a length of 32 bits counts. -/
def counted (path : Bytes) : Bytes := path.take (path.length % 256 ^ 4)

/-- The path that a record holds: as much of it as its length of 32 bits counts. -/
def recordedPath (t : Torrent) : Bytes := counted t.currentPath

/-- What `saveToFile` writes. -/
def fileContents (db : Database) : Bytes :=
  toLe 2 db.files.length ++ db.filesWithPath.flatMap fun f ↦ lengthPrefixed 4 f.torrent.currentPath

/-- `saveToFile` (`Database.cpp:58–75`), with the disk it leaves; a file with an empty name does
not open. -/
def saveToFile (db : Database) (filename : Bytes) (opens : Bool) (disk : Disk) : Disk × Nat :=
  if !opens || (cPath filename).isEmpty then (disk, 1)
  else (disk.write filename db.fileContents, 0)

/-- The body of the loop of `loadFromFile` (`Database.cpp:41–53`). -/
def loadRecord (disk : Disk) (unset : Unset) (r : Database × InStream) (i : Nat) :
    Database × InStream :=
  let torrentPath := r.2.readString 4 (unset.nameSize i).toNat
  if !disk.stat torrentPath.2 then (r.1, torrentPath.1)
  else
    let t := Torrent.ofFile disk (unset.torrentNameSize i) torrentPath.2
    (r.1.addFile (.ofTorrent t t.fileName), torrentPath.1)

/-- The number of records that the loop of `loadFromFile` reads (`Database.cpp:38–40`), and the
stream behind it. -/
def readTorrentCount (disk : Disk) (unset : Unset) (filename : Bytes) : InStream × Nat :=
  (disk.openFile filename).readNat 2 unset.torrentCount.toNat

/-- `loadFromFile` (`Database.cpp:29–56`). -/
def loadFromFile (db : Database) (disk : Disk) (unset : Unset) (filename : Bytes) :
    Database × Nat :=
  if !disk.stat filename then (db, 1)
  else
    let torrentCount := readTorrentCount disk unset filename
    (((List.range torrentCount.2).foldl (loadRecord disk unset)
      ({ files := [] }, torrentCount.1)).1, 0)

/-- The torrent file of `t` can be read under the path that is recorded, and it holds `t`. -/
def Holds (disk : Disk) (t : Torrent) : Prop :=
  disk.stat (recordedPath t) = true ∧
    ∀ nameSize, (Torrent.ofFile disk nameSize (recordedPath t)).same t = true

/-- The torrent of a file is the one that a torrent file holds. -/
def MadeFrom (disk : Disk) (torrentPath : Bytes) (f : File) : Prop :=
  ∃ nameSize, f.torrent.same (Torrent.ofFile disk nameSize torrentPath) = true

/-- What loading a saved database should give: the files with a path, from as many records as
were written. -/
def RoundTrip (db loaded : Database) (recordsRead : Nat) : Prop :=
  loaded.files.map File.description = db.filesWithPath.map File.description ∧
    recordsRead = db.filesWithPath.length

section

variable {db : Database} {disk : Disk} {unset : Unset} {files : List File}

/-- A path below 2³² bytes is counted as a whole. -/
theorem counted_of_lt {path : Bytes} (h : path.length < 2 ^ 32) : counted path = path := by
  have hcount : path.length % 256 ^ 4 = path.length := Nat.mod_eq_of_lt h
  rw [counted, hcount, List.take_length]

private theorem stat_zeros (disk : Disk) (n : Nat) : disk.stat (List.replicate n 0) = false := by
  rw [Disk.stat, cPath_zeros]
  rfl

/-- Behind a failed read the loop adds nothing. -/
private theorem foldl_loadRecord_failed (rest : Bytes) (is : List Nat) :
    (is.foldl (loadRecord disk unset) (db, ⟨rest, true⟩)).1 = db := by
  induction is with
  | nil => rfl
  | cons i is ih =>
    obtain ⟨size, hread⟩ := InStream.readString_failed rest 4 (unset.nameSize i).toNat
    have hstep : loadRecord disk unset (db, ⟨rest, true⟩) i = (db, ⟨rest, true⟩) := by
      simp only [loadRecord, hread, stat_zeros, Bool.not_false, if_true]
    rw [List.foldl_cons, hstep, ih]

/-- A torrent file with what `saveToFile` of a torrent writes holds the torrent. -/
theorem holds_of_fileContents {t : Torrent} (hstat : disk.stat (recordedPath t) = true)
    (hcontents : disk (cPath (recordedPath t)) = some t.fileContents)
    (hname : t.fileName.length < 2 ^ 32) : Holds disk t := by
  refine ⟨hstat, fun nameSize ↦ ?_⟩
  rw [Torrent.ofFile_of_fileContents hstat hcontents hname]
  simp [Torrent.same, Torrent.setPath]

/-- A file that is made of the torrent file of `t` has its description. -/
private theorem description_of_madeFrom {t : Torrent} {f : File} (h : Holds disk t)
    (hmade : MadeFrom disk (recordedPath t) f) :
    f.description = (t.hashed, t.size, t.fileName) := by
  obtain ⟨nameSize, hsame⟩ := hmade
  have hheld := h.2 nameSize
  simp only [Torrent.same, Bool.and_eq_true, beq_iff_eq] at hsame hheld
  rw [File.description, hsame.1.1, hsame.1.2, hsame.2, hheld.1.1, hheld.1.2, hheld.2]

/-- Of a record a file is made and its copy is added, if its torrent file is there. -/
private theorem loadRecord_record (disk : Disk) (db : Database) (unset : Unset) (p rest : Bytes)
    (i : Nat) :
    ∃ made : List File, List.Forall₂ (MadeFrom disk) ([counted p].filter disk.stat) made ∧
      loadRecord disk unset (db, .opened (lengthPrefixed 4 p ++ rest)) i =
        ({ files := db.files ++ made.map File.copy }, .opened rest) := by
  have hread : (InStream.opened (lengthPrefixed 4 p ++ rest)).readString 4
      (unset.nameSize i).toNat = (.opened rest, counted p) :=
    InStream.readString_lengthPrefixed p
  cases hstat : disk.stat (counted p) with
  | false =>
    refine ⟨[], by simp [hstat], ?_⟩
    simp only [loadRecord, hread, hstat, Bool.not_false, if_true, List.map_nil, List.append_nil]
  | true =>
    let t := Torrent.ofFile disk (unset.torrentNameSize i) (counted p)
    have hmade : MadeFrom disk (counted p) (.ofTorrent t t.fileName) :=
      ⟨unset.torrentNameSize i, Torrent.same_self t⟩
    refine ⟨[.ofTorrent t t.fileName], by simpa [hstat] using hmade, ?_⟩
    simp only [loadRecord, hread, hstat, Bool.not_true, Bool.false_eq_true, if_false]
    rfl

/-- The loop of `loadFromFile` makes a file of each record whose torrent file is there, in their
order, and adds a copy of it. -/
theorem foldl_loadRecord_paths (disk : Disk) (db : Database) (unset : Unset)
    (paths : List Bytes) (rest : Bytes) (is : List Nat)
    (h : is.length ≤ paths.length ∨ rest = []) :
    ∃ made : List File,
      List.Forall₂ (MadeFrom disk) (((paths.take is.length).map counted).filter disk.stat) made ∧
        (is.foldl (loadRecord disk unset)
          (db, .opened (paths.flatMap (lengthPrefixed 4) ++ rest))).1.files =
            db.files ++ made.map File.copy := by
  induction is generalizing db paths with
  | nil => exact ⟨[], .nil, (List.append_nil _).symm⟩
  | cons i is ih =>
    cases paths with
    | nil =>
      have hrest : rest = [] := h.resolve_left (by simp)
      have hfour : 0 < 4 := by decide
      obtain ⟨size, hread⟩ := InStream.readString_nil hfour (unset.nameSize i).toNat
      have hstep : loadRecord disk unset (db, .opened []) i = (db, ⟨[], true⟩) := by
        simp only [loadRecord, hread, stat_zeros, Bool.not_false, if_true]
      refine ⟨[], .nil, ?_⟩
      rw [List.foldl_cons, List.flatMap_nil, hrest, List.append_nil, hstep, foldl_loadRecord_failed]
      exact (List.append_nil _).symm
    | cons p paths =>
      obtain ⟨first, hfirst, hstep⟩ := loadRecord_record disk db unset p
        (paths.flatMap (lengthPrefixed 4) ++ rest) i
      have hmore : is.length ≤ paths.length ∨ rest = [] := h.imp_left fun hle ↦ by
        simpa using hle
      obtain ⟨made, hmade, hfiles⟩ := ih { files := db.files ++ first.map File.copy } paths hmore
      refine ⟨first ++ made, ?_, ?_⟩
      · rw [List.length_cons, List.take_succ_cons, List.map_cons, ← List.singleton_append,
          List.filter_append]
        exact List.rel_append hfirst hmade
      · rw [List.flatMap_cons, List.append_assoc, List.foldl_cons, hstep, hfiles, List.map_append,
          List.append_assoc]

/-- Where the torrent files hold the torrents of files, those that are made of them have their
descriptions. -/
private theorem map_description_of_madeFrom (hheld : ∀ f ∈ files, Holds disk f.torrent)
    {made : List File}
    (h : List.Forall₂ (MadeFrom disk) (files.map fun f ↦ recordedPath f.torrent) made) :
    made.map File.description = files.map File.description := by
  induction files generalizing made with
  | nil =>
    cases h
    rfl
  | cons f files ih =>
    cases h with
    | cons hfirst hrest =>
      rw [List.map_cons, List.map_cons, ih (fun g hg ↦ hheld g (List.mem_cons_of_mem f hg)) hrest,
        description_of_madeFrom (hheld f List.mem_cons_self) hfirst]
      rfl

/-- The loop of `loadFromFile` makes the files of the records, in their order and with their
descriptions, and adds a copy of each. -/
theorem foldl_loadRecord (db : Database) (unset : Unset)
    (hheld : ∀ f ∈ files, Holds disk f.torrent) (is : List Nat) :
    ∃ made : List File,
      made.map File.description = (files.take is.length).map File.description ∧
        (is.foldl (loadRecord disk unset) (db, .opened (files.flatMap fun f ↦
          lengthPrefixed 4 f.torrent.currentPath))).1.files = db.files ++ made.map File.copy := by
  obtain ⟨made, hmade, hfiles⟩ := foldl_loadRecord_paths disk db unset
    (files.map fun f ↦ f.torrent.currentPath) [] is (.inr rfl)
  have htaken : ∀ f ∈ files.take is.length, Holds disk f.torrent :=
    fun f hf ↦ hheld f (List.mem_of_mem_take hf)
  have hpaths : ((files.map fun f ↦ f.torrent.currentPath).take is.length).map counted =
      (files.take is.length).map fun f ↦ recordedPath f.torrent := by
    rw [← List.map_take, List.map_map]
    rfl
  have hthere : ∀ p ∈ (files.take is.length).map fun f ↦ recordedPath f.torrent,
      disk.stat p = true := by
    intro p hp
    obtain ⟨f, hf, rfl⟩ := List.mem_map.mp hp
    exact (htaken f hf).1
  rw [hpaths, List.filter_eq_self.mpr hthere] at hmade
  refine ⟨made, map_description_of_madeFrom htaken hmade, ?_⟩
  rwa [List.append_nil, List.flatMap_map] at hfiles

/-- Where saving succeeds, the file can be found and holds the saved database. -/
private theorem saveToFile_spec {disk' : Disk} {filename : Bytes} {opens : Bool}
    (h : db.saveToFile filename opens disk = (disk', 0)) :
    disk'.stat filename = true ∧ disk'.openFile filename = .opened db.fileContents := by
  unfold saveToFile at h
  split at h
  · cases h
  · next hopens =>
    obtain ⟨rfl, -⟩ := Prod.mk.inj h
    have hname : cPath filename ≠ [] := by
      intro hempty
      simp [hempty] at hopens
    exact ⟨Disk.stat_write hname, Disk.openFile_write _ _ _⟩

/-- A copied file describes nothing. -/
private theorem map_description_copy (made : List File) :
    (made.map File.copy).map File.description = List.replicate made.length noDescription := by
  rw [List.map_map, List.eq_replicate_iff]
  refine ⟨List.length_map _, fun x hx ↦ ?_⟩
  obtain ⟨f, -, rfl⟩ := List.mem_map.mp hx
  rfl

/-- A database that has been saved is loaded again, but what comes back is what was saved exactly
when as many files have a path as the 16 bits of the count say, and the torrents with a path have
hash 0, size 0 and no name. -/
theorem roundTrip_iff {disk' : Disk} {filename : Bytes} {opens : Bool}
    (hsave : db.saveToFile filename opens disk = (disk', 0))
    (hheld : ∀ f ∈ db.filesWithPath, Holds disk' f.torrent) (before : Database) (unset : Unset) :
    ∃ loaded, before.loadFromFile disk' unset filename = (loaded, 0) ∧
      (RoundTrip db loaded (readTorrentCount disk' unset filename).2 ↔
        db.files.length % 2 ^ 16 = db.filesWithPath.length ∧
          ∀ f ∈ db.filesWithPath, f.description = noDescription) := by
  obtain ⟨hstat, hopen⟩ := saveToFile_spec hsave
  have hcount : readTorrentCount disk' unset filename =
      (.opened (db.filesWithPath.flatMap fun f ↦ lengthPrefixed 4 f.torrent.currentPath),
        db.files.length % 2 ^ 16) := by
    rw [readTorrentCount, hopen, fileContents, InStream.readNat_toLe]
    rfl
  obtain ⟨made, hmade, hfiles⟩ := foldl_loadRecord { files := [] } unset hheld
    (List.range (db.files.length % 2 ^ 16))
  rw [List.length_range] at hmade
  refine ⟨_, by simp only [loadFromFile, hstat, Bool.not_true, Bool.false_eq_true, if_false]; rfl,
    ?_⟩
  simp only [hcount]
  rw [RoundTrip, hfiles, List.nil_append, map_description_copy, and_comm]
  refine and_congr_right fun hlength ↦ ?_
  rw [hlength, List.take_length] at hmade
  have hmadeLength : made.length = (db.filesWithPath.map File.description).length := by
    rw [← hmade, List.length_map]
  rw [hmadeLength, eq_comm, List.eq_replicate_iff]
  simp

end

/-! ### The database of the client's test -/

/-- `Torrent t1(101,909,"test1.html")` (`tests_main.cpp:17`). -/
def t1 : Torrent :=
  { hashed := 101, size := 909, fileName := [116, 101, 115, 116, 49, 46, 104, 116, 109, 108] }

/-- The name `torrent1.tor`. -/
def torrent1 : Bytes := [116, 111, 114, 114, 101, 110, 116, 49, 46, 116, 111, 114]

/-- The name `saveTest`. -/
def saveTest : Bytes := [115, 97, 118, 101, 84, 101, 115, 116]

/-- The disk behind `t1.saveToFile("torrent1.tor")`. -/
def testDisk : Disk := (t1.saveToFile torrent1 true fun _ ↦ none).1

/-- `File f1(t1_read, "test1.html")`. -/
def f1 : File := .ofTorrent (t1.setPath torrent1) t1.fileName

/-- A database with the file `f1`. -/
def testDb : Database := { files := [f1] }

/-- What the test has: `db.addFile(f1)` puts a copy of `f1` into the database. -/
def addedDb : Database := ({ files := [] } : Database).addFile f1

/-- The disk behind `db.saveToFile("saveTest")`. -/
def saved (db : Database) : Disk := (db.saveToFile saveTest true testDisk).1

/-- The variables of the loader are zero before they are read. -/
def zeros : Unset := ⟨0, fun _ ↦ 0, fun _ ↦ 0⟩

private theorem holds_f1 : Holds (saved testDb) f1.torrent :=
  holds_of_fileContents (by decide) (by decide) (by decide)

/-- The database with `f1` is saved and loaded. -/
theorem roundTrip_iff_testDb :
    ∃ loaded, testDb.loadFromFile (saved testDb) zeros saveTest = (loaded, 0) ∧
      (RoundTrip testDb loaded (readTorrentCount (saved testDb) zeros saveTest).2 ↔
        testDb.files.length % 2 ^ 16 = testDb.filesWithPath.length ∧
          ∀ f ∈ testDb.filesWithPath, f.description = noDescription) := by
  have hsave : testDb.saveToFile saveTest true testDisk = (saved testDb, 0) := rfl
  refine roundTrip_iff hsave ?_ _ _
  intro f hf
  obtain rfl : f = f1 := List.mem_singleton.mp (List.mem_of_mem_filter hf)
  exact holds_f1

/-- The database with `f1` comes back without its description, and of the one of the test one
record more is read than was written. -/
theorem not_roundTrip_testDb :
    (∀ f ∈ testDb.filesWithPath, Holds (saved testDb) f.torrent) ∧
      ¬ RoundTrip testDb (testDb.loadFromFile (saved testDb) zeros saveTest).1
        (readTorrentCount (saved testDb) zeros saveTest).2 ∧
      ¬ RoundTrip addedDb (addedDb.loadFromFile (saved addedDb) zeros saveTest).1
        (readTorrentCount (saved addedDb) zeros saveTest).2 := by
  refine ⟨?_, ?_, ?_⟩
  · intro f hf
    obtain rfl : f = f1 := List.mem_singleton.mp (List.mem_of_mem_filter hf)
    exact holds_f1
  · rintro ⟨hfiles, -⟩
    exact absurd hfiles (by decide)
  · rintro ⟨-, hcount⟩
    exact absurd hcount (by decide)

end Database

end P2PNetwork.Client
