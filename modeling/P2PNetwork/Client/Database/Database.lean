import P2PNetwork.Client.File.File

/-!
# The client's database

`src/client/database/Database.h` and `Database.cpp:5–27`: the files a client knows, tested by
the hash of their torrents and found by their `Id`. A hash has 64 bits and an `Id` has 32. A file
that is added is copied, and its copy is empty.
-/

namespace P2PNetwork.Client

/-- `class Database` (`Database.h:10–21`). -/
structure Database where
  files : List File
  deriving DecidableEq, Repr

namespace Database

variable (db : Database)

/-- `addFile` (`Database.cpp:5–8`): `make_shared<File>(file)` calls the copy constructor. -/
def addFile (file : File) : Database := { files := db.files ++ [file.copy] }

/-- `getFile` (`Database.cpp:14–19`); no result where the function ends without a `return`. -/
def getFile (id : Int) : Option File := db.files.find? fun f ↦ f.getId == id

/-- `isFileInDatabase` (`Database.cpp:21–27`). -/
def isFileInDatabase (torrent : Torrent) : Bool :=
  db.files.any fun f ↦ f.torrent.hashed == torrent.hashed

/-- The files have different hashes. -/
def DistinctHashes : Prop := (db.files.map fun f ↦ f.torrent.hashed).Nodup

instance : Decidable db.DistinctHashes :=
  inferInstanceAs (Decidable (List.Nodup _))

/-- Where the test says that the file is known, the lookup of `main.cpp:173–175` finds it. -/
def LookupAgrees (torrent : Torrent) : Prop :=
  db.isFileInDatabase torrent = true →
    ∃ f, db.getFile (idOfHash torrent.hashed) = some f ∧ f.torrent.hashed = torrent.hashed

/-- No file in front of the one with the hash of the torrent has the same low 32 bits. -/
def Unshadowed (torrent : Torrent) : Prop :=
  ∀ before f after, db.files = before ++ f :: after → f.torrent.hashed = torrent.hashed →
    ∀ g ∈ before, g.torrent.hashed.toUInt32 ≠ torrent.hashed.toUInt32

variable {db} {torrent : Torrent}

private theorem getId_eq_iff {f : File} :
    (f.getId == idOfHash torrent.hashed) = true ↔
      f.torrent.hashed.toUInt32 = torrent.hashed.toUInt32 := by
  rw [beq_iff_eq, File.getId, idOfHash_inj]

/-- With a file in front that has the same low 32 bits, the lookup returns a file in front. -/
private theorem getFile_of_shadowed {before after : List File} {f g : File}
    (hfiles : db.files = before ++ f :: after) (hg : g ∈ before)
    (hlow : g.torrent.hashed.toUInt32 = torrent.hashed.toUInt32) :
    ∃ found ∈ before, db.getFile (idOfHash torrent.hashed) = some found := by
  have hsome : (before.find? fun f ↦ f.getId == idOfHash torrent.hashed).isSome = true := by
    rw [List.find?_isSome]
    exact ⟨g, hg, getId_eq_iff.mpr hlow⟩
  obtain ⟨found, hfound⟩ := Option.isSome_iff_exists.mp hsome
  refine ⟨found, List.mem_of_find?_eq_some hfound, ?_⟩
  rw [getFile, hfiles, List.find?_append, hfound, Option.some_or]

/-- A file behind the one that the lookup returns is shadowed by it. -/
private theorem getFile_of_unshadowed {f : File} (h : db.Unshadowed torrent) (hf : f ∈ db.files)
    (hhash : f.torrent.hashed = torrent.hashed) :
    ∃ found, db.getFile (idOfHash torrent.hashed) = some found ∧
      found.torrent.hashed = torrent.hashed := by
  have hsome : (db.getFile (idOfHash torrent.hashed)).isSome = true := by
    rw [getFile, List.find?_isSome]
    exact ⟨f, hf, getId_eq_iff.mpr (by rw [hhash])⟩
  obtain ⟨found, hfound⟩ := Option.isSome_iff_exists.mp hsome
  obtain ⟨hlow, before, after, hfiles, hbefore⟩ := List.find?_eq_some_iff_append.mp hfound
  refine ⟨found, hfound, ?_⟩
  rw [hfiles, List.mem_append, List.mem_cons] at hf
  rcases hf with hf | rfl | hf
  · have hnot := hbefore f hf
    rw [getId_eq_iff.mpr (by rw [hhash])] at hnot
    cases hnot
  · exact hhash
  · obtain ⟨between, rest, rfl⟩ := List.append_of_mem hf
    have hsplit : db.files = (before ++ found :: between) ++ f :: rest := by
      rw [hfiles, List.append_assoc, List.cons_append]
    exact absurd (getId_eq_iff.mp hlow) (h _ f rest hsplit hhash found (by simp))

/-- The test and the lookup agree about a torrent exactly when no file in front of its file
has the same low 32 bits of the hash. -/
theorem lookupAgrees_iff (hdistinct : db.DistinctHashes) :
    db.LookupAgrees torrent ↔ db.Unshadowed torrent := by
  constructor
  · intro h before f after hfiles hhash g hg hlow
    have htest : db.isFileInDatabase torrent = true := by
      rw [isFileInDatabase, List.any_eq_true]
      exact ⟨f, by rw [hfiles]; simp, by rw [hhash, beq_self_eq_true]⟩
    obtain ⟨found, hfound, hsame⟩ := h htest
    obtain ⟨first, hfirst, hget⟩ := getFile_of_shadowed hfiles hg hlow
    rw [hget, Option.some_inj] at hfound
    subst hfound
    -- the file found stands in front of `f` and has its hash
    rw [DistinctHashes, hfiles, List.map_append, List.map_cons, List.nodup_append] at hdistinct
    exact hdistinct.2.2 _ (List.mem_map_of_mem hfirst) _ List.mem_cons_self (by rw [hsame, hhash])
  · intro h htest
    obtain ⟨f, hf, hhash⟩ := List.any_eq_true.mp htest
    exact getFile_of_unshadowed h hf (beq_iff_eq.mp hhash)

/-! ### Adding a file -/

/-- `db'` is `db` with one more file, which is `f` in all that counts, and is known. -/
def Keeps (db : Database) (f : File) (db' : Database) : Prop :=
  ∃ stored : File, db'.files = db.files ++ [stored] ∧ stored.torrent = f.torrent ∧
    stored.path = f.path ∧ stored.size = f.size ∧ stored.segments = f.segments ∧
    stored.peers = f.peers ∧ stored.isCompleted = f.isCompleted ∧
    db'.isFileInDatabase f.torrent = true

/-- No file that was built from a torrent is kept: what is stored has the empty torrent and the
size -1, and there is no file of that size with that torrent. -/
theorem not_keeps_addFile {f : File} (hf : f.Built) : ¬ db.Keeps f (db.addFile f) := by
  rintro ⟨stored, hfiles, htorrent, -, hsize, -⟩
  have hstored : f.copy = stored := by simpa [addFile] using hfiles
  subst hstored
  have hempty : Torrent.empty = f.torrent := htorrent
  have hminus : -1 = f.size := hsize
  rw [hf.size, ← hempty] at hminus
  exact absurd hminus (by decide)

/-- The file of the test `database_save_read` (`src/client/tests/tests_main.cpp:14–30`), which is
called `test1.html`. -/
def testFile : File :=
  let name := "test1.html".toUTF8.toList
  .ofTorrent { hashed := 101, size := 909, fileName := name, hasPath := true,
               currentPath := "torrent1.tor".toUTF8.toList } name

/-- It is built from its torrent. -/
theorem not_keeps_addFile_test :
    ¬ (Database.mk []).Keeps testFile ((Database.mk []).addFile testFile) :=
  not_keeps_addFile (File.built_ofTorrent _ _)

/-- What the test finds in the database has no name, and its own torrent is unknown. -/
theorem addFile_test :
    ((Database.mk []).addFile testFile).files.map (fun f ↦ f.torrent.fileName) = [[]] ∧
      ((Database.mk []).addFile testFile).isFileInDatabase testFile.torrent = false ∧
      ¬ (Database.mk []).Keeps testFile ((Database.mk []).addFile testFile) := by
  refine ⟨rfl, rfl, ?_⟩
  rintro ⟨_, -, -, -, -, -, -, -, hknown⟩
  exact absurd hknown (by decide)

/-! ### Two hashes with the same low 32 bits -/

/-- A file with a given hash. -/
def fileWithHash (hashed : Hash) : File :=
  .ofTorrent { hashed := hashed, size := 0, fileName := [97] } []

/-- Two files whose hashes are 2³² + 1 and 1. -/
def shadowedDatabase : Database := { files := [fileWithHash 4294967297, fileWithHash 1] }

/-- The two files have different hashes. -/
theorem lookupAgrees_iff_shadowed :
    shadowedDatabase.LookupAgrees (fileWithHash 1).torrent ↔
      shadowedDatabase.Unshadowed (fileWithHash 1).torrent :=
  lookupAgrees_iff (by decide)

/-- The second file is known, and the lookup returns the first. -/
theorem not_lookupAgrees_shadowed :
    shadowedDatabase.DistinctHashes ∧
      ¬ shadowedDatabase.LookupAgrees (fileWithHash 1).torrent := by
  refine ⟨by decide, ?_⟩
  intro h
  obtain ⟨f, hf, hhash⟩ := h (by decide)
  have hfirst : shadowedDatabase.getFile (idOfHash (fileWithHash 1).torrent.hashed) =
      some (fileWithHash 4294967297) := by decide
  rw [hfirst, Option.some_inj] at hf
  subst hf
  exact absurd hhash (by decide)

end Database

end P2PNetwork.Client
