import P2PNetwork.Client.File.File
import P2PNetwork.Lib.BlockFile
import P2PNetwork.Lib.CString
import P2PNetwork.Lib.KeyedList

/-!
# File manager

`src/client/file/FileManager.h` and `FileManager.cpp`: the lock tables and the reads
and writes they guard. A host is one machine with its disk and its file manager. A
call that waits on the condition variable has no result here; the outcome of every
open, seek and write is an input.
-/

open Lib

namespace P2PNetwork.Client

/-- A `std::ifstream`: its read position and its error bits. -/
structure IfStream where
  isOpen : Bool
  pos : Nat
  eofbit : Bool
  failbit : Bool
  deriving DecidableEq, Repr, Inhabited

namespace IfStream

/-- A stream that has just opened its file. -/
def opened : IfStream := ⟨true, 0, false, false⟩

/-- `seekg`: clears `eofbit` and has no further effect on a failed stream. -/
def seekg (s : IfStream) (off : Int) : IfStream :=
  let s := { s with eofbit := false }
  if s.failbit then s
  else if off < 0 then { s with failbit := true }
  else { s with pos := off.toNat }

/-- `tellg`: -1 on a failed stream. -/
def tellg (s : IfStream) : Int := if s.failbit then -1 else s.pos

/-- `read`: a read that meets the end of the file sets `eofbit` and `failbit`. -/
def read (s : IfStream) (content : Bytes) (n : Nat) : IfStream × Bytes :=
  if s.failbit || s.eofbit then ({ s with failbit := true }, [])
  else
    let data := (content.drop s.pos).take n
    if data.length = n then ({ s with pos := s.pos + n }, data)
    else ({ s with pos := s.pos + data.length, eofbit := true, failbit := true }, data)

end IfStream

/-- `struct OpenedFile` (`FileManager.h:21–24`). -/
structure OpenedFile where
  fileName : Filename
  stream : IfStream
  deriving DecidableEq, Repr, Inhabited

/-- The lock tables of `class FileManager` (`FileManager.h:28–29`). -/
structure FileManager where
  readLockedFiles : List OpenedFile := []
  writeLockedFiles : List Filename := []
  deriving DecidableEq, Repr, Inhabited

/-- One machine: the contents of its files and its file manager. -/
structure Host where
  disk : Filename → Option Bytes
  fm : FileManager

/-- The outcomes of the system calls of one store, and the memory behind its payload. -/
structure StoreIo where
  /-- The `std::fstream` opens an existing file. -/
  opens : Bool
  seeks : Bool
  /-- How many bytes `write` stores before it fails; `none` if it does not fail. -/
  failsAfter : Option Nat
  /-- What memory holds behind the terminator of the payload string. -/
  beyond : Nat → UInt8

/-- Every system call succeeds. -/
def StoreIo.success (beyond : Nat → UInt8) : StoreIo := ⟨true, true, none, beyond⟩

/-- The bytes of `b` that `write` stores. -/
def StoreIo.written (io : StoreIo) (b : Bytes) : Bytes :=
  match io.failsAfter with
  | none => b
  | some k => b.take k

/-- `n` bytes read from `s.c_str()`: the string, its terminator and what lies behind. -/
def cStr (s : Bytes) (beyond : Nat → UInt8) (n : Nat) : Bytes :=
  (s ++ 0 :: (List.range n).map beyond).take n

namespace Host

variable (h : Host)

/-! ### Locks -/

/-- The entry of the read-lock table that a loop over it finds. -/
def openedFile (fileName : Filename) : Option OpenedFile :=
  h.fm.readLockedFiles.find? fun f ↦ f.fileName == fileName

/-- `readLock` (`FileManager.cpp:154–207`); no result while it waits for a writer. -/
def readLock (fileName : Filename) : Option (Host × Bool) :=
  if fileName ∈ h.fm.writeLockedFiles then none
  else if (h.openedFile fileName).isSome then some (h, true)
  else
    match h.disk fileName with
    | none => some (h, false)
    | some _ =>
      let entry : OpenedFile := { fileName := fileName, stream := .opened }
      some ({ h with fm := { h.fm with
        readLockedFiles := h.fm.readLockedFiles ++ [entry] } }, true)

/-- The second half of `readLock` (`FileManager.cpp:180–206`), behind the test of the table of
the writers: the entry of the file is shared, and a file that does not open gets none. -/
def register (fileName : Filename) (opens : Bool) : Host × Bool :=
  if (h.openedFile fileName).isSome then (h, true)
  else if !opens then (h, false)
  else
    let entry : OpenedFile := { fileName := fileName, stream := .opened }
    ({ h with fm := { h.fm with readLockedFiles := h.fm.readLockedFiles ++ [entry] } }, true)

/-- The loop of `readUnlock` (`FileManager.cpp:212–218`). `++f` behind an `erase` passes the entry
that has moved up; behind the erasure of the last entry it leaves the table, and there is no
result. -/
def eraseEntries (fileName : Filename) : List OpenedFile → Option (List OpenedFile)
  | [] => some []
  | [f] => if f.fileName == fileName then none else some [f]
  | f :: next :: rest =>
    if f.fileName == fileName then (eraseEntries fileName rest).map fun left ↦ next :: left
    else (eraseEntries fileName (next :: rest)).map fun left ↦ f :: left

/-- `readUnlock` (`FileManager.cpp:210–221`). -/
def readUnlock (fileName : Filename) : Option Host :=
  (eraseEntries fileName h.fm.readLockedFiles).map fun left ↦
    { h with fm := { h.fm with readLockedFiles := left } }

/-- `writeLock` (`FileManager.cpp:223–257`); no result while it waits for a reader. -/
def writeLock (fileName : Filename) : Option Host :=
  if (h.openedFile fileName).isSome then none
  else some { h with fm := { h.fm with
    writeLockedFiles := h.fm.writeLockedFiles ++ [fileName] } }

/-- `writeUnlock` (`FileManager.cpp:259–275`): erases the first entry of that name. -/
def writeUnlock (fileName : Filename) : Host :=
  { h with fm := { h.fm with writeLockedFiles := h.fm.writeLockedFiles.erase fileName } }

/-! ### Reading and writing -/

/-- Put a stream back into the entry it was taken from. -/
def setStream (fileName : Filename) (stream : IfStream) : Host :=
  { h with fm := { h.fm with
    readLockedFiles := modifyFirst (fun f ↦ f.fileName == fileName)
      (fun f ↦ { f with stream := stream }) h.fm.readLockedFiles } }

/-- `getSegment` (`FileManager.cpp:106–152`): the buffer, or `none` for `nullptr`. There
is no result when no entry is found, since the pointer is not initialised then. -/
def getSegment (fileName : Filename) (segmentId : Int) (segmentSize : Nat) :
    Option (Host × Option Bytes) :=
  if defaultSegmentSize < segmentSize then some (h, none)
  else
    (h.openedFile fileName).map fun f ↦
      if !f.stream.isOpen then (h, none)
      else
        let offset := segmentOffset segmentId
        let sought := f.stream.seekg offset
        if sought.tellg ≠ offset then (h.setStream fileName sought, none)
        else
          let r := sought.read ((h.disk fileName).getD []) segmentSize
          if r.1.failbit || (r.1.eofbit && !r.1.failbit) then (h.setStream fileName r.1, none)
          else (h.setStream fileName r.1,
            some (r.2 ++ List.replicate (defaultSegmentSize - segmentSize) 0))

/-- `storeSegmentToFile` (`FileManager.cpp:48–80`). A file that does not open leaves the
write lock in place; a failed seek or write is only logged. -/
def storeSegmentToFile (fileName : Filename) (_path : Bytes) (segmentId : Int)
    (segmentData : Bytes) (io : StoreIo) : Option Host :=
  (h.writeLock fileName).map fun h ↦
    match h.disk fileName with
    | none => h
    | some content =>
      if !io.opens then h
      else
        let offset := segmentOffset segmentId
        let segmentContents := cStr segmentData io.beyond defaultSegmentSize
        let content' :=
          if offset < 0 || !io.seeks then content
          else overwrite 0 content offset.toNat (io.written segmentContents)
        writeUnlock { h with disk := Function.update h.disk fileName (some content') } fileName

/-- The name that `storeFile` stores every file under (`FileManager.cpp:22`). -/
def dummy : Filename := "dummy".toUTF8.toList

/-- `storeFile` (`FileManager.cpp:20–46`). Opening creates the file or empties it; one that does
not open leaves the write lock in place, and a failed seek or write is passed over. -/
def storeFile (file : File) (memory : Int → UInt8) (io : StoreIo) : Option Host :=
  (h.writeLock dummy).map fun h ↦
    if !io.opens then h
    else
      let fileContents := blockAt memory file.dataBegin file.size.toNat
      let content := if io.seeks then io.written fileContents else []
      writeUnlock { h with disk := Function.update h.disk dummy (some content) } dummy

/-- `createLocalFile` (`FileManager.cpp:91–100`): `torrent.size` zero bytes. -/
def createLocalFile (torrent : Torrent) : Host :=
  let content := List.replicate torrent.size.toNat 0
  { h with disk := Function.update h.disk torrent.fileName (some content) }

end Host

/-- A payload of a full segment is read as it is. -/
theorem cStr_of_length {s : Bytes} (beyond : Nat → UInt8) {n : Nat} (h : s.length = n) :
    cStr s beyond n = s := by
  subst h
  simp [cStr]

/-- A read from `c_str()` has the length that is asked for. -/
theorem length_cStr (s : Bytes) (beyond : Nat → UInt8) (n : Nat) :
    (cStr s beyond n).length = n := by
  simp only [cStr, List.length_take, List.length_append, List.length_cons, List.length_map,
    List.length_range]
  omega

/-- A read from `c_str()` begins with the string. -/
theorem take_cStr (s : Bytes) (beyond : Nat → UInt8) (n : Nat) :
    (cStr s beyond n).take s.length = s.take n := by
  rw [cStr, List.take_take, Nat.min_comm, ← List.take_take, List.take_left]

namespace Host

variable {h h' : Host} {name : Filename}

/-- A file that can be read through its entry: the stream is open and has not failed. -/
structure Reading (h : Host) (name : Filename) (c : Bytes) : Prop where
  content : h.disk name = some c
  entry : ∃ f, h.openedFile name = some f ∧ f.stream.isOpen = true ∧ f.stream.failbit = false

/-- The files that have an entry in the read-lock table. -/
def readLockedNames (h : Host) : List Filename := h.fm.readLockedFiles.map OpenedFile.fileName

/-- The loop over the read-lock table finds the files that have an entry. -/
theorem isSome_openedFile : (h.openedFile name).isSome = true ↔ name ∈ h.readLockedNames := by
  simp [openedFile, readLockedNames, List.find?_isSome]

/-- `readLock` is the test of the table of the writers with the registration behind it. -/
theorem readLock_eq_register : h.readLock name = if name ∈ h.fm.writeLockedFiles then none
    else some (h.register name (h.disk name).isSome) := by
  unfold readLock register
  cases h.disk name <;> simp only [Option.isSome_none, Option.isSome_some, Bool.not_false,
    Bool.not_true, Bool.false_eq_true, ↓reduceIte] <;> split_ifs <;> rfl

/-- A call of `readLock` waits for the writers of its file. -/
theorem readLock_eq_none_iff : h.readLock name = none ↔ name ∈ h.fm.writeLockedFiles := by
  rw [readLock_eq_register]
  by_cases hlocked : name ∈ h.fm.writeLockedFiles
  · simp [hlocked]
  · simp [hlocked]

/-- The write lock of a file that nobody reads is granted at the end of the table. -/
theorem writeLock_of_unlocked (hfree : h.openedFile name = none) :
    h.writeLock name = some { h with fm := { h.fm with
      writeLockedFiles := h.fm.writeLockedFiles ++ [name] } } := by
  rw [writeLock, hfree]
  rfl

/-- A call of `writeLock` waits for the readers of its file. -/
theorem writeLock_eq_none_iff : h.writeLock name = none ↔ name ∈ h.readLockedNames := by
  rw [← isSome_openedFile, writeLock]
  cases (h.openedFile name).isSome with
  | true => simp
  | false => simp

/-- A registration shares the entry of its file, or opens the file for a new one. -/
theorem register_spec {opens success : Bool} (hreg : h.register name opens = (h', success)) :
    (name ∈ h.readLockedNames ∧ h' = h ∧ success = true) ∨
      (name ∉ h.readLockedNames ∧ opens = false ∧ h' = h ∧ success = false) ∨
      (name ∉ h.readLockedNames ∧ opens = true ∧ success = true ∧
        h'.readLockedNames = h.readLockedNames ++ [name] ∧
        h'.fm.writeLockedFiles = h.fm.writeLockedFiles) := by
  rw [← isSome_openedFile]
  unfold register at hreg
  cases hlocked : (h.openedFile name).isSome with
  | true =>
    rw [hlocked, if_pos rfl, Prod.mk.injEq] at hreg
    exact .inl ⟨rfl, hreg.1.symm, hreg.2.symm⟩
  | false =>
    simp only [hlocked, Bool.false_eq_true, ↓reduceIte] at hreg
    cases opens with
    | false =>
      rw [Bool.not_false, if_pos rfl, Prod.mk.injEq] at hreg
      exact .inr (.inl ⟨Bool.false_ne_true, rfl, hreg.1.symm, hreg.2.symm⟩)
    | true =>
      simp only [Bool.not_true, Bool.false_eq_true, ↓reduceIte, Prod.mk.injEq] at hreg
      obtain ⟨rfl, rfl⟩ := hreg
      exact .inr (.inr ⟨Bool.false_ne_true, rfl, rfl, List.map_append .., rfl⟩)

/-- The loop of `readUnlock` leaves a table without its file as it is. -/
theorem eraseEntries_of_not_mem {entries : List OpenedFile}
    (hfree : name ∉ entries.map OpenedFile.fileName) :
    eraseEntries name entries = some entries := by
  fun_induction eraseEntries name entries with
  | case1 => rfl
  | case2 f hf => exact absurd (by simpa using (beq_iff_eq.mp hf).symm) hfree
  | case3 f hf => rfl
  | case4 f next rest hf ih =>
    exact absurd (List.mem_cons.mpr (.inl (beq_iff_eq.mp hf).symm)) hfree
  | case5 f next rest hf ih =>
    rw [ih fun h ↦ hfree (List.mem_cons_of_mem _ h), Option.map_some]

/-- Where no file has two entries, and the one of the file is not the last, the loop erases it. -/
theorem eraseEntries_of_entry {entries : List OpenedFile} {i : Nat}
    (hnodup : (entries.map OpenedFile.fileName).Nodup)
    (hentry : (entries.map OpenedFile.fileName)[i]? = some name) (hlt : i + 1 < entries.length) :
    eraseEntries name entries = some (entries.eraseIdx i) := by
  fun_induction eraseEntries name entries generalizing i with
  | case1 => cases hlt
  | case2 f hf => simp at hlt
  | case3 f hf => simp at hlt
  | case4 f next rest hf ih =>
    simp only [List.map_cons, List.nodup_cons] at hnodup
    have hname := beq_iff_eq.mp hf
    cases i with
    | zero =>
      rw [eraseEntries_of_not_mem fun h ↦ hnodup.1 (hname ▸ List.mem_cons_of_mem _ h),
        Option.map_some, List.eraseIdx_cons_zero]
    | succ i => exact absurd (hname ▸ List.mem_of_getElem? hentry) hnodup.1
  | case5 f next rest hf ih =>
    rw [List.map_cons, List.nodup_cons] at hnodup
    cases i with
    | zero =>
      cases hentry
      exact absurd (beq_self_eq_true _) hf
    | succ i =>
      rw [ih hnodup.2 hentry (Nat.lt_of_succ_lt_succ hlt), Option.map_some,
        List.eraseIdx_cons_succ]

/-- Where no file has two entries, the loop of `readUnlock` leaves the table exactly if the last
entry is the one of its file. -/
theorem eraseEntries_eq_none_iff {entries : List OpenedFile}
    (hnodup : (entries.map OpenedFile.fileName).Nodup) :
    eraseEntries name entries = none ↔ (entries.map OpenedFile.fileName).getLast? = some name := by
  fun_induction eraseEntries name entries with
  | case1 => simp
  | case2 f hf => simpa using hf
  | case3 f hf => simpa using hf
  | case4 f next rest hf ih =>
    simp only [List.map_cons, List.nodup_cons, List.mem_cons, not_or] at hnodup
    obtain ⟨⟨hne, hnot⟩, -, hrest⟩ := hnodup
    rw [beq_iff_eq.mp hf] at hne hnot
    rw [Option.map_eq_none_iff, ih hrest, List.map_cons, List.map_cons, List.getLast?_cons_cons]
    constructor
    · intro h
      exact absurd (List.mem_of_getLast? h) hnot
    · intro h
      rcases List.mem_cons.mp (List.mem_of_getLast? h) with rfl | hmem
      · exact absurd rfl hne
      · exact absurd hmem hnot
  | case5 f next rest hf ih =>
    rw [List.map_cons, List.nodup_cons] at hnodup
    simp only [Option.map_eq_none_iff, ih hnodup.2, List.map_cons, List.getLast?_cons_cons]

/-- `readUnlock` does not return where the file is the last one of the table. -/
theorem readUnlock_eq_none_iff (hnodup : h.readLockedNames.Nodup) :
    h.readUnlock name = none ↔ h.readLockedNames.getLast? = some name := by
  rw [readUnlock, Option.map_eq_none_iff, eraseEntries_eq_none_iff hnodup]
  rfl

/-- `readUnlock` of a file without an entry does nothing. -/
theorem readUnlock_of_not_mem (hfree : name ∉ h.readLockedNames) : h.readUnlock name = some h := by
  rw [readUnlock, eraseEntries_of_not_mem hfree]
  rfl

/-- `readUnlock` of a file with an entry in front of others erases this. -/
theorem readUnlock_of_entry {i : Nat} (hnodup : h.readLockedNames.Nodup)
    (hentry : h.readLockedNames[i]? = some name) (hlt : i + 1 < h.readLockedNames.length) :
    h.readUnlock name = some { h with fm := { h.fm with
      readLockedFiles := h.fm.readLockedFiles.eraseIdx i } } := by
  rw [readLockedNames, List.length_map] at hlt
  rw [readUnlock, eraseEntries_of_entry hnodup hentry hlt]
  rfl

/-- Where no file has two entries, the loop of `readUnlock` keeps the entries of the others. -/
theorem eraseEntries_of_distinct {entries left : List OpenedFile}
    (hdistinct : Distinct OpenedFile.fileName entries)
    (hleft : eraseEntries name entries = some left) :
    left = entries.filter fun f ↦ f.fileName ≠ name := by
  fun_induction eraseEntries name entries generalizing left with
  | case1 =>
    cases hleft
    rfl
  | case2 f hf => cases hleft
  | case3 f hf =>
    rw [beq_iff_eq] at hf
    cases hleft
    simp [hf]
  | case4 f next rest hf ih =>
    obtain ⟨behind, hbehind, rfl⟩ := Option.map_eq_some_iff.mp hleft
    rw [beq_iff_eq] at hf
    have hnext : next.fileName ≠ name := by
      rintro rfl
      simp [Distinct, hf] at hdistinct
    have hrest : Distinct OpenedFile.fileName rest := (List.nodup_cons.mp
      (List.nodup_cons.mp hdistinct).2).2
    rw [List.filter_cons_of_neg (by simpa using hf), List.filter_cons_of_pos (by simpa using hnext),
      ih hrest hbehind]
  | case5 f next rest hf ih =>
    obtain ⟨behind, hbehind, rfl⟩ := Option.map_eq_some_iff.mp hleft
    rw [beq_iff_eq] at hf
    rw [List.filter_cons_of_pos (by simpa using hf), ih (List.nodup_cons.mp hdistinct).2 hbehind]

/-- Where it returns, the file is not in the table any more. -/
theorem names_readUnlock (hnodup : h.readLockedNames.Nodup)
    (hunlock : h.readUnlock name = some h') :
    h'.readLockedNames = h.readLockedNames.erase name := by
  obtain ⟨left, hleft, rfl⟩ := Option.map_eq_some_iff.mp hunlock
  have hkept := eraseEntries_of_distinct hnodup hleft
  rw [hnodup.erase_eq_filter]
  show left.map OpenedFile.fileName = (h.fm.readLockedFiles.map OpenedFile.fileName).filter _
  rw [hkept, List.filter_map]
  congr 1
  apply List.filter_congr
  intro f _
  rw [Bool.eq_iff_iff]
  simp

/-- The test for a file, as a test of a key. -/
private theorem beq_fileName_eq (name : Filename) :
    (fun f : OpenedFile ↦ f.fileName == name) = fun f ↦ decide (f.fileName = name) := by
  funext f
  rw [Bool.eq_iff_iff, beq_iff_eq, decide_eq_true_iff]

/-- The loop over the read-lock table looks its files up. -/
theorem openedFile_eq_lookup (h : Host) (name : Filename) :
    h.openedFile name = lookup OpenedFile.fileName h.fm.readLockedFiles name := by
  rw [openedFile, lookup, beq_fileName_eq]

/-- `readUnlock` takes the entry of its file out of the table. -/
theorem openedFile_readUnlock (hdistinct : Distinct OpenedFile.fileName h.fm.readLockedFiles)
    (hunlock : h.readUnlock name = some h') (other : Filename) :
    h'.openedFile other = if other = name then none else h.openedFile other := by
  obtain ⟨left, hleft, rfl⟩ := Option.map_eq_some_iff.mp hunlock
  rw [openedFile_eq_lookup, openedFile_eq_lookup, eraseEntries_of_distinct hdistinct hleft,
    lookup_filter_ne]

/-- A stream that is put back changes no entry but that of its file. -/
theorem openedFile_setStream_of_ne (stream : IfStream) {other : Filename} (hne : other ≠ name) :
    (h.setStream name stream).openedFile other = h.openedFile other := by
  have hkey : ∀ f : OpenedFile, OpenedFile.fileName { f with stream := stream } = f.fileName :=
    fun _ ↦ rfl
  rw [openedFile_eq_lookup, openedFile_eq_lookup]
  simp only [setStream, beq_fileName_eq]
  rw [lookup_modifyFirst hkey, if_neg hne]

/-- Putting a stream back keeps one entry for each file. -/
theorem distinct_setStream (stream : IfStream)
    (hdistinct : Distinct OpenedFile.fileName h.fm.readLockedFiles) :
    Distinct OpenedFile.fileName (h.setStream name stream).fm.readLockedFiles :=
  distinct_modifyFirst hdistinct fun _ ↦ rfl

/-- Read-locking an existing file that nobody has locked makes it readable. -/
theorem reading_of_readLock {c : Bytes} (hc : h.disk name = some c)
    (hunlocked : h.openedFile name = none) (hlock : h.readLock name = some (h', true)) :
    h'.Reading name c := by
  unfold readLock at hlock
  split at hlock
  · cases hlock
  · simp only [hunlocked, Option.isSome_none, Bool.false_eq_true, ↓reduceIte, hc,
      Option.some.injEq, Prod.mk.injEq, and_true] at hlock
    subst hlock
    have hnone : h.fm.readLockedFiles.find? (fun f ↦ f.fileName == name) = none := hunlocked
    refine ⟨hc, ⟨⟨name, .opened⟩, ?_, rfl, rfl⟩⟩
    simp only [openedFile, List.find?_append, hnone, Option.none_or, List.find?_cons,
      beq_self_eq_true]

/-- Looking up an entry after its stream was put back. -/
theorem openedFile_setStream (stream : IfStream) :
    (h.setStream name stream).openedFile name =
      (h.openedFile name).map fun f ↦ { f with stream := stream } := by
  exact find?_modifyFirst (p := fun f : OpenedFile ↦ f.fileName == name)
    (g := fun f ↦ { f with stream := stream }) (fun _ ↦ rfl) _

/-- A segment inside a readable file is returned padded to full length, and the file
stays readable. -/
theorem getSegment_of_reading {c : Bytes} {i n : Nat} (hr : h.Reading name c)
    (hn : n ≤ defaultSegmentSize) (hoff : defaultSegmentSize * i < 2 ^ 31)
    (hrange : defaultSegmentSize * i + n ≤ c.length) :
    ∃ h', h.getSegment name i n = some (h', some (((c.drop (defaultSegmentSize * i)).take n) ++
      List.replicate (defaultSegmentSize - n) 0)) ∧ h'.Reading name c := by
  obtain ⟨f, hf, hopen, hfail⟩ := hr.entry
  have hlen : ((c.drop (defaultSegmentSize * i)).take n).length = n := by
    simp only [List.length_take, List.length_drop]
    omega
  have hseek : f.stream.seekg (segmentOffset i) =
      { f.stream with eofbit := false, pos := defaultSegmentSize * i } := by
    have hpos : ¬ (((defaultSegmentSize * i : Nat) : Int) < 0) := by omega
    simp only [IfStream.seekg, hfail, segmentOffset_of_lt hoff, Bool.false_eq_true, ↓reduceIte,
      hpos, Int.toNat_natCast]
  have htell : (f.stream.seekg (segmentOffset i)).tellg = segmentOffset i := by
    rw [hseek, segmentOffset_of_lt hoff]
    simp [IfStream.tellg, hfail]
  have hread : (f.stream.seekg (segmentOffset i)).read c n =
      ({ f.stream with eofbit := false, pos := defaultSegmentSize * i + n },
        (c.drop (defaultSegmentSize * i)).take n) := by
    rw [hseek]
    simp only [IfStream.read, hfail, Bool.or_false, Bool.false_eq_true, ↓reduceIte, hlen]
  refine ⟨h.setStream name { f.stream with eofbit := false, pos := defaultSegmentSize * i + n },
    ?_, hr.content, ?_⟩
  · rw [getSegment, if_neg (by omega), hf]
    simp only [Option.map_some, hopen, Bool.not_true, Bool.false_eq_true, ↓reduceIte, htell,
      ne_eq, not_true_eq_false, hr.content, Option.getD_some, hread, hfail, Bool.false_or,
      Bool.false_and]
  · rw [openedFile_setStream, hf]
    exact ⟨_, rfl, hopen, hfail⟩

private theorem disk_writeLock (hlock : h.writeLock name = some h') : h'.disk = h.disk := by
  unfold writeLock at hlock
  split at hlock
  · cases hlock
  · cases hlock
    rfl

/-- A store overwrites the window of its segment where the file opens and the seek succeeds,
and leaves every other file as it was. -/
theorem disk_store {content path data : Bytes} {io : StoreIo} {i : Nat}
    (hcontent : h.disk name = some content) (hoff : defaultSegmentSize * i < 2 ^ 31)
    (hstore : h.storeSegmentToFile name path i data io = some h') :
    h'.disk = Function.update h.disk name (some (if io.opens && io.seeks then
      overwrite 0 content (defaultSegmentSize * i) (io.written (cStr data io.beyond
        defaultSegmentSize)) else content)) := by
  have hpos : ¬ (((defaultSegmentSize * i : Nat) : Int) < 0) := by omega
  have hsame : h.disk = Function.update h.disk name (some content) := by
    rw [← hcontent, Function.update_eq_self]
  obtain ⟨locked, hlock, rfl⟩ := Option.map_eq_some_iff.mp hstore
  have hlocked : locked.disk = h.disk := disk_writeLock hlock
  rw [hlocked, hcontent]
  cases hopens : io.opens with
  | false => simpa [hlocked, hopens] using hsame
  | true =>
    cases hseeks : io.seeks with
    | false =>
      simp only [Bool.not_true, Bool.false_eq_true, ↓reduceIte, Bool.not_false, Bool.or_true,
        writeUnlock, Bool.and_false]
    | true =>
      simp only [segmentOffset_of_lt hoff, hpos, Bool.not_true, Bool.false_eq_true, ↓reduceIte,
        decide_false, Bool.or_self, Int.toNat_natCast, writeUnlock, Bool.and_self]

/-- A store whose system calls succeed writes one full segment and releases its lock. -/
theorem store_of_success {content : Bytes} (path data : Bytes) (beyond : Nat → UInt8) {i : Nat}
    (hunlocked : h.openedFile name = none) (hcontent : h.disk name = some content)
    (hoff : defaultSegmentSize * i < 2 ^ 31) :
    ∃ h', h.storeSegmentToFile name path i data (.success beyond) = some h' ∧
      h'.disk = Function.update h.disk name (some (overwrite 0 content (defaultSegmentSize * i)
        (cStr data beyond defaultSegmentSize))) ∧
      h'.fm.readLockedFiles = h.fm.readLockedFiles := by
  have hpos : ¬ (((defaultSegmentSize * i : Nat) : Int) < 0) := by omega
  simp only [storeSegmentToFile, writeLock, hunlocked, Option.isSome_none, Bool.false_eq_true,
    ↓reduceIte, Option.map_some, hcontent, StoreIo.success, Bool.not_true, segmentOffset_of_lt hoff,
    hpos, decide_false, Bool.or_self, Int.toNat_natCast]
  exact ⟨_, rfl, rfl, rfl⟩

/-- The created file holds zero bytes. -/
theorem disk_createLocalFile (torrent : Torrent) :
    (h.createLocalFile torrent).disk torrent.fileName =
      some (List.replicate torrent.size.toNat 0) := by
  simp [createLocalFile]

end Host

/-! ### A file of one byte -/

/-- The torrent of a file `a` of one byte. -/
def byteTorrent : Torrent := { hashed := 0, size := 1, fileName := [97] }

/-- A host without files and locks. -/
def emptyHost : Host := { disk := fun _ ↦ none, fm := {} }

end P2PNetwork.Client
