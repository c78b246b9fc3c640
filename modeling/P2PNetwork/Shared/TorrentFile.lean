import P2PNetwork.Shared.Torrent
import P2PNetwork.Lib.ByteStream
import Mathlib.Logic.Function.Basic

/-!
# Torrents on the disk

`Torrent(std::string torrentFilename)`, `saveToFile` and `setPath` (`Torrent.cpp:49–80`). The
numbers of a torrent file are written as they lie in memory, the lowest byte first.
-/

open Lib

namespace P2PNetwork

/-- The files of one machine. -/
abbrev Disk := Filename → Option Bytes

/-- `path.c_str()` as the name of a file: the string up to its first NUL. -/
def cPath (path : Bytes) : Filename := path.takeWhile (· ≠ 0)

/-- A string of NULs names no file. -/
theorem cPath_zeros (n : Nat) : cPath (List.replicate n 0) = [] := by
  cases n <;> rfl

namespace Disk

/-- Whether `stat` succeeds; there is no file with an empty name. -/
def stat (disk : Disk) (path : Bytes) : Bool :=
  !(cPath path).isEmpty && (disk (cPath path)).isSome

/-- An input stream at the beginning of a file. -/
def openFile (disk : Disk) (path : Bytes) : InStream :=
  .opened ((disk (cPath path)).getD [])

/-- Replace the contents of a file. -/
def write (disk : Disk) (path contents : Bytes) : Disk :=
  Function.update disk (cPath path) (some contents)

/-- Add bytes at the end of a file that exists. -/
def append (disk : Disk) (path more : Bytes) : Disk :=
  Function.update disk (cPath path) ((disk (cPath path)).map fun contents ↦ contents ++ more)

/-- `stat` finds what has been written. -/
theorem stat_write {disk : Disk} {path contents : Bytes} (h : cPath path ≠ []) :
    (disk.write path contents).stat path = true := by
  simp [stat, write, h]

/-- What has been written is read. -/
theorem openFile_write (disk : Disk) (path contents : Bytes) :
    (disk.write path contents).openFile path = .opened contents := by
  rw [openFile, write, Function.update_self, Option.getD_some]

end Disk

namespace Torrent

/-- `setPath` (`Torrent.cpp:77–80`). -/
def setPath (t : Torrent) (path : Bytes) : Torrent :=
  { t with hasPath := true, currentPath := path }

/-- What `saveToFile` writes (`Torrent.cpp:69–73`). -/
def fileContents (t : Torrent) : Bytes :=
  toLe 8 t.hashed.toNat ++ toLe 4 t.size.toNat ++ lengthPrefixed 4 t.fileName

/-- `saveToFile` (`Torrent.cpp:67–76`): a file that does not open is not written, and the path
that is set is the file name of the torrent. -/
def saveToFile (t : Torrent) (torrentFilename : Bytes) (opens : Bool) (disk : Disk) :
    Disk × Torrent :=
  (if opens then disk.write torrentFilename t.fileContents else disk, t.setPath t.fileName)

/-- `Torrent(std::string torrentFilename)` (`Torrent.cpp:49–65`); `nameSize` is what the variable
has before it is read. -/
def ofFile (disk : Disk) (nameSize : UInt32) (torrentFilename : Bytes) : Torrent :=
  if disk.stat torrentFilename then
    let hashed := (disk.openFile torrentFilename).readNat 8 0
    let size := hashed.1.readNat 4 0
    let fileName := size.1.readString 4 nameSize.toNat
    ({ hashed := UInt64.ofNat hashed.2
       size := UInt32.ofNat size.2
       fileName := fileName.2 } : Torrent).setPath torrentFilename
  else { empty with size := -1 }

/-- What a torrent file holds of a torrent: its name as far as the length of 32 bits counts it. -/
def stored (t : Torrent) : Torrent :=
  { t with fileName := t.fileName.take (t.fileName.length % 256 ^ 4) }

/-- Of a name below 2³² bytes nothing is cut off. -/
theorem stored_of_lt {t : Torrent} (hname : t.fileName.length < 2 ^ 32) : t.stored = t := by
  have hlength : t.fileName.length % 256 ^ 4 = t.fileName.length := Nat.mod_eq_of_lt hname
  rw [stored, hlength, List.take_length]

/-- What reading a file gives that begins with a torrent. -/
theorem ofFile_of_append {disk : Disk} {path more : Bytes} {t : Torrent}
    (hstat : disk.stat path = true)
    (hcontents : disk (cPath path) = some (t.fileContents ++ more)) (nameSize : UInt32) :
    ofFile disk nameSize path = t.stored.setPath path := by
  have hopen : disk.openFile path = .opened (toLe 8 t.hashed.toNat ++
      (toLe 4 t.size.toNat ++ (lengthPrefixed 4 t.fileName ++ more))) := by
    rw [Disk.openFile, hcontents, Option.getD_some, fileContents, List.append_assoc,
      List.append_assoc]
  have hhashed : t.hashed.toNat % 256 ^ 8 = t.hashed.toNat :=
    Nat.mod_eq_of_lt t.hashed.toNat_lt
  have hsize : t.size.toNat % 256 ^ 4 = t.size.toNat := Nat.mod_eq_of_lt t.size.toNat_lt
  simp only [ofFile, hstat, if_true, hopen, InStream.readNat_toLe,
    InStream.readString_lengthPrefixed, hhashed, hsize, UInt64.ofNat_toNat, UInt32.ofNat_toNat,
    stored, setPath]

/-- What reading a torrent file gives, when it holds a torrent with a name below 2³² bytes. -/
theorem ofFile_of_fileContents {disk : Disk} {path : Bytes} {t : Torrent}
    (hstat : disk.stat path = true) (hcontents : disk (cPath path) = some t.fileContents)
    (hname : t.fileName.length < 2 ^ 32) (nameSize : UInt32) :
    ofFile disk nameSize path = t.setPath path := by
  have hmore : disk (cPath path) = some (t.fileContents ++ []) := by
    rw [List.append_nil, hcontents]
  rw [ofFile_of_append hstat hmore, stored_of_lt hname]

/-- A torrent that has been saved is read back from its file. -/
theorem ofFile_saveToFile {t : Torrent} {torrentFilename : Bytes}
    (hfile : cPath torrentFilename ≠ []) (hname : t.fileName.length < 2 ^ 32) (disk : Disk)
    (nameSize : UInt32) :
    ofFile (t.saveToFile torrentFilename true disk).1 nameSize torrentFilename =
      t.setPath torrentFilename := by
  apply ofFile_of_fileContents (Disk.stat_write hfile) _ hname
  exact Function.update_self _ _ _

end Torrent

end P2PNetwork
