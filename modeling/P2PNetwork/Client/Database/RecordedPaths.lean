import P2PNetwork.Client.Database.Persistence
import P2PNetwork.Shared.TorrentFormat
import P2PNetwork.Lib.Run

/-!
# Paths of torrents

The calls that set or copy the path of a torrent (`src/shared/Torrent.cpp:41–80`), in any order. The
path is what the index of the database records, so that the torrent can be loaded again.
-/

open Lib

namespace P2PNetwork.Client

/-- A save of one of the torrents, a load, or a copy. -/
inductive TorrentCall
  | saveToFile (i : Nat) (torrentFilename : Bytes) (opens : Bool)
  | load (torrentFilename : Bytes) (nameSize : UInt32)
  | copy (i : Nat)
  deriving DecidableEq, Repr

/-- The disk, and the torrents of a program. -/
structure Torrents where
  disk : Disk
  torrents : List Torrent

/-- `Torrent(const Torrent &obj)` (`Torrent.cpp:41–47`). -/
def copyTorrent (obj : Torrent) : Torrent where
  hashed := obj.hashed
  size := obj.size
  fileName := obj.fileName
  currentPath := obj.currentPath
  hasPath := obj.hasPath

/-- The file of a path is there, and it holds the torrent. -/
def LeadsTo (disk : Disk) (path : Bytes) (t : Torrent) : Prop :=
  disk.stat path = true ∧ ∀ nameSize, (Torrent.ofFile disk nameSize path).same t = true

namespace Torrents

/-- One call; there is none on a torrent that does not exist. -/
def step (s : Torrents) : TorrentCall → Option Torrents
  | .saveToFile i torrentFilename opens => s.torrents[i]?.map fun t ↦
    let saved := t.saveToFile torrentFilename opens s.disk
    { disk := saved.1, torrents := s.torrents.set i saved.2 }
  | .load torrentFilename nameSize =>
    some { s with torrents := s.torrents ++ [.ofFile s.disk nameSize torrentFilename] }
  | .copy i => s.torrents[i]?.map fun t ↦ { s with torrents := s.torrents ++ [copyTorrent t] }

/-- Every path that is set leads to its torrent. -/
def PathsLeadBack (s : Torrents) : Prop :=
  ∀ t ∈ s.torrents, t.hasPath = true → LeadsTo s.disk t.currentPath t

/-- A torrent is saved under its own file name, or the file of that name holds it already; and what
is written is what the other torrents with a path to that file are. A file that is loaded has the
three numbers. -/
def Returning (s : Torrents) : TorrentCall → Prop
  | .saveToFile i torrentFilename opens => ∀ t, s.torrents[i]? = some t →
    (opens = true ∧ cPath t.fileName = cPath torrentFilename ∧ cPath torrentFilename ≠ [] ∧
        t.fileName.length < 2 ^ 32 ∨
      ¬ (opens = true ∧ cPath t.fileName = cPath torrentFilename) ∧
        LeadsTo s.disk t.fileName t) ∧
    (opens = true → ∀ j o, j ≠ i → s.torrents[j]? = some o → o.hasPath = true →
      cPath o.currentPath = cPath torrentFilename → t.stored.same o = true)
  | .load torrentFilename _ => s.disk.stat torrentFilename = true →
    ∀ content, s.disk (cPath torrentFilename) = some content → 16 ≤ content.length
  | .copy _ => True

end Torrents

section

variable {disk disk' : Disk} {path : Bytes} {t o : Torrent}

/-- What a path leads to depends on its file only. -/
theorem leadsTo_congr (h : disk (cPath path) = disk' (cPath path)) :
    LeadsTo disk path o ↔ LeadsTo disk' path o := by
  have hstat : disk.stat path = disk'.stat path := by rw [Disk.stat, Disk.stat, h]
  have hread : ∀ nameSize, Torrent.ofFile disk nameSize path =
      Torrent.ofFile disk' nameSize path := by
    intro nameSize
    simp only [Torrent.ofFile, hstat, Disk.openFile, h]
  simp only [LeadsTo, hstat, hread]

/-- A file that is not written leads where it has led. -/
theorem leadsTo_write_of_ne {torrentFilename contents : Bytes}
    (h : cPath path ≠ cPath torrentFilename) :
    LeadsTo (disk.write torrentFilename contents) path o ↔ LeadsTo disk path o := by
  apply leadsTo_congr
  exact Function.update_of_ne h _ _

/-- A file that is written leads to what is stored in it. -/
theorem leadsTo_write_of_eq {torrentFilename : Bytes} (h : cPath path = cPath torrentFilename) :
    LeadsTo (disk.write torrentFilename t.fileContents) path o ↔
      cPath torrentFilename ≠ [] ∧ t.stored.same o = true := by
  have hcontents : (disk.write torrentFilename t.fileContents) (cPath path) =
      some (t.fileContents ++ []) := by
    rw [Disk.write, h, Function.update_self, List.append_nil]
  by_cases hpath : cPath torrentFilename = []
  · have hstat : (disk.write torrentFilename t.fileContents).stat path = false := by
      simp [Disk.stat, h, hpath]
    simp [LeadsTo, hstat, hpath]
  · have hstat : (disk.write torrentFilename t.fileContents).stat path = true := by
      rw [Disk.stat, hcontents, h]
      simp [hpath]
    have hread := Torrent.ofFile_of_append hstat hcontents
    have hsame : (t.stored.setPath path).same o = t.stored.same o := rfl
    simp [LeadsTo, hstat, hread, hsame, hpath]

/-- What a path leads to is kept by a save, unless the file is written with something else. -/
theorem leadsTo_write_iff {torrentFilename : Bytes} (h : LeadsTo disk path o) :
    LeadsTo (disk.write torrentFilename t.fileContents) path o ↔
      (cPath path = cPath torrentFilename → t.stored.same o = true) := by
  by_cases hfile : cPath path = cPath torrentFilename
  · have hpath : cPath torrentFilename ≠ [] := by
      intro hempty
      have hstat := h.1
      simp [Disk.stat, hfile, hempty] at hstat
    rw [leadsTo_write_of_eq hfile]
    simp [hfile, hpath]
  · rw [leadsTo_write_of_ne hfile]
    simp [hfile, h]

/-- A torrent is stored as it is if its name has fewer than 2³² bytes. -/
theorem stored_same_iff : t.stored.same t = true ↔ t.fileName.length < 2 ^ 32 := by
  constructor
  · intro h
    simp only [Torrent.same, Bool.and_eq_true, beq_iff_eq] at h
    have hlength := congrArg List.length h.2
    rw [Torrent.stored, List.length_take] at hlength
    have hlt : t.fileName.length % 256 ^ 4 < 256 ^ 4 := Nat.mod_lt _ (by decide)
    omega
  · intro h
    rw [Torrent.stored_of_lt h]
    exact Torrent.same_self t

/-- A file leads to what has been loaded from it exactly if it has the three numbers. -/
theorem leadsTo_ofFile_iff {nameSize : UInt32} {content : Bytes} (hstat : disk.stat path = true)
    (hcontents : disk (cPath path) = some content) :
    LeadsTo disk path (.ofFile disk nameSize path) ↔ 16 ≤ content.length := by
  constructor
  · rintro ⟨-, h⟩
    by_contra hlength
    -- what is read of the length leaves a byte of the variable
    have hname : ∀ size : UInt32, (Torrent.ofFile disk size path).fileName.length =
        (Torrent.ofFile disk nameSize path).fileName.length := by
      intro size
      have hsame := h size
      simp only [Torrent.same, Bool.and_eq_true, beq_iff_eq] at hsame
      rw [hsame.2]
    have hequal := (hname 0).trans (hname (-1)).symm
    rw [Torrent.length_fileName_of_lt hstat hcontents (by omega),
      Torrent.length_fileName_of_lt hstat hcontents (by omega), ofLe_inj (by simp),
      List.append_cancel_left_eq] at hequal
    have hbyte : ∀ k < 4, (toLe 4 (UInt32.toNat 0)).drop k ≠
        (toLe 4 (UInt32.toNat (-1))).drop k := by
      decide
    apply hbyte (content.drop 12).length _ hequal
    rw [List.length_drop]
    omega
  · intro hlength
    refine ⟨hstat, fun size ↦ ?_⟩
    rw [Torrent.ofFile_nameSize hstat hcontents hlength size nameSize]
    exact Torrent.same_self _

/-- The name of a torrent leads to it behind its save if it is the name of the file, or if it has
led to it before. -/
theorem leadsTo_fileName_write {torrentFilename : Bytes} :
    LeadsTo (disk.write torrentFilename t.fileContents) t.fileName t ↔
      cPath t.fileName = cPath torrentFilename ∧ cPath torrentFilename ≠ [] ∧
          t.fileName.length < 2 ^ 32 ∨
        ¬ cPath t.fileName = cPath torrentFilename ∧ LeadsTo disk t.fileName t := by
  by_cases hname : cPath t.fileName = cPath torrentFilename
  · rw [leadsTo_write_of_eq hname, stored_same_iff]
    simp [hname]
  · rw [leadsTo_write_of_ne hname]
    simp [hname]

end

namespace Torrents

variable {s s' : Torrents}

/-- What holds of all torrents when one has been replaced. -/
private theorem forall_mem_set {P : Torrent → Prop} {l : List Torrent} {i : Nat} {t x : Torrent}
    (ht : l[i]? = some t) :
    (∀ o ∈ l.set i x, P o) ↔ P x ∧ ∀ j o, j ≠ i → l[j]? = some o → P o := by
  obtain ⟨hi, -⟩ := List.getElem?_eq_some_iff.mp ht
  constructor
  · intro h
    refine ⟨h x (List.mem_set hi x), fun j o hj ho ↦ h o ?_⟩
    apply List.mem_of_getElem? (i := j)
    rw [List.getElem?_set_ne (Ne.symm hj), ho]
  · rintro ⟨hx, hrest⟩ o ho
    obtain ⟨j, hj⟩ := List.mem_iff_getElem?.mp ho
    by_cases hij : i = j
    · subst hij
      rw [List.getElem?_set_self hi, Option.some_inj] at hj
      rwa [← hj]
    · rw [List.getElem?_set_ne hij] at hj
      exact hrest j o (Ne.symm hij) hj

/-- A save keeps what the paths lead to exactly if it is returning. -/
theorem pathsLeadBack_saveToFile {i : Nat} {torrentFilename : Bytes} {opens : Bool}
    (hs : s.PathsLeadBack) (hstep : s.step (.saveToFile i torrentFilename opens) = some s') :
    s'.PathsLeadBack ↔ s.Returning (.saveToFile i torrentFilename opens) := by
  obtain ⟨t, ht, rfl⟩ := Option.map_eq_some_iff.mp hstep
  have hone : ∀ P : Torrent → Prop, (∀ u, s.torrents[i]? = some u → P u) ↔ P t := by
    intro P
    rw [ht]
    simp
  rw [PathsLeadBack, forall_mem_set ht, Returning, hone]
  cases opens with
  | false =>
    have hrest : ∀ j o, j ≠ i → s.torrents[j]? = some o → o.hasPath = true →
        LeadsTo s.disk o.currentPath o := fun j o _ ho ↦ hs o (List.mem_of_getElem? ho)
    have hown : LeadsTo s.disk t.fileName (t.setPath t.fileName) ↔ LeadsTo s.disk t.fileName t :=
      Iff.rfl
    simp only [Torrent.saveToFile, Bool.false_eq_true, ↓reduceIte, false_and, false_or,
      not_false_eq_true, true_and, false_implies, and_true]
    exact ⟨fun h ↦ hown.mp (h.1 rfl), fun h ↦ ⟨fun _ ↦ h, hrest⟩⟩
  | true =>
    have hown := @leadsTo_fileName_write s.disk t torrentFilename
    have hothers : ∀ j o, s.torrents[j]? = some o → o.hasPath = true →
        (LeadsTo (s.disk.write torrentFilename t.fileContents) o.currentPath o ↔
          (cPath o.currentPath = cPath torrentFilename → t.stored.same o = true)) :=
      fun j o ho hpath ↦ leadsTo_write_iff (hs o (List.mem_of_getElem? ho) hpath)
    simp only [true_and, forall_const]
    refine and_congr ⟨fun h ↦ hown.mp (h rfl), fun h _ ↦ hown.mpr h⟩ ?_
    constructor
    · intro h j o hj ho hpath
      exact (hothers j o ho hpath).mp (h j o hj ho hpath)
    · intro h j o hj ho hpath
      exact (hothers j o ho hpath).mpr (h j o hj ho hpath)

/-- So does a load. -/
theorem pathsLeadBack_load {torrentFilename : Bytes} {nameSize : UInt32} (hs : s.PathsLeadBack)
    (hstep : s.step (.load torrentFilename nameSize) = some s') :
    s'.PathsLeadBack ↔ s.Returning (.load torrentFilename nameSize) := by
  cases hstep
  have hloaded : ((Torrent.ofFile s.disk nameSize torrentFilename).hasPath = true →
      LeadsTo s.disk (Torrent.ofFile s.disk nameSize torrentFilename).currentPath
        (.ofFile s.disk nameSize torrentFilename)) ↔
        s.Returning (.load torrentFilename nameSize) := by
    cases hstat : s.disk.stat torrentFilename with
    | false =>
      have hpath : (Torrent.ofFile s.disk nameSize torrentFilename).hasPath = false := by
        rw [Torrent.ofFile, hstat]
        rfl
      simp [hpath, Returning, hstat]
    | true =>
      have hpath : (Torrent.ofFile s.disk nameSize torrentFilename).hasPath = true ∧
          (Torrent.ofFile s.disk nameSize torrentFilename).currentPath = torrentFilename := by
        rw [Torrent.ofFile, if_pos hstat]
        exact ⟨rfl, rfl⟩
      obtain ⟨content, hcontent⟩ := Option.isSome_iff_exists.mp (Bool.and_eq_true_iff.mp hstat).2
      rw [hpath.1, hpath.2, Returning, hstat, hcontent, leadsTo_ofFile_iff hstat hcontent]
      simp
  rw [← hloaded]
  simp only [PathsLeadBack, List.forall_mem_append, List.forall_mem_singleton]
  exact and_iff_right hs

/-- A copy always keeps it. -/
theorem pathsLeadBack_copy {i : Nat} (hs : s.PathsLeadBack)
    (hstep : s.step (.copy i) = some s') : s'.PathsLeadBack := by
  obtain ⟨t, ht, rfl⟩ := Option.map_eq_some_iff.mp hstep
  simp only [PathsLeadBack, List.forall_mem_append, List.forall_mem_singleton]
  exact ⟨hs, hs t (List.mem_of_getElem? ht)⟩

/-- One call keeps what the paths lead to exactly if it is returning. -/
theorem pathsLeadBack_step {call : TorrentCall} (hs : s.PathsLeadBack)
    (hstep : s.step call = some s') : s'.PathsLeadBack ↔ s.Returning call := by
  cases call with
  | saveToFile i torrentFilename opens => exact pathsLeadBack_saveToFile hs hstep
  | load torrentFilename nameSize => exact pathsLeadBack_load hs hstep
  | copy i => exact iff_of_true (pathsLeadBack_copy hs hstep) trivial

/-- In every sequence of saves, loads and copies, every path that is set leads back to its torrent
all the time exactly if every call is returning. -/
theorem pathsLeadBack_throughout_iff (hs : s.PathsLeadBack) (calls : List TorrentCall) :
    Throughout step PathsLeadBack s calls ↔ Meets step Returning s calls := by
  have hadm : Meets step Any s calls := .any
  refine hadm.throughout_iff hs (fun _ h ↦ h) ?_ ?_
  · intro s call s' hs _ hstep
    exact pathsLeadBack_step hs hstep
  · intro s call s' hs _ hstep hok
    exact (pathsLeadBack_step hs hstep).mpr hok

/-- Where a path leads back, the path that the index of the database records does, too. -/
theorem holds_of_pathsLeadBack {t : Torrent} (hs : s.PathsLeadBack) (ht : t ∈ s.torrents)
    (hset : t.hasPath = true) (hlength : t.currentPath.length < 2 ^ 32) :
    Database.Holds s.disk t := by
  have hrecorded : Database.recordedPath t = t.currentPath := Database.counted_of_lt hlength
  rw [Database.Holds, hrecorded]
  exact hs t ht hset

/-! ### The torrent of the client's test -/

/-- The torrent of the test and an empty disk. -/
def unsaved : Torrents := { disk := fun _ ↦ none, torrents := [Database.t1] }

/-- It is saved as `torrent1.tor`. -/
def savedOnce : List TorrentCall := [.saveToFile 0 Database.torrent1 true]

private theorem pathsLeadBack_unsaved : unsaved.PathsLeadBack := by
  intro t ht hset
  obtain rfl := List.mem_singleton.mp ht
  cases hset

/-- The test saves it. -/
theorem pathsLeadBack_throughout_iff_savedOnce :
    Throughout step PathsLeadBack unsaved savedOnce ↔ Meets step Returning unsaved savedOnce :=
  pathsLeadBack_throughout_iff pathsLeadBack_unsaved savedOnce

/-- Its path is `test1.html` then, which is not the name of the file, and there is no file of that
name. -/
theorem not_pathsLeadBack_savedOnce :
    cPath Database.t1.fileName ≠ cPath Database.torrent1 ∧
      ¬ Throughout step PathsLeadBack unsaved savedOnce := by
  refine ⟨by decide, ?_⟩
  rintro ⟨-, h⟩
  have hlead := h _ rfl _ List.mem_cons_self rfl
  exact absurd hlead.1 (by decide)

end Torrents

end P2PNetwork.Client
