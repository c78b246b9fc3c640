import P2PNetwork.Client.File.FileManager

/-!
# What a store leaves in the lock tables

A store takes the write lock of its file, and gives it back behind the last of its system calls
(`src/client/file/FileManager.cpp:20–80`). The tables are vectors: the lock is taken at the end
of one, and the first entry of the name is erased.
-/

open Lib

namespace P2PNetwork.Client

section

variable {α : Type} {a : α} {l : List α}

private theorem append_eq_cons_iff : l ++ [a] = a :: l ↔ ∀ x ∈ l, x = a := by
  induction l with
  | nil => simp
  | cons b l ih =>
    rw [List.cons_append, List.cons.injEq, List.forall_mem_cons]
    apply and_congr_right
    rintro rfl
    exact ih

variable [BEq α] [LawfulBEq α]

/-- From the first `a` on, the list has nothing else. -/
def OnlyFromFirst (a : α) (l : List α) : Prop := ∀ x ∈ l.dropWhile (· != a), x = a

/-- Erasing the first `a` undoes the insertion of one at the end exactly if nothing but `a`
stands behind the first. -/
theorem erase_append_eq_iff : (l ++ [a]).erase a = l ↔ OnlyFromFirst a l := by
  unfold OnlyFromFirst
  induction l with
  | nil => simp
  | cons b l ih =>
    rw [List.cons_append]
    by_cases hb : b = a
    · subst hb
      simp [append_eq_cons_iff]
    · have hne : (b == a) = false := by simpa using hb
      rw [List.erase_cons_tail (by simpa using hb), List.cons.injEq]
      simp [ih, hb]

end

/-- A call that stores a file, or a segment. -/
inductive StoreCall
  | storeFile (file : File) (memory : Int → UInt8)
  | storeSegmentToFile (fileName : Filename) (path : Bytes) (segmentId : Int) (segmentData : Bytes)

namespace StoreCall

/-- The name of the file that is written. -/
def fileName : StoreCall → Filename
  | .storeFile _ _ => Host.dummy
  | .storeSegmentToFile fileName _ _ _ => fileName

/-- The call. -/
def perform (h : Host) (io : StoreIo) : StoreCall → Option Host
  | .storeFile file memory => h.storeFile file memory io
  | .storeSegmentToFile fileName path segmentId segmentData =>
    h.storeSegmentToFile fileName path segmentId segmentData io

/-- Whether the file opens: `storeFile` creates it, `storeSegmentToFile` needs one that exists. -/
def opens (h : Host) (io : StoreIo) : StoreCall → Bool
  | .storeFile _ _ => io.opens
  | .storeSegmentToFile fileName _ _ _ => (h.disk fileName).isSome && io.opens

end StoreCall

namespace Host

variable {h h' : Host} {name : Filename} {io : StoreIo} {call : StoreCall}

/-- Both tables are what they were, and a reader of the file waits no more than before. -/
structure TablesKept (h h' : Host) (name : Filename) : Prop where
  readLocked : h'.fm.readLockedFiles = h.fm.readLockedFiles
  writeLocked : h'.fm.writeLockedFiles = h.fm.writeLockedFiles
  unblocked : h'.readLock name = none → h.readLock name = none

/-- A store of a file that nobody reads returns. It keeps the write lock if its file does not
open, and erases the first entry of the file else. -/
theorem perform_spec (hfree : h.openedFile call.fileName = none) :
    ∃ h', call.perform h io = some h' ∧ h'.fm.readLockedFiles = h.fm.readLockedFiles ∧
      h'.fm.writeLockedFiles = if call.opens h io
        then (h.fm.writeLockedFiles ++ [call.fileName]).erase call.fileName
        else h.fm.writeLockedFiles ++ [call.fileName] := by
  have hlock := writeLock_of_unlocked hfree
  cases call with
  | storeFile file memory =>
    simp only [StoreCall.fileName] at hlock ⊢
    rw [StoreCall.perform, storeFile, hlock, Option.map_some]
    cases hopens : io.opens with
    | false => exact ⟨_, rfl, rfl, by simp [StoreCall.opens, hopens]⟩
    | true => exact ⟨_, rfl, rfl, by simp [StoreCall.opens, hopens, writeUnlock]⟩
  | storeSegmentToFile fileName path segmentId segmentData =>
    simp only [StoreCall.fileName] at hlock ⊢
    rw [StoreCall.perform, storeSegmentToFile, hlock, Option.map_some]
    cases hdisk : h.disk fileName with
    | none => exact ⟨_, rfl, rfl, by simp [StoreCall.opens, hdisk]⟩
    | some content =>
      cases hopens : io.opens with
      | false => exact ⟨_, rfl, rfl, by simp [StoreCall.opens, hopens]⟩
      | true => exact ⟨_, rfl, rfl, by simp [StoreCall.opens, hopens, hdisk, writeUnlock]⟩

/-- A store leaves the lock tables as they were exactly if its file opens and the first entry of
the file in the table of the writers has no other file behind it. -/
theorem tablesKept_iff (hfree : h.openedFile call.fileName = none) :
    ∃ h', call.perform h io = some h' ∧ (TablesKept h h' call.fileName ↔
      call.opens h io = true ∧ OnlyFromFirst call.fileName h.fm.writeLockedFiles) := by
  obtain ⟨h', hperform, hread, hwrite⟩ := @perform_spec h io call hfree
  refine ⟨h', hperform, ?_⟩
  constructor
  · intro hkept
    rw [hkept.writeLocked] at hwrite
    cases hopens : call.opens h io with
    | false =>
      rw [hopens, if_neg Bool.false_ne_true] at hwrite
      exact absurd hwrite (by simp)
    | true =>
      rw [hopens, if_pos rfl] at hwrite
      exact ⟨rfl, erase_append_eq_iff.mp hwrite.symm⟩
  · rintro ⟨hopens, honly⟩
    rw [hopens, if_pos rfl, erase_append_eq_iff.mpr honly] at hwrite
    refine ⟨hread, hwrite, ?_⟩
    rw [readLock_eq_none_iff, readLock_eq_none_iff, hwrite]
    exact id

/-! ### A file that does not exist -/

/-- A segment for a file `a`. -/
def storeA : StoreCall := .storeSegmentToFile [97] [] 0 [7]

/-- It is stored on a host without files. -/
theorem tablesKept_iff_missing :
    ∃ h', storeA.perform emptyHost (.success fun _ ↦ 0) = some h' ∧
      (TablesKept emptyHost h' storeA.fileName ↔
        storeA.opens emptyHost (.success fun _ ↦ 0) = true ∧
          OnlyFromFirst storeA.fileName emptyHost.fm.writeLockedFiles) :=
  tablesKept_iff rfl

/-- The file stays locked, and a reader has to wait. -/
theorem not_tablesKept_missing :
    ∃ h', storeA.perform emptyHost (.success fun _ ↦ 0) = some h' ∧
      h'.fm.writeLockedFiles = [[97]] ∧ h'.readLock [97] = none ∧
      ¬ TablesKept emptyHost h' storeA.fileName := by
  refine ⟨_, rfl, rfl, rfl, ?_⟩
  intro h
  exact absurd h.writeLocked (by decide)

end Host

end P2PNetwork.Client
