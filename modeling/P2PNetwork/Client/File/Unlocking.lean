import P2PNetwork.Client.File.FileManager
import P2PNetwork.Lib.EraseLoop

/-!
# The loop of `readUnlock`

`src/client/file/FileManager.cpp:212–218` with the positions of its iterator. Behind an `erase` the
iterator is advanced as in any other round: past the entry that has moved up, or past the end.
-/

open Lib

namespace P2PNetwork.Client

namespace Host

/-- The test of `readUnlock` (`FileManager.cpp:213`). -/
def unlocks (fileName : Filename) (f : OpenedFile) : Bool := f.fileName == fileName

/-- The loop, from the first entry on: the table it leaves, or nothing where it looks at an entry
outside of the table. -/
def readUnlockLoop (fileName : Filename) (fuel : Nat) (table : List OpenedFile) :
    Option (Option (List OpenedFile)) :=
  Cursor.loop (unlocks fileName) fuel ⟨table, 0⟩

/-- The places that the iterator of the loop gets to. -/
def UnlockReaches (fileName : Filename) (table : List OpenedFile) (c : Cursor OpenedFile) : Prop :=
  Cursor.Reaches (unlocks fileName) ⟨table, 0⟩ c

/-- The loop stays inside of the table, passes no entry that an erasure has moved to where the
iterator is, and ends with the entries of the other files. -/
structure ExactUnlock (fileName : Filename) (table : List OpenedFile) : Prop where
  inside : ∀ c, UnlockReaches fileName table c → c.Inside
  notPassed : ∀ c c', UnlockReaches fileName table c → c.round (unlocks fileName) = some c' →
    c'.entries.length < c.entries.length → c'.entries[c.pos]? = none
  ends : ∃ fuel, readUnlockLoop fileName fuel table =
    some (some (table.filter fun f ↦ !unlocks fileName f))

variable {fileName : Filename} {table : List OpenedFile}

/-- The loop that starts behind some entries keeps these, and does with the others what
`readUnlock` does. -/
theorem loop_eraseEntries {fuel : Nat} {done rest : List OpenedFile} (h : rest.length < fuel) :
    Cursor.loop (unlocks fileName) fuel ⟨done ++ rest, done.length⟩ =
      some ((eraseEntries fileName rest).map fun left ↦ done ++ left) := by
  obtain ⟨fuel, rfl⟩ := Nat.exists_eq_add_of_lt (Nat.zero_lt_of_lt h)
  rw [Nat.zero_add] at h ⊢
  fun_induction eraseEntries fileName rest generalizing done fuel with
  | case1 =>
    rw [List.append_nil, Cursor.loop_end, Option.map_some, List.append_nil]
  | case2 f hf =>
    -- the iterator is past the end of what is left
    obtain ⟨fuel, rfl⟩ := Nat.exists_eq_add_of_lt (Nat.lt_of_succ_lt_succ h)
    rw [Cursor.loop_between, unlocks, if_pos hf, List.append_nil, Cursor.loop_past_end,
      Option.map_none]
  | case3 f hf =>
    obtain ⟨fuel, rfl⟩ := Nat.exists_eq_add_of_lt (Nat.lt_of_succ_lt_succ h)
    have hlength : done.length + 1 = (done ++ [f]).length := by simp
    rw [Cursor.loop_between, unlocks, if_neg hf, hlength, Cursor.loop_end, Option.map_some]
  | case4 f next rest hf ih =>
    simp only [List.length_cons] at h
    obtain ⟨fuel, rfl⟩ : ∃ k, fuel = k + 1 := ⟨fuel - 1, by omega⟩
    have hnext := @ih (done ++ [next]) fuel (by omega)
    simp only [List.append_assoc, List.singleton_append, List.length_append, List.length_singleton]
      at hnext
    rw [Cursor.loop_between, unlocks, if_pos hf, hnext, Option.map_map]
    rfl
  | case5 f next rest hf ih =>
    simp only [List.length_cons] at h
    obtain ⟨fuel, rfl⟩ : ∃ k, fuel = k + 1 := ⟨fuel - 1, by omega⟩
    have hnext := @ih (done ++ [f]) fuel (by simp only [List.length_cons]; omega)
    simp only [List.append_assoc, List.singleton_append, List.length_append, List.length_singleton]
      at hnext
    rw [Cursor.loop_between, unlocks, if_neg hf, hnext, Option.map_map]
    rfl

/-- The rounds of the loop end, and lead to the table behind `readUnlock`, or out of the table
where `readUnlock` has no result. -/
theorem readUnlockLoop_eq (h : Host) :
    readUnlockLoop fileName (h.fm.readLockedFiles.length + 1) h.fm.readLockedFiles =
      some ((h.readUnlock fileName).map fun h' ↦ h'.fm.readLockedFiles) := by
  have hloop := @loop_eraseEntries fileName _ [] _ (Nat.lt_succ_self h.fm.readLockedFiles.length)
  rw [List.nil_append, List.length_nil] at hloop
  rw [readUnlockLoop, hloop, readUnlock, Option.map_map]
  rfl

/-- The loop is exact only where it has nothing to erase. -/
theorem exactUnlock_iff :
    ExactUnlock fileName table ↔ ∀ f ∈ table, f.fileName ≠ fileName := by
  constructor
  · intro h f hf hname
    obtain ⟨before, b, after, rfl, hreach, hround⟩ :=
      @Cursor.exists_first_erased _ (unlocks fileName) f table hf (beq_iff_eq.mpr hname)
    have hinside := h.inside _ (hreach.tail hround)
    have hmoved := h.notPassed _ _ hreach hround (by simp)
    cases after with
    | nil =>
      simp only [Cursor.Inside, List.append_nil] at hinside
      omega
    | cons x after =>
      rw [List.getElem?_append_right (Nat.le_refl _), Nat.sub_self] at hmoved
      cases hmoved
  · intro h
    have hkept : ∀ f ∈ table, unlocks fileName f = false := by
      intro f hf
      simpa [unlocks] using h f hf
    refine ⟨?_, ?_, ?_⟩
    · intro c hreach
      exact Cursor.inside_of_kept hkept (Nat.zero_le _) hreach
    · intro c c' hreach hround hlt
      have hsame := Cursor.entries_of_kept hkept hreach
      have hsame' := Cursor.entries_of_kept hkept (hreach.tail hround)
      rw [hsame, hsame'] at hlt
      omega
    · refine ⟨table.length + 1, ?_⟩
      have hfilter : table.filter (fun f ↦ !unlocks fileName f) = table := by
        rw [List.filter_eq_self]
        intro f hf
        rw [hkept f hf]
        rfl
      rw [hfilter]
      exact @Cursor.loop_of_kept _ _ [] table hkept

/-! ### One entry -/

/-- A table with one file `a` in it. -/
def oneEntry : List OpenedFile := [⟨[97], .opened⟩]

/-- `readUnlock` of this file advances its iterator past the end and looks on there. -/
theorem not_exactUnlock_oneEntry :
    UnlockReaches [97] oneEntry ⟨[], 1⟩ ∧ readUnlockLoop [97] 2 oneEntry = some none ∧
      ¬ ExactUnlock [97] oneEntry := by
  have hreach : UnlockReaches [97] oneEntry ⟨[], 1⟩ := .single rfl
  refine ⟨hreach, rfl, ?_⟩
  intro h
  exact absurd (h.inside _ hreach) (by decide)

end Host

end P2PNetwork.Client
