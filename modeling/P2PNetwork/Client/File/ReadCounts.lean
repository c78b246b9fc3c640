import P2PNetwork.Client.File.FileManager
import P2PNetwork.Lib.ReaderWriter
import P2PNetwork.Lib.Run

/-!
# Counted readers

The table of the readers (`src/client/file/FileManager.cpp:154–221`) has one entry for a file,
however often the file is locked. It stands for a lock that counts its readers as long as nobody
gives a file back that somebody else still reads, or that is the last one of the table.
-/

open Lib

namespace P2PNetwork.Client

/-- A complete call of `readLock`, with the outcome of opening the file, or of `readUnlock`. -/
inductive ReadCall
  | readLock (fileName : Filename) (opens : Bool)
  | readUnlock (fileName : Filename)
  deriving DecidableEq, Repr

/-- A host, and how many more successful calls of `readLock` than of `readUnlock` there have been
for each file. -/
abbrev CountedHost := Host × Shares Filename

/-- One call. `readLock` waits while there is a writer; a call of `readUnlock` follows a
successful `readLock` of its own, and does not return where its loop leaves the table. -/
def readStep (s : CountedHost) : ReadCall → Option CountedHost
  | .readLock fileName opens =>
    if s.1.fm.writeLockedFiles.contains fileName then none
    else
      let r := s.1.register fileName opens
      some (r.1, if r.2 then s.2.share fileName else s.2)
  | .readUnlock fileName =>
    if s.2 fileName = 0 then none
    else (s.1.readUnlock fileName).map fun h ↦ (h, s.2.unshare fileName)

/-- A file is in the table, and keeps a writer waiting, exactly when it has been locked more often
than unlocked. -/
def CountsReaders (s : CountedHost) : Prop :=
  ∀ name, (name ∈ s.1.readLockedNames ↔ 0 < s.2 name) ∧
    (s.1.writeLock name = none ↔ 0 < s.2 name)

/-- No writer is active, and a `readUnlock` follows a successful `readLock` of its own. -/
def Matched (s : CountedHost) : ReadCall → Prop
  | .readLock fileName _ => fileName ∉ s.1.fm.writeLockedFiles
  | .readUnlock fileName => 0 < s.2 fileName

instance (s : CountedHost) : (call : ReadCall) → Decidable (Matched s call)
  | .readLock fileName _ => inferInstanceAs (Decidable (fileName ∉ s.1.fm.writeLockedFiles))
  | .readUnlock fileName => inferInstanceAs (Decidable (0 < s.2 fileName))

/-- A call that is made as it should be returns, and the table counts the readers behind it. -/
def KeepsCount (s : CountedHost) (call : ReadCall) : Prop :=
  Matched s call → ∃ s', readStep s call = some s' ∧ CountsReaders s'

/-- A file that is given back has no other reader, and is not the last one of the table. -/
def LastReader (s : CountedHost) : ReadCall → Prop
  | .readLock _ _ => True
  | .readUnlock fileName =>
    0 < s.2 fileName → s.2 fileName = 1 ∧ s.1.readLockedNames.getLast? ≠ some fileName

namespace ReadCounts

variable {s s' : CountedHost} {name : Filename}

/-- What a call of `readLock` does on its host is the step with the outcome that the disk gives. -/
theorem readStep_of_readLock {r : Host × Bool} (hlock : s.1.readLock name = some r) :
    readStep s (.readLock name (s.1.disk name).isSome) =
      some (r.1, if r.2 then s.2.share name else s.2) := by
  rw [Host.readLock_eq_register] at hlock
  rw [readStep]
  by_cases hlocked : name ∈ s.1.fm.writeLockedFiles
  · rw [if_pos hlocked] at hlock
    cases hlock
  · rw [if_neg hlocked, Option.some_inj] at hlock
    rw [if_neg (by simpa using hlocked), hlock]

/-- The two halves of the property are one. -/
theorem countsReaders_iff :
    CountsReaders s ↔ ∀ name, name ∈ s.1.readLockedNames ↔ 0 < s.2 name := by
  simp [CountsReaders, Host.writeLock_eq_none_iff]

/-- The table counts the readers, with one entry for a file. -/
structure Sound (s : CountedHost) : Prop where
  counts : CountsReaders s
  nodup : s.1.readLockedNames.Nodup

/-- A `readLock` that returns keeps the table sound: it shares the entry of the file, or makes one
for the file it has opened. -/
theorem sound_readLock {opens : Bool} (hs : Sound s)
    (hstep : readStep s (.readLock name opens) = some s') : Sound s' := by
  obtain ⟨hcounts, hnodup⟩ := hs
  rw [countsReaders_iff] at hcounts
  rw [readStep] at hstep
  split at hstep
  · cases hstep
  · cases hreg : s.1.register name opens with
    | mk h' success =>
      rw [hreg] at hstep
      cases hstep
      rcases Host.register_spec hreg with ⟨hmem, rfl, rfl⟩ | ⟨hnew, -, rfl, rfl⟩ |
        ⟨hnew, -, rfl, hnames, -⟩
      · refine ⟨countsReaders_iff.mpr ?_, hnodup⟩
        intro n
        simp only [↓reduceIte, Shares.share_pos, ← hcounts]
        constructor
        · exact .inr
        · rintro (rfl | hn)
          · exact hmem
          · exact hn
      · exact ⟨countsReaders_iff.mpr hcounts, hnodup⟩
      · refine ⟨countsReaders_iff.mpr ?_, ?_⟩
        · intro n
          simp only [↓reduceIte, Shares.share_pos, ← hcounts, hnames, List.mem_append,
            List.mem_singleton]
          exact or_comm
        · rw [hnames, ← List.concat_eq_append]
          exact hnodup.concat hnew

/-- A `readUnlock` takes the file out of the table: that is right exactly for the last reader. -/
theorem countsReaders_readUnlock (hs : Sound s)
    (hstep : readStep s (.readUnlock name) = some s') :
    (CountsReaders s' ↔ s.2 name = 1) ∧ s'.1.readLockedNames.Nodup := by
  obtain ⟨hcounts, hnodup⟩ := hs
  rw [countsReaders_iff] at hcounts
  rw [readStep] at hstep
  split at hstep
  · cases hstep
  · next hpos =>
    obtain ⟨h', hunlock, rfl⟩ := Option.map_eq_some_iff.mp hstep
    have hnames := Host.names_readUnlock hnodup hunlock
    rw [hnames, countsReaders_iff, hnames]
    refine ⟨?_, hnodup.erase name⟩
    constructor
    · intro h
      have hout : ¬ 0 < s.2.unshare name name := by
        rw [← h name]
        exact hnodup.not_mem_erase
      rw [Shares.unshare_pos_self] at hout
      omega
    · intro hone n
      by_cases hn : n = name
      · subst hn
        rw [Shares.unshare_pos_self, hone]
        simp [hnodup.not_mem_erase]
      · rw [Shares.unshare_pos_of_ne hn, List.mem_erase_of_ne hn]
        exact hcounts n

/-- A call keeps the count exactly if it gives no file back that has another reader or is the last
one of the table. -/
theorem keepsCount_iff {call : ReadCall} (hs : Sound s) :
    KeepsCount s call ↔ LastReader s call := by
  cases call with
  | readLock name opens =>
    refine iff_of_true (fun hmatched ↦ ?_) trivial
    have hfree : name ∉ s.1.fm.writeLockedFiles := hmatched
    have hstep : ∃ s', readStep s (.readLock name opens) = some s' := by
      rw [readStep, if_neg (by simpa using hfree)]
      exact ⟨_, rfl⟩
    obtain ⟨s', hstep⟩ := hstep
    exact ⟨s', hstep, (sound_readLock hs hstep).counts⟩
  | readUnlock name =>
    apply forall_congr'
    intro hpos
    have hreturns := @Host.readUnlock_eq_none_iff s.1 name hs.nodup
    cases hunlock : s.1.readUnlock name with
    | none =>
      -- the loop leaves the table
      refine iff_of_false ?_ fun h ↦ h.2 (hreturns.mp hunlock)
      rintro ⟨s', hstep, -⟩
      rw [readStep, if_neg (Nat.ne_of_gt hpos), hunlock] at hstep
      cases hstep
    | some h' =>
      have hstep : readStep s (.readUnlock name) = some (h', s.2.unshare name) := by
        rw [readStep, if_neg (Nat.ne_of_gt hpos), hunlock, Option.map_some]
      have hinside : s.1.readLockedNames.getLast? ≠ some name := by
        intro hlast
        rw [hreturns.mpr hlast] at hunlock
        cases hunlock
      have hcounts := (countsReaders_readUnlock hs hstep).1
      constructor
      · rintro ⟨s', hs', hafter⟩
        obtain rfl := Option.some_inj.mp (hstep.symm.trans hs')
        exact ⟨hcounts.mp hafter, hinside⟩
      · exact fun h ↦ ⟨_, hstep, hcounts.mpr h.1⟩

/-- And the table stays sound then. -/
theorem sound_step {call : ReadCall} (hs : Sound s) (hkeeps : KeepsCount s call)
    (hstep : readStep s call = some s') : Sound s' := by
  cases call with
  | readLock name opens => exact sound_readLock hs hstep
  | readUnlock name =>
    have hpos : 0 < s.2 name := by
      rw [readStep] at hstep
      split at hstep
      · cases hstep
      · next hne => exact Nat.pos_of_ne_zero hne
    obtain ⟨s'', hs'', hcounts⟩ := hkeeps hpos
    obtain rfl := Option.some_inj.mp (hstep.symm.trans hs'')
    exact ⟨hcounts, (countsReaders_readUnlock hs hstep).2⟩

/-- A file manager whose tables are empty. -/
def start (disk : Filename → Option Bytes) : CountedHost := (⟨disk, {}⟩, fun _ ↦ 0)

/-- Through a sequence of calls each call returns and the table counts the readers of every file,
exactly if no call in it gives back a file that has another reader or is the last one of the
table. -/
theorem countsReaders_throughout_iff (disk : Filename → Option Bytes) (calls : List ReadCall) :
    Each readStep KeepsCount (start disk) calls ↔ Each readStep LastReader (start disk) calls := by
  have hstart : Sound (start disk) := by
    refine ⟨countsReaders_iff.mpr ?_, List.nodup_nil⟩
    intro name
    simp [start, Host.readLockedNames]
  apply Each.congr hstart
  · intro s call hs
    exact keepsCount_iff hs
  · intro s call s' hs hkeeps hstep
    exact sound_step hs hkeeps hstep

/-! ### Two readers of one file -/

/-- Two peers read a file `a` and one a file `b`, and one of those at `a` is done. -/
def overlappingReads : List ReadCall :=
  [.readLock [97] true, .readLock [98] true, .readLock [97] true, .readUnlock [97]]

/-- The last call returns, and the other peer reads `a` on while a writer may start. -/
theorem not_countsReaders_overlapping :
    (overlappingReads.foldlM readStep (start fun _ ↦ some [])).isSome = true ∧
      ¬ Each readStep KeepsCount (start fun _ ↦ some []) overlappingReads := by
  refine ⟨by decide, ?_⟩
  rintro ⟨-, h⟩
  obtain ⟨-, h⟩ := h _ rfl
  obtain ⟨-, h⟩ := h _ rfl
  obtain ⟨hkeeps, -⟩ := h _ rfl
  obtain ⟨s', hs', hcounts⟩ := hkeeps (by decide)
  cases hs'
  exact absurd ((hcounts [97]).1.mpr (by decide)) (by decide)

end ReadCounts

end P2PNetwork.Client
