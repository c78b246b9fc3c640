import P2PNetwork.Client.File.Reduction

/-!
# Steps of the locks on the mutexes

The other direction: every run of the locks can be made on the mutexes. While all mutexes are
free, a thread can go through a critical section alone, and the section does to the tables what
the single step does.
-/

open Lib

namespace P2PNetwork.Client

/-- The point at which a thread goes on from where it stands in the locks. -/
def LockPc.point : LockPc → Point
  | .outside => .outside
  | .testing a f => .entering a f
  | .blocked a f => .letGo a f
  | .asleep a f => .asleep a f
  | .registering f => .registering f
  | .storing f => .storing f
  | .notifying => .announcing

namespace Point

variable {p p' : Point} {m : Mutex}

/-- A point in front of a critical section, or outside. -/
def Settled : Point → Prop
  | .outside | .entering .. | .letGo .. | .asleep .. | .notified .. | .registering _
  | .storing _ | .announcing => True
  | _ => False

theorem holds_of_settled (h : p.Settled) : p.holds = [] := by
  cases p with
  | outside | entering | letGo | asleep | notified | registering | storing | announcing => rfl
  | _ => cases h

theorem settled_woken (h : p.Settled) : p.woken.Settled := by
  cases p with
  | asleep => trivial
  | _ => exact h

/-- Only a thread that has been notified has other points than the one it goes on from. -/
theorem Settled.eq_point (h : p.Settled) : p = p.lockPc.point ∨ ∃ a f, p = .notified a f := by
  cases p with
  | outside | entering | letGo | asleep | registering | storing | announcing => exact .inl rfl
  | notified a f => exact .inr ⟨a, f, rfl⟩
  | _ => cases h

theorem eq_point_of_lockPc {pc : LockPc} (h : p.Settled) (hpc : p.lockPc = pc)
    (hpc' : ∀ a f, pc ≠ .testing a f) : p = pc.point := by
  rcases h.eq_point with hp | ⟨a, f, rfl⟩
  · rwa [hpc] at hp
  · exact absurd hpc.symm (hpc' a f)

theorem locks_of_unlocks (h : p.unlocks = some (m, p')) : p.locks = none := by
  unfold unlocks at h
  split at h <;> cases h <;> rfl

end Point

namespace Mutexes

variable {T : Type} [DecidableEq T] {s s' s₁ : Mutexes T} {t : T} {f : Filename}
  {p p' : Point} {m : Mutex}

/-- All mutexes are free. -/
structure Idle (s : Mutexes T) : Prop where
  owner : ∀ m, s.owner m = none
  settled : ∀ t, (s.pc t).Settled

/-- The state with one thread at a point, and no mutex locked by another one. -/
def alone (s : Mutexes T) (t : T) (p : Point) : Mutexes T :=
  { s with
    owner := fun m ↦ if m ∈ p.holds then some t else none
    pc := Function.update s.pc t p }

@[simp] theorem pc_alone (s : Mutexes T) (t : T) (p : Point) : (s.alone t p).pc t = p :=
  Function.update_self _ _ _

theorem pc_alone_of_ne (s : Mutexes T) {u : T} (p : Point) (h : u ≠ t) :
    (s.alone t p).pc u = s.pc u :=
  Function.update_of_ne h _ _

theorem alone_self (h : Idle s) (t : T) : s.alone t (s.pc t) = s := by
  have howner : s.owner = fun _ ↦ none := funext h.owner
  simp [alone, Point.holds_of_settled (h.settled t), ← howner]

theorem idle_alone (h : Idle s) (hp : p.Settled) : Idle (s.alone t p) where
  owner m := by simp [alone, Point.holds_of_settled hp]
  settled u := by
    by_cases hu : u = t
    · rw [hu, pc_alone]
      exact hp
    · rw [pc_alone_of_ne s p hu]
      exact h.settled u

/-- One thread gets from one point to another, with all others where they are. -/
def Passes (s : Mutexes T) (t : T) (p : Point) (s' : Mutexes T) (p' : Point) : Prop :=
  ∃ es, Run step Any (s.alone t p) es (s'.alone t p')

theorem Passes.refl (s : Mutexes T) (t : T) (p : Point) : Passes s t p s p := ⟨[], .nil⟩

theorem Passes.trans {s₂ : Mutexes T} {p₁ p₂ : Point} (h : Passes s t p s₁ p₁)
    (h' : Passes s₁ t p₁ s₂ p₂) : Passes s t p s₂ p₂ := by
  obtain ⟨es, hrun⟩ := h
  obtain ⟨es', hrun'⟩ := h'
  exact ⟨es ++ es', hrun.append hrun'⟩

theorem Passes.of_step {e : MutexEvent T} (h : step (s.alone t p) e = some (s'.alone t p')) :
    Passes s t p s' p' :=
  ⟨[e], .single trivial h⟩

/-- A thread alone locks a mutex. -/
theorem Passes.lock (s : Mutexes T) (t : T) (p' : Point) (h : p.locks = some (m, p')) :
    Passes s t p s p' := by
  obtain ⟨hnew, hholds⟩ := Point.holds_of_locks h
  apply Passes.of_step (e := .go t true)
  have howner : Function.update (fun m' ↦ if m' ∈ p.holds then some t else none) m (some t) =
      fun m' ↦ if m' ∈ p'.holds then some t else none := by
    funext m'
    by_cases hm : m' = m
    · simp [hm, hholds]
    · simp [hm, hholds]
  have hfree : (s.alone t p).owner m = none := if_neg hnew
  simp only [step, go, pc_alone, h, Mutexes.lock, hfree, Option.map_some]
  simp [alone, goto, howner]

/-- A thread alone unlocks a mutex. -/
theorem Passes.unlock (s : Mutexes T) (t : T) (p' : Point) (h : p.unlocks = some (m, p')) :
    Passes s t p s p' := by
  obtain ⟨hholds, hgone⟩ := Point.holds_of_unlocks h
  apply Passes.of_step (e := .go t true)
  have howner : Function.update (fun m' ↦ if m' ∈ p.holds then some t else none) m none =
      fun m' ↦ if m' ∈ p'.holds then some t else none := by
    funext m'
    by_cases hm : m' = m
    · simp [hm, hgone]
    · simp [hm, hholds]
  simp only [step, go, pc_alone, h, Point.locks_of_unlocks h]
  simp [alone, goto, Mutexes.unlock, howner]

/-- A step that keeps the mutexes. -/
theorem Passes.inner {e : MutexEvent T} (hholds : p'.holds = p.holds)
    (h : step (s.alone t p) e = some ((s'.alone t p).goto t p')) : Passes s t p s' p' := by
  apply Passes.of_step (e := e)
  rw [h]
  simp [alone, goto, hholds]

private theorem table_alone (s : Mutexes T) (t : T) (p : Point) (loop : Loop) :
    (s.alone t p).table loop = s.table loop := by
  cases loop <;> rfl

private theorem go_scanning (s : Mutexes T) (t : T) (loop : Loop) (f : Filename) (i : Nat) :
    step (s.alone t (.scanning loop f i)) (.go t true) =
      some ((s.alone t (.scanning loop f i)).round t loop f i) := by
  simp only [step, go, pc_alone, Point.locks, Point.unlocks]

private theorem passes_next {loop : Loop} {i : Nat} {g : Filename}
    (hentry : (s.table loop)[i]? = some g) (hne : g ≠ f) :
    Passes s t (.scanning loop f i) s (.scanning loop f (i + 1)) := by
  apply Passes.inner (e := .go t true)
  · cases loop <;> rfl
  · rw [go_scanning, round, table_alone, hentry]
    exact congrArg some (if_neg hne)

/-- A loop over a table without its file. -/
private theorem passes_end (loop : Loop) (hfree : f ∉ s.table loop) (i : Nat) :
    Passes s t (.scanning loop f i) s (.afterLoop f loop) := by
  induction hn : (s.table loop).length - i generalizing i with
  | zero =>
    have hend : (s.table loop)[i]? = none := List.getElem?_eq_none (by omega)
    apply Passes.inner (e := .go t true)
    · rw [Point.holds_afterLoop f loop i]
    · rw [go_scanning, round, table_alone, hend]
  | succ n ih =>
    have hi : i < (s.table loop).length := by omega
    have hentry := List.getElem?_eq_getElem hi
    have hne : (s.table loop)[i] ≠ f := fun h ↦ hfree (h ▸ List.getElem_mem hi)
    exact (passes_next hentry hne).trans (ih (i + 1) (by omega))

/-- A loop over a table with its file stops at the first entry. -/
private theorem passes_entry (loop : Loop) {i : Nat} (hseen : f ∉ (s.table loop).take i)
    (hmem : f ∈ s.table loop) :
    ∃ j, (s.table loop)[j]? = some f ∧ f ∉ (s.table loop).take j ∧
      Passes s t (.scanning loop f i) (s.hit t f j loop) (.atEntry f loop) := by
  induction hn : (s.table loop).length - i generalizing i with
  | zero =>
    rw [List.take_of_length_le (by omega)] at hseen
    exact absurd hmem hseen
  | succ n ih =>
    have hi : i < (s.table loop).length := by omega
    have hentry := List.getElem?_eq_getElem hi
    by_cases hf : (s.table loop)[i] = f
    · rw [hf] at hentry
      refine ⟨i, hentry, hseen, ?_⟩
      apply Passes.inner (e := .go t true)
      · rw [Point.holds_atEntry f loop i]
      · rw [go_scanning, round, table_alone, hentry]
        simp only [↓reduceIte]
        cases loop <;> rfl
    · have hnext : f ∉ (s.table loop).take (i + 1) := by
        rw [List.take_add_one, hentry, List.mem_append, not_or]
        exact ⟨hseen, by simpa using Ne.symm hf⟩
      obtain ⟨j, hj, hfirst, hpasses⟩ := ih hnext (by omega)
      exact ⟨j, hj, hfirst, (passes_next hentry hf).trans hpasses⟩

/-! ### The critical sections -/

/-- A thread that has been notified is back in front of its test. -/
private theorem passes_notified (s : Mutexes T) (t : T) (a : Access) (f : Filename) :
    Passes s t (.notified a f) s (.entering a f) :=
  (Passes.lock s t (.awake a f) rfl).trans (.unlock s t _ rfl)

/-- `readLock` finds the file in the table of the writers. -/
private theorem passes_read_blocked (hmem : f ∈ s.writeLocked) :
    Passes s t (.entering .read f) s (.letGo .read f) := by
  obtain ⟨j, -, -, hscan⟩ := passes_entry (t := t) .readTest (i := 0) (by simp) hmem
  exact ((Passes.lock s t _ rfl).trans hscan).trans (.unlock s t _ rfl)

private theorem passes_read_passed (hfree : f ∉ s.writeLocked) :
    Passes s t (.entering .read f) s (.registering f) := by
  have hscan : Passes s t _ s _ := passes_end .readTest hfree 0
  exact ((Passes.lock s t _ rfl).trans hscan).trans (.unlock s t _ rfl)

/-- `writeLock` takes two mutexes for its test, and finds the file in the table of the readers. -/
private theorem passes_write_blocked (hmem : f ∈ s.readLocked) :
    Passes s t (.entering .write f) s (.letGo .write f) := by
  obtain ⟨j, -, -, hscan⟩ := passes_entry (t := t) .writeTest (i := 0) (by simp) hmem
  have htest : Passes s t (.entering .write f) s (.found .write f) :=
    ((Passes.lock s t (.second f) rfl).trans (.lock s t _ rfl)).trans hscan
  exact (htest.trans (Passes.unlock s t (.leaving f) rfl)).trans (.unlock s t _ rfl)

private theorem passes_write_passed (hfree : f ∉ s.readLocked) :
    Passes s t (.entering .write f) { s with
      host.fm.writeLockedFiles := s.host.fm.writeLockedFiles ++ [f]
      writers := (t, f) :: s.writers } (.storing f) := by
  have hscan : Passes s t _ s _ := passes_end .writeTest hfree 0
  have htest : Passes s t (.entering .write f) s (.passed .write f) :=
    ((Passes.lock s t (.second f) rfl).trans (.lock s t _ rfl)).trans hscan
  have hpush : Passes s t (.pushing f) { s with
      host.fm.writeLockedFiles := s.host.fm.writeLockedFiles ++ [f]
      writers := (t, f) :: s.writers } (.pushed f) := by
    apply Passes.inner (e := .go t true)
    · rfl
    · simp only [step, go, pc_alone, Point.locks, Point.unlocks]
      rfl
  exact ((htest.trans (.unlock s t _ rfl)).trans hpush).trans (.unlock _ t _ rfl)

/-- A reader shares the entry of its file. -/
private theorem passes_share (hmem : f ∈ s.readLocked) :
    Passes s t (.registering f) { s with readers := (t, f) :: s.readers } .outside := by
  obtain ⟨j, -, -, hscan⟩ := passes_entry (t := t) .share (i := 0) (by simp) hmem
  exact ((Passes.lock s t _ rfl).trans hscan).trans (.unlock _ t _ rfl)

/-- The file of a reader does not open. -/
private theorem passes_notOpened (hfree : f ∉ s.readLocked) :
    Passes s t (.registering f) s .outside := by
  have hscan : Passes s t _ s _ := passes_end .share hfree 0
  have hopen : Passes s t (.opening f) s (.opened f false) := by
    apply Passes.inner (e := .go t false)
    · rfl
    · simp only [step, go, pc_alone, Point.locks, Point.unlocks]
  have htest : Passes s t (.opened f false) s .releasing := by
    apply Passes.inner (e := .go t true)
    · rfl
    · simp only [step, go, pc_alone, Point.locks, Point.unlocks]
      rfl
  exact ((((Passes.lock s t _ rfl).trans hscan).trans hopen).trans htest).trans
    (.unlock _ t _ rfl)

/-- A reader opens its file. -/
private theorem passes_open (hfree : f ∉ s.readLocked) :
    Passes s t (.registering f) (s.append t f) .outside := by
  have hscan : Passes s t _ s _ := passes_end .share hfree 0
  have hopen : Passes s t (.opening f) s (.opened f true) := by
    apply Passes.inner (e := .go t true)
    · rfl
    · simp only [step, go, pc_alone, Point.locks, Point.unlocks]
  have htest : Passes s t (.opened f true) s (.appending f) := by
    apply Passes.inner (e := .go t true)
    · rfl
    · simp only [step, go, pc_alone, Point.locks, Point.unlocks]
      rfl
  have happend : Passes s t (.appending f) (s.append t f) .releasing := by
    apply Passes.inner (e := .go t true)
    · rfl
    · simp only [step, go, pc_alone, Point.locks, Point.unlocks]
      rfl
  exact (((((Passes.lock s t _ rfl).trans hscan).trans hopen).trans htest).trans happend).trans
    (.unlock _ t _ rfl)

/-- A writer erases its entry. -/
private theorem passes_erased (hmem : f ∈ s.writeLocked) :
    Passes s t (.storing f) { s with
      host := s.host.writeUnlock f
      writers := s.writers.erase (t, f) } .announcing := by
  obtain ⟨j, hentry, hfirst, hscan⟩ :=
    passes_entry (t := t) .unlock (i := 0) (by simp) hmem
  have herase : s.host.fm.writeLockedFiles.eraseIdx j = s.host.fm.writeLockedFiles.erase f :=
    eraseIdx_eq_erase hentry hfirst
  have hhit : s.hit t f j .unlock = { s with
      host := s.host.writeUnlock f
      writers := s.writers.erase (t, f) } := by
    simp only [hit, Host.writeUnlock, herase]
  rw [hhit] at hscan
  exact ((Passes.lock s t _ rfl).trans hscan).trans (.unlock _ t _ rfl)

private theorem go_erasing (s : Mutexes T) (t : T) (erased : Bool) (f : Filename) (i : Nat) :
    step (s.alone t (.erasing erased f i)) (.go t true) =
      (s.alone t (.erasing erased f i)).eraseRound t erased f i := by
  simp only [step, go, pc_alone, Point.locks, Point.unlocks]

private theorem readLocked_alone (s : Mutexes T) (t : T) (p : Point) :
    (s.alone t p).readLocked = s.readLocked := rfl

/-- The loop of `readUnlock` passes the entries of other files. -/
private theorem passes_others {erased : Bool} {j : Nat} (hj : j ≤ s.readLocked.length) (i : Nat)
    (hi : i ≤ j) (hothers : ∀ k g, i ≤ k → k < j → s.readLocked[k]? = some g → g ≠ f) :
    Passes s t (.erasing erased f i) s (.erasing erased f j) := by
  induction hn : j - i generalizing i with
  | zero =>
    obtain rfl : i = j := by omega
    exact .refl s t _
  | succ n ih =>
    have hlt : i < s.readLocked.length := by omega
    have hentry := List.getElem?_eq_getElem hlt
    have hne := hothers i _ (Nat.le_refl i) (by omega) hentry
    have hround : Passes s t (.erasing erased f i) s (.erasing erased f (i + 1)) := by
      apply Passes.inner (e := .go t true)
      · rfl
      · rw [go_erasing, eraseRound, readLocked_alone, if_neg (Nat.ne_of_lt hlt), hentry,
          Option.map_some, if_neg hne]
    exact hround.trans (ih (i + 1) (by omega) (fun k g hk ↦ hothers k g (by omega)) (by omega))

/-- It ends at the end of the table. -/
private theorem passes_released (erased : Bool) (f : Filename) :
    Passes s t (.erasing erased f s.readLocked.length) (s.giveBack t f erased) .releasing := by
  apply Passes.inner (e := .go t true)
  · rfl
  · rw [go_erasing, eraseRound, readLocked_alone, if_pos rfl]
    cases erased <;> rfl

/-- `readUnlock` of a file without an entry. -/
private theorem passes_missing (hfree : f ∉ s.readLocked) :
    Passes s t (.erasing false f 0) { s with readers := s.readers.erase (t, f) } .releasing := by
  have hscan : Passes s t (.erasing false f 0) s (.erasing false f s.readLocked.length) :=
    passes_others (Nat.le_refl _) 0 (Nat.zero_le _) fun k g _ _ hentry ↦ by
      rintro rfl
      exact hfree (List.mem_of_getElem? hentry)
  exact hscan.trans (passes_released false f)

/-- `readUnlock` of a file with an entry in front of others. -/
private theorem passes_erasing {j : Nat} (hnodup : s.readLocked.Nodup)
    (hentry : s.readLocked[j]? = some f) (hlt : j + 1 < s.readLocked.length) :
    Passes s t (.erasing false f 0) { s with
      host.fm.readLockedFiles := s.host.fm.readLockedFiles.eraseIdx j
      readers := s.readers.erase (t, f) } .releasing := by
  have hj : j < s.readLocked.length := by omega
  have hscan : Passes s t (.erasing false f 0) s (.erasing false f j) := by
    refine passes_others (Nat.le_of_lt hj) 0 (Nat.zero_le _) fun k g _ hk hg ↦ ?_
    rintro rfl
    obtain ⟨hk', hsame⟩ := List.getElem?_eq_some_iff.mp hg
    obtain ⟨_, hsame'⟩ := List.getElem?_eq_some_iff.mp hentry
    exact Nat.ne_of_lt hk (hnodup.getElem_inj_iff.mp (hsame.trans hsame'.symm))
  have herase : Passes s t (.erasing false f j) { s with
      host.fm.readLockedFiles := s.host.fm.readLockedFiles.eraseIdx j
      readers := s.readers.erase (t, f) } (.erasing true f (j + 1)) := by
    apply Passes.inner (e := .go t true)
    · rfl
    · rw [go_erasing, eraseRound, readLocked_alone, if_neg (Nat.ne_of_lt hj), hentry,
        Option.map_some, if_pos rfl]
      rfl
  refine (hscan.trans herase).trans ?_
  generalize hs' : ({ s with
      host.fm.readLockedFiles := s.host.fm.readLockedFiles.eraseIdx j
      readers := s.readers.erase (t, f) } : Mutexes T) = s'
  have hnames : s'.readLocked = s.readLocked.eraseIdx j := by
    subst hs'
    exact (List.eraseIdx_map ..).symm
  have hlength : s'.readLocked.length = s.readLocked.length - 1 := by
    rw [hnames, List.length_eraseIdx_of_lt hj]
  have hgone : f ∉ s'.readLocked := by
    rw [hnames, eraseIdx_of_nodup hnodup hentry]
    exact hnodup.not_mem_erase
  have hrest : Passes s' t (.erasing true f (j + 1)) s' (.erasing true f s'.readLocked.length) :=
    passes_others (Nat.le_refl _) (j + 1) (by omega) fun k g _ _ hg ↦ by
      rintro rfl
      exact hgone (List.mem_of_getElem? hg)
  exact hrest.trans (passes_released true f)

/-- `readUnlock`, where its loop stays inside of the table. -/
private theorem passes_readUnlock {h : Host} (hmem : (t, f) ∈ s.readers)
    (hnodup : s.readLocked.Nodup) (hunlock : s.host.readUnlock f = some h) :
    Passes s t .outside { s with host := h, readers := s.readers.erase (t, f) } .outside := by
  have hcall : Passes s t .outside s (.closing f) := by
    apply Passes.inner (e := .call t (.readUnlock f))
    · rfl
    · rw [step, call, if_pos (pc_alone s t _)]
      exact if_pos (List.contains_iff_mem.mpr hmem)
  have hloop : Passes s t (.erasing false f 0)
      { s with host := h, readers := s.readers.erase (t, f) } .releasing := by
    by_cases hlocked : f ∈ s.readLocked
    · obtain ⟨j, hj, hentry⟩ := List.mem_iff_getElem.mp hlocked
      have hentry' : s.readLocked[j]? = some f := List.getElem?_eq_some_iff.mpr ⟨hj, hentry⟩
      have hlt : j + 1 < s.readLocked.length := by
        by_contra hend
        -- behind the erasure of the last entry there would be no result
        have hlast : s.host.readLockedNames.getLast? = some f := by
          rw [List.getLast?_eq_getElem?, ← hentry']
          show s.readLocked[s.readLocked.length - 1]? = _
          congr 1
          omega
        rw [(Host.readUnlock_eq_none_iff hnodup).mpr hlast] at hunlock
        cases hunlock
      rw [Host.readUnlock_of_entry hnodup hentry' hlt] at hunlock
      rw [← Option.some_inj.mp hunlock]
      exact passes_erasing hnodup hentry' hlt
    · rw [Host.readUnlock_of_not_mem hlocked] at hunlock
      rw [← Option.some_inj.mp hunlock]
      exact passes_missing hlocked
  exact ((hcall.trans (.lock s t _ rfl)).trans hloop).trans (.unlock _ t _ rfl)

/-- `notify_all`. -/
private theorem passes_notify (s : Mutexes T) (t : T) :
    Passes s t .announcing { s with pc := fun u ↦ (s.pc u).woken } .outside := by
  have hnotify : Passes s t .notifying { s with pc := fun u ↦ (s.pc u).woken } .announced := by
    apply Passes.of_step (e := .go t true)
    simp only [step, go, pc_alone, Point.locks, Point.unlocks]
    have hpcs : Function.update (fun u ↦ (Function.update s.pc t .notifying u).woken) t
        .announced = Function.update (fun u ↦ (s.pc u).woken) t .announced := by
      funext u
      by_cases hu : u = t
      · rw [hu, Function.update_self, Function.update_self]
      · rw [Function.update_of_ne hu, Function.update_of_ne hu, Function.update_of_ne hu]
    simp only [alone, goto, hpcs]
    rfl
  exact ((Passes.lock s t _ rfl).trans hnotify).trans (.unlock _ t _ rfl)

/-! ### Each step of the locks -/

variable {l : Locks T}

omit [DecidableEq T] in
/-- The state, with no write lock pending. -/
def plain (s : Mutexes T) : Locks T where
  host := s.host
  pc := fun t ↦ (s.pc t).lockPc
  readers := s.readers
  writers := s.writers

/-- From the state all mutexes can become free again, with the locks as given. -/
def Realizes (s : Mutexes T) (l : Locks T) : Prop :=
  ∃ es s', Run step Any s es s' ∧ Idle s' ∧ s'.plain = l

omit [DecidableEq T] in
theorem atomic_of_idle (h : Idle s) : s.atomic = s.plain := by
  have hnil : s.pending = [] := by simp [pending, h.owner]
  simp [atomic, plain, hnil]

/-- What a thread has passed through, seen from the locks. -/
private theorem realizes_of_passes (hs : Idle s) (hpc : s.pc t = p')
    (hpasses : Passes s t p' s₁ p) (hs₁ : Idle s₁) (hp : p.Settled)
    (hl : l = s₁.plain.goto t p.lockPc) : Realizes s l := by
  obtain ⟨es, hrun⟩ := hpasses
  rw [← hpc, alone_self hs] at hrun
  refine ⟨es, _, hrun, idle_alone hs₁ hp, ?_⟩
  have hpcs : (fun u ↦ ((s₁.alone t p).pc u).lockPc) =
      Function.update (fun u ↦ (s₁.pc u).lockPc) t p.lockPc := by
    funext u
    by_cases hu : u = t
    · rw [hu, pc_alone, Function.update_self]
    · rw [pc_alone_of_ne _ _ hu, Function.update_of_ne hu]
  rw [hl, plain, hpcs]
  rfl

/-- A thread in front of its test, or one that has to get `condVariableMutex` back first. -/
private theorem passes_entering {a : Access} (hs : Idle s) (hpc : s.plain.pc t = .testing a f) :
    Passes s t (s.pc t) s (.entering a f) := by
  rcases (hs.settled t).eq_point with hp | ⟨b, g, hp⟩
  · have hp' : s.pc t = .entering a f := hp.trans (congrArg LockPc.point hpc)
    rw [hp']
    exact .refl s t _
  · have hpc' : (s.pc t).lockPc = .testing a f := hpc
    rw [hp] at hpc' ⊢
    cases hpc'
    exact passes_notified s t a f

private theorem testing_of_test {l' : Locks T} (h : l.test t = some l') :
    ∃ a f, l.pc t = .testing a f := by
  unfold Locks.test at h
  split at h
  · next f hpc => exact ⟨_, f, hpc⟩
  · next f hpc => exact ⟨_, f, hpc⟩
  · cases h

private theorem realizes_test (hs : Idle s) (h : s.plain.test t = some l) : Realizes s l := by
  obtain ⟨a, f, hpc⟩ := testing_of_test h
  have hentering := passes_entering hs hpc
  cases a with
  | read =>
    by_cases hmem : f ∈ s.writeLocked
    · rw [Locks.test_blocked hpc hmem] at h
      cases h
      exact realizes_of_passes hs rfl (hentering.trans (passes_read_blocked hmem)) hs trivial rfl
    · rw [Locks.test_read_passed hpc hmem] at h
      cases h
      exact realizes_of_passes hs rfl (hentering.trans (passes_read_passed hmem)) hs trivial rfl
  | write =>
    by_cases hmem : f ∈ s.readLocked
    · rw [Locks.test_blocked hpc hmem] at h
      cases h
      exact realizes_of_passes hs rfl (hentering.trans (passes_write_blocked hmem)) hs trivial rfl
    · rw [Locks.test_write_passed hpc hmem] at h
      cases h
      exact realizes_of_passes hs rfl (hentering.trans (passes_write_passed hmem))
        ⟨hs.owner, hs.settled⟩ trivial rfl

private theorem realizes_register {opens : Bool} (hs : Idle s)
    (h : s.plain.register t opens = some l) : Realizes s l := by
  unfold Locks.register at h
  split at h
  · next f hpc =>
    have hp : s.pc t = .registering f :=
      Point.eq_point_of_lockPc (hs.settled t) hpc (by simp)
    by_cases hmem : f ∈ s.readLocked
    · have hreg : s.plain.host.register f opens = (s.host, true) := register_of_mem hmem opens
      rw [hreg] at h
      cases h
      exact realizes_of_passes hs hp (passes_share hmem) ⟨hs.owner, hs.settled⟩ trivial rfl
    · rw [register_of_not_mem (h := s.plain.host) hmem opens] at h
      cases opens with
      | false =>
        cases h
        exact realizes_of_passes hs hp (passes_notOpened hmem) hs trivial rfl
      | true =>
        cases h
        exact realizes_of_passes hs hp (passes_open hmem) ⟨hs.owner, hs.settled⟩ trivial rfl
  · cases h

private theorem realizes_readUnlock (hs : Idle s) (hl : Locks.Ledger s.plain)
    (h : s.plain.readUnlock t f = some l) : Realizes s l := by
  unfold Locks.readUnlock at h
  split at h
  · next hread =>
    obtain ⟨host, hunlock, rfl⟩ := Option.map_eq_some_iff.mp h
    have hp : s.pc t = .outside := Point.eq_point_of_lockPc (hs.settled t) hread.1 (by simp)
    have hmem : (t, f) ∈ s.readers := hread.2
    apply realizes_of_passes hs hp (passes_readUnlock hmem hl.nodup hunlock)
      ⟨hs.owner, hs.settled⟩ trivial
    have hpc : LockPc.outside = s.plain.pc t := hread.1.symm
    rw [show Point.outside.lockPc = s.plain.pc t from hpc]
    simp only [Locks.goto, plain, Function.update_eq_self]
  · cases h

private theorem realizes_writeUnlock (hs : Idle s) (hl : Locks.Ledger s.plain)
    (h : s.plain.writeUnlock t = some l) : Realizes s l := by
  unfold Locks.writeUnlock at h
  split at h
  · next f hpc =>
    have hp : s.pc t = .storing f := Point.eq_point_of_lockPc (hs.settled t) hpc (by simp)
    have hmem : f ∈ s.writeLocked := hl.mem_writeLocked (hl.storing t f hpc)
    have hcontains : s.plain.host.fm.writeLockedFiles.contains f = true :=
      List.contains_iff_mem.mpr hmem
    rw [hcontains] at h
    apply realizes_of_passes hs hp (passes_erased hmem) ⟨hs.owner, hs.settled⟩ trivial
    exact (Option.some_inj.mp h).symm
  · cases h

private theorem realizes_notify (hs : Idle s) (h : s.plain.notify t = some l) :
    Realizes s l := by
  unfold Locks.notify at h
  split at h
  · next hpc =>
    have hp : s.pc t = .announcing := Point.eq_point_of_lockPc (hs.settled t) hpc (by simp)
    have hidle : Idle { s with pc := fun u ↦ (s.pc u).woken } :=
      ⟨hs.owner, fun u ↦ Point.settled_woken (hs.settled u)⟩
    apply realizes_of_passes hs hp (passes_notify s t) hidle trivial
    rw [← Option.some_inj.mp h]
    simp only [plain, Point.lockPc_woken]
    rfl
  · cases h

/-- Each step of the locks can be made on the mutexes. -/
private theorem realizes_step {e : LockEvent T} (hs : Idle s) (hl : Locks.Ledger s.plain)
    (h : Locks.step s.plain e = some l) : Realizes s l := by
  cases e with
  | lock t a f =>
    simp only [Locks.step] at h
    split at h
    · next hpc =>
      cases h
      have hp : s.pc t = .outside := Point.eq_point_of_lockPc (hs.settled t) hpc (by simp)
      have hcall : Passes s t .outside s (.entering a f) := by
        cases a with
        | read => exact .inner (e := .call t (.readLock f)) rfl (by simp [step, call])
        | write => exact .inner (e := .call t (.store f)) rfl (by simp [step, call])
      exact realizes_of_passes hs hp hcall hs trivial rfl
    · cases h
  | test t => exact realizes_test hs h
  | sleep t =>
    simp only [Locks.step] at h
    split at h
    · next a f hpc =>
      cases h
      have hp : s.pc t = .letGo a f := Point.eq_point_of_lockPc (hs.settled t) hpc (by simp)
      have hsleep : Passes s t (.letGo a f) s (.asleep a f) :=
        (Passes.lock s t (.waiting a f) rfl).trans (.unlock s t _ rfl)
      exact realizes_of_passes hs hp hsleep hs trivial rfl
    · cases h
  | wake t =>
    simp only [Locks.step] at h
    split at h
    · next a f hpc =>
      cases h
      have hp : s.pc t = .asleep a f := Point.eq_point_of_lockPc (hs.settled t) hpc (by simp)
      have hwake : Passes s t (.asleep a f) s (.notified a f) :=
        .inner (e := .wake t) rfl (by simp [step])
      exact realizes_of_passes hs hp hwake hs trivial rfl
    · cases h
  | register t opens => exact realizes_register hs h
  | readUnlock t f => exact realizes_readUnlock hs hl h
  | openFails t =>
    simp only [Locks.step] at h
    split at h
    · next f hpc =>
      cases h
      have hp : s.pc t = .storing f := Point.eq_point_of_lockPc (hs.settled t) hpc (by simp)
      have hfails : Passes s t (.storing f) s .outside :=
        .inner (e := .openFails t) rfl (by simp [step])
      exact realizes_of_passes hs hp hfails hs trivial rfl
    · cases h
  | writeUnlock t => exact realizes_writeUnlock hs hl h
  | notify t => exact realizes_notify hs h

/-- Every run of the locks can be made on the mutexes. -/
private theorem realizes_run {host : Host} {ms : List (LockEvent T)}
    (hrun : Run Locks.step Any (Locks.start host) ms l) : Realizes (start host) l := by
  induction hrun with
  | nil => exact ⟨[], start host, .nil, ⟨fun _ ↦ rfl, fun _ ↦ trivial⟩, rfl⟩
  | snoc hprefix _ hstep ih =>
    obtain ⟨es, s, hes, hs, rfl⟩ := ih
    obtain ⟨es', s', hes', hs', hl'⟩ := realizes_step hs (Locks.ledger_run hprefix) hstep
    exact ⟨es ++ es', s', hes.append hes', hs', hl'⟩

omit [DecidableEq T] in
/-- Where all mutexes are free, no loop has left the table. -/
private theorem Idle.inside (hs : Idle s) : ¬ s.Left := by
  rintro ⟨t, erased, f, i, hpc, -⟩
  have hsettled := hs.settled t
  rw [hpc] at hsettled
  exact hsettled

/-- The critical sections of the file manager are as good as single steps: the states of the
locks that are reached are those in which the threads at the mutexes are seen, as long as no loop
of `readUnlock` has left the table. -/
theorem atomic_reached_iff {host : Host} :
    (∃ es s, Run step Any (start host) es s ∧ ¬ s.Left ∧ s.atomic = l) ↔
      ∃ ms, Run Locks.step Any (Locks.start host) ms l := by
  constructor
  · rintro ⟨es, s, hrun, hinside, rfl⟩
    exact (atomic_run hrun).resolve_left hinside
  · rintro ⟨ms, hrun⟩
    obtain ⟨es, s, hes, hs, rfl⟩ := realizes_run hrun
    exact ⟨es, s, hes, hs.inside, atomic_of_idle hs⟩

end Mutexes

end P2PNetwork.Client
