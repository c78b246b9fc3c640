import P2PNetwork.Client.File.CriticalSections

/-!
# Steps on mutexes and steps of the locks

A state of the threads at the mutexes, read as a state in which a critical section is one step:
a critical section that tests a table takes place where its loop ends, one that changes a table
where it changes it. The entry that `writeLock` appends counts from its test on, since it keeps
`writeLockMutex` in between. A state in which a loop of `readUnlock` has left the table has no such
reading.
-/

open Lib

namespace P2PNetwork.Client

namespace Point

/-- Where a thread stands when critical sections are single steps. -/
def lockPc : Point → LockPc
  | .outside => .outside
  | .entering a f => .testing a f
  | .second f => .testing .write f
  | .scanning .readTest f _ => .testing .read f
  | .scanning .writeTest f _ => .testing .write f
  | .scanning .share f _ => .registering f
  | .scanning .unlock f _ => .storing f
  | .scanning .find _ _ => .outside
  | .found a f | .letGo a f | .waiting a f => .blocked a f
  | .leaving f => .blocked .write f
  | .asleep a f => .asleep a f
  | .notified a f | .awake a f => .testing a f
  | .passed .read f | .registering f | .opening f | .opened f _ | .appending f => .registering f
  | .passed .write f | .pushing f | .pushed f | .storing f => .storing f
  | .erased | .announcing | .notifying => .notifying
  | .missed | .announced | .closing _ | .erasing .. | .looking _ | .releasing => .outside

/-- The file that a thread is about to append to the writers. -/
def pending : Point → Option Filename
  | .passed .write f | .pushing f => some f
  | _ => none

variable {p p' : Point} {m : Mutex}

theorem lockPc_woken (p : Point) : p.woken.lockPc = Locks.woken p.lockPc := by
  cases p with
  | scanning loop => cases loop <;> rfl
  | passed a => cases a <;> rfl
  | _ => rfl

theorem pending_woken (p : Point) : p.woken.pending = p.pending := by
  cases p <;> rfl

/-- An append that is pending is made under `writeLockMutex`. -/
theorem pending_eq_none (h : .writeLockMutex ∉ p.holds) : p.pending = none := by
  unfold pending
  split
  · simp [holds] at h
  · simp [holds] at h
  · rfl

/-- Locking a mutex is not seen. -/
theorem lockPc_of_locks (h : p.locks = some (m, p')) :
    p'.lockPc = p.lockPc ∧ p'.pending = p.pending := by
  unfold locks at h
  split at h <;> cases h <;> exact ⟨rfl, rfl⟩

/-- Unlocking a mutex is not seen but in `wait`. -/
theorem lockPc_of_unlocks (h : p.unlocks = some (m, p')) :
    p'.pending = p.pending ∧
      (p'.lockPc = p.lockPc ∨ ∃ a f, p.lockPc = .blocked a f ∧ p'.lockPc = .asleep a f) := by
  unfold unlocks at h
  split at h <;> cases h <;> simp [lockPc, pending]

end Point

namespace Locks

variable {T : Type} [DecidableEq T] {l : Locks T} {t : T} {f : Filename}

/-! ### The tests -/

theorem test_blocked {a : Access} (hpc : l.pc t = .testing a f)
    (h : match a with
      | .read => f ∈ l.writeLocked
      | .write => f ∈ l.readLocked) :
    l.test t = some (l.goto t (.blocked a f)) := by
  cases a with
  | read =>
    have hlocked : f ∈ l.host.fm.writeLockedFiles := h
    simp [test, hpc, hlocked]
  | write =>
    have hlocked : l.host.writeLock f = none := Host.writeLock_eq_none_iff.mpr h
    simp [test, hpc, hlocked]

theorem test_read_passed (hpc : l.pc t = .testing .read f) (h : f ∉ l.writeLocked) :
    l.test t = some (l.goto t (.registering f)) := by
  have hfree : f ∉ l.host.fm.writeLockedFiles := h
  simp [test, hpc, hfree]

theorem test_write_passed (hpc : l.pc t = .testing .write f) (h : f ∉ l.readLocked) :
    l.test t = some (({ l with
      host.fm.writeLockedFiles := l.host.fm.writeLockedFiles ++ [f]
      writers := (t, f) :: l.writers }).goto t (.storing f)) := by
  have hfree : l.host.openedFile f = none := by
    rw [← Option.not_isSome_iff_eq_none, Host.isSome_openedFile]
    exact h
  simp [test, hpc, Host.writeLock_of_unlocked hfree]

end Locks

namespace Mutexes

variable {T : Type}

/-- The write lock that a thread is about to enter. -/
def pending (s : Mutexes T) : List (T × Filename) :=
  (s.owner .writeLockMutex).toList.flatMap fun t ↦ (s.pc t).pending.toList.map fun f ↦ (t, f)

/-- The state, with critical sections as single steps. -/
def atomic (s : Mutexes T) : Locks T where
  host := { s.host with fm := { s.host.fm with
    writeLockedFiles := s.host.fm.writeLockedFiles ++ s.pending.map Prod.snd } }
  pc := fun t ↦ (s.pc t).lockPc
  readers := s.readers
  writers := s.pending ++ s.writers

variable [DecidableEq T] {s s' : Mutexes T} {e : MutexEvent T} {t : T} {f : Filename}

/-! ### The pending write lock -/

omit [DecidableEq T] in
private theorem pending_of_holds (hs : Sound s) (h : .writeLockMutex ∈ (s.pc t).holds) :
    s.pending = (s.pc t).pending.toList.map fun f ↦ (t, f) := by
  rw [pending, (hs.owner _ t).mpr h]
  simp

omit [DecidableEq T] in
/-- While a thread has `writeLockMutex` and nothing to append, nothing is pending. -/
private theorem pending_eq_nil (hs : Sound s) (h : .writeLockMutex ∈ (s.pc t).holds)
    (hnone : (s.pc t).pending = none) : s.pending = [] := by
  rw [pending_of_holds hs h, hnone]
  rfl

omit [DecidableEq T] in
private theorem pending_kept (hs : Sound s) (he : Effect s t s')
    (hsame : (s'.pc t).pending = (s.pc t).pending) : s'.pending = s.pending := by
  unfold pending
  by_cases hafter : .writeLockMutex ∈ (s'.pc t).holds
  · by_cases hbefore : .writeLockMutex ∈ (s.pc t).holds
    · rw [he.kept _ (iff_of_true hafter hbefore), (hs.owner _ t).mpr hbefore]
      simp [hsame]
    · rw [(he.taken _ hafter hbefore).1, (he.taken _ hafter hbefore).2]
      simp [hsame, Point.pending_eq_none hbefore]
  · by_cases hbefore : .writeLockMutex ∈ (s.pc t).holds
    · rw [he.given _ hbefore hafter, (hs.owner _ t).mpr hbefore]
      simp [← hsame, Point.pending_eq_none hafter]
    · rw [he.kept _ (iff_of_false hafter hbefore)]
      cases howner : s.owner .writeLockMutex with
      | none => rfl
      | some u =>
        have hu : u ≠ t := by
          rintro rfl
          exact hbefore ((hs.owner _ u).mp howner)
        have hother : (s'.pc u).pending = (s.pc u).pending := by
          rcases he.others u hu with h | h
          · rw [h]
          · rw [h, Point.pending_woken]
        simp [hother]

/-! ### Each step is a step of the locks, or is not seen -/

/-- A step that moves no other thread. -/
private theorem atomic_of {p : Point} {l : List (T × Filename)} (hpc : s'.pc t = p)
    (hothers : ∀ u, u ≠ t → s'.pc u = s.pc u) (hpending : s'.pending = l) :
    s'.atomic = ({
      host := { s'.host with fm := { s'.host.fm with
        writeLockedFiles := s'.host.fm.writeLockedFiles ++ l.map Prod.snd } }
      pc := s.atomic.pc
      readers := s'.readers
      writers := l ++ s'.writers } : Locks T).goto t p.lockPc := by
  have hpcs : (fun u ↦ (s'.pc u).lockPc) = Function.update s.atomic.pc t p.lockPc := by
    funext u
    by_cases hu : u = t
    · rw [hu, Function.update_self, hpc]
    · rw [Function.update_of_ne hu, hothers u hu]
      rfl
  rw [atomic, hpending, hpcs]
  rfl

/-- A step that changes neither the tables nor the locks that threads have. -/
private theorem atomic_goto {p : Point} (hs : Sound s) (he : Effect s t s') (hpc : s'.pc t = p)
    (hpending : p.pending = (s.pc t).pending) (hothers : ∀ u, u ≠ t → s'.pc u = s.pc u)
    (hhost : s'.host = s.host) (hreaders : s'.readers = s.readers)
    (hwriters : s'.writers = s.writers) :
    s'.atomic = s.atomic.goto t p.lockPc := by
  rw [atomic_of hpc hothers (pending_kept hs he (hpc ▸ hpending)), hhost, hreaders, hwriters]
  rfl

/-- A step of the locks, or none. -/
def Seen (s s' : Mutexes T) : Prop := ∃ m, Follows Locks.step s.atomic m s'.atomic

private theorem Seen.of_eq (h : s'.atomic = s.atomic) : Seen s s' := ⟨none, h⟩

private theorem Seen.of_step {m : LockEvent T} (h : Locks.step s.atomic m = some s'.atomic) :
    Seen s s' :=
  ⟨some m, h⟩

/-- A step that moves its thread where the locks do not see it. -/
private theorem Seen.of_goto {pc : LockPc} (hpc : s.atomic.pc t = pc)
    (h : s'.atomic = s.atomic.goto t pc) : Seen s s' := by
  apply Seen.of_eq
  rw [h, ← hpc]
  simp only [Locks.goto, Function.update_eq_self]

/-- A step that only moves its thread. -/
private theorem atomic_move {p : Point} (hs : Sound s) (he : Effect s t (s.goto t p))
    (hpending : p.pending = (s.pc t).pending) :
    (s.goto t p).atomic = s.atomic.goto t p.lockPc :=
  atomic_goto hs he (pc_goto s t p) hpending (fun _ hu ↦ pc_goto_of_ne s p hu) rfl rfl rfl

private theorem seen_move {p : Point} (hs : Sound s) (he : Effect s t (s.goto t p))
    (hpending : p.pending = (s.pc t).pending) (hpc : (s.pc t).lockPc = p.lockPc) :
    Seen s (s.goto t p) :=
  .of_goto hpc (atomic_move hs he hpending)

private theorem seen_unlock {m : Mutex} {p : Point} (hs : Sound s)
    (he : Effect s t ((s.unlock m).goto t p)) (hunlocks : (s.pc t).unlocks = some (m, p)) :
    Seen s ((s.unlock m).goto t p) := by
  obtain ⟨hpending, hlockPc⟩ := Point.lockPc_of_unlocks hunlocks
  have hgoto := atomic_goto hs he (pc_goto _ t p) hpending
    (fun _ hu ↦ pc_goto_of_ne (s.unlock m) p hu) rfl rfl rfl
  rcases hlockPc with hsame | ⟨a, f, hbefore, hafter⟩
  · exact .of_goto hsame.symm hgoto
  · apply Seen.of_step (m := .sleep t)
    have hpc : s.atomic.pc t = .blocked a f := hbefore
    rw [hgoto, hafter]
    simp only [Locks.step, hpc]

private theorem seen_lock {m : Mutex} {p : Point} (hs : Sound s) (he : Effect s t s')
    (hlocks : (s.pc t).locks = some (m, p))
    (h : (s.lock t m).map (fun s ↦ s.goto t p) = some s') : Seen s s' := by
  obtain ⟨hlockPc, hpending⟩ := Point.lockPc_of_locks hlocks
  obtain ⟨s₁, hs₁, rfl⟩ := Option.map_eq_some_iff.mp h
  unfold lock at hs₁
  split at hs₁
  · cases hs₁
    exact .of_goto hlockPc.symm (atomic_goto hs he (pc_goto _ t p) hpending
      (fun _ hu ↦ pc_goto_of_ne _ p hu) rfl rfl rfl)
  · cases hs₁

omit [DecidableEq T] in
/-- Under `writeLockMutex`, with nothing to append, the writers are those of the table. -/
private theorem writeLocked_atomic (hs : Sound s) (h : .writeLockMutex ∈ (s.pc t).holds)
    (hnone : (s.pc t).pending = none) : s.atomic.writeLocked = s.writeLocked := by
  have hnil := pending_eq_nil hs h hnone
  simp [atomic, Locks.writeLocked, writeLocked, hnil]

omit [DecidableEq T] in
/-- A loop that has come to the end of a table has not found its file there. -/
private theorem not_mem_of_end {loop : Loop} {i : Nat} (hs : Sound s)
    (hpc : s.pc t = .scanning loop f i) (hend : (s.table loop)[i]? = none) :
    f ∉ s.table loop := by
  have hall : (s.table loop).take i = s.table loop :=
    List.take_of_length_le (List.getElem?_eq_none_iff.mp hend)
  have hseen := hs.seen t
  rw [hpc] at hseen
  rw [← hall]
  cases loop <;> exact hseen

omit [DecidableEq T] in
/-- The entry at which a loop stops is in its table. -/
private theorem mem_of_entry {loop : Loop} {i : Nat} (hentry : (s.table loop)[i]? = some f) :
    f ∈ s.table loop :=
  List.mem_of_getElem? hentry

omit [DecidableEq T] in
private theorem atomic_pc {p : Point} (hpc : s.pc t = p) : s.atomic.pc t = p.lockPc :=
  congrArg Point.lockPc hpc

/-- The end of a loop over a table. -/
private theorem seen_end {loop : Loop} {i : Nat} (hs : Sound s) (hl : Locks.Ledger s.atomic)
    (hpc : s.pc t = .scanning loop f i) (he : Effect s t (s.goto t (.afterLoop f loop)))
    (hend : (s.table loop)[i]? = none) : Seen s (s.goto t (.afterLoop f loop)) := by
  have hfree := not_mem_of_end hs hpc hend
  cases loop with
  | readTest =>
    apply Seen.of_step (m := .test t)
    rw [atomic_move hs he (by rw [hpc]; rfl)]
    apply Locks.test_read_passed (atomic_pc hpc)
    rwa [writeLocked_atomic (t := t) hs (by simp [hpc, Point.holds]) (by rw [hpc]; rfl)]
  | writeTest =>
    have hheld : .writeLockMutex ∈ (s.pc t).holds := by simp [hpc, Point.holds]
    have hnil := pending_eq_nil hs hheld (by rw [hpc]; rfl)
    have howner : s.owner .writeLockMutex = some t := (hs.owner _ t).mpr hheld
    have hpending : (s.goto t (.passed .write f)).pending = [(t, f)] := by
      simp [pending, goto, howner, Point.pending]
    apply Seen.of_step (m := .test t)
    show s.atomic.test t = some (s.goto t (.passed .write f)).atomic
    rw [Locks.test_write_passed (atomic_pc hpc) hfree]
    rw [atomic_of (pc_goto s t _) (fun u hu ↦ pc_goto_of_ne s _ hu) hpending]
    simp [atomic, hnil, goto, Point.lockPc]
  | share => exact seen_move hs he (by rw [hpc]; rfl) (by rw [hpc]; rfl)
  | unlock =>
    have hstoring : (t, f) ∈ s.atomic.writers := hl.storing t f (atomic_pc hpc)
    have hmem := hl.mem_writeLocked hstoring
    rw [writeLocked_atomic (t := t) hs (by simp [hpc, Point.holds]) (by rw [hpc]; rfl)] at hmem
    exact absurd hmem hfree
  | find => exact seen_move hs he (by rw [hpc]; rfl) (by rw [hpc]; rfl)

/-- The entry of the file in a table that a thread tests. -/
private theorem seen_found {a : Access} {loop : Loop} {i : Nat} (hs : Sound s)
    (hpc : s.pc t = .scanning loop f i) (htests : (s.pc t).lockPc = .testing a f)
    (he : Effect s t (s.goto t (.found a f))) (hentry : (s.table loop)[i]? = some f) :
    Seen s (s.goto t (.found a f)) := by
  have hmem := mem_of_entry hentry
  apply Seen.of_step (m := .test t)
  rw [atomic_move hs he (by rw [hpc]; rfl)]
  apply Locks.test_blocked htests
  rw [hpc] at htests
  cases loop with
  | readTest =>
    cases htests
    show f ∈ s.atomic.writeLocked
    rwa [writeLocked_atomic (t := t) hs (by simp [hpc, Point.holds]) (by rw [hpc]; rfl)]
  | writeTest =>
    cases htests
    exact hmem
  | _ => cases htests

omit [DecidableEq T] in
theorem register_of_mem {h : Host} (hmem : f ∈ h.readLockedNames) (opens : Bool) :
    h.register f opens = (h, true) := by
  rw [Host.register, if_pos (Host.isSome_openedFile.mpr hmem)]

/-- The entry that a reader shares. -/
private theorem seen_share {i : Nat} (hs : Sound s) (hpc : s.pc t = .scanning .share f i)
    (he : Effect s t ((s.hit t f i .share).goto t .releasing))
    (hentry : (s.table .share)[i]? = some f) :
    Seen s ((s.hit t f i .share).goto t .releasing) := by
  have hmem : f ∈ s.atomic.host.readLockedNames := mem_of_entry hentry
  have hpending := pending_kept hs he (by rw [pc_goto, hpc]; rfl)
  apply Seen.of_step (m := .register t true)
  simp only [Locks.step, Locks.register, atomic_pc hpc, Point.lockPc, register_of_mem hmem]
  rw [atomic_of (pc_goto _ t _) (fun u hu ↦ pc_goto_of_ne _ _ hu) hpending]
  rfl

/-- `writeUnlock` erases the first entry of its file. -/
theorem eraseIdx_eq_erase {l : List Filename} {i : Nat} (hentry : l[i]? = some f)
    (hfirst : f ∉ l.take i) : l.eraseIdx i = l.erase f := by
  induction l generalizing i with
  | nil => cases hentry
  | cons g l ih =>
    cases i with
    | zero =>
      cases hentry
      simp
    | succ i =>
      rw [List.take_succ_cons, List.mem_cons, not_or] at hfirst
      rw [List.eraseIdx_cons_succ, List.erase_cons_tail (by simpa using Ne.symm hfirst.1)]
      rw [ih (by simpa using hentry) hfirst.2]

/-- The entry that a writer erases. -/
private theorem seen_erased {i : Nat} (hs : Sound s) (hpc : s.pc t = .scanning .unlock f i)
    (he : Effect s t ((s.hit t f i .unlock).goto t .erased))
    (hentry : (s.table .unlock)[i]? = some f) :
    Seen s ((s.hit t f i .unlock).goto t .erased) := by
  have hmem : f ∈ s.host.fm.writeLockedFiles := mem_of_entry hentry
  have hseen : (Point.scanning .unlock f i).Seen s.readLocked s.writeLocked := hpc ▸ hs.seen t
  have herase : s.host.fm.writeLockedFiles.eraseIdx i = s.host.fm.writeLockedFiles.erase f :=
    eraseIdx_eq_erase hentry hseen
  have hnil : s.pending = [] :=
    pending_eq_nil (t := t) hs (by simp [hpc, Point.holds]) (by rw [hpc]; rfl)
  have hpending := pending_kept hs he (by rw [pc_goto, hpc]; rfl)
  apply Seen.of_step (m := .writeUnlock t)
  rw [atomic_of (pc_goto _ t _) (fun _ hu ↦ pc_goto_of_ne _ _ hu) hpending]
  have hbefore : s.atomic.pc t = .storing f := atomic_pc hpc
  have hafter : Point.erased.lockPc = .notifying := rfl
  simp only [Locks.step, Locks.writeUnlock, hbefore, hafter]
  simp [atomic, hnil, hmem, herase, Host.writeUnlock, hit, goto]

private theorem seen_round {loop : Loop} {i : Nat} (hs : Sound s) (hl : Locks.Ledger s.atomic)
    (hpc : s.pc t = .scanning loop f i) (he : Effect s t (s.round t loop f i)) :
    Seen s (s.round t loop f i) := by
  unfold round at he ⊢
  split at he
  · next hend => exact seen_end hs hl hpc he hend
  · next g hentry =>
    split at he
    · next hg =>
      subst hg
      simp only [↓reduceIte]
      cases loop with
      | readTest => exact seen_found hs hpc (by rw [hpc]; rfl) he hentry
      | writeTest => exact seen_found hs hpc (by rw [hpc]; rfl) he hentry
      | share => exact seen_share hs hpc he hentry
      | unlock => exact seen_erased hs hpc he hentry
      | find => exact seen_move hs he (by rw [hpc]; rfl) (by rw [hpc]; rfl)
    · next hg =>
      simp only [hg, ↓reduceIte]
      exact seen_move hs he (by rw [hpc]; cases loop <;> rfl) (by rw [hpc]; cases loop <;> rfl)

omit [DecidableEq T] in
/-- A file without an entry gets one where it opens. -/
theorem register_of_not_mem {h : Host} (hfree : f ∉ h.readLockedNames) (opens : Bool) :
    h.register f opens = if opens then ({ h with fm := { h.fm with
        readLockedFiles := h.fm.readLockedFiles ++ [⟨f, .opened⟩] } }, true) else (h, false) := by
  have hnone : (h.openedFile f).isSome = false := by
    rw [← Bool.not_eq_true, Host.isSome_openedFile]
    exact hfree
  rw [Host.register, hnone]
  cases opens <;> rfl

/-- The file of a reader has not opened. -/
private theorem seen_notOpened (hs : Sound s) (hpc : s.pc t = .opened f false)
    (he : Effect s t (s.goto t .releasing)) : Seen s (s.goto t .releasing) := by
  have hfree : f ∉ s.atomic.host.readLockedNames := by
    have hseen := hs.seen t
    rw [hpc] at hseen
    exact hseen
  have hbefore : s.atomic.pc t = .registering f := atomic_pc hpc
  apply Seen.of_step (m := .register t false)
  rw [atomic_move hs he (by rw [hpc]; rfl)]
  simp only [Locks.step, Locks.register, hbefore, register_of_not_mem hfree]
  rfl

/-- A reader appends the file it has opened. -/
private theorem seen_appending (hs : Sound s) (hpc : s.pc t = .appending f)
    (he : Effect s t ((s.append t f).goto t .releasing)) :
    Seen s ((s.append t f).goto t .releasing) := by
  have hfree : f ∉ s.atomic.host.readLockedNames := by
    have hseen := hs.seen t
    rw [hpc] at hseen
    exact hseen
  have hpending := pending_kept hs he (by rw [pc_goto, hpc]; rfl)
  have hbefore : s.atomic.pc t = .registering f := atomic_pc hpc
  have hafter : Point.releasing.lockPc = .outside := rfl
  apply Seen.of_step (m := .register t true)
  rw [atomic_of (pc_goto _ t _) (fun _ hu ↦ pc_goto_of_ne _ _ hu) hpending]
  simp only [Locks.step, Locks.register, hbefore, hafter, register_of_not_mem hfree]
  rfl

/-- The entry that a writer appends has been pending. -/
private theorem seen_pushing (hs : Sound s) (hpc : s.pc t = .pushing f) :
    Seen s (({ s with
      host.fm.writeLockedFiles := s.host.fm.writeLockedFiles ++ [f]
      writers := (t, f) :: s.writers }).goto t (.pushed f)) := by
  have hheld : .writeLockMutex ∈ (s.pc t).holds := by simp [hpc, Point.holds]
  have howner : s.owner .writeLockMutex = some t := (hs.owner _ t).mpr hheld
  have hbefore : s.pending = [(t, f)] := by
    rw [pending_of_holds hs hheld, hpc]
    rfl
  have hafter : (({ s with
      host.fm.writeLockedFiles := s.host.fm.writeLockedFiles ++ [f]
      writers := (t, f) :: s.writers } : Mutexes T).goto t (.pushed f)).pending = [] := by
    simp [pending, goto, howner, Point.pending]
  apply Seen.of_goto (atomic_pc hpc)
  rw [atomic_of (pc_goto _ t _) (fun _ hu ↦ pc_goto_of_ne _ _ hu) hafter]
  have hlockPc : Point.lockPc (.pushed f) = Point.lockPc (.pushing f) := rfl
  simp [atomic, hbefore, goto, hlockPc]

private theorem seen_notifying (hs : Sound s) (hpc : s.pc t = .notifying)
    (he : Effect s t (({ s with pc := fun u ↦ (s.pc u).woken }).goto t .announced)) :
    Seen s (({ s with pc := fun u ↦ (s.pc u).woken }).goto t .announced) := by
  have hpending := pending_kept hs he (by rw [pc_goto, hpc]; rfl)
  have hpcs : (fun u ↦ (Function.update (fun u ↦ (s.pc u).woken) t .announced u).lockPc) =
      Function.update (fun u ↦ Locks.woken (s.pc u).lockPc) t .outside := by
    funext u
    by_cases hu : u = t
    · rw [hu, Function.update_self, Function.update_self]
      rfl
    · rw [Function.update_of_ne hu, Function.update_of_ne hu, Point.lockPc_woken]
  apply Seen.of_step (m := .notify t)
  have hbefore : s.atomic.pc t = .notifying := atomic_pc hpc
  have hatomic : (({ s with pc := fun u ↦ (s.pc u).woken } : Mutexes T).goto t
      .announced).atomic = ({ s.atomic with pc := fun u ↦ Locks.woken (s.atomic.pc u) }).goto t
      .outside := by
    unfold atomic
    rw [hpending]
    simp only [goto, Locks.goto, hpcs]
  rw [hatomic]
  simp only [Locks.step, Locks.notify, hbefore]

/-- The step of the locks for a `readUnlock` that changes the table of the readers like this. -/
private theorem seen_readUnlock {h : Host} {erased : Bool} {i : Nat} {p : Point}
    (hpc : s.pc t = .erasing erased f i) (hp : p.lockPc = .outside) (hpc' : s'.pc t = p)
    (hmem : (t, f) ∈ s.readers) (hothers : ∀ u, u ≠ t → s'.pc u = s.pc u)
    (hpending : s'.pending = s.pending) (hunlock : s.host.readUnlock f = some h)
    (hhost : s'.host = h) (hreaders : s'.readers = s.readers.erase (t, f))
    (hwriters : s'.writers = s.writers) : Seen s s' := by
  have hbefore : s.atomic.pc t = .outside := atomic_pc hpc
  have hreader : (t, f) ∈ s.atomic.readers := hmem
  obtain ⟨left, hleft, rfl⟩ := Option.map_eq_some_iff.mp hunlock
  have hatomic : s.atomic.host.readUnlock f = some { s.atomic.host with fm :=
      { s.atomic.host.fm with readLockedFiles := left } } := by
    rw [Host.readUnlock, show s.atomic.host.fm.readLockedFiles = s.host.fm.readLockedFiles from rfl,
      hleft]
    rfl
  apply Seen.of_step (m := .readUnlock t f)
  rw [atomic_of hpc' hothers hpending, hp, ← hbefore, Locks.step, Locks.readUnlock,
    if_pos ⟨hbefore, hreader⟩, hatomic, hhost, hreaders, hwriters]
  simp only [Locks.goto, Function.update_eq_self]
  rfl

omit [DecidableEq T] in
private theorem pending_erasing {erased : Bool} {i : Nat} {p : Point} (hs : Sound s)
    (he : Effect s t s') (hpc : s.pc t = .erasing erased f i) (hpc' : s'.pc t = p)
    (hp : p.pending = none) : s'.pending = s.pending :=
  pending_kept hs he (by rw [hpc', hp, hpc]; rfl)

/-- A round of the loop of `readUnlock`: the step takes place where an entry is erased, or at the
end of a table without one. Behind the erasure of the last entry the loop leaves the table. -/
private theorem seen_eraseRound {erased : Bool} {i : Nat} (hs : Sound s)
    (hpc : s.pc t = .erasing erased f i) (he : Effect s t s')
    (h : s.eraseRound t erased f i = some s') : s'.Left ∨ Seen s s' := by
  have hseen := hs.seen t
  rw [hpc] at hseen
  unfold eraseRound at h
  split at h
  · next hend =>
    right
    cases h
    cases erased with
    | true => exact seen_move hs he (by rw [hpc]; rfl) (by rw [hpc]; rfl)
    | false =>
      have hfree : f ∉ s.readLocked := by
        have hall : s.readLocked.take i = s.readLocked :=
          List.take_of_length_le (Nat.le_of_eq hend.symm)
        rw [← hall]
        exact hseen
      exact seen_readUnlock hpc rfl (pc_goto _ t _) (hs.reader t f (by rw [hpc]; rfl))
        (fun _ hu ↦ pc_goto_of_ne _ _ hu) (pending_erasing hs he hpc (pc_goto _ t _) rfl)
        (Host.readUnlock_of_not_mem hfree) rfl rfl rfl
  · obtain ⟨g, hentry, hround⟩ := Option.map_eq_some_iff.mp h
    split at hround
    · next hg =>
      subst hg
      cases erased with
      | true => exact absurd (List.mem_of_getElem? hentry) hseen
      | false =>
        by_cases hlt : i + 1 < s.readLocked.length
        · right
          subst hround
          exact seen_readUnlock hpc rfl (pc_goto _ t _) (hs.reader t g (by rw [hpc]; rfl))
            (fun _ hu ↦ pc_goto_of_ne _ _ hu) (pending_erasing hs he hpc (pc_goto _ t _) rfl)
            (Host.readUnlock_of_entry hs.nodup hentry hlt) rfl rfl rfl
        · left
          subst hround
          refine ⟨t, true, g, i + 1, pc_goto _ t _, ?_⟩
          have hi : i < s.readLocked.length := (List.getElem?_eq_some_iff.mp hentry).1
          have hlength : s.readLocked.length = s.host.fm.readLockedFiles.length :=
            List.length_map ..
          show ((s.host.fm.readLockedFiles.eraseIdx i).map OpenedFile.fileName).length < i + 1
          rw [List.length_map, List.length_eraseIdx_of_lt (hlength ▸ hi)]
          omega
    · subst hround
      exact .inr (seen_move hs he (by rw [hpc]; rfl) (by rw [hpc]; rfl))

private theorem seen_go {opens : Bool} (hs : Sound s) (hl : Locks.Ledger s.atomic)
    (h : s.go t opens = some s') : s'.Left ∨ Seen s s' := by
  have he : Effect s t s' := step_effect (e := .go t opens) h
  unfold go at h
  split at h
  · next m p _ hlocks => exact .inr (seen_lock hs he hlocks h)
  · next m p _ hunlocks =>
    cases h
    exact .inr (seen_unlock hs he hunlocks)
  · split at h
    · next loop f i hpc =>
      cases h
      exact .inr (seen_round hs hl hpc he)
    · next f hpc =>
      cases h
      exact .inr (seen_move hs he (by rw [hpc]; rfl) (by rw [hpc]; rfl))
    · next f opened hpc =>
      cases h
      cases opened with
      | false => exact .inr (seen_notOpened hs hpc he)
      | true => exact .inr (seen_move hs he (by rw [hpc]; rfl) (by rw [hpc]; rfl))
    · next f hpc =>
      cases h
      exact .inr (seen_appending hs hpc he)
    · next f hpc =>
      cases h
      exact .inr (seen_pushing hs hpc)
    · next hpc =>
      cases h
      exact .inr (seen_notifying hs hpc he)
    · next erased f i hpc => exact seen_eraseRound hs hpc he h
    · cases h

private theorem seen_call {c : FileCall} (hs : Sound s) (h : s.call t c = some s') :
    Seen s s' := by
  have he : Effect s t s' := step_effect (e := .call t c) h
  unfold call at h
  split at h
  · next hpc =>
    have hpc' : s.atomic.pc t = .outside := atomic_pc hpc
    cases c with
    | readLock f =>
      cases h
      apply Seen.of_step (m := .lock t .read f)
      rw [atomic_move hs he (by rw [hpc]; rfl), Locks.step, if_pos hpc']
      rfl
    | store f =>
      cases h
      apply Seen.of_step (m := .lock t .write f)
      rw [atomic_move hs he (by rw [hpc]; rfl), Locks.step, if_pos hpc']
      rfl
    | getSegment f =>
      cases h
      exact seen_move hs he (by rw [hpc]; rfl) (by rw [hpc]; rfl)
    | readUnlock f =>
      simp only at h
      split at h
      · cases h
        exact seen_move hs he (by rw [hpc]; rfl) (by rw [hpc]; rfl)
      · cases h
  · cases h

/-- Every step is a step of the locks, or is not seen there, or it takes a loop of `readUnlock` out
of the table. -/
private theorem seen_step (hs : Sound s) (hl : Locks.Ledger s.atomic)
    (h : step s e = some s') : s'.Left ∨ Seen s s' := by
  cases e with
  | call t c => exact .inr (seen_call hs h)
  | go t opens => exact seen_go hs hl h
  | openFails t =>
    have he : Effect s t s' := step_effect h
    simp only [step] at h
    split at h
    · next f hpc =>
      cases h
      have hpc' : s.atomic.pc t = .storing f := atomic_pc hpc
      right
      apply Seen.of_step (m := .openFails t)
      rw [atomic_move hs he (by rw [hpc]; rfl)]
      simp only [Locks.step, hpc']
      rfl
    · cases h
  | wake t =>
    have he : Effect s t s' := step_effect h
    simp only [step] at h
    split at h
    · next a f hpc =>
      cases h
      have hpc' : s.atomic.pc t = .asleep a f := atomic_pc hpc
      right
      apply Seen.of_step (m := .wake t)
      rw [atomic_move hs he (by rw [hpc]; rfl)]
      simp only [Locks.step, hpc']
      rfl
    · cases h

/-- A thread whose loop has left the table makes no step, and nobody else changes the table: the
mutex of the readers is locked for good. -/
theorem left_step (hs : Sound s) (hleft : s.Left) (h : step s e = some s') : s'.Left := by
  obtain ⟨t, erased, f, i, hpc, hlt⟩ := hleft
  have he := step_effect h
  by_cases ht : t = e.thread
  · have hnone : s.eraseRound t erased f i = none := by
      rw [eraseRound, if_neg (Nat.ne_of_gt hlt), List.getElem?_eq_none (Nat.le_of_lt hlt),
        Option.map_none]
    subst ht
    cases e with
    | call t c =>
      simp only [MutexEvent.thread] at hpc
      simp [step, call, hpc] at h
    | go t opens =>
      simp only [MutexEvent.thread] at hpc hnone
      simp [step, go, hpc, Point.locks, Point.unlocks, hnone] at h
    | openFails t =>
      simp only [MutexEvent.thread] at hpc
      simp [step, hpc] at h
    | wake t =>
      simp only [MutexEvent.thread] at hpc
      simp [step, hpc] at h
  · have hheld : .readLockMutex ∈ (s.pc t).holds := by simp [hpc, Point.holds]
    have hother : .readLockMutex ∉ (s.pc e.thread).holds := by
      intro hmem
      have howner := (hs.owner _ t).mpr hheld
      rw [(hs.owner _ e.thread).mpr hmem, Option.some_inj] at howner
      exact ht howner.symm
    refine ⟨t, erased, f, i, ?_, ?_⟩
    · rcases he.others t ht with hsame | hwoken
      · rw [hsame, hpc]
      · rw [hwoken, hpc]
        rfl
    · rw [he.readLocked hother]
      exact hlt

/-- Every run on the mutexes in which no loop of `readUnlock` has left the table is a run of the
locks. -/
theorem atomic_run {host : Host} {es : List (MutexEvent T)}
    (hrun : Run step Any (start host) es s) :
    s.Left ∨ ∃ ms, Run Locks.step Any (Locks.start host) ms s.atomic := by
  induction hrun with
  | nil => exact .inr ⟨[], .nil⟩
  | snoc hprefix _ hstep ih =>
    have hs := sound_run hprefix
    rcases ih with hleft | ⟨ms, hms⟩
    · exact .inl (left_step hs hleft hstep)
    · rcases seen_step hs (Locks.ledger_run hms) hstep with hleft | ⟨m, hm⟩
      · exact .inl hleft
      · cases m with
        | none =>
          have hsame := hm
          unfold Follows at hsame
          exact .inr ⟨ms, hsame ▸ hms⟩
        | some m => exact .inr ⟨ms ++ [m], hms.snoc trivial hm⟩

end Mutexes

end P2PNetwork.Client
