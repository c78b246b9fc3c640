import P2PNetwork.Client.File.FileManager
import P2PNetwork.Lib.Run

/-!
# Threads at the file locks

Any number of threads call `readLock`, `readUnlock`, `storeSegmentToFile` and `storeFile` of one
file manager. A step is one critical section of the table mutexes, or one call on the condition
variable: a thread tests a table, lets the mutexes go and waits as three steps, and `writeUnlock`
erases its entry and notifies as two. Beside the tables the state keeps which thread has taken
which lock and not given it back. What a store writes does not matter here.
-/

open Lib

namespace P2PNetwork.Client

/-- What a thread wants a file for. -/
inductive Access
  | read
  | write
  deriving DecidableEq, Repr

/-- Where a thread stands in the locks of `FileManager.cpp`. -/
inductive LockPc
  /-- Outside the file manager; it may have read locks. -/
  | outside
  /-- At the head of the loop of `readLock` or `writeLock`. -/
  | testing (access : Access) (fileName : Filename)
  /-- It has seen the file locked and let the mutexes go. -/
  | blocked (access : Access) (fileName : Filename)
  /-- Inside `condVariable.wait`. -/
  | asleep (access : Access) (fileName : Filename)
  /-- In `readLock`, behind the test of the table of the writers. -/
  | registering (fileName : Filename)
  /-- Behind the `writeLock` of a storing method. -/
  | storing (fileName : Filename)
  /-- In `writeUnlock`, its entry erased. -/
  | notifying
  deriving DecidableEq, Repr

/-- The threads `T` of one machine, and the locks they have taken and not given back. -/
structure Locks (T : Type) where
  host : Host
  pc : T → LockPc
  readers : List (T × Filename)
  writers : List (T × Filename)

/-- One step of a thread together with its outcome. -/
inductive LockEvent (T : Type)
  /-- It calls `readLock`, or a storing method that calls `writeLock`. -/
  | lock (t : T) (access : Access) (fileName : Filename)
  | test (t : T)
  | sleep (t : T)
  /-- `wait` returns although nobody has notified. -/
  | wake (t : T)
  | register (t : T) (opens : Bool)
  | readUnlock (t : T) (fileName : Filename)
  /-- The storing method cannot open its file and returns (`FileManager.cpp:28–31`, `60–63`). -/
  | openFails (t : T)
  | writeUnlock (t : T)
  | notify (t : T)

/-- The thread that makes a step. -/
def LockEvent.thread {T : Type} : LockEvent T → T
  | .lock t _ _ => t
  | .test t => t
  | .sleep t => t
  | .wake t => t
  | .register t _ => t
  | .readUnlock t _ => t
  | .openFails t => t
  | .writeUnlock t => t
  | .notify t => t

/-- The steps that wake the others. -/
def LockEvent.notifies {T : Type} : LockEvent T → Bool
  | .notify _ => true
  | _ => false

namespace Locks

variable {T : Type}

/-- Nobody has locked anything. -/
def start (host : Host) : Locks T where
  host := { host with fm := {} }
  pc := fun _ ↦ .outside
  readers := []
  writers := []

/-- What a notified thread does next. -/
def woken : LockPc → LockPc
  | .asleep access fileName => .testing access fileName
  | pc => pc

variable [DecidableEq T]

/-- Move one thread. -/
def goto (s : Locks T) (t : T) (pc : LockPc) : Locks T :=
  { s with pc := Function.update s.pc t pc }

/-- One pass of the loop of `readLock` or `writeLock`. -/
def test (s : Locks T) (t : T) : Option (Locks T) :=
  match s.pc t with
  | .testing .read fileName =>
    if s.host.fm.writeLockedFiles.contains fileName then
      some (s.goto t (.blocked .read fileName))
    else some (s.goto t (.registering fileName))
  | .testing .write fileName =>
    match s.host.writeLock fileName with
    | none => some (s.goto t (.blocked .write fileName))
    | some host =>
      some (({ s with host := host, writers := (t, fileName) :: s.writers }).goto t
        (.storing fileName))
  | _ => none

/-- The rest of `readLock`. -/
def register (s : Locks T) (t : T) (opens : Bool) : Option (Locks T) :=
  match s.pc t with
  | .registering fileName =>
    let (host, success) := s.host.register fileName opens
    some (({ s with
      host := host
      readers := if success then (t, fileName) :: s.readers else s.readers }).goto t .outside)
  | _ => none

/-- `readUnlock` by a thread that has a read lock of the file; there is no step where its loop
leaves the table. -/
def readUnlock (s : Locks T) (t : T) (fileName : Filename) : Option (Locks T) :=
  if s.pc t = .outside ∧ (t, fileName) ∈ s.readers then
    (s.host.readUnlock fileName).map fun host ↦
      { s with host := host, readers := s.readers.erase (t, fileName) }
  else none

/-- The critical section of `writeUnlock`; it notifies only where it finds an entry. -/
def writeUnlock (s : Locks T) (t : T) : Option (Locks T) :=
  match s.pc t with
  | .storing fileName =>
    some (({ s with
      host := s.host.writeUnlock fileName
      writers := s.writers.erase (t, fileName) }).goto t
        (if s.host.fm.writeLockedFiles.contains fileName then .notifying else .outside))
  | _ => none

/-- `condVariable.notify_all`. -/
def notify (s : Locks T) (t : T) : Option (Locks T) :=
  match s.pc t with
  | .notifying => some (({ s with pc := fun u ↦ woken (s.pc u) }).goto t .outside)
  | _ => none

/-- One step of one thread. -/
def step (s : Locks T) : LockEvent T → Option (Locks T)
  | .lock t access fileName =>
    if s.pc t = .outside then some (s.goto t (.testing access fileName)) else none
  | .test t => s.test t
  | .sleep t =>
    match s.pc t with
    | .blocked access fileName => some (s.goto t (.asleep access fileName))
    | _ => none
  | .wake t =>
    match s.pc t with
    | .asleep access fileName => some (s.goto t (.testing access fileName))
    | _ => none
  | .register t opens => s.register t opens
  | .readUnlock t fileName => s.readUnlock t fileName
  | .openFails t =>
    match s.pc t with
    | .storing _ => some (s.goto t .outside)
    | _ => none
  | .writeUnlock t => s.writeUnlock t
  | .notify t => s.notify t

/-! ### What a step does -/

/-- The files with an entry in the read-lock table. -/
def readLocked (s : Locks T) : List Filename := s.host.readLockedNames

/-- The files in the table of the writers. -/
def writeLocked (s : Locks T) : List Filename := s.host.fm.writeLockedFiles

/-- What a step does to the tables and to the locks that threads have. No step takes its thread
into a storing method without giving it the write lock. -/
inductive Tables (s s' : Locks T) : LockEvent T → Prop
  | silent {e : LockEvent T} : (∀ f, s'.pc e.thread ≠ .storing f) →
      s'.readLocked = s.readLocked → s'.writeLocked = s.writeLocked →
      s'.readers = s.readers → s'.writers = s.writers → Tables s s' e
  | writeLock {t : T} {f : Filename} : s.pc t = .testing .write f → s'.pc t = .storing f →
      f ∉ s.readLocked → s'.readLocked = s.readLocked → s'.writeLocked = s.writeLocked ++ [f] →
      s'.readers = s.readers → s'.writers = (t, f) :: s.writers → Tables s s' (.test t)
  | share {t : T} {f : Filename} {opens : Bool} : s.pc t = .registering f → f ∈ s.readLocked →
      s'.readLocked = s.readLocked → s'.writeLocked = s.writeLocked →
      s'.readers = (t, f) :: s.readers → s'.writers = s.writers → Tables s s' (.register t opens)
  | open {t : T} {f : Filename} : s.pc t = .registering f → f ∉ s.readLocked →
      s'.readLocked = s.readLocked ++ [f] → s'.writeLocked = s.writeLocked →
      s'.readers = (t, f) :: s.readers → s'.writers = s.writers → Tables s s' (.register t true)
  | readUnlock {t : T} {f : Filename} : (t, f) ∈ s.readers →
      (s.readLocked.Nodup → s'.readLocked = s.readLocked.erase f) →
      s'.writeLocked = s.writeLocked → s'.readers = s.readers.erase (t, f) →
      s'.writers = s.writers → Tables s s' (.readUnlock t f)
  | writeUnlock {t : T} {f : Filename} : s.pc t = .storing f → s'.readLocked = s.readLocked →
      s'.writeLocked = s.writeLocked.erase f → s'.readers = s.readers →
      s'.writers = s.writers.erase (t, f) → Tables s s' (.writeUnlock t)

/-- How a step takes its thread from one point to the next; `locked` is the table of the
writers. -/
inductive Goes (locked : List Filename) (t : T) : LockPc → LockEvent T → LockPc → Prop
  | lock {a : Access} {f : Filename} : Goes locked t .outside (.lock t a f) (.testing a f)
  | blocked {a : Access} {f : Filename} :
      Goes locked t (.testing a f) (.test t) (.blocked a f)
  | passed {f : Filename} : f ∉ locked →
      Goes locked t (.testing .read f) (.test t) (.registering f)
  | locked {f : Filename} : Goes locked t (.testing .write f) (.test t) (.storing f)
  | sleep {a : Access} {f : Filename} : Goes locked t (.blocked a f) (.sleep t) (.asleep a f)
  | wake {a : Access} {f : Filename} : Goes locked t (.asleep a f) (.wake t) (.testing a f)
  | register {f : Filename} {opens : Bool} :
      Goes locked t (.registering f) (.register t opens) .outside
  | readUnlock {f : Filename} : Goes locked t .outside (.readUnlock t f) .outside
  | openFails {f : Filename} : Goes locked t (.storing f) (.openFails t) .outside
  -- the lock of a storing method has an entry, so `notifying` is what comes
  | writeUnlock {f : Filename} : Goes locked t (.storing f) (.writeUnlock t)
      (if locked.contains f then .notifying else .outside)
  | notify : Goes locked t .notifying (.notify t) .outside

/-- What a step does: it takes its own thread along the control flow, leaves the others where
they are or wakes them, and changes the tables only in the critical sections that are for it. -/
structure Effect (s : Locks T) (e : LockEvent T) (s' : Locks T) : Prop where
  own : Goes s.writeLocked e.thread (s.pc e.thread) e (s'.pc e.thread)
  others : ∀ u, u ≠ e.thread →
    s'.pc u = if e.notifies then woken (s.pc u) else s.pc u
  tables : Tables s s' e

variable {s s' : Locks T} {e : LockEvent T}

@[simp] theorem pc_goto_self (s : Locks T) (t : T) (pc : LockPc) : (s.goto t pc).pc t = pc :=
  Function.update_self _ _ _

theorem pc_goto_of_ne (s : Locks T) {t u : T} (pc : LockPc) (h : u ≠ t) :
    (s.goto t pc).pc u = s.pc u :=
  Function.update_of_ne h _ _

/-- A step that moves its own thread and no other. -/
private theorem effect_goto {s₁ : Locks T} {before after : LockPc} (hpcs : s₁.pc = s.pc)
    (hnotify : e.notifies = false) (hpc : s.pc e.thread = before)
    (hgoes : Goes s.writeLocked e.thread before e after)
    (htables : Tables s (s₁.goto e.thread after) e) : Effect s e (s₁.goto e.thread after) where
  own := by
    rw [pc_goto_self, hpc]
    exact hgoes
  others := by
    intro u hu
    rw [pc_goto_of_ne _ _ hu, hpcs, hnotify]
    rfl
  tables := htables

private theorem silent_goto {s₁ : Locks T} {t : T} {after : LockPc} (het : e.thread = t)
    (hafter : ∀ f, after ≠ .storing f) (hread : s₁.readLocked = s.readLocked)
    (hwrite : s₁.writeLocked = s.writeLocked) (hreaders : s₁.readers = s.readers)
    (hwriters : s₁.writers = s.writers) : Tables s (s₁.goto t after) e := by
  refine .silent ?_ hread hwrite hreaders hwriters
  rw [het, pc_goto_self]
  exact hafter

private theorem effect_silent {before after : LockPc} (hnotify : e.notifies = false)
    (hafter : ∀ f, after ≠ .storing f) (hpc : s.pc e.thread = before)
    (hgoes : Goes s.writeLocked e.thread before e after) : Effect s e (s.goto e.thread after) :=
  effect_goto rfl hnotify hpc hgoes (silent_goto rfl hafter rfl rfl rfl rfl)

private theorem effect_test {t : T} (h : s.test t = some s') : Effect s (.test t) s' := by
  unfold test at h
  split at h
  · next f hpc =>
    split at h
    · cases h
      exact effect_silent (e := .test t) rfl (by simp) hpc .blocked
    · next hpasses =>
      cases h
      have hfree : f ∉ s.writeLocked := by simpa [writeLocked] using hpasses
      exact effect_silent (e := .test t) rfl (by simp) hpc (.passed hfree)
  · next f hpc =>
    unfold Host.writeLock at h
    split_ifs at h with hlocked
    · cases h
      exact effect_silent (e := .test t) rfl (by simp) hpc .blocked
    · cases h
      rw [Host.isSome_openedFile] at hlocked
      exact effect_goto (e := .test t) rfl rfl hpc .locked
        (.writeLock hpc (pc_goto_self _ _ _) hlocked rfl rfl rfl rfl)
  · cases h

private theorem effect_register {t : T} {opens : Bool} (h : s.register t opens = some s') :
    Effect s (.register t opens) s' := by
  unfold register at h
  split at h
  · next f hpc =>
    rcases hreg : s.host.register f opens with ⟨host, success⟩
    rw [hreg] at h
    rw [← Option.some_inj.mp h]
    refine effect_goto (e := .register t opens) rfl rfl hpc .register ?_
    rcases Host.register_spec hreg with ⟨hlocked, rfl, rfl⟩ | ⟨-, -, rfl, rfl⟩ |
      ⟨hlocked, rfl, rfl, hread, hwrite⟩
    · exact .share hpc hlocked rfl rfl rfl rfl
    · exact silent_goto rfl (by simp) rfl rfl rfl rfl
    · exact .open hpc hlocked hread hwrite rfl rfl
  · cases h

private theorem effect_readUnlock {t : T} {f : Filename} (h : s.readUnlock t f = some s') :
    Effect s (.readUnlock t f) s' := by
  unfold readUnlock at h
  split at h
  · next hread =>
    obtain ⟨host, hunlock, rfl⟩ := Option.map_eq_some_iff.mp h
    have hwrite : host.fm.writeLockedFiles = s.host.fm.writeLockedFiles := by
      obtain ⟨left, -, rfl⟩ := Option.map_eq_some_iff.mp hunlock
      rfl
    refine ⟨?_, fun _ _ ↦ rfl, ?_⟩
    · show Goes _ t (s.pc t) _ (s.pc t)
      rw [hread.1]
      exact .readUnlock
    · exact .readUnlock hread.2 (fun hnodup ↦ Host.names_readUnlock hnodup hunlock) hwrite rfl rfl
  · cases h

private theorem effect_writeUnlock {t : T} (h : s.writeUnlock t = some s') :
    Effect s (.writeUnlock t) s' := by
  unfold writeUnlock at h
  split at h
  · next f hpc =>
    cases h
    exact effect_goto (e := .writeUnlock t) rfl rfl hpc .writeUnlock
      (.writeUnlock hpc rfl rfl rfl rfl)
  · cases h

private theorem effect_notify {t : T} (h : s.notify t = some s') :
    Effect s (.notify t) s' := by
  unfold notify at h
  split at h
  · next hpc =>
    cases h
    refine ⟨?_, ?_, silent_goto rfl (by simp) rfl rfl rfl rfl⟩
    · show Goes _ t (s.pc t) _ ((Locks.goto _ t .outside).pc t)
      rw [hpc, pc_goto_self]
      exact .notify
    · intro u hu
      exact pc_goto_of_ne _ _ hu
  · cases h

/-- Every step has its effect. -/
theorem step_effect (h : step s e = some s') : Effect s e s' := by
  cases e with
  | lock t a f =>
    simp only [step] at h
    split at h
    · next hpc =>
      cases h
      exact effect_silent (e := .lock t a f) rfl (by simp) hpc .lock
    · cases h
  | test t => exact effect_test h
  | sleep t =>
    simp only [step] at h
    split at h
    · next a f hpc =>
      cases h
      exact effect_silent (e := .sleep t) rfl (by simp) hpc .sleep
    · cases h
  | wake t =>
    simp only [step] at h
    split at h
    · next a f hpc =>
      cases h
      exact effect_silent (e := .wake t) rfl (by simp) hpc .wake
    · cases h
  | register t opens => exact effect_register h
  | readUnlock t f => exact effect_readUnlock h
  | openFails t =>
    simp only [step] at h
    split at h
    · next f hpc =>
      cases h
      exact effect_silent (e := .openFails t) rfl (by simp) hpc .openFails
    · cases h
  | writeUnlock t => exact effect_writeUnlock h
  | notify t => exact effect_notify h

/-! ### The ledger of the locks -/

/-- The locks that threads have, against the tables: an entry for readers has a reader, and the
table of the writers is the files of the write locks. -/
structure Ledger (s : Locks T) : Prop where
  nodup : s.readLocked.Nodup
  reader : ∀ f ∈ s.readLocked, ∃ t, (t, f) ∈ s.readers
  writers : (s.writers.map Prod.snd).Perm s.writeLocked
  storing : ∀ t f, s.pc t = .storing f → (t, f) ∈ s.writers

/-- Giving a lock back erases its file once. -/
private theorem map_erase_perm {l : List (T × Filename)} {t : T} {f : Filename}
    (h : (t, f) ∈ l) : ((l.erase (t, f)).map Prod.snd).Perm ((l.map Prod.snd).erase f) := by
  have hcons : (l.map Prod.snd).Perm (f :: (l.erase (t, f)).map Prod.snd) :=
    (List.perm_cons_erase h).map Prod.snd
  simpa using (hcons.erase f).symm

/-- A step of another thread leaves the write locks of a thread as they are. -/
private theorem mem_writers_of_ne (htables : Tables s s' e) {u : T} (hu : u ≠ e.thread)
    (f : Filename) : (u, f) ∈ s'.writers ↔ (u, f) ∈ s.writers := by
  cases htables with
  | silent _ _ _ _ h => rw [h]
  | share _ _ _ _ _ h => rw [h]
  | «open» _ _ _ _ _ h => rw [h]
  | readUnlock _ _ _ _ h => rw [h]
  | writeLock _ _ _ _ _ _ h =>
    rw [h, List.mem_cons]
    exact or_iff_right fun heq ↦ hu (Prod.mk.inj heq).1
  | writeUnlock _ _ _ _ h =>
    rw [h]
    exact List.mem_erase_of_ne fun heq ↦ hu (Prod.mk.inj heq).1

omit [DecidableEq T] in
/-- Only a passed test takes a thread into a storing method. -/
private theorem Goes.storing {locked : List Filename} {t : T} {f : Filename}
    {before after : LockPc} (h : Goes locked t before e after) (hafter : after = .storing f) :
    e = .test t := by
  cases h with
  | locked => rfl
  | writeUnlock => split at hafter <;> cases hafter
  | _ => cases hafter

private theorem storing_step (he : Effect s e s')
    (hs : ∀ t f, s.pc t = .storing f → (t, f) ∈ s.writers) (u : T) (f : Filename)
    (hpc : s'.pc u = .storing f) : (u, f) ∈ s'.writers := by
  by_cases hu : u = e.thread
  · rw [hu] at hpc ⊢
    have htables := he.tables
    rw [he.own.storing hpc] at htables hpc ⊢
    cases htables with
    | silent h => exact absurd hpc (h f)
    | writeLock _ hstoring _ _ _ _ hwriters =>
      rw [LockEvent.thread, hstoring, LockPc.storing.injEq] at hpc
      rw [hwriters, ← hpc]
      exact List.mem_cons_self
  · rw [mem_writers_of_ne he.tables hu]
    apply hs
    have hpc' := he.others u hu
    rw [hpc] at hpc'
    split at hpc'
    · cases hbefore : s.pc u <;> rw [hbefore] at hpc' <;> cases hpc'
      rfl
    · exact hpc'.symm

private theorem Ledger.step (hl : Ledger s) (he : Effect s e s') : Ledger s' where
  nodup := by
    cases he.tables with
    | silent _ h => exact h ▸ hl.nodup
    | writeLock _ _ _ h => exact h ▸ hl.nodup
    | share _ _ h => exact h ▸ hl.nodup
    | writeUnlock _ h => exact h ▸ hl.nodup
    | «open» _ hfree h =>
      rw [h]
      exact hl.nodup.append (List.nodup_singleton _) (by simpa using hfree)
    | readUnlock _ h =>
      rw [h hl.nodup]
      exact hl.nodup.erase _
  reader := by
    intro g hg
    cases he.tables with
    | silent _ h _ hr => exact hr ▸ hl.reader g (h ▸ hg)
    | writeLock _ _ _ h _ hr => exact hr ▸ hl.reader g (h ▸ hg)
    | writeUnlock _ h _ hr => exact hr ▸ hl.reader g (h ▸ hg)
    | share _ _ h _ hr =>
      obtain ⟨u, hu⟩ := hl.reader g (h ▸ hg)
      exact ⟨u, hr ▸ List.mem_cons_of_mem _ hu⟩
    | @«open» t f _ _ h _ hr =>
      rw [h, List.mem_append, List.mem_singleton] at hg
      rw [hr]
      rcases hg with hg | rfl
      · obtain ⟨u, hu⟩ := hl.reader g hg
        exact ⟨u, List.mem_cons_of_mem _ hu⟩
      · exact ⟨t, List.mem_cons_self⟩
    | readUnlock _ h _ hr =>
      rw [h hl.nodup, hl.nodup.mem_erase_iff] at hg
      obtain ⟨u, hu⟩ := hl.reader g hg.2
      rw [hr]
      exact ⟨u, (List.mem_erase_of_ne fun heq ↦ hg.1 (Prod.mk.inj heq).2).mpr hu⟩
  writers := by
    cases he.tables with
    | silent _ _ h _ hw => exact h ▸ hw ▸ hl.writers
    | share _ _ _ h _ hw => exact h ▸ hw ▸ hl.writers
    | «open» _ _ _ h _ hw => exact h ▸ hw ▸ hl.writers
    | readUnlock _ _ h _ hw => exact h ▸ hw ▸ hl.writers
    | writeLock _ _ _ _ h _ hw =>
      rw [h, hw, List.map_cons]
      exact (hl.writers.cons _).trans (List.perm_append_singleton _ _).symm
    | writeUnlock hpc _ h _ hw =>
      rw [h, hw]
      exact (map_erase_perm (hl.storing _ _ hpc)).trans (hl.writers.erase _)
  storing := storing_step he hl.storing

/-- The ledger agrees with the tables in every state that is reached. -/
theorem ledger_run {ok : Locks T → LockEvent T → Prop} {host : Host} {es : List (LockEvent T)}
    (hrun : Run step ok (start host) es s) : Ledger s := by
  refine hrun.invariant (P := Ledger) ⟨?_, ?_, ?_, ?_⟩ fun s e s' hl _ hstep ↦
    hl.step (step_effect hstep)
  · exact List.nodup_nil
  · intro f hf
    cases hf
  · exact .nil
  · intro t f hpc
    cases hpc

omit [DecidableEq T] in
/-- A file in the table of the writers has a writer. -/
theorem Ledger.exists_writer (hl : Ledger s) {f : Filename} (h : f ∈ s.writeLocked) :
    ∃ t, (t, f) ∈ s.writers := by
  obtain ⟨⟨t, g⟩, hmem, rfl⟩ := List.mem_map.mp (hl.writers.mem_iff.mpr h)
  exact ⟨t, hmem⟩

omit [DecidableEq T] in
/-- The file of a writer is in the table of the writers. -/
theorem Ledger.mem_writeLocked (hl : Ledger s) {t : T} {f : Filename} (h : (t, f) ∈ s.writers) :
    f ∈ s.writeLocked :=
  hl.writers.mem_iff.mp (List.mem_map_of_mem h)

end Locks

end P2PNetwork.Client
