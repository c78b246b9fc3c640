import P2PNetwork.Client.File.Locks
import P2PNetwork.Lib.ReaderWriter

/-!
# Readers and writers of one file

The tables of the file manager implement a lock with shared and exclusive access as long as no
step does what they do not guard: a `writeLock` beside another one of the file, a registration
behind a test that is out of date, a `readUnlock` that takes the entry other readers share.
-/

open Lib

namespace P2PNetwork.Client

/-- The file that a thread is testing in `writeLock`. -/
def LockPc.writes : LockPc → Option Filename
  | .testing .write fileName => some fileName
  | _ => none

/-- The file that a thread is about to register in `readLock`. -/
def LockPc.registers : LockPc → Option Filename
  | .registering fileName => some fileName
  | _ => none

namespace Locks

variable {T : Type}

/-- The read and write locks that the threads have. -/
def holdings (s : Locks T) : Holdings T Filename := ⟨s.readers, s.writers⟩

/-- No file has a writer beside a reader or a second writer in another thread. -/
def Exclusive (s : Locks T) : Prop := s.holdings.Exclusive

variable [DecidableEq T]

/-- A write lock and a read lock are taken only while the file is not in the table of the
writers, and a `readUnlock` gives back the only read lock of its file. -/
def Guarded (s : Locks T) : LockEvent T → Prop
  | .test t => ∀ f ∈ (s.pc t).writes, f ∉ s.readLocked → f ∉ s.writeLocked
  | .register t opens =>
    ∀ f ∈ (s.pc t).registers, f ∈ s.readLocked ∨ opens = true → f ∉ s.writeLocked
  | .readUnlock t f => ∀ r ∈ s.readers.erase (t, f), r.2 ≠ f
  | _ => True

instance (s : Locks T) : (e : LockEvent T) → Decidable (Guarded s e)
  | .test t =>
    inferInstanceAs (Decidable (∀ f ∈ (s.pc t).writes, f ∉ s.readLocked → f ∉ s.writeLocked))
  | .register t opens => inferInstanceAs (Decidable
      (∀ f ∈ (s.pc t).registers, f ∈ s.readLocked ∨ opens = true → f ∉ s.writeLocked))
  | .readUnlock t f => inferInstanceAs (Decidable (∀ r ∈ s.readers.erase (t, f), r.2 ≠ f))
  | .lock .. | .sleep _ | .wake _ | .openFails _ | .writeUnlock _ | .notify _ => isTrue trivial

variable {s s' : Locks T} {e : LockEvent T}

/-- What guarded steps keep: every read lock has an entry, and no file is in both tables. -/
private structure Apart (s : Locks T) : Prop where
  entry : ∀ t f, (t, f) ∈ s.readers → f ∈ s.readLocked
  apart : ∀ f ∈ s.readLocked, f ∉ s.writeLocked

private theorem Apart.step (ha : Apart s) (hl : Ledger s) (hok : Guarded s e)
    (htables : Tables s s' e) : Apart s' := by
  cases htables with
  | silent _ hread hwrite hreaders _ =>
    exact ⟨hreaders ▸ hread ▸ ha.entry, hread ▸ hwrite ▸ ha.apart⟩
  | @writeLock t f _ _ hfree hread hwrite hreaders _ =>
    refine ⟨hreaders ▸ hread ▸ ha.entry, ?_⟩
    intro g hg
    rw [hread] at hg
    rw [hwrite, List.mem_append, List.mem_singleton, not_or]
    refine ⟨ha.apart g hg, ?_⟩
    rintro rfl
    exact hfree hg
  | @share t f _ _ hlocked hread hwrite hreaders _ =>
    refine ⟨?_, hread ▸ hwrite ▸ ha.apart⟩
    intro u g hg
    rw [hreaders, List.mem_cons] at hg
    rw [hread]
    rcases hg with heq | hg
    · rw [(Prod.mk.inj heq).2]
      exact hlocked
    · exact ha.entry u g hg
  | @«open» t f hpc _ hread hwrite hreaders _ =>
    have hnew : f ∉ s.writeLocked := hok f (by rw [hpc]; rfl) (.inr rfl)
    refine ⟨?_, ?_⟩
    · intro u g hg
      rw [hreaders, List.mem_cons] at hg
      rw [hread, List.mem_append, List.mem_singleton]
      rcases hg with heq | hg
      · exact .inr (Prod.mk.inj heq).2
      · exact .inl (ha.entry u g hg)
    · intro g hg
      rw [hread, List.mem_append, List.mem_singleton] at hg
      rw [hwrite]
      rcases hg with hg | rfl
      · exact ha.apart g hg
      · exact hnew
  | @readUnlock t f _ hread hwrite hreaders _ =>
    have herase := hread hl.nodup
    refine ⟨?_, ?_⟩
    · intro u g hg
      rw [hreaders] at hg
      rw [herase, hl.nodup.mem_erase_iff]
      exact ⟨hok (u, g) hg, ha.entry u g (List.mem_of_mem_erase hg)⟩
    · intro g hg
      rw [herase] at hg
      rw [hwrite]
      exact ha.apart g (List.mem_of_mem_erase hg)
  | writeUnlock _ hread hwrite hreaders _ =>
    refine ⟨hreaders ▸ hread ▸ ha.entry, ?_⟩
    intro g hg
    rw [hread] at hg
    rw [hwrite]
    exact fun hmem ↦ ha.apart g hg (List.mem_of_mem_erase hmem)

private theorem apart_run {host : Host} {es : List (LockEvent T)}
    (hrun : Run step Guarded (start host) es s) : Apart s := by
  refine hrun.traceInvariant (P := fun _ s ↦ Apart s) ⟨?_, ?_⟩ ?_
  · intro t f h
    cases h
  · intro f h
    cases h
  · intro es s e s' hprefix ha hok hstep
    exact ha.step (ledger_run hprefix) hok (step_effect hstep).tables

omit [DecidableEq T] in
/-- Nobody writes a file that is not in the table of the writers. -/
private theorem not_writer (hl : Ledger s) {f : Filename} (h : f ∉ s.writeLocked) :
    ∀ w ∈ s.writers, w.2 ≠ f := by
  rintro ⟨t, g⟩ hw rfl
  exact h (hl.mem_writeLocked hw)

/-- A guarded step takes a lock where it may be taken, gives one back, or does neither. -/
private theorem follows_of_guarded (hl : Ledger s) (ha : Apart s) (hok : Guarded s e)
    (htables : Tables s s' e) : ∃ m, Follows Holdings.step s.holdings m s'.holdings := by
  cases htables with
  | silent _ _ _ hreaders hwriters =>
    exact ⟨none, by rw [Follows, holdings, holdings, hreaders, hwriters]⟩
  | @writeLock t f hpc _ hfree _ _ hreaders hwriters =>
    have hnew : f ∉ s.writeLocked := hok f (by rw [hpc]; rfl) hfree
    have halone : ∀ l ∈ s.readers ++ s.writers, l.2 == f → l.1 = t := by
      intro l hmem hf
      rcases List.mem_append.mp hmem with hreader | hwriter
      · exact absurd (beq_iff_eq.mp hf ▸ ha.entry l.1 l.2 hreader) hfree
      · exact absurd (beq_iff_eq.mp hf) (not_writer hl hnew l hwriter)
    refine ⟨some (.own t f), ?_⟩
    rw [Follows, Holdings.step, holdings, holdings, hreaders, hwriters]
    exact if_pos halone
  | @share t f _ _ hlocked _ _ hreaders hwriters =>
    have halone : ∀ w ∈ s.writers, w.2 == f → w.1 = t := fun w hw hf ↦
      absurd (beq_iff_eq.mp hf) (not_writer hl (ha.apart f hlocked) w hw)
    refine ⟨some (.share t f), ?_⟩
    rw [Follows, Holdings.step, holdings, holdings, hreaders, hwriters]
    exact if_pos halone
  | @«open» t f hpc _ _ _ hreaders hwriters =>
    have hnew : f ∉ s.writeLocked := hok f (by rw [hpc]; rfl) (.inr rfl)
    have halone : ∀ w ∈ s.writers, w.2 == f → w.1 = t := fun w hw hf ↦
      absurd (beq_iff_eq.mp hf) (not_writer hl hnew w hw)
    refine ⟨some (.share t f), ?_⟩
    rw [Follows, Holdings.step, holdings, holdings, hreaders, hwriters]
    exact if_pos halone
  | @readUnlock t f hmem _ _ hreaders hwriters =>
    refine ⟨some (.unshare t f), ?_⟩
    rw [Follows, Holdings.step, holdings, holdings, hreaders, hwriters]
    exact if_pos hmem
  | @writeUnlock t f hpc _ _ hreaders hwriters =>
    refine ⟨some (.disown t f), ?_⟩
    rw [Follows, Holdings.step, holdings, holdings, hreaders, hwriters]
    exact if_pos (hl.storing t f hpc)

/-- Runs of guarded steps are runs of a lock with shared and exclusive access. -/
theorem refines_of_guarded {host : Host} {es : List (LockEvent T)}
    (hrun : Run step Guarded (start host) es s) :
    ∃ ms, Run Holdings.step Any .empty ms s.holdings :=
  hrun.refine holdings fun _ _ _ _ hprefix hok hstep ↦
    follows_of_guarded (ledger_run hprefix) (apart_run hprefix) hok (step_effect hstep).tables

/-- In every run of guarded steps a writer excludes all other threads. -/
theorem exclusive_of_guarded {host : Host} {es : List (LockEvent T)}
    (hrun : Run step Guarded (start host) es s) : Exclusive s := by
  obtain ⟨ms, hms⟩ := refines_of_guarded hrun
  exact Holdings.exclusive_run hms

/-! ### A reader and a writer, and two writers -/

/-- The writer of the file `a` waits until the reader has given its lock back; the reader has the
file `b`, too. -/
def inTurn : List (LockEvent Bool) :=
  [.lock true .read [97], .test true, .register true true, .lock true .read [98], .test true,
    .register true true, .lock false .write [97], .test false, .sleep false, .readUnlock true [97],
    .wake false, .test false]

/-- The run ends with the writer at work. -/
theorem exclusive_of_guarded_inTurn :
    ∃ s, inTurn.foldlM step (start emptyHost) = some s ∧ (false, [97]) ∈ s.writers ∧
      Exclusive s := by
  have hruns : ((inTurn.foldlM step (start emptyHost)).map Locks.writers) =
      some [(false, [97])] := by decide
  have hmeets : Meets step Guarded (start emptyHost) inTurn := by decide
  obtain ⟨s, hs, hwriters⟩ := Option.map_eq_some_iff.mp hruns
  refine ⟨s, hs, by rw [hwriters]; exact List.mem_singleton_self _, ?_⟩
  exact exclusive_of_guarded (Run.of_foldlM hs hmeets)

/-- Two workers store into one file. -/
def twoWriters : List (LockEvent Bool) :=
  [.lock true .write [97], .test true, .lock false .write [97], .test false]

/-- Both have returned from `writeLock`. -/
theorem not_exclusive_twoWriters :
    ∃ s, twoWriters.foldlM step (start emptyHost) = some s ∧ ¬ Exclusive s := by
  have hruns : ((twoWriters.foldlM step (start emptyHost)).map Locks.writers) =
      some [(false, [97]), (true, [97])] := by decide
  obtain ⟨s, hs, hwriters⟩ := Option.map_eq_some_iff.mp hruns
  refine ⟨s, hs, fun hexclusive ↦ ?_⟩
  have hsame := hexclusive.writers [97] true false (by simp [holdings, hwriters])
    (by simp [holdings, hwriters])
  cases hsame

end Locks

end P2PNetwork.Client
