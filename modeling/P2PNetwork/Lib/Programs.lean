import P2PNetwork.Lib.SharedMutex

/-!
# Programs of threads that share a state and a mutex

A program is a tree of calls on the mutex and of accesses to the shared state. Run alone it is a
computation that records its calls; run by one of many threads it makes one of them at a time. A
program that never gets to a write leaves the state to the others as it found it.
-/

namespace Lib

/-- What a thread does next: it returns, loops for ever, makes a call on the mutex, reads or writes
the shared state. -/
inductive Program (S R : Type)
  | done (r : R)
  | diverge
  | call (c : LockCall) (next : Program S R)
  | read (next : S → Program S R)
  | write (f : S → S) (next : Program S R)

namespace Program

variable {S A R : Type}

/-- One program behind another. -/
def bind : Program S A → (A → Program S R) → Program S R
  | .done a, k => k a
  | .diverge, _ => .diverge
  | .call c next, k => .call c (next.bind k)
  | .read next, k => .read fun s ↦ (next s).bind k
  | .write f next, k => .write f (next.bind k)

instance : Monad (Program S) where
  pure := .done
  bind := bind

/-- Request the mutex. -/
def lock (mode : LockMode) : Program S Unit := .call (.acquire mode) (.done ())

/-- Return the mutex. -/
def unlock (mode : LockMode) : Program S Unit := .call (.release mode) (.done ())

/-- Read the shared state. -/
def get : Program S S := .read .done

/-- Write the shared state. -/
def modify (f : S → S) : Program S Unit := .write f (.done ())

/-- A loop that unlocks and returns at the first element that satisfies `p`: whether the method
has returned in it. -/
def returnsIn (mode : LockMode) (p : A → Bool) : List A → Program S Bool
  | [] => pure false
  | a :: rest =>
    if p a then do
      unlock mode
      pure true
    else returnsIn mode p rest

/-- A method with such a loop over a part of the shared state: its result in the loop, and what it
does behind it. -/
def guardedLoop (mode : LockMode) (part : S → List A) (p : A → Bool) (inside : R)
    (behind : Program S R) : Program S R := do
  lock mode
  let s ← get
  if ← returnsIn mode p (part s) then
    pure inside
  else
    behind

/-- What a thread that is alone computes, with the calls it makes. -/
def exec : Program S R → S → Recorded (Option (S × R))
  | .done r, s => pure (some (s, r))
  | .diverge, _ => pure none
  | .call c next, s => do
    modifyGet fun calls ↦ ((), calls ++ [c])
    next.exec s
  | .read next, s => (next s).exec s
  | .write f next, s => next.exec (f s)

/-- A thread that holds the mutex like this and finds the state `s` writes nothing, and holds and
returns what `P` allows. A call that the lock discipline excludes does not return. -/
def ReadsOnly (s : S) (P : Option LockMode → R → Prop) : Program S R → Option LockMode → Prop
  | .done r, held => P held r
  | .diverge, _ => True
  | .call c next, held => ∀ held', c.take held = some held' → next.ReadsOnly s P held'
  | .read next, held => (next s).ReadsOnly s P held
  | .write _ _, _ => False

/-! ### Programs that are run alone -/

@[simp] theorem run_pure (r : R) (s : S) (calls : List LockCall) :
    (exec (pure r) s).run calls = pure (some (s, r), calls) := rfl

/-- One program is run behind the other, if this one ends. -/
@[simp] theorem run_bind (m : Program S A) (k : A → Program S R) (s : S) (calls : List LockCall) :
    (exec (m >>= k) s).run calls = (exec m s).run calls >>= fun r ↦
      match r.1 with
      | none => pure (none, r.2)
      | some (s', a) => ((k a).exec s').run r.2 := by
  show ((m.bind k).exec s).run calls = _
  induction m generalizing s calls with
  | done a => rfl
  | diverge => rfl
  | call c next ih => exact ih s (calls ++ [c])
  | read next ih => exact ih s s calls
  | write f next ih => exact ih (f s) calls

@[simp] theorem run_lock (mode : LockMode) (s : S) (calls : List LockCall) :
    (exec (lock mode) s).run calls = pure (some (s, ()), calls ++ [.acquire mode]) := rfl

@[simp] theorem run_unlock (mode : LockMode) (s : S) (calls : List LockCall) :
    (exec (unlock mode) s).run calls = pure (some (s, ()), calls ++ [.release mode]) := rfl

@[simp] theorem run_get (s : S) (calls : List LockCall) :
    (exec get s).run calls = pure (some (s, s), calls) := rfl

@[simp] theorem run_modify (f : S → S) (s : S) (calls : List LockCall) :
    (exec (modify f) s).run calls = pure (some (f s, ()), calls) := rfl

/-- The loop has given the mutex back if it has returned. -/
theorem run_returnsIn (mode : LockMode) (p : A → Bool) (l : List A) (s : S)
    (calls : List LockCall) :
    (exec (returnsIn mode p l) s).run calls =
      pure (some (s, l.any p), if l.any p then calls ++ [.release mode] else calls) := by
  induction l with
  | nil => rfl
  | cons a rest ih =>
    rw [returnsIn]
    cases ha : p a with
    | true => simp [ha]
    | false => simp [ha, ih]

/-- Inside the loop the method has given the mutex back, behind it the mutex is still held. -/
theorem run_guardedLoop (mode : LockMode) (part : S → List A) (p : A → Bool) (inside : R)
    (behind : Program S R) (s : S) (calls : List LockCall) :
    (exec (guardedLoop mode part p inside behind) s).run calls =
      if (part s).any p then pure (some (s, inside), calls ++ [.acquire mode, .release mode])
      else (behind.exec s).run (calls ++ [.acquire mode]) := by
  rw [guardedLoop]
  cases hany : (part s).any p with
  | true =>
    simp only [run_bind, run_lock, run_get, run_returnsIn, hany, pure_bind, ↓reduceIte, run_pure,
      List.append_assoc, List.cons_append, List.nil_append]
  | false =>
    simp only [run_bind, run_lock, run_get, run_returnsIn, hany, pure_bind, ↓reduceIte,
      Bool.false_eq_true]

/-! ### Programs that write nothing -/

section

variable {s : S} {P : Option LockMode → R → Prop} {held : Option LockMode}

@[simp] theorem readsOnly_pure {r : R} :
    (pure r : Program S R).ReadsOnly s P held ↔ P held r := Iff.rfl

@[simp] theorem readsOnly_diverge : (diverge : Program S R).ReadsOnly s P held := trivial

/-- The program behind the other begins with what this one holds and returns. -/
@[simp] theorem readsOnly_bind {m : Program S A} {k : A → Program S R} :
    (m >>= k).ReadsOnly s P held ↔ m.ReadsOnly s (fun held a ↦ (k a).ReadsOnly s P held) held := by
  show (m.bind k).ReadsOnly s P held ↔ _
  induction m generalizing held with
  | done a => exact Iff.rfl
  | diverge => exact Iff.rfl
  | call c next ih => exact forall_congr' fun held' ↦ imp_congr_right fun _ ↦ ih
  | read next ih => exact ih s
  | write f next => exact Iff.rfl

@[simp] theorem readsOnly_get {P : Option LockMode → S → Prop} :
    (get : Program S S).ReadsOnly s P held ↔ P held s := Iff.rfl

/-- A request only returns to a thread that holds nothing. -/
@[simp] theorem readsOnly_lock {mode : LockMode} {P : Option LockMode → Unit → Prop} :
    (lock mode : Program S Unit).ReadsOnly s P held ↔ held = none → P (some mode) () := by
  cases held <;> simp [lock, ReadsOnly, LockCall.take]

@[simp] theorem readsOnly_unlock {mode : LockMode} {P : Option LockMode → Unit → Prop} :
    (unlock mode : Program S Unit).ReadsOnly s P held ↔ held = some mode → P none () := by
  by_cases h : held = some mode <;> simp [unlock, ReadsOnly, LockCall.take, h]

end

end Program

/-- A thread: what it holds, and the task it is in with the rest of its program. -/
structure Runner (S A R : Type) where
  held : Option LockMode := none
  task : Option (A × Program S R) := none

/-- The shared state, the threads, and the tasks that are done with what they have returned. -/
structure Pool (S A R : Type) where
  shared : S
  threads : List (Runner S A R) := []
  results : List (A × R) := []

namespace Pool

variable {S A R : Type}

/-- The thread goes on with another program. -/
def goOn (p : Pool S A R) (i : Nat) (held : Option LockMode) (task : Option (A × Program S R)) :
    Pool S A R :=
  { p with threads := p.threads.set i { held := held, task := task } }

/-- A thread takes the next step of its program. The others have to admit its call, and a loop that
does not end gets nowhere. -/
def advance (p : Pool S A R) (i : Nat) (l : Runner S A R) (a : A) :
    Program S R → Option (Pool S A R)
  | .done r => some { p.goOn i l.held none with results := p.results ++ [(a, r)] }
  | .diverge => none
  | .call c next =>
    if p.threads.all fun other ↦ c.admits other.held then
      (c.take l.held).map fun held ↦ p.goOn i held (some (a, next))
    else none
  | .read next => some (p.goOn i l.held (some (a, next p.shared)))
  | .write f next => some { p.goOn i l.held (some (a, next)) with shared := f p.shared }

/-- The threads, each of which runs the program of one task before it takes up the next. -/
def step (program : A → Program S R) (p : Pool S A R) :
    SharedMutex.Event A → Option (Pool S A R)
  | .spawn => some { p with threads := p.threads ++ [{}] }
  | .enter i a => p.threads[i]?.bind fun l ↦
    match l.task with
    | none => some (p.goOn i l.held (some (a, program a)))
    | some _ => none
  | .proceed i => p.threads[i]?.bind fun l ↦ l.task.bind fun t ↦ p.advance i l t.1 t.2

end Pool

/-! ### Pools that write nothing -/

section

variable {S A R : Type}

/-- The thread writes the shared state next. -/
def Runner.Writes (l : Runner S A R) : Prop := ∃ a f next, l.task = some (a, .write f next)

/-- A thread that does nothing to the state `s`, and returns what `P` allows. -/
def Runner.Harmless (s : S) (P : A → R → Prop) (l : Runner S A R) : Prop :=
  match l.task with
  | none => l.held = none
  | some (a, program) => program.ReadsOnly s (fun held r ↦ held = none ∧ P a r) l.held

theorem Runner.Harmless.not_writes {s : S} {P : A → R → Prop} {l : Runner S A R}
    (h : l.Harmless s P) : ¬ l.Writes := by
  rintro ⟨a, f, next, htask⟩
  rw [Runner.Harmless, htask] at h
  exact h

namespace Pool

/-- The state is `s`, and no thread does anything to it. -/
structure Unwritten (s : S) (P : A → R → Prop) (p : Pool S A R) : Prop where
  shared : p.shared = s
  threads : ∀ l ∈ p.threads, l.Harmless s P
  results : ∀ r ∈ p.results, P r.1 r.2

variable {s : S} {P : A → R → Prop} {p p' : Pool S A R}

private theorem Unwritten.goOn (h : p.Unwritten s P) (i : Nat) {held : Option LockMode}
    {task : Option (A × Program S R)}
    (hl : ({ held := held, task := task } : Runner S A R).Harmless s P) :
    (p.goOn i held task).Unwritten s P := by
  refine ⟨h.shared, ?_, h.results⟩
  intro l hmem
  rcases List.mem_or_eq_of_mem_set hmem with hold | rfl
  · exact h.threads l hold
  · exact hl

/-- A step of a thread that writes nothing leads to such a thread again. -/
theorem Unwritten.advance {i : Nat} {l : Runner S A R} {a : A} {program : Program S R}
    (h : p.Unwritten s P) (hl : l ∈ p.threads) (htask : l.task = some (a, program))
    (hs : p.advance i l a program = some p') : p'.Unwritten s P := by
  have hprogram := h.threads l hl
  rw [Runner.Harmless, htask] at hprogram
  cases program with
  | done r =>
    cases hs
    obtain ⟨hheld, hr⟩ := hprogram
    have hidle : (p.goOn i l.held none).Unwritten s P := h.goOn i hheld
    refine ⟨hidle.shared, hidle.threads, ?_⟩
    intro r' hr'
    rcases List.mem_append.mp hr' with hold | hnew
    · exact h.results r' hold
    · rw [List.mem_singleton.mp hnew]
      exact hr
  | diverge => cases hs
  | call c next =>
    rw [Pool.advance] at hs
    split at hs
    · obtain ⟨held, htake, rfl⟩ := Option.map_eq_some_iff.mp hs
      exact h.goOn i (hprogram held htake)
    · cases hs
  | read next =>
    cases hs
    apply h.goOn
    rw [h.shared]
    exact hprogram
  | write f next => exact hprogram.elim

/-- If no task writes, no step does. -/
theorem Unwritten.kept {program : A → Program S R} {e : SharedMutex.Event A}
    (hprogram : ∀ a, (program a).ReadsOnly s (fun held r ↦ held = none ∧ P a r) none)
    (h : p.Unwritten s P) (hs : step program p e = some p') : p'.Unwritten s P := by
  cases e with
  | spawn =>
    cases hs
    refine ⟨h.shared, ?_, h.results⟩
    intro l hl
    rcases List.mem_append.mp hl with hold | hnew
    · exact h.threads l hold
    · rw [List.mem_singleton.mp hnew]
      rfl
  | enter i a =>
    obtain ⟨l, hl, henter⟩ := Option.bind_eq_some_iff.mp hs
    have hidle := h.threads l (List.mem_of_getElem? hl)
    split at henter
    · next htask =>
      cases henter
      rw [Runner.Harmless, htask] at hidle
      apply h.goOn
      rw [hidle]
      exact hprogram a
    · cases henter
  | proceed i =>
    obtain ⟨l, hl, hgo⟩ := Option.bind_eq_some_iff.mp hs
    obtain ⟨⟨a, rest⟩, htask, hadvance⟩ := Option.bind_eq_some_iff.mp hgo
    exact h.advance (List.mem_of_getElem? hl) htask hadvance

/-- If no task writes the state that the threads start with, they never write: whatever the order
of their steps, the state stays as it is, and every task returns what it does on that state. -/
theorem unwritten_run {program : A → Program S R} {es : List (SharedMutex.Event A)}
    (hprogram : ∀ a, (program a).ReadsOnly s (fun held r ↦ held = none ∧ P a r) none)
    (hrun : Run (step program) Any { shared := s } es p) : p.Unwritten s P := by
  apply hrun.invariant (P := Unwritten s P)
  · refine ⟨rfl, ?_, ?_⟩
    · intro l hl
      cases hl
    · intro r hr
      cases hr
  · exact fun p e p' h _ hs ↦ h.kept hprogram hs

end Pool

end

end Lib
