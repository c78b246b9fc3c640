import Mathlib.Data.List.Basic

/-!
# Lock discipline of one thread

The calls one thread makes on a mutex that can be held exclusively or shared, but not twice. A
method records its calls while it computes its result, so that a loop with an early return
records those of the path it takes.
-/

namespace Lib

/-- How a mutex is held. -/
inductive LockMode
  | exclusive
  | shared
  deriving DecidableEq, Repr

/-- A request for the mutex, and its return. -/
inductive LockCall
  | acquire (mode : LockMode)
  | release (mode : LockMode)
  deriving DecidableEq, Repr

/-- What the thread holds after a call. There is no such state when the mutex is requested by a
thread that holds it in either mode, or when it is not held in the mode that is released. -/
def LockCall.take (held : Option LockMode) : LockCall → Option (Option LockMode)
  | .acquire mode => if held = none then some (some mode) else none
  | .release mode => if held = some mode then some none else none

/-- A thread that holds nothing may make these calls, and holds nothing after them. -/
def Disciplined (calls : List LockCall) : Prop := calls.foldlM LockCall.take none = some none

instance (calls : List LockCall) : Decidable (Disciplined calls) :=
  inferInstanceAs (Decidable (_ = _))

/-- A mutex is taken and given back. -/
theorem disciplined_bracket (mode : LockMode) : Disciplined [.acquire mode, .release mode] := by
  simp [Disciplined, LockCall.take]

/-- No call at all. -/
theorem disciplined_nil : Disciplined [] := rfl

/-- A mutex that is requested by the thread that has just taken it. -/
theorem not_disciplined_of_nested (mode mode' : LockMode) (calls : List LockCall) :
    ¬ Disciplined (.acquire mode :: .acquire mode' :: calls) := by
  simp [Disciplined, LockCall.take]

/-- A mutex that is not given back. -/
theorem not_disciplined_of_kept (mode : LockMode) : ¬ Disciplined [.acquire mode] := by
  simp [Disciplined, LockCall.take]

/-- A computation that records the lock calls it makes. -/
abbrev Recorded := StateM (List LockCall)

namespace Recorded

variable {α β : Type}

/-- Request the mutex. -/
def lock (mode : LockMode) : Recorded Unit := modify (· ++ [.acquire mode])

/-- Return the mutex. -/
def unlock (mode : LockMode) : Recorded Unit := modify (· ++ [.release mode])

/-- A method that holds the mutex for its whole body. -/
def guarded (mode : LockMode) (result : α) : Recorded α := do
  lock mode
  unlock mode
  pure result

/-- A loop that unlocks and returns at the first element that satisfies `p`: whether the method
has returned in it. -/
def returnsIn (mode : LockMode) (p : β → Bool) : List β → Recorded Bool
  | [] => pure false
  | b :: rest =>
    if p b then do
      unlock mode
      pure true
    else returnsIn mode p rest

/-- A method with such a loop, and its results in the loop and behind it. -/
def guardedLoop (mode : LockMode) (p : β → Bool) (l : List β) (inside behind : α) :
    Recorded α := do
  lock mode
  if ← returnsIn mode p l then
    pure inside
  else
    unlock mode
    pure behind

@[simp] theorem run_lock (mode : LockMode) (calls : List LockCall) :
    (lock mode).run calls = pure ((), calls ++ [.acquire mode]) := rfl

@[simp] theorem run_unlock (mode : LockMode) (calls : List LockCall) :
    (unlock mode).run calls = pure ((), calls ++ [.release mode]) := rfl

/-- A guarded body takes the mutex and gives it back. -/
theorem run_guarded (mode : LockMode) (result : α) (calls : List LockCall) :
    (guarded mode result).run calls = pure (result, calls ++ [.acquire mode, .release mode]) := by
  simp [guarded]

/-- The loop has given the mutex back if it has returned. -/
theorem run_returnsIn (mode : LockMode) (p : β → Bool) (l : List β) (calls : List LockCall) :
    (returnsIn mode p l).run calls =
      pure (l.any p, if l.any p then calls ++ [.release mode] else calls) := by
  induction l with
  | nil => rfl
  | cons b rest ih =>
    rw [returnsIn]
    cases hb : p b with
    | true => simp [hb]
    | false => simp [hb, ih]

/-- Inside the loop or behind it, the mutex is given back once. -/
theorem run_guardedLoop (mode : LockMode) (p : β → Bool) (l : List β) (inside behind : α)
    (calls : List LockCall) :
    (guardedLoop mode p l inside behind).run calls =
      pure (if l.any p then inside else behind, calls ++ [.acquire mode, .release mode]) := by
  rw [guardedLoop]
  cases hany : l.any p with
  | true => simp [run_returnsIn, hany]
  | false => simp [run_returnsIn, hany]

end Recorded

end Lib
