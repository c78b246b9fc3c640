import P2PNetwork.Lib.LockDiscipline
import P2PNetwork.Lib.Run

/-!
# Threads that share a mutex

Any number of threads, each of which works off one task after the other. A task is a list of
calls on one mutex. A request is granted while nobody holds the mutex in a mode that excludes
it, and a thread that requests the mutex while it holds it gets nothing. Tasks that keep to the
lock discipline never block each other for good; a task that requests the mutex twice stops
every thread.
-/

namespace Lib

universe u

/-- A call can be made while some thread holds the mutex like this. -/
def LockCall.admits : LockCall → Option LockMode → Bool
  | .acquire .exclusive, held => held.isNone
  | .acquire .shared, held => held != some .exclusive
  | .release _, _ => true

/-- A thread: its last task, what it holds, and the calls it still has to make. -/
structure Locker (α : Type u) where
  task : Option α := none
  held : Option LockMode := none
  todo : List LockCall := []

namespace Locker

variable {α : Type u} {l : Locker α}

/-- The thread makes its next call, which all threads have to admit. -/
def call (ls : List (Locker α)) (l : Locker α) : Option (Locker α) :=
  match l.todo with
  | [] => none
  | c :: rest =>
    if ls.all fun other ↦ c.admits other.held then
      (c.take l.held).map fun held ↦ { l with held := held, todo := rest }
    else none

/-- The calls that are left keep to the discipline. -/
def Sound (l : Locker α) : Prop := l.todo.foldlM LockCall.take l.held = some none

/-- The thread holds the mutex exclusively and requests it again. -/
def Wedged (l : Locker α) : Prop :=
  l.held = some .exclusive ∧ ∃ mode rest, l.todo = .acquire mode :: rest

/-- The thread has nothing to do, or a request is next. -/
def Requesting (l : Locker α) : Prop := l.todo = [] ∨ ∃ mode rest, l.todo = .acquire mode :: rest

/-- What a call does. -/
theorem call_eq_some {ls : List (Locker α)} {l' : Locker α} (h : l.call ls = some l') :
    ∃ c rest held, l.todo = c :: rest ∧ (∀ other ∈ ls, c.admits other.held = true) ∧
      c.take l.held = some held ∧ l' = { l with held := held, todo := rest } := by
  rw [call] at h
  split at h
  · cases h
  · next c rest htodo =>
    split at h
    · next hall =>
      obtain ⟨held, hheld, rfl⟩ := Option.map_eq_some_iff.mp h
      exact ⟨c, rest, held, htodo, List.all_eq_true.mp hall, hheld, rfl⟩
    · cases h

/-- A call that every thread admits and that the discipline allows is made. -/
theorem exists_call {ls : List (Locker α)} {c : LockCall} {rest : List LockCall}
    {held : Option LockMode} (htodo : l.todo = c :: rest)
    (hall : ∀ other ∈ ls, c.admits other.held = true) (htake : c.take l.held = some held) :
    l.call ls = some { l with held := held, todo := rest } := by
  simp only [call, htodo, List.all_eq_true.mpr hall, htake, ↓reduceIte, Option.map_some]

/-- Making the next call keeps to the discipline. -/
theorem Sound.tail {c : LockCall} {rest : List LockCall} {held : Option LockMode} (h : l.Sound)
    (htodo : l.todo = c :: rest) (htake : c.take l.held = some held) :
    ({ l with held := held, todo := rest } : Locker α).Sound := by
  rw [Sound, htodo, List.foldlM_cons, htake] at h
  exact h

/-- A thread that holds the mutex gives it back next. -/
theorem Sound.releases (h : l.Sound) {mode : LockMode} (hheld : l.held = some mode) :
    ∃ rest, l.todo = .release mode :: rest := by
  rw [Sound, hheld] at h
  cases htodo : l.todo with
  | nil =>
    rw [htodo] at h
    cases h
  | cons c rest =>
    rw [htodo, List.foldlM_cons] at h
    cases c with
    | acquire m => simp [LockCall.take] at h
    | release m =>
      by_cases hm : mode = m
      · exact ⟨rest, by rw [hm]⟩
      · simp [LockCall.take, hm] at h

/-- A thread that holds nothing requests the mutex next. -/
theorem Sound.requesting (h : l.Sound) (hheld : l.held = none) : l.Requesting := by
  rw [Sound, hheld] at h
  cases htodo : l.todo with
  | nil => exact .inl htodo
  | cons c rest =>
    rw [htodo, List.foldlM_cons] at h
    cases c with
    | acquire m => exact .inr ⟨m, rest, htodo⟩
    | release m => simp [LockCall.take] at h

end Locker

namespace SharedMutex

variable {α : Type u}

/-- A new thread, a thread that takes up a task, and a thread that makes its next call. -/
inductive Event (α : Type u)
  | spawn
  | enter (i : Nat) (a : α)
  | proceed (i : Nat)

/-- A thread makes its next call. -/
def proceed (ls : List (Locker α)) (i : Nat) : Option (List (Locker α)) :=
  ls[i]?.bind fun l ↦ (l.call ls).map fun l' ↦ ls.set i l'

/-- The threads, each of which makes the calls of one task before it takes up the next. -/
def step (calls : α → List LockCall) (ls : List (Locker α)) :
    Event α → Option (List (Locker α))
  | .spawn => some (ls ++ [{}])
  | .enter i a => ls[i]?.bind fun l ↦
    if l.todo = [] then some (ls.set i { l with task := some a, todo := calls a }) else none
  | .proceed i => proceed ls i

/-- Every thread is done, or one of them can go on. -/
def Live (ls : List (Locker α)) : Prop :=
  (∀ l ∈ ls, l.todo = []) ∨ ∃ i ls', proceed ls i = some ls'

/-- A task that begins by requesting the mutex twice. -/
def Doomed (calls : List LockCall) : Prop :=
  ∃ mode rest, calls = .acquire .exclusive :: .acquire mode :: rest

/-- A thread makes a call of a task only if the task keeps to the discipline. -/
def Keeps (calls : α → List LockCall) (ls : List (Locker α)) : Event α → Prop
  | .proceed i => ∀ l a, ls[i]? = some l → l.task = some a → Disciplined (calls a)
  | _ => True

/-- A thread in the middle of a disciplined task, or before the first call of a doomed one. -/
def Orderly (calls : α → List LockCall) (l : Locker α) : Prop :=
  (l.Sound ∧ ∀ a, l.task = some a → Disciplined (calls a)) ∨
    (l.held = none ∧ ∃ a, l.task = some a ∧ Doomed (calls a) ∧ l.todo = calls a)

variable {calls : α → List LockCall} {ls ls' : List (Locker α)}

/-- What holds of all threads holds after one of them has changed. -/
private theorem forall_mem_set {P : Locker α → Prop} {i : Nat} {l' : Locker α}
    (h : ∀ l ∈ ls, P l) (hl' : P l') : ∀ l ∈ ls.set i l', P l := by
  intro l hl
  rcases List.mem_or_eq_of_mem_set hl with hold | rfl
  · exact h l hold
  · exact hl'

theorem proceed_eq_some {i : Nat} (h : proceed ls i = some ls') :
    ∃ l l', ls[i]? = some l ∧ l.call ls = some l' ∧ ls' = ls.set i l' := by
  obtain ⟨l, hl, hcall⟩ := Option.bind_eq_some_iff.mp h
  obtain ⟨l', hl', rfl⟩ := Option.map_eq_some_iff.mp hcall
  exact ⟨l, l', hl, hl', rfl⟩

theorem enter_eq_some {i : Nat} {a : α} (h : step calls ls (.enter i a) = some ls') :
    ∃ l, ls[i]? = some l ∧ l.todo = [] ∧
      ls' = ls.set i { l with task := some a, todo := calls a } := by
  obtain ⟨l, hl, hset⟩ := Option.bind_eq_some_iff.mp h
  split at hset
  · next htodo =>
    cases hset
    exact ⟨l, hl, htodo, rfl⟩
  · cases hset

/-- A doomed task does not keep to the discipline. -/
theorem Doomed.not_disciplined {l : List LockCall} (h : Doomed l) : ¬ Disciplined l := by
  obtain ⟨mode, rest, rfl⟩ := h
  exact not_disciplined_of_nested .exclusive mode rest

/-- An orderly thread that holds the mutex gives it back next. -/
theorem Orderly.releases {l : Locker α} {mode : LockMode} (h : Orderly calls l)
    (hheld : l.held = some mode) : ∃ rest, l.todo = .release mode :: rest := by
  rcases h with ⟨hsound, -⟩ | ⟨hnone, -⟩
  · exact hsound.releases hheld
  · rw [hnone] at hheld
    cases hheld

/-- An orderly thread that holds nothing requests the mutex next. -/
theorem Orderly.requesting {l : Locker α} (h : Orderly calls l) (hheld : l.held = none) :
    l.Requesting := by
  rcases h with ⟨hsound, -⟩ | ⟨-, a, -, ⟨mode, rest, hcalls⟩, htodo⟩
  · exact hsound.requesting hheld
  · exact .inr ⟨.exclusive, .acquire mode :: rest, htodo.trans hcalls⟩

/-- While all threads are orderly one of them can go on: a holder gives the mutex back, and where
nobody holds it every request is granted. -/
theorem live_of_orderly (h : ∀ l ∈ ls, Orderly calls l) : Live ls := by
  have goes {l : Locker α} {c : LockCall} {rest : List LockCall} {held : Option LockMode}
      (hl : l ∈ ls) (htodo : l.todo = c :: rest)
      (hall : ∀ other ∈ ls, c.admits other.held = true) (htake : c.take l.held = some held) :
      Live ls := by
    obtain ⟨i, hi⟩ := List.mem_iff_getElem?.mp hl
    refine .inr ⟨i, ls.set i { l with held := held, todo := rest }, ?_⟩
    rw [proceed, hi, Option.bind_some, Locker.exists_call htodo hall htake, Option.map_some]
  by_cases hholder : ∃ l ∈ ls, ∃ mode, l.held = some mode
  · obtain ⟨l, hl, mode, hheld⟩ := hholder
    obtain ⟨rest, htodo⟩ := (h l hl).releases hheld
    have htake : (LockCall.release mode).take l.held = some none := by
      rw [hheld, LockCall.take, if_pos rfl]
    exact goes hl htodo (fun _ _ ↦ rfl) htake
  · have hnone (l : Locker α) (hl : l ∈ ls) : l.held = none := by
      cases hheld : l.held with
      | none => rfl
      | some mode => exact absurd ⟨l, hl, mode, hheld⟩ hholder
    by_cases hdone : ∀ l ∈ ls, l.todo = []
    · exact .inl hdone
    · simp only [not_forall] at hdone
      obtain ⟨l, hl, htodo⟩ := hdone
      obtain hnil | ⟨mode, rest, hcons⟩ := (h l hl).requesting (hnone l hl)
      · exact absurd hnil htodo
      · have htake : (LockCall.acquire mode).take l.held = some (some mode) := by
          rw [hnone l hl, LockCall.take, if_pos rfl]
        have hall : ∀ other ∈ ls, (LockCall.acquire mode).admits other.held = true := by
          intro other hother
          rw [hnone other hother]
          cases mode <;> rfl
        exact goes hl hcons hall htake

/-- The mutex is granted to nobody while a thread holds it exclusively. -/
theorem proceed_of_wedged (hwedged : ∃ l ∈ ls, l.Wedged) (hall : ∀ l ∈ ls, l.Requesting)
    (i : Nat) : proceed ls i = none := by
  obtain ⟨w, hw, hheld, -⟩ := hwedged
  rw [Option.eq_none_iff_forall_ne_some]
  intro ls' h
  obtain ⟨l, l', hl, hcall, -⟩ := proceed_eq_some h
  obtain ⟨c, rest, held, htodo, hadmits, -, -⟩ := Locker.call_eq_some hcall
  rcases hall l (List.mem_of_getElem? hl) with hnil | ⟨mode, rest', hcons⟩
  · rw [hnil] at htodo
    cases htodo
  · rw [hcons] at htodo
    cases htodo
    have hw' := hadmits w hw
    rw [hheld] at hw'
    cases mode <;> cases hw'

/-- The first call of a doomed task wedges its thread. -/
private theorem wedged_of_doomed {i : Nat} {l : Locker α} {a : α}
    (h : ∀ l ∈ ls, Orderly calls l) (hs : proceed ls i = some ls') (hl : ls[i]? = some l)
    (htask : l.task = some a) (hdoomed : ¬ Disciplined (calls a)) :
    (∃ l ∈ ls', l.Wedged) ∧ ∀ l ∈ ls', l.Requesting := by
  obtain ⟨l₁, l', hl₁, hcall, rfl⟩ := proceed_eq_some hs
  rw [hl] at hl₁
  cases hl₁
  obtain ⟨c, rest, held, htodo, hadmits, htake, rfl⟩ := Locker.call_eq_some hcall
  rcases h l (List.mem_of_getElem? hl) with
    ⟨-, hkeeps⟩ | ⟨hheld, b, hb, ⟨mode, tail, hcalls⟩, hpending⟩
  · exact absurd (hkeeps a htask) hdoomed
  · rw [hpending, hcalls] at htodo
    cases htodo
    rw [hheld] at htake
    cases htake
    have hnone (other : Locker α) (hother : other ∈ ls) : other.held = none :=
      Option.isNone_iff_eq_none.mp (hadmits other hother)
    have hi : i < ls.length := (List.getElem?_eq_some_iff.mp hl).1
    refine ⟨⟨_, List.mem_set hi _, rfl, mode, tail, rfl⟩, ?_⟩
    exact forall_mem_set (fun other hother ↦ (h other hother).requesting (hnone other hother))
      (.inr ⟨mode, tail, rfl⟩)

/-! ### Blocking -/

section

variable (htasks : ∀ a, Disciplined (calls a) ∨ Doomed (calls a))

include htasks

/-- A task begins with a request. -/
private theorem requesting_enter (l : Locker α) (a : α) :
    ({ l with task := some a, todo := calls a } : Locker α).Requesting := by
  rcases htasks a with hdisciplined | ⟨mode, rest, hcalls⟩
  · have hsound : ({ todo := calls a } : Locker α).Sound := hdisciplined
    exact hsound.requesting rfl
  · exact .inr ⟨.exclusive, _, hcalls⟩

/-- Once a thread is wedged and all others request the mutex, nobody makes a call any more. -/
theorem stuck_run {es : List (Event α)} (hwedged : ∃ l ∈ ls, l.Wedged)
    (hall : ∀ l ∈ ls, l.Requesting) (hrun : Run (step calls) Any ls es ls') :
    ∀ i, proceed ls' i = none := by
  have hinv : (∃ l ∈ ls', l.Wedged) ∧ ∀ l ∈ ls', l.Requesting := by
    refine hrun.invariant (P := fun ls ↦ (∃ l ∈ ls, l.Wedged) ∧ ∀ l ∈ ls, l.Requesting)
      ⟨hwedged, hall⟩ ?_
    rintro s e s' ⟨⟨w, hw, hwedged⟩, hreq⟩ - hs
    cases e with
    | spawn =>
      cases hs
      refine ⟨⟨w, List.mem_append_left _ hw, hwedged⟩, ?_⟩
      intro l hl
      rcases List.mem_append.mp hl with hold | hnew
      · exact hreq l hold
      · rw [List.mem_singleton.mp hnew]
        exact .inl rfl
    | enter i a =>
      obtain ⟨l, hl, htodo, rfl⟩ := enter_eq_some hs
      refine ⟨⟨w, ?_, hwedged⟩, forall_mem_set hreq (requesting_enter htasks l a)⟩
      -- the thread that enters has nothing to do, so it is not the wedged one
      obtain ⟨j, hj⟩ := List.mem_iff_getElem?.mp hw
      have hne : i ≠ j := by
        rintro rfl
        rw [hl] at hj
        cases hj
        obtain ⟨-, mode, rest, hcons⟩ := hwedged
        rw [htodo] at hcons
        cases hcons
      apply List.mem_of_getElem? (i := j)
      rw [List.getElem?_set_ne hne, hj]
    | proceed i =>
      have hnone : step calls s (.proceed i) = none :=
        proceed_of_wedged ⟨w, hw, hwedged⟩ hreq i
      rw [hnone] at hs
      cases hs
  exact proceed_of_wedged hinv.1 hinv.2

/-- A step that makes no call of a doomed task keeps the threads orderly. -/
theorem orderly_step {e : Event α} (h : ∀ l ∈ ls, Orderly calls l) (hkeeps : Keeps calls ls e)
    (hs : step calls ls e = some ls') : ∀ l ∈ ls', Orderly calls l := by
  cases e with
  | spawn =>
    cases hs
    intro l hl
    rcases List.mem_append.mp hl with hold | hnew
    · exact h l hold
    · rw [List.mem_singleton.mp hnew]
      refine .inl ⟨rfl, ?_⟩
      intro a ha
      cases ha
  | enter i a =>
    obtain ⟨l, hl, htodo, rfl⟩ := enter_eq_some hs
    have horderly := h l (List.mem_of_getElem? hl)
    have hheld : l.held = none := by
      cases hheld : l.held with
      | none => rfl
      | some mode =>
        obtain ⟨rest, hrelease⟩ := horderly.releases hheld
        rw [htodo] at hrelease
        cases hrelease
    apply forall_mem_set h
    rcases htasks a with hdisciplined | hdoomed
    · refine .inl ⟨?_, ?_⟩
      · rw [Locker.Sound, hheld]
        exact hdisciplined
      · intro b hb
        cases hb
        exact hdisciplined
    · exact .inr ⟨hheld, a, rfl, hdoomed, rfl⟩
  | proceed i =>
    obtain ⟨l, l', hl, hcall, rfl⟩ := proceed_eq_some hs
    obtain ⟨c, rest, held, htodo, -, htake, rfl⟩ := Locker.call_eq_some hcall
    apply forall_mem_set h
    rcases h l (List.mem_of_getElem? hl) with ⟨hsound, htask⟩ | ⟨-, a, ha, hdoomed, -⟩
    · exact .inl ⟨hsound.tail htodo htake, htask⟩
    · exact absurd (hkeeps l a hl ha) hdoomed.not_disciplined

/-- One of the threads can go on in every state that an execution reaches exactly if no thread
makes a call of a task that requests the mutex twice. -/
theorem live_throughout_iff (es : List (Event α)) :
    Throughout (step calls) Live [] es ↔ Meets (step calls) (Keeps calls) [] es := by
  refine throughout_iff_meets (I := fun ls ↦ ∀ l ∈ ls, Orderly calls l) (Q := fun _ ↦ True)
    (fun _ _ ↦ trivial) ?_ (fun _ h ↦ live_of_orderly h) ?_ ?_
  · intro l hl
    cases hl
  · intro s e s' h _ hs
    constructor
    · intro hlive
      cases e with
      | spawn => trivial
      | enter i a => trivial
      | proceed i =>
        intro l a hl htask
        by_contra hdoomed
        obtain ⟨⟨w, hw, hwedged⟩, hreq⟩ := wedged_of_doomed h hs hl htask hdoomed
        rcases hlive with hdone | ⟨j, s'', hj⟩
        · obtain ⟨-, mode, rest, hcons⟩ := hwedged
          rw [hdone w hw] at hcons
          cases hcons
        · rw [proceed_of_wedged ⟨w, hw, hwedged⟩ hreq j] at hj
          cases hj
    · exact fun hkeeps ↦ live_of_orderly (orderly_step htasks h hkeeps hs)
  · exact fun s e s' h _ hs hkeeps ↦ orderly_step htasks h hkeeps hs

/-- From the first call of a doomed task on nobody makes a call any more. -/
theorem stuck_of_doomed {es es' : List (Event α)} {s s' : List (Locker α)} {i : Nat}
    (hrun : Run (step calls) (Keeps calls) [] es ls) (hs : step calls ls (.proceed i) = some s)
    (hdoomed : ¬ Keeps calls ls (.proceed i)) (hrest : Run (step calls) Any s es' s') :
    ∀ j, proceed s' j = none := by
  have horderly : ∀ l ∈ ls, Orderly calls l := by
    apply hrun.invariant (P := fun ls ↦ ∀ l ∈ ls, Orderly calls l)
    · intro l hl
      cases hl
    · exact fun s e s' h hkeeps hs ↦ orderly_step htasks h hkeeps hs
  simp only [Keeps, not_forall] at hdoomed
  obtain ⟨l, a, hl, htask, hcalls⟩ := hdoomed
  obtain ⟨hwedged, hreq⟩ := wedged_of_doomed horderly hs hl htask hcalls
  exact stuck_run htasks hwedged hreq hrest

end

end SharedMutex

end Lib
