import P2PNetwork.Lib.Run
import Mathlib.Logic.ExistsUnique

/-!
# Accepting connections

The loops of `main` (`src/server/main.cpp:60–72`) and of `connListen`
(`src/client/main.cpp:52–61`), with the threads they create. The client passes a descriptor to
its thread by value. The server passes the address of `args`, a variable of its own that every
round of the loop writes to, and the thread reads it when it starts.
-/

open Lib

namespace P2PNetwork

/-- The number of an open connection. -/
abbrev Descriptor := Nat

/-- What a thread gets as its argument. -/
inductive Handover
  | byValue
  | byAddress
  deriving DecidableEq, Repr

/-- A thread that serves a connection. -/
inductive ServerThread
  /-- It has not read its argument. -/
  | starting
  | serving (fd : Descriptor)
  | finished
  deriving DecidableEq, Repr

/-- The calls after which the process exits (`guard`, `sharedUtils.cpp:12–19`, and
`server/main.cpp:67–70`). -/
inductive ExitCause
  | acceptFailed
  | createFailed
  | closeFailed
  deriving DecidableEq, Repr

/-- The process: `args.connFd`, the open connections, the threads and whether it has exited. -/
structure Listener where
  args : Option Descriptor := none
  fds : List Descriptor := []
  threads : List ServerThread := []
  exited : Option ExitCause := none
  deriving DecidableEq, Repr

namespace Listener

/-- What happens next. `accept` returns a descriptor that is not in use, or fails. -/
inductive Event
  /-- A round of the loop: `accept`, the write to `args` and `pthread_create` are one step. -/
  | accept (fd : Descriptor)
  | acceptFails
  /-- `pthread_create` fails for a connection that has been accepted. -/
  | createFails (fd : Descriptor)
  /-- A thread reads its argument. -/
  | start (i : Nat)
  /-- `recv` returns no bytes: a thread leaves its loop and closes its connection. -/
  | close (i : Nat)
  deriving DecidableEq, Repr

/-- A connection has been accepted. -/
def accepted (handover : Handover) (s : Listener) (fd : Descriptor) : Listener :=
  match handover with
  | .byValue => { s with fds := fd :: s.fds }
  | .byAddress => { s with args := some fd, fds := fd :: s.fds }

/-- One event of a process that has not exited. -/
def act (handover : Handover) (s : Listener) : Event → Option Listener
  | .accept fd =>
    if fd ∈ s.fds then none
    else
      let thread := match handover with
        | .byValue => .serving fd
        | .byAddress => .starting
      some { s.accepted handover fd with threads := s.threads ++ [thread] }
  | .acceptFails => some { s with exited := some .acceptFailed }
  | .createFails fd =>
    if fd ∈ s.fds then none else some { s.accepted handover fd with exited := some .createFailed }
  | .start i =>
    match s.threads[i]?, s.args with
    | some .starting, some fd => some { s with threads := s.threads.set i (.serving fd) }
    | _, _ => none
  | .close i =>
    match s.threads[i]? with
    | some (.serving fd) =>
      if fd ∈ s.fds then
        some { s with fds := s.fds.erase fd, threads := s.threads.set i .finished }
      else some { s with exited := some .closeFailed }
    | _ => none

/-- One event; nothing happens in a process that has exited. -/
def step (handover : Handover) (s : Listener) (e : Event) : Option Listener :=
  if s.exited = none then s.act handover e else none

/-- A thread serves a connection, or will once it reads its argument. -/
def Serves (s : Listener) (i : Nat) (fd : Descriptor) : Prop :=
  s.threads[i]? = some (.serving fd) ∨ (s.threads[i]? = some .starting ∧ s.args = some fd)

/-- Every thread is given a connection of its own: each open connection has one thread, and no
thread has found its connection closed by another one. -/
structure Owned (s : Listener) : Prop where
  served : s.exited = none → ∀ fd ∈ s.fds, ∃! i, s.Serves i fd
  closed : s.exited ≠ some .closeFailed

/-- No connection is accepted while a thread has not read its argument. -/
def Prompt (s : Listener) : Event → Prop
  | .accept _ => ServerThread.starting ∉ s.threads
  | _ => True

instance (s : Listener) (e : Event) : Decidable (s.Prompt e) :=
  match e with
  | .accept _ => inferInstanceAs (Decidable (ServerThread.starting ∉ s.threads))
  | .acceptFails | .createFails _ | .start _ | .close _ => isTrue trivial

/-- The open connections are different, and the threads have open ones. -/
structure Consistent (s : Listener) : Prop where
  nodup : s.fds.Nodup
  serving : ∀ (i : Nat) (fd : Descriptor), s.threads[i]? = some (.serving fd) → fd ∈ s.fds
  starting : ∀ (i : Nat), s.threads[i]? = some .starting → ∃ fd ∈ s.fds, s.args = some fd

/-- What holds as long as every thread gets its own connection. -/
structure Orderly (s : Listener) : Prop where
  owned : s.Owned
  consistent : s.exited = none → s.Consistent

variable {handover : Handover} {s s' : Listener}

/-- A thread that has just been created is the last one. -/
theorem getElem?_snoc {threads : List ServerThread} {t u : ServerThread} {i : Nat} :
    (threads ++ [u])[i]? = some t ↔ threads[i]? = some t ∨ (i = threads.length ∧ t = u) := by
  rw [List.getElem?_append]
  by_cases hi : i < threads.length
  · rw [if_pos hi]
    constructor
    · exact .inl
    · rintro (h | ⟨rfl, -⟩)
      · exact h
      · omega
  · rw [if_neg hi, List.getElem?_singleton, List.getElem?_eq_none (by omega)]
    by_cases hlast : i - threads.length = 0
    · have heq : i = threads.length := by omega
      simp [heq, eq_comm]
    · have hne : i ≠ threads.length := by omega
      simp [hlast, hne]

/-- One thread has changed. -/
theorem getElem?_set {threads : List ServerThread} {t u : ServerThread} {i j : Nat}
    (hi : i < threads.length) :
    (threads.set i u)[j]? = some t ↔ (j = i ∧ t = u) ∨ (j ≠ i ∧ threads[j]? = some t) := by
  by_cases hji : j = i
  · subst hji
    simp [hi, eq_comm]
  · simp [hji, Ne.symm hji]

/-- The state after a connection has been accepted. -/
theorem step_accept {fd : Descriptor} (h : step handover s (.accept fd) = some s') :
    s.exited = none ∧ fd ∉ s.fds ∧ s'.fds = fd :: s.fds ∧ s'.exited = none ∧
      match handover with
      | .byValue => s'.args = s.args ∧ s'.threads = s.threads ++ [.serving fd]
      | .byAddress => s'.args = some fd ∧ s'.threads = s.threads ++ [.starting] := by
  simp only [step, act, Option.ite_none_right_eq_some, Option.ite_none_left_eq_some] at h
  obtain ⟨hrunning, hfree, hs⟩ := h
  cases hs
  cases handover with
  | byValue => exact ⟨hrunning, hfree, rfl, hrunning, rfl, rfl⟩
  | byAddress => exact ⟨hrunning, hfree, rfl, hrunning, rfl, rfl⟩

/-- The state after a thread has read its argument. -/
theorem step_start {i : Nat} (h : step handover s (.start i) = some s') :
    ∃ fd, s.exited = none ∧ s.threads[i]? = some .starting ∧ s.args = some fd ∧
      s' = { s with threads := s.threads.set i (.serving fd) } := by
  simp only [step, act, Option.ite_none_right_eq_some] at h
  obtain ⟨hrunning, hs⟩ := h
  split at hs
  · next fd hi hargs =>
    cases hs
    exact ⟨fd, hrunning, hi, hargs, rfl⟩
  · cases hs

/-- The state after a thread has tried to close its connection. -/
theorem step_close {i : Nat} (h : step handover s (.close i) = some s') :
    ∃ fd, s.exited = none ∧ s.threads[i]? = some (.serving fd) ∧
      s' = if fd ∈ s.fds then
          { s with fds := s.fds.erase fd, threads := s.threads.set i .finished }
        else { s with exited := some .closeFailed } := by
  simp only [step, act, Option.ite_none_right_eq_some] at h
  obtain ⟨hrunning, hs⟩ := h
  split at hs
  · next fd hi =>
    refine ⟨fd, hrunning, hi, ?_⟩
    split at hs
    · next hopen =>
      rw [if_pos hopen]
      exact (Option.some_inj.mp hs).symm
    · next hclosed =>
      rw [if_neg hclosed]
      exact (Option.some_inj.mp hs).symm
  · cases hs

/-- The state after a call has failed. -/
theorem step_fails {e : Event} (he : e = .acceptFails ∨ ∃ fd, e = .createFails fd)
    (h : step handover s e = some s') :
    s'.exited ≠ none ∧ s'.exited ≠ some .closeFailed := by
  rcases he with rfl | ⟨fd, rfl⟩
  · simp only [step, act, Option.ite_none_right_eq_some] at h
    cases h.2
    exact ⟨nofun, nofun⟩
  · simp only [step, act, Option.ite_none_right_eq_some, Option.ite_none_left_eq_some] at h
    cases h.2.2
    exact ⟨nofun, nofun⟩

/-- If no thread had to read its argument, a new connection has the new thread, and the others keep
theirs. -/
private theorem serves_accept {fd fd' : Descriptor} {i : Nat}
    (hprompt : ServerThread.starting ∉ s.threads)
    (h : step handover s (.accept fd) = some s') :
    s'.Serves i fd' ↔
      s.threads[i]? = some (.serving fd') ∨ (i = s.threads.length ∧ fd' = fd) := by
  have hnone (k : Nat) : s.threads[k]? ≠ some .starting :=
    fun hk ↦ hprompt (List.mem_of_getElem? hk)
  obtain ⟨-, -, -, -, hnew⟩ := step_accept h
  cases handover with
  | byValue =>
    obtain ⟨hargs, hthreads⟩ := hnew
    simp only [Serves, hargs, hthreads, getElem?_snoc, hnone, ServerThread.serving.injEq,
      reduceCtorEq, and_false, or_self, false_and, or_false]
  | byAddress =>
    obtain ⟨hargs, hthreads⟩ := hnew
    simp only [Serves, hargs, hthreads, getElem?_snoc, hnone, reduceCtorEq, and_false, or_false,
      false_or, and_true, Option.some.injEq, @eq_comm _ fd fd']

private theorem orderly_accept {fd : Descriptor} (h : s.Orderly)
    (hprompt : ServerThread.starting ∉ s.threads)
    (hs : step handover s (.accept fd) = some s') : s'.Orderly := by
  obtain ⟨hrunning, hfree, hfds, hrunning', hnew⟩ := step_accept hs
  have hcons := h.consistent hrunning
  refine ⟨⟨?_, ?_⟩, ?_⟩
  · intro _ fd' hfd'
    simp only [serves_accept hprompt hs]
    rw [hfds, List.mem_cons] at hfd'
    rcases hfd' with rfl | hold
    · refine ⟨s.threads.length, .inr ⟨rfl, rfl⟩, ?_⟩
      rintro i (hserving | ⟨hi, -⟩)
      · exact absurd (hcons.serving i _ hserving) hfree
      · exact hi
    · have hne : fd' ≠ fd := fun heq ↦ hfree (heq ▸ hold)
      obtain ⟨i, hi, hunique⟩ := h.owned.served hrunning fd' hold
      refine ⟨i, ?_, ?_⟩
      · rcases hi with hserving | ⟨hstarting, -⟩
        · exact .inl hserving
        · exact absurd (List.mem_of_getElem? hstarting) hprompt
      · rintro j (hserving | ⟨-, heq⟩)
        · exact hunique j (.inl hserving)
        · exact absurd heq hne
  · rw [hrunning']
    exact nofun
  · intro _
    refine ⟨?_, ?_, ?_⟩
    · rw [hfds]
      exact List.nodup_cons.mpr ⟨hfree, hcons.nodup⟩
    · intro i fd' hi
      have hserves : s'.Serves i fd' := .inl hi
      rw [serves_accept hprompt hs] at hserves
      rw [hfds, List.mem_cons]
      rcases hserves with hold | ⟨-, heq⟩
      · exact .inr (hcons.serving i fd' hold)
      · exact .inl heq
    · intro i hi
      cases handover with
      | byValue =>
        rw [hnew.2, getElem?_snoc] at hi
        rcases hi with hold | ⟨-, hlast⟩
        · exact absurd (List.mem_of_getElem? hold) hprompt
        · cases hlast
      | byAddress =>
        refine ⟨fd, ?_, hnew.1⟩
        rw [hfds]
        exact List.mem_cons_self

/-- A thread that reads its argument serves the connection that was meant for it. -/
private theorem serves_start {i j : Nat} {fd : Descriptor}
    (hs : step handover s (.start i) = some s') : s'.Serves j fd ↔ s.Serves j fd := by
  obtain ⟨argument, hrunning, hi, hargs, rfl⟩ := step_start hs
  have hlen : i < s.threads.length := (List.getElem?_eq_some_iff.mp hi).1
  simp only [Serves, getElem?_set hlen]
  by_cases hji : j = i
  · subst hji
    simp [hi, hargs, eq_comm]
  · simp [hji]

private theorem orderly_start {i : Nat} (h : s.Orderly)
    (hs : step handover s (.start i) = some s') : s'.Orderly := by
  have hserves (j : Nat) (fd : Descriptor) := @serves_start _ _ _ i j fd hs
  obtain ⟨argument, hrunning, hi, hargs, rfl⟩ := step_start hs
  have hcons := h.consistent hrunning
  have hlen : i < s.threads.length := (List.getElem?_eq_some_iff.mp hi).1
  refine ⟨⟨?_, h.owned.closed⟩, fun _ ↦ ⟨hcons.nodup, ?_, ?_⟩⟩
  · intro _ fd hfd
    simp only [hserves]
    exact h.owned.served hrunning fd hfd
  · intro j fd hj
    rcases (getElem?_set hlen).mp hj with ⟨-, heq⟩ | ⟨-, hold⟩
    · cases heq
      obtain ⟨fd', hfd', hargs'⟩ := hcons.starting i hi
      rw [hargs] at hargs'
      cases hargs'
      exact hfd'
    · exact hcons.serving j fd hold
  · intro j hj
    rcases (getElem?_set hlen).mp hj with ⟨-, heq⟩ | ⟨-, hold⟩
    · cases heq
    · exact hcons.starting j hold

/-- The connection that a thread closes is open, and has no other thread. -/
private theorem orderly_close {i : Nat} (h : s.Orderly)
    (hs : step handover s (.close i) = some s') : s'.Orderly := by
  obtain ⟨fd, hrunning, hi, hs'⟩ := step_close hs
  have hcons := h.consistent hrunning
  have hopen := hcons.serving i fd hi
  have hlen : i < s.threads.length := (List.getElem?_eq_some_iff.mp hi).1
  rw [if_pos hopen] at hs'
  subst hs'
  have hunique (j : Nat) (hj : s.Serves j fd) : j = i :=
    (h.owned.served hrunning fd hopen).unique hj (.inl hi)
  refine ⟨⟨?_, h.owned.closed⟩, fun _ ↦ ⟨hcons.nodup.erase fd, ?_, ?_⟩⟩
  · intro _ fd' hfd'
    obtain ⟨hne, hold⟩ := hcons.nodup.mem_erase_iff.mp hfd'
    obtain ⟨j, hj, hjunique⟩ := h.owned.served hrunning fd' hold
    have hji : j ≠ i := by
      rintro rfl
      rcases hj with hserving | ⟨hstarting, -⟩
      · rw [hi] at hserving
        cases hserving
        exact hne rfl
      · rw [hi] at hstarting
        cases hstarting
    refine ⟨j, ?_, ?_⟩
    · rcases hj with hserving | ⟨hstarting, hargs⟩
      · exact .inl ((getElem?_set hlen).mpr (.inr ⟨hji, hserving⟩))
      · exact .inr ⟨(getElem?_set hlen).mpr (.inr ⟨hji, hstarting⟩), hargs⟩
    · rintro k (hserving | ⟨hstarting, hargs⟩)
      · rcases (getElem?_set hlen).mp hserving with ⟨-, heq⟩ | ⟨-, hold'⟩
        · cases heq
        · exact hjunique k (.inl hold')
      · rcases (getElem?_set hlen).mp hstarting with ⟨-, heq⟩ | ⟨-, hold'⟩
        · cases heq
        · exact hjunique k (.inr ⟨hold', hargs⟩)
  · intro j fd' hj
    rcases (getElem?_set hlen).mp hj with ⟨-, heq⟩ | ⟨hji, hold⟩
    · cases heq
    · refine hcons.nodup.mem_erase_iff.mpr ⟨?_, hcons.serving j fd' hold⟩
      rintro rfl
      exact hji (hunique j (.inl hold))
  · intro j hj
    rcases (getElem?_set hlen).mp hj with ⟨-, heq⟩ | ⟨hji, hold⟩
    · cases heq
    · obtain ⟨fd', hfd', hargs⟩ := hcons.starting j hold
      refine ⟨fd', hcons.nodup.mem_erase_iff.mpr ⟨?_, hfd'⟩, hargs⟩
      rintro rfl
      exact hji (hunique j (.inr ⟨hold, hargs⟩))

/-- While connections are accepted promptly only, every thread has its own. -/
theorem orderly_step {e : Event} (h : s.Orderly) (hprompt : s.Prompt e)
    (hs : step handover s e = some s') : s'.Orderly := by
  have fails (he : e = .acceptFails ∨ ∃ fd, e = .createFails fd) : s'.Orderly := by
    obtain ⟨hexited, hnotClose⟩ := step_fails he hs
    exact ⟨⟨fun hrunning ↦ absurd hrunning hexited, hnotClose⟩,
      fun hrunning ↦ absurd hrunning hexited⟩
  cases e with
  | accept fd => exact orderly_accept h hprompt hs
  | acceptFails => exact fails (.inl rfl)
  | createFails fd => exact fails (.inr ⟨fd, rfl⟩)
  | start i => exact orderly_start h hs
  | close i => exact orderly_close h hs

end Listener

/-- The loop of the server's `main` (`server/main.cpp:60–72`). -/
def Server.main : Listener → Listener.Event → Option Listener := Listener.step .byAddress

namespace Listener

end Listener

end P2PNetwork
