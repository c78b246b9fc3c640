import P2PNetwork.Client.Networking.BaseSocket
import Mathlib.Data.List.Induction

/-!
# How long a receive waits

`select` in `BaseSocket::receive` (`src/client/networking/BaseSocket.cpp:43–63`) gets the fd set
and the timeout of the socket, which `start` sets once (`BaseSocket.cpp:34–38`) and every `select`
overwrites: the set with what is ready, the timeout with the time not slept.
-/

open Lib

namespace P2PNetwork.Client

/-- The data that a `receive` waits for: after how many microseconds it can be read, if ever, and
what `read` delivers then. -/
structure Awaited where
  wait : Option Nat
  read : Read

/-- The waiting time of a `receive` in microseconds. -/
def fullTimeout : Nat := defaultRecvTimeout * 1000000

/-- The data can be read before the waiting time of one `receive` is over. -/
def Awaited.InTime (a : Awaited) : Prop := ∃ w, a.wait = some w ∧ w < fullTimeout

/-- How long calls with these waits sleep together, if all of them get their data. -/
def totalWait : List (Option Nat) → Option Nat
  | [] => some 0
  | wait :: waits => wait.bind fun w ↦ (totalWait waits).map fun t ↦ w + t

/-- Calls with these waits sleep no longer together than one may. -/
def Fits (waits : List (Option Nat)) : Prop := ∃ t, totalWait waits = some t ∧ t ≤ fullTimeout

namespace BaseSocket

/-- What `select` does: it looks at the set for as long as the timeout says, and tests it a last
time in the end. -/
def selectFor (s : BaseSocket) (a : Awaited) : Select :=
  match a.wait with
  | some w =>
    if s.inSelectSet ∧ w ≤ s.recvTimeout then .ready (s.recvTimeout - w) a.read else .timedOut
  | none => .timedOut

/-- A `receive` that waits for this data. -/
def receiveFor (pb : Protobuf) (s : BaseSocket) (a : Awaited) : BaseSocket :=
  s.receive pb (s.selectFor a)

/-- One `receive` after the other. -/
def receiveAll (pb : Protobuf) (s : BaseSocket) (calls : List Awaited) : BaseSocket :=
  calls.foldl (receiveFor pb) s

end BaseSocket

/-- A further wait adds to the total. -/
theorem totalWait_snoc (waits : List (Option Nat)) (wait : Option Nat) :
    totalWait (waits ++ [wait]) = (totalWait waits).bind fun t ↦ wait.map fun w ↦ t + w := by
  induction waits with
  | nil => cases wait <;> simp [totalWait]
  | cons first waits ih =>
    rw [List.cons_append, totalWait, totalWait, ih]
    cases first with
    | none => rfl
    | some f =>
      cases totalWait waits with
      | none => rfl
      | some t => cases wait <;> simp [Nat.add_assoc]

namespace BaseSocket

variable {s₀ s : BaseSocket} {pb : Protobuf} {a : Awaited}

/-- What is left of the set and of the timeout behind calls with these waits. -/
structure Remains (s : BaseSocket) (waits : List (Option Nat)) : Prop where
  left : ∀ t, totalWait waits = some t → t ≤ fullTimeout →
    s.inSelectSet = true ∧ s.recvTimeout = fullTimeout - t
  gone : ¬ Fits waits → s.inSelectSet = false

/-- A call with waits that do not fit takes the socket out of its set. -/
private theorem spec_of_timedOut {waits : List (Option Nat)} (hselect : s.selectFor a = .timedOut)
    (hout : ¬ Fits (waits ++ [a.wait])) :
    ((s.receiveFor pb a).state = .recvd ↔ Fits (waits ++ [a.wait])) ∧
      (s.receiveFor pb a).Remains (waits ++ [a.wait]) := by
  have hreceive : s.receiveFor pb a =
      { s with inSelectSet := false, recvTimeout := 0, state := .timedOut } := by
    rw [receiveFor, hselect]
    rfl
  have hstate : SocketState.timedOut ≠ .recvd := by decide
  rw [hreceive]
  refine ⟨iff_of_false hstate hout, ?_, fun _ ↦ rfl⟩
  intro t ht hle
  exact absurd ⟨t, ht, hle⟩ hout

/-- Where the waits fit, the data of a call can be read, and what they leave of the timeout is
left. -/
private theorem selectFor_of_fits {waits : List (Option Nat)} {t : Nat} (hs : s.Remains waits)
    (htotal : totalWait (waits ++ [a.wait]) = some t) (hle : t ≤ fullTimeout) :
    s.inSelectSet = true ∧ s.selectFor a = .ready (fullTimeout - t) a.read := by
  rw [totalWait_snoc, Option.bind_eq_some_iff] at htotal
  obtain ⟨t', ht', hmap⟩ := htotal
  obtain ⟨w, hwait, rfl⟩ := Option.map_eq_some_iff.mp hmap
  obtain ⟨hset, hleft⟩ := hs.left t' ht' (by omega)
  refine ⟨hset, ?_⟩
  have hin : w ≤ fullTimeout - t' := by omega
  have hremaining : fullTimeout - t' - w = fullTimeout - (t' + w) := by omega
  simp only [selectFor, hwait, hset, hleft, hin, and_self, if_true, hremaining]

/-- Where they do not, the call times out. -/
private theorem selectFor_of_not_fits {waits : List (Option Nat)} (hs : s.Remains waits)
    (hout : ¬ Fits (waits ++ [a.wait])) : s.selectFor a = .timedOut := by
  cases hwait : a.wait with
  | none => rw [selectFor, hwait]
  | some w =>
    have hlate : ¬ (s.inSelectSet = true ∧ w ≤ s.recvTimeout) := by
      rintro ⟨hset, hin⟩
      apply hout
      by_cases hfits : Fits waits
      · obtain ⟨t, ht, hle⟩ := hfits
        have hleft := (hs.left t ht hle).2
        refine ⟨t + w, ?_, by omega⟩
        rw [totalWait_snoc, ht, hwait]
        rfl
      · rw [hs.gone hfits] at hset
        cases hset
    rw [selectFor, hwait]
    exact if_neg hlate

/-- A `receive` ends with RECVD exactly if the waits fit, its own included. -/
theorem receiveFor_spec {waits : List (Option Nat)} (hs : s.Remains waits) :
    ((s.receiveFor pb a).state = .recvd ↔ Fits (waits ++ [a.wait])) ∧
      (s.receiveFor pb a).Remains (waits ++ [a.wait]) := by
  by_cases hfits : Fits (waits ++ [a.wait])
  · obtain ⟨t, htotal, hle⟩ := hfits
    obtain ⟨hset, hselect⟩ := selectFor_of_fits hs htotal hle
    obtain ⟨hstate, -, hkept, htime⟩ := receive_ready (s := s) pb (fullTimeout - t) a.read
    rw [receiveFor, hselect]
    refine ⟨iff_of_true hstate ⟨t, htotal, hle⟩, ?_, fun h ↦ absurd ⟨t, htotal, hle⟩ h⟩
    intro t' ht' _
    rw [htotal, Option.some_inj] at ht'
    rw [← ht']
    exact ⟨hkept.trans hset, htime⟩
  · exact spec_of_timedOut (selectFor_of_not_fits hs hfits) hfits

/-- A socket that `start` has opened has all of its waiting time. -/
theorem remains_start {io : Dialing} (hopen : s₀.start io = (s, .open)) : s.Remains [] := by
  have hs : s.inSelectSet = true ∧ s.recvTimeout = fullTimeout := by
    unfold start at hopen
    split_ifs at hopen
    all_goals cases hopen
    exact ⟨rfl, rfl⟩
  refine ⟨?_, fun h ↦ absurd ⟨0, rfl, Nat.zero_le _⟩ h⟩
  intro t ht _
  cases ht
  exact hs

/-- Behind any calls the socket has what their waits have left. -/
theorem remains_receiveAll (hs : s.Remains []) (calls : List Awaited) :
    (s.receiveAll pb calls).Remains (calls.map Awaited.wait) := by
  induction calls using List.reverseRecOn with
  | nil => exact hs
  | append_singleton calls a ih =>
    rw [receiveAll, List.foldl_append, List.map_append]
    exact (receiveFor_spec ih).2

/-- On a socket that `start` has opened, every `receive` whose data comes in time ends with RECVD
exactly if the waits up to each of these, its own included, add up to no more than the waiting time
of one. -/
theorem recvd_in_time_iff {io : Dialing} (hopen : s₀.start io = (s, .open)) (pb : Protobuf)
    (calls : List Awaited) :
    (∀ before a after, calls = before ++ a :: after → a.InTime →
      ((s.receiveAll pb before).receiveFor pb a).state = .recvd) ↔
    ∀ before a after, calls = before ++ a :: after → a.InTime →
      Fits ((before ++ [a]).map Awaited.wait) := by
  have hexact : ∀ before a, ((s.receiveAll pb before).receiveFor pb a).state = .recvd ↔
      Fits ((before ++ [a]).map Awaited.wait) := by
    intro before a
    rw [List.map_append]
    exact (receiveFor_spec (remains_receiveAll (remains_start hopen) before)).1
  simp only [hexact]

/-! ### Three seconds, twice -/

/-- The message with the code `OK`, which comes after three seconds. -/
def afterThreeSeconds : Awaited := ⟨some 3000000, .bytes ⟨[8, 2], by decide, by decide⟩⟩

/-- Two calls whose data comes after three seconds each. -/
def threeSecondsTwice : List Awaited := [afterThreeSeconds, afterThreeSeconds]

/-- A socket that is about to connect to a port. -/
def dialedSocket : BaseSocket where
  inSelectSet := false
  recvTimeout := 0
  trackerIpString := [49]
  trackerPort := 2000
  readBuffer := .clear 0 maxMessageSize
  lastMsg := {}
  state := .closed

/-- It is opened and used for the two calls. -/
theorem recvd_in_time_iff_threeSeconds :
    (∀ before a after, threeSecondsTwice = before ++ a :: after → a.InTime →
      (((dialedSocket.start ⟨4, 1, 0⟩).1.receiveAll .proto3 before).receiveFor .proto3 a).state =
        .recvd) ↔
    ∀ before a after, threeSecondsTwice = before ++ a :: after → a.InTime →
      Fits ((before ++ [a]).map Awaited.wait) :=
  @recvd_in_time_iff dialedSocket _ ⟨4, 1, 0⟩ rfl .proto3 threeSecondsTwice

/-- The second call times out two seconds after it begins. -/
theorem not_recvd_in_time_threeSeconds :
    (dialedSocket.start ⟨4, 1, 0⟩).2 = .open ∧
      ¬ ∀ before a after, threeSecondsTwice = before ++ a :: after → a.InTime →
        (((dialedSocket.start ⟨4, 1, 0⟩).1.receiveAll .proto3 before).receiveFor .proto3 a).state =
          .recvd := by
  refine ⟨rfl, ?_⟩
  intro h
  have hsecond := h [afterThreeSeconds] afterThreeSeconds [] rfl ⟨3000000, rfl, by decide⟩
  exact absurd hsecond (by decide)

end BaseSocket

end P2PNetwork.Client
