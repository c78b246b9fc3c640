import P2PNetwork.Lib.ReadBuffer
import P2PNetwork.Shared.Protobuf
import P2PNetwork.Shared.SharedUtils

/-!
# Client sockets

`src/client/networking/BaseSocket.h` and `BaseSocket.cpp`. What the system calls return is
an argument of the functions that make them.
-/

open Lib

namespace P2PNetwork.Client

/-- `#define MAX_MESSAGE_SIZE 128*1024` (`BaseSocket.h:10`). -/
def maxMessageSize : Nat := 128 * 1024

/-- `#define DEFAULT_RECV_TIMEOUT 5` (`BaseSocket.h:11`), in seconds. -/
def defaultRecvTimeout : Nat := 5

/-- `class BaseSocket` (`BaseSocket.h:13–25`). The fd set holds `sockFd` or nothing, and the
timeout counts microseconds. -/
structure BaseSocket where
  sockFd : Int := 0
  inSelectSet : Bool
  recvTimeout : Nat
  trackerIpString : Bytes
  trackerPort : UInt32
  readBuffer : ReadBuffer UInt8 maxMessageSize
  lastMsg : TcpMessage
  state : SocketState
  deriving DecidableEq

/-- What `socket`, `inet_pton` and `connect` return in `start`. -/
structure Dialing where
  socketFd : Int
  pton : Int
  connect : Int
  deriving DecidableEq, Repr

/-- What `read` delivers: an error, no bytes because the peer has closed the connection, or some. -/
inductive Read
  | failed
  | closed
  | bytes (chunk : Chunk UInt8 maxMessageSize)

/-- What `select` returns, with what the `read` behind it delivers. The system overwrites the
timeout with the time not slept. -/
inductive Select
  | failed (timeLeft : Nat)
  | timedOut
  | ready (timeLeft : Nat) (read : Read)

/-- The message that a `read` leaves behind: what the bytes decode to, which may be none, or what
protobuf leaves of a negative size. -/
def Read.message (pb : Protobuf) : Read → TcpMessage
  | .failed => pb.negativeSize
  | .closed => pb.wire.decode []
  | .bytes chunk => pb.wire.decode chunk.cells

/-- The message that a `receive` gets. -/
def Select.message (pb : Protobuf) : Select → Option TcpMessage
  | .failed _ => none
  | .timedOut => none
  | .ready _ read => some (read.message pb)

/-- What a request leaves behind: the socket, the bytes given to `send` and the response. -/
structure Exchange (R : Type) where
  socket : BaseSocket
  sent : Bytes
  response : R

namespace BaseSocket

variable (s : BaseSocket)

/-- `start` (`BaseSocket.cpp:7–41`). -/
def start (io : Dialing) : BaseSocket × SocketState :=
  if s.trackerPort < 1024 ∨ s.trackerPort > 65535 then (s, .invalidAddress)
  else
    let s := { s with sockFd := io.socketFd }
    if io.socketFd < 0 then (s, .cannotConnect)
    else if io.pton ≤ 0 then (s, .invalidAddress)
    else if io.connect < 0 then (s, .cannotConnect)
    else ({ s with inSelectSet := true, recvTimeout := defaultRecvTimeout * 1000000 }, .open)

/-- `handleRecvError` (`BaseSocket.cpp:89–93`). -/
def handleRecvError : BaseSocket := { s with state := .error }

/-- `receive` (`BaseSocket.cpp:43–63`): the state is RECVD after a failed `read`, too. -/
def receive (pb : Protobuf) : Select → BaseSocket
  | .failed timeLeft => { s with recvTimeout := timeLeft, state := .error }
  | .timedOut => { s with inSelectSet := false, recvTimeout := 0, state := .timedOut }
  | .ready timeLeft .failed =>
    let s := { s with recvTimeout := timeLeft }.handleRecvError
    { s with lastMsg := pb.parseFromArray s.readBuffer.cells (-1), state := .recvd }
  | .ready timeLeft .closed =>
    let s := { s with recvTimeout := timeLeft }
    { s with lastMsg := pb.parseFromArray s.readBuffer.cells 0, state := .recvd }
  | .ready timeLeft (.bytes chunk) =>
    let s := { s with recvTimeout := timeLeft, readBuffer := s.readBuffer.fill chunk }
    { s with lastMsg := pb.parseFromArray s.readBuffer.cells chunk.cells.length, state := .recvd }

/-- `handleSendError` (`BaseSocket.cpp:77–86`): it asks for the error and logs it. -/
def handleSendError : BaseSocket := s

/-- `send` (`BaseSocket.cpp:65–71`), with what `sendTcpMsg` returns: the number of bytes, or -1. -/
def send (bytesSent : Int) : BaseSocket :=
  let s := if bytesSent = -1 then s.handleSendError else s
  { s with state := .sent }

/-- Whether the message has been sent makes no difference. -/
theorem send_eq (bytesSent : Int) : s.send bytesSent = { s with state := .sent } := by
  unfold send handleSendError
  rw [ite_self]

/-- The common shape of the requests: send `t`, receive, and take the answer out of the last
message where the state is RECVD. -/
def request {R : Type} (pb : Protobuf) (t : TcpMessage) (answer : TcpMessage → Option R) (err : R)
    (bytesSent : Int) (select : Select) : Exchange R :=
  let s := s.send bytesSent
  if s.state = .sent then
    let s := s.receive pb select
    if s.state = .recvd then ⟨s, pb.serialize t, (answer s.lastMsg).getD err⟩
    else ⟨s, pb.serialize t, err⟩
  else ⟨s, pb.serialize t, err⟩

variable {s}

/-- A `receive` with something to read ends with RECVD, even where the `read` fails, and has the
message that the `read` leaves. -/
theorem receive_ready (pb : Protobuf) (timeLeft : Nat) (read : Read) :
    (s.receive pb (.ready timeLeft read)).state = .recvd ∧
      (s.receive pb (.ready timeLeft read)).lastMsg = read.message pb ∧
      (s.receive pb (.ready timeLeft read)).inSelectSet = s.inSelectSet ∧
      (s.receive pb (.ready timeLeft read)).recvTimeout = timeLeft := by
  cases read with
  | failed => exact ⟨rfl, rfl, rfl, rfl⟩
  | closed => exact ⟨rfl, rfl, rfl, rfl⟩
  | bytes chunk =>
    refine ⟨rfl, ?_, rfl, rfl⟩
    show pb.parseFromArray (s.readBuffer.fill chunk).cells chunk.cells.length = _
    rw [Protobuf.parseFromArray, if_neg (by omega), Int.toNat_natCast, ReadBuffer.take_fill]
    rfl

/-- A `receive` that gets a message ends with RECVD and has it as its last message. -/
theorem receive_of_message {pb : Protobuf} {select : Select} {m : TcpMessage}
    (h : select.message pb = some m) :
    (s.receive pb select).state = .recvd ∧ (s.receive pb select).lastMsg = m := by
  cases select with
  | failed timeLeft => cases h
  | timedOut => cases h
  | ready timeLeft read =>
    obtain ⟨hstate, hmsg, -⟩ := receive_ready (s := s) pb timeLeft read
    exact ⟨hstate, hmsg.trans (Option.some_inj.mp h)⟩

/-- A `receive` that gets none does not. -/
theorem receive_of_no_message {pb : Protobuf} {select : Select} (h : select.message pb = none) :
    (s.receive pb select).state ≠ .recvd := by
  cases select with
  | failed timeLeft => exact SocketState.noConfusion
  | timedOut => exact SocketState.noConfusion
  | ready timeLeft read => cases h

/-- The response to a request is the answer in the message that is received, if there is one. -/
theorem response_request {R : Type} {pb : Protobuf} {t : TcpMessage}
    {answer : TcpMessage → Option R} {err : R} {bytesSent : Int} {select : Select} :
    (s.request pb t answer err bytesSent select).response =
      ((select.message pb).bind answer).getD err := by
  cases h : select.message pb with
  | none => simp [request, send_eq, receive_of_no_message h]
  | some m =>
    obtain ⟨hstate, hmsg⟩ := receive_of_message (s := { s with state := .sent }) h
    simp [request, send_eq, hstate, hmsg]

/-- The socket behind a request is the one behind its `receive`. -/
theorem socket_request {R : Type} {pb : Protobuf} {t : TcpMessage}
    {answer : TcpMessage → Option R} {err : R} {bytesSent : Int} {select : Select} :
    (s.request pb t answer err bytesSent select).socket =
      (s.send bytesSent).receive pb select := by
  rw [send_eq]
  by_cases h : (BaseSocket.receive { s with state := .sent } pb select).state = .recvd
  · simp [request, send_eq, h]
  · simp [request, send_eq, h]

end BaseSocket

end P2PNetwork.Client
