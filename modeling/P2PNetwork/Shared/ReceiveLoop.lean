import P2PNetwork.Lib.ReadBuffer
import P2PNetwork.Lib.Run
import P2PNetwork.Shared.Protobuf

/-!
# The receive loop of a server thread

`TrackerThread::run` (`src/server/TrackerThread.cpp:73–97`) and `ResponderThread::run`
(`src/client/networking/ResponderThread.cpp:8–30`) are one loop: receive into the front of
a buffer, parse the whole buffer, respond. A run ends where `recv` returns no bytes.
-/

open Lib

namespace P2PNetwork

/-- `#define CLIENT_MAX_MESSAGE_SIZE 128*1024` (`TrackerThread.h:9`, `ResponderThread.cpp:6`). -/
def clientMaxMessageSize : Nat := 128 * 1024

/-- A thread that serves a connection: its buffer, what it shares with other threads, the
messages it has passed to `respond`, and the messages it has sent. -/
structure Serving (σ : Type) where
  buf : ReadBuffer UInt8 clientMaxMessageSize
  shared : σ
  dispatched : List TcpMessage := []
  sent : List TcpMessage := []

namespace Serving

/-- One round of the loop, or a change that other threads make. -/
inductive Event (σ : Type)
  | recv (chunk : Chunk UInt8 clientMaxMessageSize)
  | others (shared : σ)

/-- The chunk that an event receives. -/
def Event.chunk {σ : Type} : Event σ → Option (Chunk UInt8 clientMaxMessageSize)
  | .recv chunk => some chunk
  | .others _ => none

variable {σ : Type} (pb : Protobuf) (respond : σ → TcpMessage → Option (σ × Option TcpMessage))

/-- The body of the loop: `ParseFromArray` gets `sizeof(buf)`, and not the number of bytes
that have been received. -/
def step (s : Serving σ) : Event σ → Option (Serving σ)
  | .recv chunk => do
    let buf := s.buf.fill chunk
    let message := pb.parseFromArray buf.cells clientMaxMessageSize
    let (shared, reply) ← respond s.shared message
    some ⟨buf, shared, s.dispatched ++ [message], s.sent ++ reply.toList⟩
  | .others shared => some { s with shared := shared }

/-- No field is read across the end of the chunk into what earlier chunks left behind it. -/
def Unmixed (s : Serving σ) : Event σ → Prop
  | .recv chunk => pb.wire.Sealed chunk.cells (s.buf.behind chunk.cells.length)
  | .others _ => True

variable {pb respond} {s s₀ s' : Serving σ} {c : Chunk UInt8 clientMaxMessageSize}

/-- The buffer is parsed as a whole: the chunk, and the bytes behind it. -/
theorem parse_fill (buf : ReadBuffer UInt8 clientMaxMessageSize) :
    pb.parseFromArray (buf.fill c).cells clientMaxMessageSize =
      pb.wire.decode (c.cells ++ buf.behind c.cells.length) := by
  have hlen := (buf.fill c).length_cells
  rw [Protobuf.parseFromArray, if_neg (by omega), Int.toNat_natCast,
    List.take_of_length_le (by omega)]
  rfl

/-- A round dispatches what the chunk and the bytes behind it decode to. -/
theorem step_recv (h : step pb respond s (.recv c) = some s') :
    s'.buf = s.buf.fill c ∧ s'.dispatched =
      s.dispatched ++ [pb.wire.decode (c.cells ++ s.buf.behind c.cells.length)] := by
  rw [← parse_fill]
  obtain ⟨r, -, hr⟩ := Option.bind_eq_some_iff.mp h
  cases hr
  exact ⟨rfl, rfl⟩

/-- A round whose message `respond` can handle. -/
theorem run_round (pb : Protobuf) (respond : σ → TcpMessage → Option (σ × Option TcpMessage))
    (ok : Serving σ → Event σ → Prop) (s : Serving σ) {m : TcpMessage} {r : σ × Option TcpMessage}
    (hok : ok s (.recv c)) (hm : pb.wire.decode (c.cells ++ s.buf.behind c.cells.length) = m)
    (hr : respond s.shared m = some r) :
    Run (step pb respond) ok s [.recv c]
      ⟨s.buf.fill c, r.1, s.dispatched ++ [m], s.sent ++ r.2.toList⟩ := by
  refine .single hok ?_
  rw [← parse_fill] at hm
  simp only [step, hm, hr]
  rfl

/-- While no chunk is mixed with old bytes, every message is what its chunk decodes to. -/
theorem dispatched_run {es : List (Event σ)} (hrun : Run (step pb respond) (Unmixed pb) s₀ es s) :
    s.dispatched =
      s₀.dispatched ++ (es.filterMap Event.chunk).map fun c ↦ pb.wire.decode c.cells := by
  refine hrun.traceInvariant (P := fun es s ↦ s.dispatched =
    s₀.dispatched ++ (es.filterMap Event.chunk).map fun c ↦ pb.wire.decode c.cells) ?_ ?_
  · simp
  · intro es s e s' _ h hok hs
    cases e with
    | recv c =>
      have hsealed : pb.wire.Sealed c.cells (s.buf.behind c.cells.length) := hok
      rw [(step_recv hs).2, h, FieldDecoder.decode_append hsealed]
      simp [Event.chunk]
    | others shared =>
      cases hs
      show s.dispatched = _
      rw [h]
      simp [Event.chunk]

/-- The last message of a run whose chunks are not mixed is what its chunk decodes to. -/
theorem last_dispatched {es : List (Event σ)}
    (hrun : Run (step pb respond) (Unmixed pb) s₀ (es ++ [.recv c]) s) :
    s.dispatched.getLast? = some (pb.wire.decode c.cells) := by
  rw [dispatched_run hrun]
  simp [Event.chunk]

/-- On a buffer that has been cleared, a chunk of whole fields is not mixed with anything. -/
theorem sealed_clear (hwhole : pb.wire.Whole c.cells) :
    pb.wire.Sealed c.cells
      ((ReadBuffer.clear 0 clientMaxMessageSize).behind c.cells.length) := by
  rw [ReadBuffer.behind_clear]
  cases hleft : clientMaxMessageSize - c.cells.length with
  | zero => exact FieldDecoder.sealed_nil c.cells
  | succ k =>
    rw [List.replicate_succ]
    exact FieldDecoder.sealed_zero hwhole _

end Serving

end P2PNetwork
