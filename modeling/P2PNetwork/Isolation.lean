import P2PNetwork.Client.Networking.ResponderThread
import P2PNetwork.Server.TrackerThread

/-!
# Messages on one connection

What a server thread makes of a chunk, compared over two histories of its connection. The
buffer is not cleared between rounds and is parsed as a whole, so the bytes of earlier
messages can end up in later ones.
-/

open Lib

namespace P2PNetwork

/-- Whatever has been received before and whatever the buffer held, the trackers' and the
responders' loops dispatch what the last chunk alone decodes to, as long as no chunk is mixed
with the bytes behind it. -/
theorem dispatched_alone (pb : Protobuf) (c : Chunk UInt8 clientMaxMessageSize) :
    (∀ hash fuel conn h₁ h₂ s₁ s₂ s₁' s₂',
      Run (Server.TrackerThread.run pb hash fuel conn) (Serving.Unmixed pb) s₁
        (h₁ ++ [.recv c]) s₁' →
      Run (Server.TrackerThread.run pb hash fuel conn) (Serving.Unmixed pb) s₂
        (h₂ ++ [.recv c]) s₂' →
      s₁'.dispatched.getLast? = some (pb.wire.decode c.cells) ∧
        s₂'.dispatched.getLast? = some (pb.wire.decode c.cells)) ∧
    (∀ h₁ h₂ s₁ s₂ s₁' s₂',
      Run (Client.ResponderThread.run pb) (Serving.Unmixed pb) s₁ (h₁ ++ [.recv c]) s₁' →
      Run (Client.ResponderThread.run pb) (Serving.Unmixed pb) s₂ (h₂ ++ [.recv c]) s₂' →
      s₁'.dispatched.getLast? = some (pb.wire.decode c.cells) ∧
        s₂'.dispatched.getLast? = some (pb.wire.decode c.cells)) := by
  constructor
  · intro hash fuel conn h₁ h₂ s₁ s₂ s₁' s₂' hrun₁ hrun₂
    exact ⟨Serving.last_dispatched hrun₁, Serving.last_dispatched hrun₂⟩
  · intro h₁ h₂ s₁ s₂ s₁' s₂' hrun₁ hrun₂
    exact ⟨Serving.last_dispatched hrun₁, Serving.last_dispatched hrun₂⟩

/-! ### Two requests for seedlists -/

/-- A seedlist request for hash `7`. -/
def longRequest : Chunk UInt8 clientMaxMessageSize := ⟨[8, 3, 18, 2, 8, 7], by decide, by decide⟩

/-- A seedlist request for hash `0`, which is not written. -/
def shortRequest : Chunk UInt8 clientMaxMessageSize := ⟨[8, 3, 18, 0], by decide, by decide⟩

/-- A connection to a tracker. -/
def trackerStart : Serving Server.Database := { buf := .clear 0 _, shared := {} }

/-- A connection to a responder. -/
def responderStart : Serving (List Client.File × (Int → Bytes)) :=
  { buf := .clear 0 _, shared := ([], fun _ ↦ []) }

/-- Some hash function of a tracker. -/
def someHash (name : Bytes) : Hash := UInt64.ofNat name.length

private theorem sealed_shortRequest :
    Protobuf.proto3.wire.Sealed shortRequest.cells
      ((ReadBuffer.clear 0 clientMaxMessageSize).behind shortRequest.cells.length) :=
  Serving.sealed_clear (by decide)

private theorem sealed_shortRequest_again :
    Protobuf.proto3.wire.Sealed shortRequest.cells
      (((ReadBuffer.clear 0 clientMaxMessageSize).fill shortRequest).behind
        shortRequest.cells.length) := by
  rw [ReadBuffer.behind_fill]
  exact sealed_shortRequest

/-- What the short request decodes to. -/
private theorem decode_shortRequest : Protobuf.proto3.wire.decode shortRequest.cells =
    { code := .csSeedlistRequest, contents := .seedlistRequest { hashedTorrent := 0 } } := by
  decide

/-- The short request, as the first message and again after itself. -/
theorem dispatched_alone_seedlist : ∃ s₁ s₂ t₁ t₂,
    Run (Server.TrackerThread.run .proto3 someHash 0 default) Any trackerStart
      [.recv shortRequest] s₁ ∧
    Run (Server.TrackerThread.run .proto3 someHash 0 default) Any trackerStart
      [.recv shortRequest, .recv shortRequest] s₂ ∧
    Run (Client.ResponderThread.run .proto3) Any responderStart [.recv shortRequest] t₁ ∧
    Run (Client.ResponderThread.run .proto3) Any responderStart
      [.recv shortRequest, .recv shortRequest] t₂ ∧
    (s₁.dispatched.getLast? = some (Protobuf.proto3.wire.decode shortRequest.cells) ∧
      s₂.dispatched.getLast? = some (Protobuf.proto3.wire.decode shortRequest.cells)) ∧
    t₁.dispatched.getLast? = some (Protobuf.proto3.wire.decode shortRequest.cells) ∧
      t₂.dispatched.getLast? = some (Protobuf.proto3.wire.decode shortRequest.cells) := by
  have hfirst := (FieldDecoder.decode_append sealed_shortRequest).trans decode_shortRequest
  have hagain := (FieldDecoder.decode_append sealed_shortRequest_again).trans decode_shortRequest
  have hs₁ := Serving.run_round .proto3 (Server.TrackerThread.respond someHash 0 default)
    (Serving.Unmixed .proto3) trackerStart sealed_shortRequest hfirst rfl
  have hs₂ := hs₁.append (Serving.run_round _ _ _ _ sealed_shortRequest_again hagain rfl)
  have ht₁ := Serving.run_round .proto3 Client.ResponderThread.respondShared
    (Serving.Unmixed .proto3) responderStart sealed_shortRequest hfirst rfl
  have ht₂ := ht₁.append (Serving.run_round _ _ _ _ sealed_shortRequest_again hagain rfl)
  obtain ⟨htracker, hresponder⟩ := dispatched_alone .proto3 shortRequest
  exact ⟨_, _, _, _, hs₁.any, hs₂.any, ht₁.any, ht₂.any,
    htracker _ _ _ [] [.recv shortRequest] _ _ _ _ hs₁ hs₂,
    hresponder [] [.recv shortRequest] _ _ _ _ ht₁ ht₂⟩

/-- After the long request the short one is dispatched as a list request: the end of the long
one is still in the buffer and is read as its code. -/
theorem not_dispatched_alone : ∃ s₁ s₂,
    Run (Server.TrackerThread.run .proto3 someHash 0 default) Any trackerStart
      [.recv longRequest, .recv shortRequest] s₁ ∧
    Run (Server.TrackerThread.run .proto3 someHash 0 default) Any trackerStart
      [.recv shortRequest] s₂ ∧
    s₁.dispatched.getLast? =
      some { code := .ccListRequest, contents := .seedlistRequest { hashedTorrent := 0 } } ∧
    s₂.dispatched.getLast? =
      some { code := .csSeedlistRequest, contents := .seedlistRequest { hashedTorrent := 0 } } := by
  have hlong : Protobuf.proto3.wire.decode (longRequest.cells ++
      (ReadBuffer.clear 0 clientMaxMessageSize).behind longRequest.cells.length) =
      { code := .csSeedlistRequest, contents := .seedlistRequest { hashedTorrent := 7 } } :=
    (FieldDecoder.decode_append (Serving.sealed_clear (by decide))).trans (by decide)
  -- the second round parses the short request and, behind it, the last two bytes of the long one
  let mixed : Chunk UInt8 clientMaxMessageSize := ⟨[8, 3, 18, 0, 8, 7], by decide, by decide⟩
  have hmixed : Protobuf.proto3.wire.decode (mixed.cells ++
      (ReadBuffer.clear 0 clientMaxMessageSize).behind mixed.cells.length) =
      { code := .ccListRequest, contents := .seedlistRequest { hashedTorrent := 0 } } :=
    (FieldDecoder.decode_append (Serving.sealed_clear (by decide))).trans (by decide)
  have hbehind : shortRequest.cells ++ ((ReadBuffer.clear 0 clientMaxMessageSize).fill
      longRequest).behind shortRequest.cells.length =
        mixed.cells ++ (ReadBuffer.clear 0 clientMaxMessageSize).behind mixed.cells.length := rfl
  rw [← hbehind] at hmixed
  have hshort := (FieldDecoder.decode_append sealed_shortRequest).trans decode_shortRequest
  have hfirst := Serving.run_round .proto3 (Server.TrackerThread.respond someHash 0 default)
    Any trackerStart trivial hlong rfl
  have hsecond := hfirst.append (Serving.run_round _ _ _ _ trivial hmixed rfl)
  have halone := Serving.run_round .proto3 (Server.TrackerThread.respond someHash 0 default)
    Any trackerStart trivial hshort rfl
  exact ⟨_, _, hsecond, halone, rfl, rfl⟩

end P2PNetwork
