import P2PNetwork.Client.Networking.BaseSocket
import P2PNetwork.Shared.Torrent

/-!
# Requests to other clients

`src/client/networking/CSocket.cpp`, on a byte stream that a reply may cross in several
chunks. Each request reads once, so it takes one chunk.
-/

open Lib

namespace P2PNetwork.Client

namespace CSocket

/-- The message of `requestFragmentsList` (`CSocket.cpp:6–10`). -/
def listMessage (torrent : Torrent) : TcpMessage where
  code := .ccListRequest
  contents := .listRequest { hashedTorrent := torrent.hashed }

/-- `requestFragmentsList` (`CSocket.cpp:5–32`). -/
def requestFragmentsList (pb : Protobuf) (s : BaseSocket) (torrent : Torrent) (bytesSent : Int)
    (select : Select) : Exchange ListResponse :=
  let answer (m : TcpMessage) := if m.code = .ccListResponse then some m.listResponse else none
  s.request pb (listMessage torrent) answer { fileCode := .error } bytesSent select

/-- The message of `requestFragment` (`CSocket.cpp:35–40`). -/
def fragmentMessage (torrent : Torrent) (fragNum : UInt32) : TcpMessage where
  code := .ccFragmentRequest
  contents := .fragmentRequest { hashedTorrent := torrent.hashed, fragNum := fragNum }

/-- `requestFragment` (`CSocket.cpp:34–52`). -/
def requestFragment (pb : Protobuf) (s : BaseSocket) (torrent : Torrent) (fragNum : UInt32)
    (bytesSent : Int) (select : Select) : Exchange FragmentResponse :=
  let answer (m : TcpMessage) :=
    if m.code = .ccFragmentResponse then some m.fragmentResponse else none
  s.request pb (fragmentMessage torrent fragNum) answer { fileCode := .error } bytesSent select

end CSocket

/-- A chunk of the stream, the number of the reply its bytes belong to, and what `select`
leaves of the timeout when it can be read. -/
structure Arriving where
  reply : Nat
  chunk : Chunk UInt8 maxMessageSize
  timeLeft : Nat

namespace BaseSocket

/-- The chunk that the next `receive` decodes; a socket outside its set is never ready. -/
def taken (s : BaseSocket) (stream : List Arriving) : Option Arriving :=
  if s.inSelectSet then stream.head? else none

/-- The stream behind the next `receive`. -/
def untaken (s : BaseSocket) (stream : List Arriving) : List Arriving :=
  if s.inSelectSet then stream.tail else stream

/-- What `select` and `read` do on a stream. -/
def selectOn (s : BaseSocket) (stream : List Arriving) : Select :=
  match s.taken stream with
  | some c => .ready c.timeLeft (.bytes c.chunk)
  | none => .timedOut

end BaseSocket

/-- The bytes that a stream delivers. -/
def delivered (stream : List Arriving) : Bytes := stream.flatMap fun c ↦ c.chunk.cells

/-- A request over the chunks of reply `0`: its response is what the whole message has, or
an error, and the request after it decodes no chunk of that reply. -/
def Survives {R : Type} (whole : R) (fileCode : R → FileCode) (request : Select → Exchange R)
    (s : BaseSocket) (stream later : List Arriving) : Prop :=
  let e := request (s.selectOn stream)
  (e.response = whole ∨ fileCode e.response = .error) ∧
    ∀ c, e.socket.taken (s.untaken stream ++ later) = some c → c.reply ≠ 0

section

variable {R : Type} {pb : Protobuf} {t m : TcpMessage} {answer : TcpMessage → Option R} {err : R}
  {s : BaseSocket} {bytesSent : Int} {stream : List Arriving} {c : Arriving}

namespace BaseSocket

/-- A request that takes a chunk decodes it, and the response is read from what it decodes to. -/
theorem request_of_taken (pb : Protobuf) (t : TcpMessage) (answer : TcpMessage → Option R) (err : R)
    (bytesSent : Int) (h : s.taken stream = some c) :
    (s.request pb t answer err bytesSent (s.selectOn stream)).socket.inSelectSet = s.inSelectSet ∧
      (s.request pb t answer err bytesSent (s.selectOn stream)).socket.lastMsg =
        pb.wire.decode c.chunk.cells ∧
      (s.request pb t answer err bytesSent (s.selectOn stream)).response =
        (answer (pb.wire.decode c.chunk.cells)).getD err := by
  have hselect : s.selectOn stream = .ready c.timeLeft (.bytes c.chunk) := by
    rw [selectOn, h]
  obtain ⟨-, hmsg, hset, -⟩ := receive_ready (s := s.send bytesSent) pb c.timeLeft (.bytes c.chunk)
  rw [hselect, socket_request, response_request]
  refine ⟨hset.trans ?_, hmsg, rfl⟩
  rw [send_eq]

/-- A request that takes no chunk fails, and so will all later ones. -/
theorem request_of_not_taken (pb : Protobuf) (t : TcpMessage) (answer : TcpMessage → Option R)
    (err : R) (bytesSent : Int) (h : s.taken stream = none) :
    (s.request pb t answer err bytesSent (s.selectOn stream)).socket.inSelectSet = false ∧
      (s.request pb t answer err bytesSent (s.selectOn stream)).response = err := by
  have hselect : s.selectOn stream = .timedOut := by
    rw [selectOn, h]
  rw [hselect]
  exact ⟨rfl, rfl⟩

end BaseSocket

variable {whole : R} {fileCode : R → FileCode} {later : List Arriving}

private theorem survives_of_not_taken (herr : fileCode err = .error) (h : s.taken stream = none) :
    Survives whole fileCode (s.request pb t answer err bytesSent) s stream later := by
  obtain ⟨hset, hresponse⟩ := BaseSocket.request_of_not_taken pb t answer err bytesSent h
  refine ⟨.inr (by rw [hresponse, herr]), fun c hc ↦ ?_⟩
  rw [BaseSocket.taken, hset] at hc
  cases hc

private theorem survives_of_single (hround : pb.wire.decode (pb.serialize m) = m)
    (hanswer : answer m = some whole ∨ answer m = none) (herr : fileCode err = .error)
    (hbytes : delivered [c] = pb.serialize m) (hlater : ∀ c ∈ later, c.reply ≠ 0)
    (hset : s.inSelectSet = true) :
    Survives whole fileCode (s.request pb t answer err bytesSent) s [c] later := by
  have htaken : s.taken [c] = some c := by
    rw [BaseSocket.taken, if_pos hset, List.head?_cons]
  have hdecode : pb.wire.decode c.chunk.cells = m := by
    rw [← hround, ← hbytes, delivered, List.flatMap_singleton]
  obtain ⟨hkept, -, hresponse⟩ := BaseSocket.request_of_taken pb t answer err bytesSent htaken
  rw [hdecode] at hresponse
  constructor
  · rw [hresponse]
    cases hanswer with
    | inl hwhole => exact .inl (by rw [hwhole, Option.getD_some])
    | inr hnone => exact .inr (by rw [hnone, Option.getD_none, herr])
  · intro c' hc'
    rw [BaseSocket.taken, hkept, if_pos hset, BaseSocket.untaken, if_pos hset] at hc'
    exact hlater c' (List.mem_of_mem_head? hc')

private theorem not_survives_of_split {c' : Arriving} {rest : List Arriving}
    (hreply : c'.reply = 0) (hset : s.inSelectSet = true) :
    ¬ Survives whole fileCode (s.request pb t answer err bytesSent) s (c :: c' :: rest) later := by
  have htaken : s.taken (c :: c' :: rest) = some c := by
    rw [BaseSocket.taken, if_pos hset, List.head?_cons]
  have hkept := (BaseSocket.request_of_taken pb t answer err bytesSent htaken).1
  rintro ⟨-, hnext⟩
  refine hnext c' ?_ hreply
  rw [BaseSocket.taken, hkept, if_pos hset, BaseSocket.untaken, if_pos hset]
  rfl

/-- A reply survives exactly when it arrives in one chunk, or when the socket is not read from
any more. -/
theorem survives_request_iff (hround : pb.wire.decode (pb.serialize m) = m)
    (hanswer : answer m = some whole ∨ answer m = none) (herr : fileCode err = .error)
    (hbytes : delivered stream = pb.serialize m) (hreply : ∀ c ∈ stream, c.reply = 0)
    (hlater : ∀ c ∈ later, c.reply ≠ 0) :
    Survives whole fileCode (s.request pb t answer err bytesSent) s stream later ↔
      s.inSelectSet = false ∨ stream.length ≤ 1 := by
  cases hset : s.inSelectSet with
  | false =>
    have htaken : s.taken stream = none := by
      rw [BaseSocket.taken, hset]
      rfl
    exact iff_of_true (survives_of_not_taken herr htaken) (.inl rfl)
  | true =>
    match stream with
    | [] =>
      have htaken : s.taken [] = none := by
        rw [BaseSocket.taken, hset]
        rfl
      exact iff_of_true (survives_of_not_taken herr htaken) (.inr (by simp))
    | [c] =>
      exact iff_of_true (survives_of_single hround hanswer herr hbytes hlater hset)
        (.inr (by simp))
    | c :: c' :: rest =>
      have hfirst : c'.reply = 0 := hreply c' (by simp)
      exact iff_of_false (not_survives_of_split hfirst hset) (by simp)

end

/-- For every reply and every split of its bytes into chunks, `requestFragment` and
`requestFragmentsList` return what the reply has, or an error, and leave none of its bytes to
the next request, exactly when it arrives in one chunk or the socket is out of its set. -/
theorem replies_survive_iff {pb : Protobuf} {m : TcpMessage} {stream later : List Arriving}
    (hround : pb.wire.decode (pb.serialize m) = m) (hbytes : delivered stream = pb.serialize m)
    (hreply : ∀ c ∈ stream, c.reply = 0) (hlater : ∀ c ∈ later, c.reply ≠ 0)
    (s : BaseSocket) (torrent : Torrent) (fragNum : UInt32) (bytesSent : Int) :
    (Survives m.fragmentResponse FragmentResponse.fileCode
        (CSocket.requestFragment pb s torrent fragNum bytesSent) s stream later ↔
      s.inSelectSet = false ∨ stream.length ≤ 1) ∧
    (Survives m.listResponse ListResponse.fileCode
        (CSocket.requestFragmentsList pb s torrent bytesSent) s stream later ↔
      s.inSelectSet = false ∨ stream.length ≤ 1) := by
  constructor
  · refine survives_request_iff hround ?_ rfl hbytes hreply hlater
    by_cases hcode : m.code = .ccFragmentResponse
    · exact .inl (if_pos hcode)
    · exact .inr (if_neg hcode)
  · refine survives_request_iff hround ?_ rfl hbytes hreply hlater
    by_cases hcode : m.code = .ccListResponse
    · exact .inl (if_pos hcode)
    · exact .inr (if_neg hcode)

/-! ### A fragment in two chunks -/

/-- A socket that `start` has opened. -/
def openSocket : BaseSocket where
  inSelectSet := true
  recvTimeout := defaultRecvTimeout * 1000000
  trackerIpString := [49]
  trackerPort := 2000
  readBuffer := .clear 0 maxMessageSize
  lastMsg := {}
  state := .open

/-- A torrent with hash `5`. -/
def someTorrent : Torrent := { hashed := 5, size := 8003, fileName := [97] }

/-- The reply with fragment `1` of it. -/
def fragmentReply : TcpMessage where
  code := .ccFragmentResponse
  contents := .fragmentResponse
    { hashedTorrent := 5, fragNum := 1, fileCode := .fine, fragment := [7, 8, 9] }

/-- The reply as it arrives when it is cut in front of the field `fragment`. -/
def cutReply : List Arriving :=
  [⟨0, ⟨[8, 10, 74, 11, 8, 5, 16, 1, 24, 5], by decide, by decide⟩, 5000000⟩,
    ⟨0, ⟨[34, 3, 7, 8, 9], by decide, by decide⟩, 5000000⟩]

/-- The reply that is cut, with nothing behind it. -/
theorem replies_survive_iff_cut :
    (Survives fragmentReply.fragmentResponse FragmentResponse.fileCode
        (CSocket.requestFragment .proto3 openSocket someTorrent 1 16) openSocket cutReply [] ↔
      openSocket.inSelectSet = false ∨ cutReply.length ≤ 1) ∧
    (Survives fragmentReply.listResponse ListResponse.fileCode
        (CSocket.requestFragmentsList .proto3 openSocket someTorrent 16) openSocket cutReply [] ↔
      openSocket.inSelectSet = false ∨ cutReply.length ≤ 1) :=
  replies_survive_iff (by decide) (by decide) (by decide) (by decide) openSocket someTorrent 1 16

/-- `requestFragment` reports success without the bytes of the fragment, and the next request
decodes them as a message of its own. -/
theorem not_survives_cut :
    (CSocket.requestFragment .proto3 openSocket someTorrent 1 16
        (openSocket.selectOn cutReply)).response =
      { hashedTorrent := 5, fragNum := 1, fileCode := .fine, fragment := [] } ∧
    ¬ Survives fragmentReply.fragmentResponse FragmentResponse.fileCode
        (CSocket.requestFragment .proto3 openSocket someTorrent 1 16) openSocket cutReply [] := by
  have hresponse : (CSocket.requestFragment .proto3 openSocket someTorrent 1 16
      (openSocket.selectOn cutReply)).response =
        { hashedTorrent := 5, fragNum := 1, fileCode := .fine, fragment := [] } := by
    decide
  refine ⟨hresponse, ?_⟩
  rintro ⟨hwhole, hnext⟩
  rw [hresponse] at hwhole
  revert hwhole
  decide

end P2PNetwork.Client
