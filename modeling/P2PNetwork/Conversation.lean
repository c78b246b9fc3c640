import P2PNetwork.Client.Networking.Failures
import P2PNetwork.Client.Networking.Replies
import P2PNetwork.Client.Networking.Timeout
import P2PNetwork.Shared.Serialization

/-!
# Conversations

The requests of a client on one connection, and the thread that serves it. Each message crosses the
connection in one piece. The thread never clears its buffer, so a request is understood where it
reaches behind everything that was received before it.
-/

open Lib

namespace P2PNetwork

open Client (BaseSocket Exchange Request Select maxMessageSize)

/-- A message that crosses a connection in one piece and is parsed back. -/
structure Protobuf.Sendable (pb : Protobuf) (m : TcpMessage) : Prop where
  nonempty : pb.serialize m ≠ []
  fits : (pb.serialize m).length ≤ maxMessageSize
  decode : pb.wire.decode (pb.serialize m) = m
  whole : pb.wire.Whole (pb.serialize m)

instance (pb : Protobuf) (m : TcpMessage) : Decidable (pb.Sendable m) :=
  decidable_of_iff (pb.serialize m ≠ [] ∧ (pb.serialize m).length ≤ maxMessageSize ∧
      pb.wire.decode (pb.serialize m) = m ∧ pb.wire.Whole (pb.serialize m))
    ⟨fun h ↦ ⟨h.1, h.2.1, h.2.2.1, h.2.2.2⟩, fun h ↦ ⟨h.nonempty, h.fits, h.decode, h.whole⟩⟩

namespace Client.Request

/-- The message that a request sends. -/
def message (responderPort : UInt32) : Request → TcpMessage
  | sendOk => SSocket.okMessage
  | sendNewTorrentRequest torrent => SSocket.newTorrentMessage responderPort torrent
  | sendSeedlistRequest hashedTorrent => SSocket.seedlistMessage hashedTorrent
  | requestFragmentsList torrent => CSocket.listMessage torrent
  | requestFragment torrent fragNum => CSocket.fragmentMessage torrent fragNum

/-- What a request returns when it receives `m`. -/
def result (m : TcpMessage) : (r : Request) → Option r.Response
  | sendOk => some m.code
  | sendNewTorrentRequest _ =>
    some (if m.code = .csNewResponse then m.newResponse.newHash else 0)
  | sendSeedlistRequest _ =>
    if m.code = .csSeedlistResponse then
      m.seedlistResponse.ipV4Peers[0]?.map fun _ ↦ m.seedlistResponse
    else some {}
  | requestFragmentsList _ =>
    some (if m.code = .ccListResponse then m.listResponse else { fileCode := .error })
  | requestFragment _ _ =>
    some (if m.code = .ccFragmentResponse then m.fragmentResponse else { fileCode := .error })

/-- What a request returns for the message it receives, or for none. -/
def answer (r : Request) : Option TcpMessage → Option r.Response
  | none => some r.failure
  | some m => r.result m

variable {pb : Protobuf} {responderPort : UInt32} {s : BaseSocket} {bytesSent : Int}
  {select : Select}

/-- A request gives its message to `send`, and receives with the socket it is called on. -/
theorem perform_spec {r : Request} {e : Exchange r.Response}
    (h : r.perform pb responderPort s bytesSent select = some e) :
    e.sent = pb.serialize (r.message responderPort) ∧
      e.socket = (s.send bytesSent).receive pb select := by
  have hrequest {R : Type} (t : TcpMessage) (answer : TcpMessage → Option R) (err : R) :
      (s.request pb t answer err bytesSent select).sent = pb.serialize t ∧
        (s.request pb t answer err bytesSent select).socket =
          (s.send bytesSent).receive pb select := by
    refine ⟨?_, BaseSocket.socket_request⟩
    unfold BaseSocket.request
    dsimp only
    split_ifs <;> rfl
  cases r with
  | sendSeedlistRequest hashedTorrent =>
    simp only [perform, SSocket.sendSeedlistRequest] at h
    split at h
    · obtain ⟨_, _, rfl⟩ := Option.map_eq_some_iff.mp h
      exact hrequest _ _ _
    · cases h
      exact hrequest _ _ _
  | _ =>
    cases h
    exact hrequest _ _ _

/-- A request for the content of a message with one code. -/
private theorem response_of_code {R : Type} {t : TcpMessage} {code : TcpCode}
    {content : TcpMessage → R} {err : R} :
    (s.request pb t (fun m ↦ if m.code = code then some (content m) else none) err bytesSent
        select).response =
      match select.message pb with
      | none => err
      | some m => if m.code = code then content m else err := by
  rw [BaseSocket.response_request]
  cases select.message pb with
  | none => rfl
  | some m => by_cases hcode : m.code = code <;> simp [hcode]

/-- What it returns is made of the message it receives. -/
theorem response_perform (responderPort : UInt32) (s : BaseSocket) (bytesSent : Int)
    (select : Select) (r : Request) :
    (r.perform pb responderPort s bytesSent select).map Exchange.response =
      r.answer (select.message pb) := by
  cases r with
  | sendSeedlistRequest hashedTorrent =>
    simp only [perform, SSocket.response_sendSeedlistRequest]
    cases select.message pb <;> rfl
  | sendOk =>
    simp only [perform, SSocket.sendOk, BaseSocket.response_request, Option.map_some]
    cases select.message pb <;> rfl
  | sendNewTorrentRequest torrent =>
    simp only [perform, SSocket.sendNewTorrentRequest, response_of_code, Option.map_some]
    cases select.message pb <;> rfl
  | requestFragmentsList torrent =>
    simp only [perform, CSocket.requestFragmentsList, response_of_code, Option.map_some]
    cases select.message pb <;> rfl
  | requestFragment torrent fragNum =>
    simp only [perform, CSocket.requestFragment, response_of_code, Option.map_some]
    cases select.message pb <;> rfl

end Client.Request

/-- A client's socket, the thread at the other end of the connection, and what the requests have
returned. -/
structure Conversation (σ : Type) where
  socket : BaseSocket
  thread : Serving σ
  returned : List ((r : Request) × r.Response) := []

namespace Conversation

variable {σ : Type} (pb : Protobuf) (respond : σ → TcpMessage → Option (σ × Option TcpMessage))
  (responderPort : UInt32)

/-- The bytes arrive in one piece. -/
def whole (n : Nat) (bs : Bytes) : Option (Chunk UInt8 n) :=
  if h : bs ≠ [] ∧ bs.length ≤ n then some ⟨bs, h.1, h.2⟩ else none

/-- What `select` and `read` return when the thread has sent this: its reply can be read after
`wait` microseconds. -/
def arrival (s : BaseSocket) (wait : Nat) : List TcpMessage → Option Select
  | [] => some .timedOut
  | m :: _ => (whole maxMessageSize (pb.serialize m)).map fun chunk ↦
      s.selectFor ⟨some wait, .bytes chunk⟩

/-- One request: its message is received and answered by the thread, and the reply is received by
the client. -/
def step (c : Conversation σ) (call : Request × Nat) : Option (Conversation σ) := do
  let request := pb.serialize (call.1.message responderPort)
  let chunk ← whole clientMaxMessageSize request
  let thread ← Serving.step pb respond c.thread (.recv chunk)
  let select ← arrival pb c.socket call.2 (thread.sent.drop c.thread.sent.length)
  let e ← call.1.perform pb responderPort c.socket request.length select
  some ⟨e.socket, thread, c.returned ++ [⟨call.1, e.response⟩]⟩

/-- The same without a connection: `respond` is called with the message, and the request gets its
reply. -/
def localStep (s : σ × List ((r : Request) × r.Response)) (call : Request × Nat) :
    Option (σ × List ((r : Request) × r.Response)) := do
  let (shared, reply) ← respond s.1 (call.1.message responderPort)
  let response ← call.1.answer reply
  some (shared, s.2 ++ [⟨call.1, response⟩])

/-- The request and its reply can be sent. -/
def Answered (s : σ × List ((r : Request) × r.Response)) (call : Request × Nat) : Prop :=
  pb.Sendable (call.1.message responderPort) ∧
    ∀ shared reply, respond s.1 (call.1.message responderPort) = some (shared, reply) →
      ∃ m, reply = some m ∧ pb.Sendable m

/-- How many bytes a request has. -/
def size (call : Request × Nat) : Nat := (pb.serialize (call.1.message responderPort)).length

/-- How long the replies take all together. -/
def waits : List (Request × Nat) → Nat
  | [] => 0
  | call :: calls => call.2 + waits calls

/-- The socket can be read, and behind its first `k` cells the buffer of the thread is clear. -/
structure Open (c : Conversation σ) (k : Nat) : Prop where
  inSelectSet : c.socket.inSelectSet = true
  clear : c.thread.buf.behind k = List.replicate (clientMaxMessageSize - k) 0

/-- What a conversation has led to. -/
def outcome (c : Conversation σ) : σ × List ((r : Request) × r.Response) :=
  (c.thread.shared, c.returned)

variable {pb respond responderPort} {c c' : Conversation σ} {call : Request × Nat} {k : Nat}
  {m : TcpMessage}

/-! ### Messages in one piece -/

/-- A message arrives. -/
theorem whole_serialize {n : Nat} (hm : pb.Sendable m) (hn : maxMessageSize ≤ n) :
    ∃ chunk, whole n (pb.serialize m) = some chunk ∧ chunk.cells = pb.serialize m := by
  have hlength : (pb.serialize m).length ≤ n := Nat.le_trans hm.fits hn
  exact ⟨⟨_, hm.nonempty, hlength⟩, dif_pos ⟨hm.nonempty, hlength⟩, rfl⟩

/-- In front of clear cells it decodes to itself. -/
theorem decode_clear (hm : pb.Sendable m) (k : Nat) :
    pb.wire.decode (pb.serialize m ++ List.replicate k 0) = m := by
  cases k with
  | zero => simpa using hm.decode
  | succ k =>
    rw [List.replicate_succ, FieldDecoder.decode_append (FieldDecoder.sealed_zero hm.whole _)]
    exact hm.decode

/-- Cells behind clear cells are clear. -/
theorem Open.behind (hc : c.Open k) {l : Nat} (hl : k ≤ l) :
    c.thread.buf.behind l = List.replicate (clientMaxMessageSize - l) 0 := by
  obtain ⟨j, rfl⟩ := Nat.exists_eq_add_of_le hl
  have hclear := hc.clear
  rw [ReadBuffer.behind] at hclear ⊢
  rw [← List.drop_drop, hclear, List.drop_replicate, Nat.sub_sub]

/-- The thread calls `respond` with the message that the client has sent. -/
theorem step_thread (respond : σ → TcpMessage → Option (σ × Option TcpMessage)) (hc : c.Open k)
    (hm : pb.Sendable m) (hk : k ≤ (pb.serialize m).length)
    {chunk : Chunk UInt8 clientMaxMessageSize} (hchunk : chunk.cells = pb.serialize m) :
    Serving.step pb respond c.thread (.recv chunk) =
      (respond c.thread.shared m).map fun r ↦
        { buf := c.thread.buf.fill chunk, shared := r.1, dispatched := c.thread.dispatched ++ [m],
          sent := c.thread.sent ++ r.2.toList } := by
  have hdecode : pb.parseFromArray (c.thread.buf.fill chunk).cells clientMaxMessageSize = m := by
    rw [Serving.parse_fill, hchunk, hc.behind hk]
    exact decode_clear hm _
  simp only [Serving.step, hdecode]
  cases respond c.thread.shared m <;> rfl

/-- A reply that comes in time is received, and what is left of the timeout is kept. -/
theorem arrival_eq (hset : c.socket.inSelectSet = true) (hm : pb.Sendable m) {wait : Nat}
    (hwait : wait ≤ c.socket.recvTimeout) :
    ∃ chunk, arrival pb c.socket wait [m] =
        some (.ready (c.socket.recvTimeout - wait) (.bytes chunk)) ∧
      (Select.ready (c.socket.recvTimeout - wait) (.bytes chunk)).message pb = some m := by
  obtain ⟨chunk, hchunk, hcells⟩ := whole_serialize (n := maxMessageSize) hm (Nat.le_refl _)
  refine ⟨chunk, ?_, ?_⟩
  · simp [arrival, hchunk, BaseSocket.selectFor, hset, hwait]
  · show some (pb.wire.decode chunk.cells) = some m
    rw [hcells, hm.decode]

/-! ### Conversations without a connection -/

/-- What a conversation keeps for the requests to come. -/
structure Kept (pb : Protobuf) (responderPort : UInt32) (c : Conversation σ)
    (call : Request × Nat) (c' : Conversation σ) : Prop where
  isOpen : c'.Open (size pb responderPort call)
  timeout : c'.socket.recvTimeout = c.socket.recvTimeout - call.2

/-- A request that reaches behind the cells that are not clear, and whose reply comes in time, has
the outcome that it has without a connection. -/
theorem outcome_step (hc : c.Open k) (hk : k ≤ size pb responderPort call)
    (hwait : call.2 ≤ c.socket.recvTimeout)
    (hok : Answered pb respond responderPort c.outcome call) :
    (step pb respond responderPort c call).map outcome =
        localStep respond responderPort c.outcome call ∧
      ∀ c', step pb respond responderPort c call = some c' → Kept pb responderPort c call c' := by
  obtain ⟨hrequest, hreply⟩ := hok
  obtain ⟨chunk, hwhole, hcells⟩ := whole_serialize (n := clientMaxMessageSize) hrequest
    (Nat.le_refl _)
  have hthread := step_thread respond hc hrequest hk hcells
  cases hrespond : respond c.thread.shared (call.1.message responderPort) with
  | none =>
    rw [hrespond] at hthread
    simp [step, localStep, outcome, hwhole, hthread, hrespond]
  | some r =>
    obtain ⟨shared, reply⟩ := r
    obtain ⟨m, rfl, hm⟩ := hreply shared reply hrespond
    rw [hrespond] at hthread
    obtain ⟨received, harrival, hmessage⟩ := arrival_eq hc.inSelectSet hm hwait
    have hresult := @Client.Request.response_perform pb responderPort c.socket
      (pb.serialize (call.1.message responderPort)).length
      (.ready (c.socket.recvTimeout - call.2) (.bytes received)) call.1
    rw [hmessage] at hresult
    cases hperform : call.1.perform pb responderPort c.socket
        (pb.serialize (call.1.message responderPort)).length
        (.ready (c.socket.recvTimeout - call.2) (.bytes received)) with
    | none =>
      rw [hperform] at hresult
      have hnone : call.1.answer (some m) = none := hresult.symm
      simp [step, localStep, outcome, hwhole, hthread, hrespond, harrival, hperform, hnone]
    | some e =>
      rw [hperform] at hresult
      have hsome : call.1.answer (some m) = some e.response := hresult.symm
      have hstep : step pb respond responderPort c call = some ⟨e.socket,
          ⟨c.thread.buf.fill chunk, shared, c.thread.dispatched ++
            [call.1.message responderPort], c.thread.sent ++ [m]⟩,
          c.returned ++ [⟨call.1, e.response⟩]⟩ := by
        simp [step, hwhole, hthread, harrival, hperform]
      constructor
      · simp [hstep, localStep, outcome, hrespond, hsome]
      · rw [hstep]
        rintro c' ⟨⟩
        have hsocket := (Client.Request.perform_spec hperform).2
        rw [BaseSocket.send_eq] at hsocket
        refine ⟨⟨?_, ?_⟩, ?_⟩
        · show e.socket.inSelectSet = true
          rw [hsocket]
          exact hc.inSelectSet
        · show (c.thread.buf.fill chunk).behind (size pb responderPort call) = _
          have hsize : size pb responderPort call = chunk.cells.length := by
            rw [hcells]
            rfl
          rw [hsize, ReadBuffer.behind_fill, ← hsize]
          exact hc.behind hk
        · show e.socket.recvTimeout = _
          rw [hsocket]
          rfl

/-- A connection whose socket can be read, to a thread whose buffer is clear. -/
theorem open_of_clear (hset : c.socket.inSelectSet = true)
    (hclear : c.thread.buf = .clear 0 clientMaxMessageSize) : c.Open 0 := by
  refine ⟨hset, ?_⟩
  rw [hclear]
  rfl

private theorem outcome_run {calls : List (Request × Nat)} (hc : c.Open k)
    (hbehind : ∀ call ∈ calls, k ≤ size pb responderPort call)
    (hwaits : waits calls ≤ c.socket.recvTimeout)
    (hgrowing : calls.Pairwise fun call call' ↦
      size pb responderPort call ≤ size pb responderPort call')
    (hok : Each (localStep respond responderPort) (Answered pb respond responderPort) c.outcome
      calls) :
    (calls.foldlM (step pb respond responderPort) c).map outcome =
      calls.foldlM (localStep respond responderPort) c.outcome := by
  induction calls generalizing c k with
  | nil => rfl
  | cons call calls ih =>
    obtain ⟨hcall, hrest⟩ := hok
    obtain ⟨hfirst, hgrowing⟩ := List.pairwise_cons.mp hgrowing
    rw [waits] at hwaits
    obtain ⟨houtcome, hkept⟩ := outcome_step hc (hbehind call List.mem_cons_self) (by omega) hcall
    rw [List.foldlM_cons, List.foldlM_cons, ← houtcome]
    cases hstep : step pb respond responderPort c call with
    | none => rfl
    | some c' =>
      rw [hstep] at houtcome
      obtain ⟨hopen, htimeout⟩ := hkept c' hstep
      exact ih hopen hfirst (by omega) hgrowing (hrest _ houtcome.symm)

/-- On a connection whose socket can be read, to a thread whose buffer is clear: as long as no
request is shorter than an earlier one, and the replies come within what is left of the timeout of
the socket all together, every request returns what it would return if the thread's `respond` were
called in its place, and the thread's side is left as it would be then. -/
theorem remote_eq_local (hset : c.socket.inSelectSet = true)
    (hclear : c.thread.buf = .clear 0 clientMaxMessageSize) {calls : List (Request × Nat)}
    (hwaits : waits calls ≤ c.socket.recvTimeout)
    (hgrowing : calls.Pairwise fun call call' ↦
      size pb responderPort call ≤ size pb responderPort call')
    (hok : Each (localStep respond responderPort) (Answered pb respond responderPort) c.outcome
      calls) :
    (calls.foldlM (step pb respond responderPort) c).map outcome =
      calls.foldlM (localStep respond responderPort) c.outcome := by
  exact outcome_run (open_of_clear hset hclear) (fun _ _ ↦ Nat.zero_le _) hwaits hgrowing hok

/-- A connection to a client with one file that it has not begun to download. -/
def toBeginner : Conversation (List Client.File × (Int → Bytes)) where
  socket := Client.openSocket
  thread := { buf := .clear 0 clientMaxMessageSize,
              shared := ([Client.File.ofTorrent Client.byteTorrent []], fun _ ↦ []) }

/-- A question for the code, one for the list of fragments, and one for a fragment, with the times
that the replies take. -/
def askBeginner : List (Request × Nat) :=
  [(.sendOk, 1000000), (.requestFragmentsList Client.byteTorrent, 2000000),
    (.requestFragment Client.byteTorrent 0, 2000000)]

private theorem each_askBeginner :
    Each (localStep Client.ResponderThread.respondShared 2000)
      (Answered .proto3 Client.ResponderThread.respondShared 2000) toBeginner.outcome
      askBeginner := by
  refine ⟨⟨by decide, ?_⟩, ?_⟩
  · rintro shared reply ⟨⟩
    exact ⟨_, rfl, by decide⟩
  · rintro s ⟨⟩
    refine ⟨⟨by decide, ?_⟩, ?_⟩
    · rintro shared reply ⟨⟩
      exact ⟨_, rfl, by decide⟩
    · rintro s ⟨⟩
      refine ⟨⟨by decide, ?_⟩, fun _ _ ↦ trivial⟩
      rintro shared reply ⟨⟩
      exact ⟨_, rfl, by decide⟩

/-- All of them are answered as if the other client were called in their place. -/
theorem remote_eq_local_beginner :
    (askBeginner.foldlM (step .proto3 Client.ResponderThread.respondShared 2000) toBeginner).map
        outcome =
      askBeginner.foldlM (localStep Client.ResponderThread.respondShared 2000)
        toBeginner.outcome := by
  have hgrowing : askBeginner.Pairwise fun call call' ↦
      size .proto3 2000 call ≤ size .proto3 2000 call' := by decide
  exact remote_eq_local rfl rfl (by decide) hgrowing each_askBeginner

/-! ### The fragments of a file -/

/-- The requests of one client to another one. -/
def ToClient : Request → Prop
  | .sendOk | .requestFragmentsList _ | .requestFragment _ _ => True
  | _ => False

/-- The strings in memory fit into a reply. -/
def ShortStrings (cString : Int → Bytes) : Prop := ∀ a, (cString a).length + 100 ≤ maxMessageSize

/-- The requests for a torrent of a client that asks for lists first, and then for fragments, with
the times that the replies take. -/
def asksFor (torrent : Torrent) (lists : List Nat) (fragments : List (UInt32 × Nat)) :
    List (Request × Nat) :=
  lists.map (fun wait ↦ (.requestFragmentsList torrent, wait)) ++
    fragments.map fun k ↦ (.requestFragment torrent k.1, k.2)

section

open Client

variable {files : List Client.File} {cString : Int → Bytes}

/-- A message without strings whose payload is short can be sent. -/
theorem sendable_of_short (hpb : pb.Documented) {code : TcpCode} {contents : Contents}
    (hcode : code.Canonical) (hne : code ≠ .connError)
    (hfileCode : match contents with
      | .newResponse r => r.fileCode.Canonical
      | .listResponse r => r.fileCode.Canonical
      | .fragmentResponse r => r.fileCode.Canonical
      | _ => True)
    (hstrings : TcpMessage.strings ⟨code, contents⟩ = []) (hflat : TcpMessage.Flat ⟨code, contents⟩)
    (hshort : (TcpMessage.fragmentResponse ⟨code, contents⟩).fragment.length + 100 ≤
      maxMessageSize) : pb.Sendable ⟨code, contents⟩ := by
  have hcanonical : TcpMessage.Canonical ⟨code, contents⟩ := by
    refine ⟨hcode, hfileCode, ?_⟩
    rw [hstrings]
    intro bs hbs
    cases hbs
  have hfits : (pb.serialize ⟨code, contents⟩).length ≤ maxMessageSize :=
    Nat.le_trans (hpb.overhead _ hflat) hshort
  have hbound : (pb.serialize ⟨code, contents⟩).length < 2 ^ 31 :=
    Nat.lt_of_le_of_lt hfits (by decide)
  obtain ⟨hdecode, hwhole⟩ := hpb.decode _ hcanonical hbound
  exact ⟨hpb.nonempty _ hcanonical hne, hfits, hdecode, hwhole⟩

private theorem sendable_ok (hpb : pb.Documented) : pb.Sendable { code := .ok } :=
  sendable_of_short hpb (by decide) (by decide) trivial rfl trivial (by decide)

/-- The requests of a client to another one can be sent. -/
theorem sendable_message (hpb : pb.Documented) {r : Request} (hr : ToClient r) :
    pb.Sendable (r.message responderPort) := by
  have hnothing : 0 + 100 ≤ maxMessageSize := by decide
  cases r with
  | sendOk => exact sendable_ok hpb
  | requestFragmentsList torrent =>
    exact sendable_of_short hpb (by decide : TcpCode.ccListRequest.Canonical)
      (by decide : TcpCode.ccListRequest ≠ .connError) trivial rfl trivial hnothing
  | requestFragment torrent fragNum =>
    exact sendable_of_short hpb (by decide : TcpCode.ccFragmentRequest.Canonical)
      (by decide : TcpCode.ccFragmentRequest ≠ .connError) trivial rfl trivial hnothing
  | sendNewTorrentRequest torrent => cases hr
  | sendSeedlistRequest hashedTorrent => cases hr

/-- A reply has no more bytes than the strings in memory. -/
private theorem length_fragmentResponse {request : FragmentRequest} {fr : FragmentResponse}
    (hshort : ShortStrings cString)
    (h : ResponderThread.fragmentResponse files cString request = some fr) :
    fr.fragment.length + 100 ≤ maxMessageSize := by
  refine (Run.of_foldlM h Meets.any).invariant
    (P := fun fr ↦ fr.fragment.length + 100 ≤ maxMessageSize) (by decide) ?_
  intro fr s fr' hfr _ hs
  unfold ResponderThread.offerFragment at hs
  split at hs
  · rw [Option.bind_eq_bind, Option.bind_eq_some_iff] at hs
    obtain ⟨state, -, hstate⟩ := hs
    split at hstate
    · rw [Option.bind_eq_bind, Option.bind_eq_some_iff] at hstate
      obtain ⟨segment, -, hsegment⟩ := hstate
      cases hsegment
      exact hshort segment.data
    · cases hstate
      exact hfr
  · cases hs
    exact hfr

/-- A list that is sent is empty. -/
private theorem sendable_listResponse (hpb : pb.Documented) (hcount : ∀ f ∈ files, f.Counted)
    {request : ListRequest} {lr : ListResponse}
    (h : ResponderThread.listResponse files request = some lr) :
    pb.Sendable { code := .ccListResponse, contents := .listResponse lr } := by
  rw [ResponderThread.listResponse_eq hcount] at h
  split at h
  · cases h
    have hnothing : 0 + 100 ≤ maxMessageSize := by decide
    exact sendable_of_short hpb (by decide : TcpCode.ccListResponse.Canonical)
      (by decide : TcpCode.ccListResponse ≠ .connError)
      (by decide : FileCode.fragComplete.Canonical) rfl rfl hnothing
  · cases h

/-- A fragment can be sent. -/
private theorem sendable_fragmentResponse (hpb : pb.Documented) (hshort : ShortStrings cString)
    {request : FragmentRequest} {fr : FragmentResponse}
    (h : ResponderThread.fragmentResponse files cString request = some fr) :
    pb.Sendable { code := .ccFragmentResponse, contents := .fragmentResponse fr } := by
  have hfileCode : fr.fileCode.Canonical := by
    rcases ResponderThread.truthful_fragmentResponse h with ⟨hfine, -, -⟩ | rfl
    · rw [hfine]
      decide
    · decide
  exact sendable_of_short hpb (by decide : TcpCode.ccFragmentResponse.Canonical)
    (by decide : TcpCode.ccFragmentResponse ≠ .connError) hfileCode rfl trivial
    (length_fragmentResponse hshort h)

/-- A responder answers every request of another client, if it answers at all. -/
theorem answered_responder (hpb : pb.Documented) (hcount : ∀ f ∈ files, f.Counted)
    (hshort : ShortStrings cString) (returned : List ((r : Request) × r.Response))
    (hcall : ToClient call.1) :
    Answered pb ResponderThread.respondShared responderPort ((files, cString), returned) call := by
  refine ⟨sendable_message hpb hcall, ?_⟩
  intro shared reply hrespond
  obtain ⟨sent, hsent, hpair⟩ := Option.map_eq_some_iff.mp hrespond
  cases hpair
  obtain ⟨r, wait⟩ := call
  cases r with
  | sendOk =>
    cases hsent
    exact ⟨_, rfl, sendable_ok hpb⟩
  | requestFragmentsList torrent =>
    rw [ResponderThread.respond_list rfl] at hsent
    obtain ⟨lr, hlr, rfl⟩ := Option.map_eq_some_iff.mp hsent
    exact ⟨_, rfl, sendable_listResponse hpb hcount hlr⟩
  | requestFragment torrent fragNum =>
    rw [ResponderThread.respond_fragment rfl] at hsent
    obtain ⟨fr, hfr, rfl⟩ := Option.map_eq_some_iff.mp hsent
    exact ⟨_, rfl, sendable_fragmentResponse hpb hshort hfr⟩
  | sendNewTorrentRequest torrent => cases hcall
  | sendSeedlistRequest hashedTorrent => cases hcall

private theorem each_answered (hpb : pb.Documented) (hcount : ∀ f ∈ files, f.Counted)
    (hshort : ShortStrings cString) {calls : List (Request × Nat)}
    (hcalls : ∀ call ∈ calls, ToClient call.1) (returned : List ((r : Request) × r.Response)) :
    Each (localStep ResponderThread.respondShared responderPort)
      (Answered pb ResponderThread.respondShared responderPort) ((files, cString), returned)
      calls := by
  induction calls generalizing returned with
  | nil => trivial
  | cons call calls ih =>
    have hfirst := hcalls call List.mem_cons_self
    refine ⟨answered_responder hpb hcount hshort returned hfirst, ?_⟩
    intro s' hs
    simp only [localStep, Option.bind_eq_bind, Option.bind_eq_some_iff] at hs
    obtain ⟨⟨shared, reply⟩, hrespond, response, -, hs⟩ := hs
    obtain ⟨_, _, hpair⟩ := Option.map_eq_some_iff.mp hrespond
    cases hpair
    cases hs
    exact ih (fun call hmem ↦ hcalls call (List.mem_cons_of_mem _ hmem)) _

/-- A request for a list is no longer than one for a fragment, and those for later fragments are no
shorter. -/
private theorem size_asksFor (hpb : pb.Documented) (torrent : Torrent) (lists : List Nat)
    {fragments : List (UInt32 × Nat)} (hascending : fragments.Pairwise fun k k' ↦ k.1 ≤ k'.1) :
    (asksFor torrent lists fragments).Pairwise fun call call' ↦
      size pb responderPort call ≤ size pb responderPort call' := by
  rw [asksFor, List.pairwise_append, List.pairwise_map, List.pairwise_map]
  refine ⟨List.pairwise_of_forall fun _ _ ↦ Nat.le_refl _, hascending.imp ?_, ?_⟩
  · intro k k' hk
    exact hpb.fragment_mono torrent.hashed k.1 k'.1 hk
  · intro call hcall call' hcall'
    obtain ⟨_, _, rfl⟩ := List.mem_map.mp hcall
    obtain ⟨k, _, rfl⟩ := List.mem_map.mp hcall'
    exact hpb.list_le_fragment torrent.hashed k.1

/-- A client that asks another one for lists, and then for fragments in ascending order, on a
connection whose socket can be read and to a thread whose buffer is clear: where the replies come
within what is left of the timeout of the socket all together, it gets what `respond` of the other
one returns for its files. Whatever the requests leave in the buffer of the thread, none is taken
for another one. -/
theorem fragments_remote_eq_local (hpb : pb.Documented)
    {c : Conversation (List Client.File × (Int → Bytes))} (hset : c.socket.inSelectSet = true)
    (hclear : c.thread.buf = .clear 0 clientMaxMessageSize)
    (hcount : ∀ f ∈ c.thread.shared.1, f.Counted) (hshort : ShortStrings c.thread.shared.2)
    (torrent : Torrent) (lists : List Nat) {fragments : List (UInt32 × Nat)}
    (hascending : fragments.Pairwise fun k k' ↦ k.1 ≤ k'.1)
    (hwaits : waits (asksFor torrent lists fragments) ≤ c.socket.recvTimeout) :
    ((asksFor torrent lists fragments).foldlM
        (step pb ResponderThread.respondShared responderPort) c).map outcome =
      (asksFor torrent lists fragments).foldlM
        (localStep ResponderThread.respondShared responderPort) c.outcome := by
  have hcalls : ∀ call ∈ asksFor torrent lists fragments, ToClient call.1 := by
    intro call hcall
    rcases List.mem_append.mp hcall with hlist | hfragment
    · obtain ⟨_, _, rfl⟩ := List.mem_map.mp hlist
      trivial
    · obtain ⟨_, _, rfl⟩ := List.mem_map.mp hfragment
      trivial
  exact outcome_run (open_of_clear hset hclear) (fun _ _ ↦ Nat.zero_le _) hwaits
    (size_asksFor hpb torrent lists hascending)
    (each_answered hpb hcount hshort hcalls c.returned)

/-- A connection to a client that has a file of one byte. -/
def toOwner : Conversation (List Client.File × (Int → Bytes)) where
  socket := openSocket
  thread := { buf := .clear 0 clientMaxMessageSize,
              shared := ([ResponderThread.completeFile], fun _ ↦ [7]) }

/-- The first fragment is asked for twice. -/
theorem fragments_remote_eq_local_owner :
    ((asksFor byteTorrent [] [(0, 1000000), (0, 4000000)]).foldlM
        (step .proto3 ResponderThread.respondShared 2000) toOwner).map outcome =
      (asksFor byteTorrent [] [(0, 1000000), (0, 4000000)]).foldlM
        (localStep ResponderThread.respondShared 2000) toOwner.outcome := by
  apply fragments_remote_eq_local Protobuf.documented_proto3 (c := toOwner) rfl rfl _ _ byteTorrent
    [] (by decide) (by decide)
  · exact List.forall_mem_singleton.mpr ResponderThread.built_completeFile.counted
  · intro a
    exact (by decide : [(7 : UInt8)].length + 100 ≤ maxMessageSize)

end

end Conversation

end P2PNetwork
