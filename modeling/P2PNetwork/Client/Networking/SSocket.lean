import P2PNetwork.Client.Networking.BaseSocket
import P2PNetwork.Shared.Torrent

/-!
# Requests to the tracker

`src/client/networking/SSocket.cpp`. `GLOB_responder_port` is the port that the client's own
listener is bound to.
-/

namespace P2PNetwork.Client

namespace SSocket

/-- The message of `sendOk` (`SSocket.cpp:7–8`). -/
def okMessage : TcpMessage where
  code := .ok

/-- `sendOk` (`SSocket.cpp:6–19`): the code of whatever is received. -/
def sendOk (pb : Protobuf) (s : BaseSocket) (bytesSent : Int) (select : Select) :
    Exchange TcpCode :=
  s.request pb okMessage (fun m ↦ some m.code) .connError bytesSent select

/-- The message of `sendNewTorrentRequest` (`SSocket.cpp:24–30`). -/
def newTorrentMessage (responderPort : UInt32) (torrent : Torrent) : TcpMessage where
  code := .csNewRequest
  contents := .newRequest { torrentMsg := torrent.toMsg, receiverPort := responderPort }

/-- `sendNewTorrentRequest` (`SSocket.cpp:23–42`): the new hash, or zero. -/
def sendNewTorrentRequest (pb : Protobuf) (responderPort : UInt32) (s : BaseSocket)
    (torrent : Torrent) (bytesSent : Int) (select : Select) : Exchange Hash :=
  let answer (m : TcpMessage) :=
    if m.code = .csNewResponse then some m.newResponse.newHash else none
  s.request pb (newTorrentMessage responderPort torrent) answer 0 bytesSent select

/-- The message of `sendSeedlistRequest` (`SSocket.cpp:45–49`). -/
def seedlistMessage (hashedTorrent : Hash) : TcpMessage where
  code := .csSeedlistRequest
  contents := .seedlistRequest { hashedTorrent := hashedTorrent }

/-- `sendSeedlistRequest` (`SSocket.cpp:44–60`). Of a list that is received the first IPv4 peer is
logged; there is no result where it has none. -/
def sendSeedlistRequest (pb : Protobuf) (s : BaseSocket) (hashedTorrent : Hash)
    (bytesSent : Int) (select : Select) : Option (Exchange SeedlistResponse) :=
  let answer (m : TcpMessage) :=
    if m.code = .csSeedlistResponse then some m.seedlistResponse else none
  let e := s.request pb (seedlistMessage hashedTorrent) answer {} bytesSent select
  if e.socket.state = .recvd ∧ e.socket.lastMsg.code = .csSeedlistResponse then
    e.socket.lastMsg.seedlistResponse.ipV4Peers[0]?.map fun _ ↦ e
  else some e

/-- `set_ipv4addresses(index, value)` or `set_ipv6addresses`: it overwrites an element that
exists. -/
def setAddresses (addresses : List Bytes) (index : Nat) (value : Bytes) : Option (List Bytes) :=
  if index < addresses.length then some (addresses.set index value) else none

/-- A loop of `sendClientUnavailable` (`SSocket.cpp:69–74`), whose condition is the size of the
list: at most `fuel` rounds from index `i` on, and nothing for an access outside of a list. -/
def copyAddresses (ips : List Bytes) : Nat → Nat → List Bytes → Option (Option (List Bytes))
  | 0, _, _ => none
  | fuel + 1, i, addresses =>
    if ips.length = 0 then some (some addresses)
    else
      match ips[i]?.bind (setAddresses addresses i) with
      | none => some none
      | some addresses => copyAddresses ips fuel (i + 1) addresses

/-- The message of `sendClientUnavailable` (`SSocket.cpp:66–75`). -/
def clientUnavailableMessage (fuel : Nat) (ips : Ips) : Option (Option TcpMessage) := do
  match ← copyAddresses ips.ipv4s fuel 0 [] with
  | none => some none
  | some ipV4Addresses =>
    match ← copyAddresses ips.ipv6s fuel 0 [] with
    | none => some none
    | some ipV6Addresses =>
      some (some { code := .csClientUnavailable,
                   contents := .clientUnavailable ⟨ipV4Addresses, ipV6Addresses⟩ })

/-- `sendClientUnavailable` (`SSocket.cpp:65–77`): nothing is received. -/
def sendClientUnavailable (pb : Protobuf) (s : BaseSocket) (fuel : Nat) (ips : Ips)
    (bytesSent : Int) : Option (Option (Exchange Unit)) :=
  (clientUnavailableMessage fuel ips).map fun t ↦
    t.map fun t ↦ ⟨s.send bytesSent, pb.serialize t, ()⟩

/-- The message of `sendImSeed` (`SSocket.cpp:80–85`). -/
def imSeedMessage (responderPort : UInt32) (torrent : Torrent) : TcpMessage where
  code := .csImASeed
  contents := .imASeed { hashedTorrent := torrent.hashed, receiverPort := responderPort }

/-- `sendImSeed` (`SSocket.cpp:79–87`): nothing is received. -/
def sendImSeed (pb : Protobuf) (responderPort : UInt32) (s : BaseSocket) (torrent : Torrent)
    (bytesSent : Int) : Exchange Unit :=
  ⟨s.send bytesSent, pb.serialize (imSeedMessage responderPort torrent), ()⟩

/-- What `sendSeedlistRequest` returns: the list that is received, if its first IPv4 peer can be
logged. -/
theorem response_sendSeedlistRequest {pb : Protobuf} {s : BaseSocket} {hashedTorrent : Hash}
    {bytesSent : Int} {select : Select} :
    (sendSeedlistRequest pb s hashedTorrent bytesSent select).map Exchange.response =
      match select.message pb with
      | none => some {}
      | some m =>
        if m.code = .csSeedlistResponse then
          m.seedlistResponse.ipV4Peers[0]?.map fun _ ↦ m.seedlistResponse
        else some {} := by
  cases h : select.message pb with
  | none =>
    have hstate := BaseSocket.receive_of_no_message (s := s.send bytesSent) h
    simp [sendSeedlistRequest, BaseSocket.socket_request, BaseSocket.response_request, h, hstate]
  | some m =>
    obtain ⟨hstate, hmsg⟩ := BaseSocket.receive_of_message (s := s.send bytesSent) h
    by_cases hcode : m.code = .csSeedlistResponse
    · simp only [sendSeedlistRequest, BaseSocket.socket_request, hstate, hmsg, hcode, and_self,
        ↓reduceIte, Option.map_map, Function.comp_def, BaseSocket.response_request, h,
        Option.bind_some, Option.getD_some]
    · simp [sendSeedlistRequest, BaseSocket.socket_request, BaseSocket.response_request, h, hstate,
        hmsg, hcode]

end SSocket

end P2PNetwork.Client
