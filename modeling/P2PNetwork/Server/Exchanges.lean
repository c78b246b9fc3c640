import P2PNetwork.Client.Networking.SSocket
import P2PNetwork.Server.TrackerThread

/-!
# What the tracker and a client make of each other's messages

The report of `SSocket::sendClientUnavailable` as `TrackerThread::respond` reads it, and the seed
list of `respond` as `SSocket::sendSeedlistRequest` reads it (`src/client/networking/SSocket.cpp`,
`src/server/TrackerThread.cpp`).
-/

open Lib

namespace P2PNetwork.Server

open Client TrackerThread

/-! ### Unavailable clients -/

section

variable {hash : Bytes → Hash} {fuel : Nat} {conn : Connection} {db : Database} {msg : TcpMessage}

/-- The first address of a list is written to a place that does not exist. -/
theorem copyAddresses_eq (ips : List Bytes) (fuel : Nat) :
    SSocket.copyAddresses ips (fuel + 1) 0 [] = some (if ips = [] then some [] else none) := by
  cases ips with
  | nil => rfl
  | cons ip ips => simp [SSocket.copyAddresses, SSocket.setAddresses]

/-- The message of addresses, as the loops are meant to build it. -/
def reportOf (ips : Ips) : TcpMessage where
  code := .csClientUnavailable
  contents := .clientUnavailable ⟨ips.ipv4s, ips.ipv6s⟩

/-- What `respond` rebuilds of it. -/
theorem rebuiltIps_reportOf (ips : Ips) : rebuiltIps (reportOf ips) = ips := rfl

/-- A report is built only if it is empty. -/
theorem clientUnavailableMessage_eq (ips : Ips) (fuel : Nat) :
    SSocket.clientUnavailableMessage (fuel + 1) ips =
      some (if ips.ipv4s = [] ∧ ips.ipv6s = [] then some (reportOf ips) else none) := by
  simp only [SSocket.clientUnavailableMessage, copyAddresses_eq]
  by_cases h4 : ips.ipv4s = []
  · by_cases h6 : ips.ipv6s = []
    · simp [h4, h6, reportOf]
    · simp [h4, h6]
  · simp [h4]

/-- A report is sent, and its addresses are rebuilt, exactly if there are none. -/
theorem reported_iff {pb : Protobuf} {ips : Ips} (s : BaseSocket) (bytesSent : Int)
    (hround : pb.wire.decode (pb.serialize (reportOf ips)) = reportOf ips) :
    (∃ fuel e, SSocket.sendClientUnavailable pb s fuel ips bytesSent = some (some e) ∧
      rebuiltIps (pb.wire.decode e.sent) = ips) ↔ ips.ipv4s = [] ∧ ips.ipv6s = [] := by
  constructor
  · rintro ⟨fuel, e, hsent, -⟩
    cases fuel with
    | zero => cases hsent
    | succ fuel =>
      rw [SSocket.sendClientUnavailable, clientUnavailableMessage_eq] at hsent
      by_contra hsome
      rw [if_neg hsome] at hsent
      cases hsent
  · intro hnone
    refine ⟨1, ⟨s.send bytesSent, pb.serialize (reportOf ips), ()⟩, ?_, ?_⟩
    · rw [SSocket.sendClientUnavailable, clientUnavailableMessage_eq, if_pos hnone]
      rfl
    · rw [hround, rebuiltIps_reportOf]

/-- One IPv4 address. -/
def oneIp : Ips := ⟨[[49]], []⟩

/-- A socket to a tracker. -/
def trackerSocket : BaseSocket where
  inSelectSet := true
  recvTimeout := defaultRecvTimeout * 1000000
  trackerIpString := [49]
  trackerPort := 59095
  readBuffer := .clear 0 maxMessageSize
  lastMsg := {}
  state := .open

/-- The report about this address. -/
theorem reported_iff_oneIp :
    (∃ fuel e, SSocket.sendClientUnavailable .proto3 trackerSocket fuel oneIp 10 = some (some e) ∧
      rebuiltIps (Protobuf.proto3.wire.decode e.sent) = oneIp) ↔
      oneIp.ipv4s = [] ∧ oneIp.ipv6s = [] :=
  reported_iff trackerSocket 10 (by decide)

/-- It is not sent: the first round writes outside of the list. -/
theorem not_reported_oneIp :
    SSocket.sendClientUnavailable .proto3 trackerSocket 1 oneIp 10 = some none ∧
      ¬ ∃ fuel e, SSocket.sendClientUnavailable .proto3 trackerSocket fuel oneIp 10 =
          some (some e) ∧
        rebuiltIps (Protobuf.proto3.wire.decode e.sent) = oneIp := by
  refine ⟨rfl, ?_⟩
  rintro ⟨fuel, e, hsent, -⟩
  cases fuel with
  | zero => cases hsent
  | succ fuel => cases hsent

end

/-! ### Seed lists -/

section

variable {hash : Bytes → Hash} {fuel : Nat} {conn : Connection} {db db' : Database}
  {hashedTorrent : Hash} {reply : TcpMessage} {pb : Protobuf} {s : BaseSocket} {bytesSent : Int}
  {timeLeft : Nat}
  {chunk : Chunk UInt8 maxMessageSize}

/-- The first IPv4 peer of a list is there if one of the clients has an IPv4 address. -/
private theorem exists_ipV4Peer_iff (db : Database) (request : SeedlistRequest) :
    (∃ peer, (seedlistResponse db request).ipV4Peers[0]? = some peer) ↔
      ∃ c ∈ db.getClientsWith request.hashedTorrent, c.isIpV4 = true := by
  rw [← Option.isSome_iff_exists, isSome_getElem?, seedlistResponse, List.length_map,
    List.length_pos_iff_exists_mem]
  simp only [List.mem_filter]

/-- A client that receives the seed list of a torrent returns it exactly if it names a peer with an
IPv4 address. -/
theorem seedlist_returned_iff
    (hreply : respond hash fuel conn db (SSocket.seedlistMessage hashedTorrent) =
      some (db', some reply))
    (hreceived : pb.wire.decode chunk.cells = reply) :
    (∃ e, SSocket.sendSeedlistRequest pb s hashedTorrent bytesSent
        (.ready timeLeft (.bytes chunk)) = some e ∧
      e.response = reply.seedlistResponse) ↔
    ∃ c ∈ db.getClientsWith hashedTorrent, c.isIpV4 = true := by
  obtain ⟨-, hsome⟩ := Prod.mk.inj (Option.some_inj.mp hreply)
  have hlist : reply = { code := .csSeedlistResponse,
                         contents := .seedlistResponse (seedlistResponse db ⟨hashedTorrent⟩) } :=
    (Option.some_inj.mp hsome).symm
  have hcode : reply.code = .csSeedlistResponse := by rw [hlist]
  have hseeds : reply.seedlistResponse = seedlistResponse db ⟨hashedTorrent⟩ := by
    rw [hlist]
    rfl
  have hmessage : (Select.ready timeLeft (.bytes chunk)).message pb = some reply := by
    rw [Select.message, Read.message, hreceived]
  have hpeers := exists_ipV4Peer_iff db ⟨hashedTorrent⟩
  rw [← hpeers, ← hseeds, ← Option.map_eq_some_iff, SSocket.response_sendSeedlistRequest, hmessage]
  simp only [hcode, ↓reduceIte, Option.map_eq_some_iff, and_true]

/-! ### No peer with an IPv4 address -/

/-- A client of the tracker with an IPv6 address and the torrent with hash 5. -/
def ipV6Database : Database :=
  { clients := [⟨false, ⟨[49], 2000⟩, [{ hashed := 5, size := 1, fileName := [] }]⟩] }

/-- The list that the tracker sends for this torrent. -/
def ipV6Reply : TcpMessage where
  code := .csSeedlistResponse
  contents := .seedlistResponse { ipV6Peers := [⟨[49], 2000⟩] }

/-- The list, as it is received. -/
def ipV6Chunk : Chunk UInt8 maxMessageSize :=
  ⟨Protobuf.proto3.serialize ipV6Reply, by decide, by decide⟩

/-- The client with an IPv6 address has come into the database by one call. -/
theorem seedlist_returned_iff_ipV6 :
    (∃ e, SSocket.sendSeedlistRequest .proto3 trackerSocket 5 13
        (.ready 5000000 (.bytes ipV6Chunk)) = some e ∧ e.response = ipV6Reply.seedlistResponse) ↔
      ∃ c ∈ ipV6Database.getClientsWith 5, c.isIpV4 = true :=
  @seedlist_returned_iff (fun _ ↦ 0) 1 ⟨[50], 3000⟩ ipV6Database ipV6Database 5 ipV6Reply .proto3
    trackerSocket 13 5000000 ipV6Chunk (by decide) (by decide)

/-- The list is not returned: its first IPv4 peer is logged, which it does not have. -/
theorem not_seedlist_returned_ipV6 :
    ({} : Database).addOrUpdateClient
        ⟨false, ⟨[49], 2000⟩, [{ hashed := 5, size := 1, fileName := [] }]⟩ = ipV6Database ∧
      SSocket.sendSeedlistRequest .proto3 trackerSocket 5 13
        (.ready 5000000 (.bytes ipV6Chunk)) = none ∧
      ¬ ∃ e, SSocket.sendSeedlistRequest .proto3 trackerSocket 5 13
          (.ready 5000000 (.bytes ipV6Chunk)) = some e ∧
        e.response = ipV6Reply.seedlistResponse := by
  have hnone : SSocket.sendSeedlistRequest .proto3 trackerSocket 5 13
      (.ready 5000000 (.bytes ipV6Chunk)) = none := by
    rw [← Option.map_eq_none_iff (f := Exchange.response), SSocket.response_sendSeedlistRequest]
    decide
  refine ⟨by decide, hnone, ?_⟩
  rintro ⟨e, he, -⟩
  rw [hnone] at he
  cases he

end

end P2PNetwork.Server
