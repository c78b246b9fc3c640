import P2PNetwork.Server.Database
import P2PNetwork.Shared.ReceiveLoop

/-!
# The tracker's answers

`TrackerThread::respond` (`src/server/TrackerThread.cpp:3–71`) on the shared database. What
is sent to the client is returned beside the new database.
-/

namespace P2PNetwork.Server

namespace TrackerThread

/-- `handleSeedNotification` (`TrackerThread.cpp:3–11`). -/
def handleSeedNotification (db : Database) (address : IpAddress) (hashedTorrent : Hash) :
    Database :=
  match db.torrents.find? fun t ↦ t.hashed == hashedTorrent with
  | some t => db.addTorrentToClient { isIpV4 := true, address := address } t
  | none => db

/-- `handleUnavailables` (`TrackerThread.cpp:14–16`), whose body is a note that it is to be
written: the addresses are dropped. -/
def handleUnavailables (db : Database) (_ips : Ips) : Database := db

@[simp] theorem handleUnavailables_eq (db : Database) (ips : Ips) :
    handleUnavailables db ips = db := rfl

/-- The answer to `CS_SEEDLIST_REQUEST` (`TrackerThread.cpp:25–43`). -/
def seedlistResponse (db : Database) (request : SeedlistRequest) : SeedlistResponse :=
  let res := db.getClientsWith request.hashedTorrent
  { ipV4Peers := (res.filter ClientInfo.isIpV4).map fun c ↦ ⟨c.address.ip, c.address.port⟩
    ipV6Peers := (res.filter fun c ↦ !c.isIpV4).map fun c ↦ ⟨c.address.ip, c.address.port⟩ }

/-- The address of the client behind a connection (`TrackerThread.cpp:49,59`). -/
def clientAddress (conn : Connection) : IpAddress := ⟨getConnectedIp conn, getConnectedPort conn⟩

/-- `CS_NEW_REQUEST` (`TrackerThread.cpp:44–57`); `addTorrent`'s result is not used. -/
def newTorrent (hash : Bytes → Hash) (fuel : Nat) (db : Database) (conn : Connection)
    (request : NewRequest) : Option (Database × NewResponse) :=
  let newTorrent := (Torrent.ofMsg request.torrentMsg).genDefaultHash hash
  (db.addTorrent hash fuel newTorrent).map fun r ↦
    let ci : ClientInfo := { isIpV4 := true, address := clientAddress conn }
    (r.1.addTorrentToClient ci newTorrent, { newHash := newTorrent.hashed, fileCode := .fine })

/-- The addresses that `respond` takes out of a report (`TrackerThread.cpp:62–68`). -/
def rebuiltIps (msg : TcpMessage) : Ips where
  ipv4s := msg.clientUnavailable.ipV4Addresses
  ipv6s := msg.clientUnavailable.ipV6Addresses

/-- `respond` (`TrackerThread.cpp:18–71`): the new database and the message sent where there
is one. There is no result when the salting loop does not end within `fuel` rounds. -/
def respond (hash : Bytes → Hash) (fuel : Nat) (conn : Connection) (db : Database)
    (msg : TcpMessage) : Option (Database × Option TcpMessage) :=
  match msg.code with
  | .ok => some (db, some { code := .ok })
  | .csSeedlistRequest =>
    some (db, some { code := .csSeedlistResponse,
                     contents := .seedlistResponse (seedlistResponse db msg.seedlistRequest) })
  | .csNewRequest =>
    (newTorrent hash fuel db conn msg.newRequest).map fun r ↦
      (r.1, some { code := .csNewResponse, contents := .newResponse r.2 })
  | .csImASeed =>
    some (handleSeedNotification db (clientAddress conn) msg.imASeed.hashedTorrent, none)
  | .csClientUnavailable => some (handleUnavailables db (rebuiltIps msg), none)
  | _ => some (db, none)

/-- The loop of `run` (`TrackerThread.cpp:80–92`). -/
def run (pb : Protobuf) (hash : Bytes → Hash) (fuel : Nat) (conn : Connection) :
    Serving Database → Serving.Event Database → Option (Serving Database) :=
  Serving.step pb (respond hash fuel conn)

/-- The addresses a seedlist names. -/
def listedAddresses (response : SeedlistResponse) : List IpAddress :=
  (response.ipV4Seeds ++ response.ipV4Peers ++ response.ipV6Seeds ++ response.ipV6Peers).map
    fun peer ↦ ⟨peer.ip, peer.port⟩

/-- A seedlist names the addresses of the clients that `getClientsWith` finds. -/
theorem mem_listedAddresses {db : Database} {request : SeedlistRequest} {a : IpAddress} :
    a ∈ listedAddresses (seedlistResponse db request) ↔
      ∃ c ∈ db.getClientsWith request.hashedTorrent, c.address = a := by
  simp only [listedAddresses, seedlistResponse, List.nil_append, List.append_nil, List.map_append,
    List.map_map, List.mem_append, List.mem_map, List.mem_filter, Function.comp_apply]
  constructor
  · rintro (⟨c, ⟨hc, -⟩, rfl⟩ | ⟨c, ⟨hc, -⟩, rfl⟩)
    · exact ⟨c, hc, rfl⟩
    · exact ⟨c, hc, rfl⟩
  · rintro ⟨c, hc, rfl⟩
    cases hv : c.isIpV4 with
    | true => exact .inl ⟨c, ⟨hc, hv⟩, rfl⟩
    | false => exact .inr ⟨c, ⟨hc, by rw [hv]; rfl⟩, rfl⟩

end TrackerThread

end P2PNetwork.Server
