import P2PNetwork.Lib.KeyedList
import P2PNetwork.Shared.Torrent
import P2PNetwork.Shared.SharedUtils

/-!
# The tracker's database

`src/server/database/ClientInfo.h` and `Database.cpp`. Every method that uses the mutex holds
it for its whole body, so one call is one function; the lock itself is taken as reentrant.
-/

open Lib

namespace P2PNetwork.Server

/-- `class ClientInfo` (`ClientInfo.h:12–70`). -/
structure ClientInfo where
  isIpV4 : Bool
  address : IpAddress
  torrents : List Torrent := []
  deriving DecidableEq, Repr

namespace ClientInfo

/-- `setTorrents` (`ClientInfo.h:30–32`). -/
def setTorrents (c : ClientInfo) (newTorrents : List Torrent) : ClientInfo :=
  { c with torrents := newTorrents }

/-- `hasTorrent(Hash)` (`ClientInfo.h:45–50`). -/
def hasTorrent (c : ClientInfo) (hash : Hash) : Bool := c.torrents.any fun i ↦ i.hashed == hash

/-- `hasTorrent(Torrent)` (`ClientInfo.h:38–43`): the hashes are compared. -/
def hasTorrentOf (c : ClientInfo) (torrent : Torrent) : Bool :=
  c.torrents.any fun i ↦ i.hashed == torrent.hashed

/-- `addTorrent` (`ClientInfo.h:58–62`): a hash that is there already is not added again. -/
def addTorrent (c : ClientInfo) (torrent : Torrent) : ClientInfo :=
  if c.torrents.any fun f ↦ f.hashed == torrent.hashed then c
  else { c with torrents := c.torrents ++ [torrent] }

/-- `operator==` (`ClientInfo.h:67–69`): the address and the kind of address. -/
def same (c other : ClientInfo) : Bool := c.address = other.address && c.isIpV4 == other.isIpV4

end ClientInfo

/-- `class Database` (`Database.h:9–12`). -/
structure Database where
  clients : List ClientInfo := []
  torrents : List Torrent := []
  deriving DecidableEq, Repr

namespace Database

variable (db : Database)

/-- `addOrUpdateClient` (`Database.cpp:4–14`). -/
def addOrUpdateClient (clientInfo : ClientInfo) : Database :=
  if db.clients.any fun c ↦ c.address = clientInfo.address then
    let update := modifyFirst (fun c ↦ c.address = clientInfo.address) fun c ↦
      c.setTorrents clientInfo.torrents
    { db with clients := update db.clients }
  else { db with clients := db.clients ++ [clientInfo] }

/-- `addTorrentToClient` (`Database.cpp:16–28`). The loop variable `c` and the local `ci`
are copies: the torrent is added to them, and not to the stored clients. -/
def addTorrentToClient (clientInfo : ClientInfo) (torrent : Torrent) : Database :=
  match db.clients.find? fun c ↦ c.address = clientInfo.address with
  | some c =>
    let _c := c.addTorrent torrent
    db
  | none =>
    let _ci := clientInfo.addTorrent torrent
    { db with clients := db.clients ++ [clientInfo] }

/-- `deleteClient` (`Database.cpp:30–43`). -/
def deleteClient (client : ClientInfo) : Database :=
  { db with clients := db.clients.filter fun compared ↦ !client.same compared }

/-- `getClients` (`Database.cpp:45–50`). -/
def getClients : List ClientInfo := db.clients

/-- `isHashUnique` (`Database.cpp:52–63`). -/
def isHashUnique (hash : Hash) : Bool := !db.torrents.any fun torrent ↦ torrent.hashed == hash

/-- The salting loop of `addTorrent` (`Database.cpp:70–73`), at most `fuel` rounds. -/
def salted (hash : Bytes → Hash) : Nat → UInt32 → Torrent → Option Torrent
  | 0, _, _ => none
  | fuel + 1, salt, t =>
    if db.isHashUnique t.hashed then some t
    else salted hash fuel (salt + 1) (t.genSaltedHash hash salt)

/-- `addTorrent` (`Database.cpp:65–78`): the database and the hash the torrent got. There
is no result when the loop does not end within `fuel` rounds. -/
def addTorrent (hash : Bytes → Hash) (fuel : Nat) (t : Torrent) : Option (Database × Hash) :=
  (db.salted hash fuel 1 (t.genDefaultHash hash)).map fun t ↦
    ({ db with torrents := db.torrents ++ [t] }, t.hashed)

/-- `getClientsWith(Torrent)` (`Database.cpp:80–91`). -/
def getClientsWithTorrent (torrent : Torrent) : List ClientInfo :=
  db.clients.filter fun i ↦ i.hasTorrentOf torrent

/-- `getClientsWith(Hash)` (`Database.cpp:93–104`). -/
def getClientsWith (hash : Hash) : List ClientInfo := db.clients.filter fun i ↦ i.hasTorrent hash

/-- `hasTorrent` (`Database.cpp:106–116`). -/
def hasTorrent (torrent : Torrent) : Bool := db.torrents.any fun t ↦ t.same torrent

/-- `torrentVector` (`Database.cpp:118–120`): a pointer to the vector. -/
def torrentVector : List Torrent := db.torrents

variable {db}

/-- The salting loop ends with a hash that is unique. -/
theorem unique_salted {hash : Bytes → Hash} {fuel : Nat} {salt : UInt32} {t t' : Torrent}
    (h : db.salted hash fuel salt t = some t') : db.isHashUnique t'.hashed = true := by
  induction fuel generalizing salt t with
  | zero => cases h
  | succ fuel ih =>
    rw [salted] at h
    split at h
    · next hunique =>
      cases h
      exact hunique
    · exact ih h

/-- A torrent whose hash is unique leaves the salting loop at once. -/
theorem salted_of_unique {hash : Bytes → Hash} {fuel : Nat} {salt : UInt32} {t t' : Torrent}
    (hunique : db.isHashUnique t.hashed = true) (h : db.salted hash fuel salt t = some t') :
    t' = t := by
  cases fuel with
  | zero => cases h
  | succ fuel =>
    rw [salted, if_pos hunique] at h
    exact (Option.some_inj.mp h).symm

/-- Adding a torrent changes nothing but the list of torrents. -/
theorem addTorrent_spec {hash : Bytes → Hash} {fuel : Nat} {t : Torrent} {r : Database × Hash}
    (h : db.addTorrent hash fuel t = some r) :
    ∃ stored, db.salted hash fuel 1 (t.genDefaultHash hash) = some stored ∧
      r = ({ db with torrents := db.torrents ++ [stored] }, stored.hashed) := by
  obtain ⟨stored, hstored, rfl⟩ := Option.map_eq_some_iff.mp h
  exact ⟨stored, hstored, rfl⟩

end Database

end P2PNetwork.Server
