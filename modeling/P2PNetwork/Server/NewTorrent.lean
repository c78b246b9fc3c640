import P2PNetwork.Lib.Run
import P2PNetwork.Server.TrackerThread

/-!
# New torrents

What a tracker does with `CS_NEW_REQUEST` in any state it can reach. The hash it answers
with is computed before the database looks for a unique one, and the client is not
registered under any hash.
-/

open Lib

namespace P2PNetwork.Server

/-- A message that arrives at the tracker, and the rounds its salting loop may take. -/
structure Arrival where
  conn : Connection
  msg : TcpMessage
  fuel : Nat

/-- The tracker handles one message. -/
def trackerStep (hash : Bytes → Hash) (db : Database) (a : Arrival) : Option Database :=
  (TrackerThread.respond hash a.fuel a.conn db a.msg).map Prod.fst

namespace TrackerThread

section

variable {hash : Bytes → Hash} {fuel : Nat} {db db' : Database} {conn : Connection}

/-- No client of the database shares anything. -/
def NothingShared (db : Database) : Prop := ∀ c ∈ db.clients, c.torrents = []

private theorem nothingShared_add {db : Database} (h : NothingShared db) (address : IpAddress)
    (t : Torrent) :
    NothingShared (db.addTorrentToClient { isIpV4 := true, address := address } t) := by
  unfold Database.addTorrentToClient
  split
  · exact h
  · intro c hc
    rcases List.mem_append.mp hc with hold | hnew
    · exact h c hold
    · rw [List.mem_singleton.mp hnew]

/-- A new torrent is stored, its client is passed to `addTorrentToClient`, and the answer is the
default hash. -/
theorem newTorrent_spec {request : NewRequest} {r : Database × NewResponse}
    (h : newTorrent hash fuel db conn request = some r) :
    ∃ stored, db.salted hash fuel 1 ((Torrent.ofMsg request.torrentMsg).genDefaultHash hash) =
        some stored ∧
      r.1 = ({ db with torrents := db.torrents ++ [stored] } : Database).addTorrentToClient
        { isIpV4 := true, address := clientAddress conn }
        ((Torrent.ofMsg request.torrentMsg).genDefaultHash hash) ∧
      r.2 = { newHash := hash request.torrentMsg.fileName, fileCode := .fine } := by
  obtain ⟨added, hadded, rfl⟩ := Option.map_eq_some_iff.mp h
  obtain ⟨stored, hstored, rfl⟩ := Database.addTorrent_spec hadded
  exact ⟨stored, hstored, rfl, rfl⟩

/-- Handling a message shares nothing: `addTorrentToClient` adds to copies only. -/
theorem nothingShared_respond {msg : TcpMessage} {reply : Option TcpMessage} (h : NothingShared db)
    (hrespond : respond hash fuel conn db msg = some (db', reply)) : NothingShared db' := by
  unfold respond at hrespond
  split at hrespond
  · cases hrespond
    exact h
  · cases hrespond
    exact h
  · obtain ⟨r, hr, hpair⟩ := Option.map_eq_some_iff.mp hrespond
    obtain ⟨stored, -, hdb, -⟩ := newTorrent_spec hr
    cases hpair
    rw [hdb]
    have hgrown : NothingShared { db with torrents := db.torrents ++ [stored] } := h
    exact nothingShared_add hgrown _ _
  · cases hrespond
    unfold handleSeedNotification
    split
    · exact nothingShared_add h _ _
    · exact h
  · cases hrespond
    exact h
  · cases hrespond
    exact h

/-- In a state that a tracker can reach nobody shares anything. -/
theorem nothingShared_run {arrivals : List Arrival}
    (hrun : Run (trackerStep hash) Any {} arrivals db) : NothingShared db := by
  refine hrun.invariant (P := NothingShared) ?_ ?_
  · intro c hc
    cases hc
  · intro db a db' h _ hs
    obtain ⟨⟨_, reply⟩, hrespond, rfl⟩ := Option.map_eq_some_iff.mp hs
    exact nothingShared_respond h hrespond

private theorem torrents_addTorrentToClient (db : Database) (ci : ClientInfo) (t : Torrent) :
    (db.addTorrentToClient ci t).torrents = db.torrents := by
  unfold Database.addTorrentToClient
  split <;> rfl

/-- Every `CS_NEW_REQUEST` is answered with the default hash of its file name, which is the
stored hash exactly when no earlier torrent has it; and in no case is the answer the stored
hash and the client registered under it. -/
theorem newHash_of_new_request {arrivals : List Arrival} {msg : TcpMessage}
    {reply : Option TcpMessage} (hrun : Run (trackerStep hash) Any {} arrivals db)
    (hcode : msg.code = .csNewRequest)
    (h : respond hash fuel conn db msg = some (db', reply)) :
    ∃ stored newHash,
      db'.torrents = db.torrents ++ [stored] ∧
      reply = some { code := .csNewResponse,
                     contents := .newResponse { newHash := newHash, fileCode := .fine } } ∧
      newHash = hash msg.newRequest.torrentMsg.fileName ∧
      (newHash = stored.hashed ↔ db.isHashUnique newHash = true) ∧
      ¬ (newHash = stored.hashed ∧
        ∃ c ∈ db'.clients, c.address = clientAddress conn ∧ c.hasTorrent newHash = true) := by
  have hshared := nothingShared_respond (nothingShared_run hrun) h
  unfold respond at h
  rw [hcode] at h
  obtain ⟨⟨db'', response⟩, hnew, hpair⟩ := Option.map_eq_some_iff.mp h
  obtain ⟨stored, hstored, hdb, hresponse⟩ := newTorrent_spec hnew
  cases hpair
  refine ⟨stored, hash msg.newRequest.torrentMsg.fileName, ?_, ?_, rfl, ?_, ?_⟩
  · rw [show db'' = _ from hdb, torrents_addTorrentToClient]
  · rw [show response = _ from hresponse]
  · constructor
    · intro heq
      rw [heq]
      exact Database.unique_salted hstored
    · intro hunique
      rw [Database.salted_of_unique hunique hstored]
      rfl
  · rintro ⟨_, c, hc, _, hhas⟩
    rw [ClientInfo.hasTorrent, hshared c hc] at hhas
    cases hhas

end

/-! ### The same file name twice -/

/-- A hash function for which a salted name differs from the name. -/
def lengthHash (name : Bytes) : Hash := UInt64.ofNat name.length

/-- A request for a torrent with the file name `a`. -/
def newRequest : TcpMessage where
  code := .csNewRequest
  contents := .newRequest { torrentMsg := { size := 1, fileName := [97] }, receiverPort := 2000 }

/-- A connection from a client. -/
def someConnection : Connection := { peerIp := [49], peerPort := 40000 }

/-- The answer with hash `1`. -/
def answerOne : TcpMessage where
  code := .csNewResponse
  contents := .newResponse { newHash := 1, fileCode := .fine }

/-- The first request of a new tracker. -/
theorem newHash_of_new_request_first :
    ∃ stored newHash,
      (Database.mk [⟨true, ⟨[49], 16540⟩, []⟩] [⟨1, 1, [97], false, []⟩]).torrents =
        ({} : Database).torrents ++ [stored] ∧
      some answerOne = some { code := .csNewResponse,
                              contents := .newResponse { newHash := newHash, fileCode := .fine } } ∧
      newHash = lengthHash newRequest.newRequest.torrentMsg.fileName ∧
      (newHash = stored.hashed ↔ ({} : Database).isHashUnique newHash = true) ∧
      ¬ (newHash = stored.hashed ∧
        ∃ c ∈ (Database.mk [⟨true, ⟨[49], 16540⟩, []⟩] [⟨1, 1, [97], false, []⟩]).clients,
          c.address = clientAddress someConnection ∧ c.hasTorrent newHash = true) :=
  @newHash_of_new_request lengthHash 1 _ _ _ [] _ _ .nil rfl (by decide)

/-- A second request with the same file name gets the answer of the first one, its torrent
is stored under another hash, and the client is not registered. -/
theorem same_newHash_twice :
    ∃ db₁ db₂ stored,
      respond lengthHash 2 someConnection {} newRequest = some (db₁, some answerOne) ∧
      respond lengthHash 2 someConnection db₁ newRequest = some (db₂, some answerOne) ∧
      db₂.torrents = db₁.torrents ++ [stored] ∧ stored.hashed ≠ 1 ∧
      ¬ ∃ c ∈ db₂.clients, c.address = clientAddress someConnection ∧ c.hasTorrent 1 = true :=
  ⟨_, _, _, rfl, rfl, rfl, by decide, by decide⟩

end TrackerThread

end P2PNetwork.Server
