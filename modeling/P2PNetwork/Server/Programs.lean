import P2PNetwork.Lib.Programs
import P2PNetwork.Server.Blocking
import P2PNetwork.Server.NewTorrent

/-!
# The tracker's threads on one database

`TrackerThread::respond` (`src/server/TrackerThread.cpp:3–71`) as a program of the mutex of the
database (`src/server/database/Database.cpp`) and of what it holds; a loop over one of its vectors
reads this in one step. `addTorrent`, the only one that could make the first entry, requests the
mutex that it holds, so the database stays empty.
-/

open Lib

namespace P2PNetwork.Server

namespace Programs

open Program TrackerThread

/-- `isHashUnique` (`Database.cpp:52–63`). -/
def isHashUnique (hash : Hash) : Program Database Bool :=
  guardedLoop .shared Database.torrents (fun torrent ↦ torrent.hashed == hash) false do
    unlock .shared
    pure true

/-- The salting loop of `addTorrent` (`Database.cpp:70–73`), at most `fuel` rounds. -/
def salted (hash : Bytes → Hash) : Nat → UInt32 → Torrent → Program Database Torrent
  | 0, _, _ => .diverge
  | fuel + 1, salt, t => do
    if ← isHashUnique t.hashed then
      pure t
    else
      salted hash fuel (salt + 1) (t.genSaltedHash hash salt)

/-- `addTorrent` (`Database.cpp:65–78`). -/
def addTorrent (hash : Bytes → Hash) (fuel : Nat) (t : Torrent) : Program Database Hash := do
  lock .exclusive
  let t ← salted hash fuel 1 (t.genDefaultHash hash)
  modify fun db ↦ { db with torrents := db.torrents ++ [t] }
  unlock .exclusive
  pure t.hashed

/-- `addTorrentToClient` (`Database.cpp:16–28`), which adds the torrent to copies. -/
def addTorrentToClient (clientInfo : ClientInfo) (_torrent : Torrent) : Program Database Unit :=
  guardedLoop .exclusive Database.clients (fun c ↦ c.address = clientInfo.address) () do
    modify fun db ↦ { db with clients := db.clients ++ [clientInfo] }
    unlock .exclusive

/-- `getClientsWith(Hash)` (`Database.cpp:93–104`). -/
def getClientsWith (hash : Hash) : Program Database (List ClientInfo) := do
  lock .shared
  let db ← get
  unlock .shared
  pure (db.clients.filter fun i ↦ i.hasTorrent hash)

/-- `handleSeedNotification` (`TrackerThread.cpp:3–11`), which reads the torrents without the
mutex. -/
def handleSeedNotification (address : IpAddress) (hashedTorrent : Hash) :
    Program Database Unit := do
  let db ← get
  match db.torrents.find? fun t ↦ t.hashed == hashedTorrent with
  | some t => addTorrentToClient { isIpV4 := true, address := address } t
  | none => pure ()

/-- The answer to `CS_SEEDLIST_REQUEST` (`TrackerThread.cpp:25–43`). -/
def seedlistResponse (request : SeedlistRequest) : Program Database SeedlistResponse := do
  let res ← getClientsWith request.hashedTorrent
  pure
    { ipV4Peers := (res.filter ClientInfo.isIpV4).map fun c ↦ ⟨c.address.ip, c.address.port⟩
      ipV6Peers := (res.filter fun c ↦ !c.isIpV4).map fun c ↦ ⟨c.address.ip, c.address.port⟩ }

/-- `CS_NEW_REQUEST` (`TrackerThread.cpp:44–57`). -/
def newTorrent (hash : Bytes → Hash) (fuel : Nat) (conn : Connection) (request : NewRequest) :
    Program Database NewResponse := do
  let newTorrent := (Torrent.ofMsg request.torrentMsg).genDefaultHash hash
  let _ ← addTorrent hash fuel newTorrent
  let ci : ClientInfo := { isIpV4 := true, address := clientAddress conn }
  addTorrentToClient ci newTorrent
  pure { newHash := newTorrent.hashed, fileCode := .fine }

/-- `respond` (`TrackerThread.cpp:18–71`), which returns the message that it sends;
`handleUnavailables` does nothing. -/
def respond (hash : Bytes → Hash) (fuel : Nat) (conn : Connection) (msg : TcpMessage) :
    Program Database (Option TcpMessage) :=
  match msg.code with
  | .ok => pure (some { code := .ok })
  | .csSeedlistRequest => do
    let t ← seedlistResponse msg.seedlistRequest
    pure (some { code := .csSeedlistResponse, contents := .seedlistResponse t })
  | .csNewRequest => do
    let t ← newTorrent hash fuel conn msg.newRequest
    pure (some { code := .csNewResponse, contents := .newResponse t })
  | .csImASeed => do
    handleSeedNotification (clientAddress conn) msg.imASeed.hashedTorrent
    pure none
  | _ => pure none

variable {db : Database} {hash : Bytes → Hash} {fuel : Nat} {conn : Connection} {msg : TcpMessage}
  {calls : List LockCall}

/-! ### A thread that is alone -/

theorem run_isHashUnique (h : Hash) :
    ((isHashUnique h).exec db).run calls =
      pure (some (db, db.isHashUnique h), calls ++ [.acquire .shared, .release .shared]) := by
  rw [isHashUnique, run_guardedLoop, Database.isHashUnique]
  cases db.torrents.any fun torrent ↦ torrent.hashed == h with
  | true => rfl
  | false => simp

theorem run_salted (hash : Bytes → Hash) (fuel : Nat) (salt : UInt32) (t : Torrent) :
    ((salted hash fuel salt t).exec db).run calls =
      (Locking.salted db hash fuel salt t).run calls >>= fun r ↦
        pure (r.1.map fun stored ↦ (db, stored), r.2) := by
  induction fuel generalizing salt t calls with
  | zero => rfl
  | succ fuel ih =>
    cases hunique : db.isHashUnique t.hashed with
    | true => simp [salted, Locking.salted, run_isHashUnique, Locking.run_isHashUnique, hunique]
    | false =>
      simp [salted, Locking.salted, run_isHashUnique, Locking.run_isHashUnique, hunique, ih]

theorem run_addTorrent (hash : Bytes → Hash) (fuel : Nat) (t : Torrent) :
    ((addTorrent hash fuel t).exec db).run calls =
      (Locking.addTorrent db hash fuel t).run calls := by
  obtain ⟨tests, -, hrun⟩ := @Locking.run_salted db (calls ++ [.acquire .exclusive]) hash fuel 1
    (t.genDefaultHash hash)
  cases hsalted : db.salted hash fuel 1 (t.genDefaultHash hash) with
  | none => simp [addTorrent, Locking.addTorrent, run_salted, hrun, hsalted]
  | some stored => simp [addTorrent, Locking.addTorrent, run_salted, hrun, hsalted]

theorem run_addTorrentToClient (ci : ClientInfo) (t : Torrent) :
    ((addTorrentToClient ci t).exec db).run calls =
      pure (some (db.addTorrentToClient ci t, ()),
        calls ++ [.acquire .exclusive, .release .exclusive]) := by
  rw [addTorrentToClient, run_guardedLoop, Database.addTorrentToClient, ← List.isSome_find?]
  cases db.clients.find? fun c ↦ c.address = ci.address with
  | none => simp
  | some c => rfl

theorem run_getClientsWith (h : Hash) :
    ((getClientsWith h).exec db).run calls =
      pure (some (db, db.getClientsWith h), calls ++ [.acquire .shared, .release .shared]) := by
  simp [getClientsWith, Database.getClientsWith]

theorem run_handleSeedNotification (address : IpAddress) (hashedTorrent : Hash) :
    ((handleSeedNotification address hashedTorrent).exec db).run calls =
      (Locking.handleSeedNotification db address hashedTorrent).run calls >>= fun r ↦
        pure (some (r.1, ()), r.2) := by
  rw [Locking.handleSeedNotification, handleSeedNotification]
  cases hfind : db.torrents.find? fun t ↦ t.hashed == hashedTorrent with
  | none => simp [Locking.run_torrentVector, Database.torrentVector, hfind]
  | some t =>
    simp [Locking.run_torrentVector, Database.torrentVector, run_addTorrentToClient,
      Locking.run_addTorrentToClient, hfind]

theorem run_newTorrent (hash : Bytes → Hash) (fuel : Nat) (conn : Connection)
    (request : NewRequest) :
    ((newTorrent hash fuel conn request).exec db).run calls =
      (Locking.newTorrent db hash fuel conn request).run calls := by
  obtain ⟨tests, -, hrun⟩ := @Locking.run_addTorrent db calls hash fuel
    ((Torrent.ofMsg request.torrentMsg).genDefaultHash hash)
  cases hr : db.addTorrent hash fuel
    ((Torrent.ofMsg request.torrentMsg).genDefaultHash hash) with
  | none => simp [newTorrent, Locking.newTorrent, run_addTorrent, hrun, hr]
  | some r =>
    simp [newTorrent, Locking.newTorrent, run_addTorrent, run_addTorrentToClient,
      Locking.run_addTorrentToClient, hrun, hr]

/-- Alone on the database, a thread computes what `respond` does, with the same calls. -/
theorem exec_respond (hash : Bytes → Hash) (fuel : Nat) (conn : Connection) (msg : TcpMessage) :
    (respond hash fuel conn msg).exec db = Locking.respond db hash fuel conn msg := by
  refine StateT.ext fun calls ↦ ?_
  rw [respond, Locking.respond]
  cases msg.code with
  | csSeedlistRequest =>
    simp [seedlistResponse, Locking.seedlistResponse, run_getClientsWith,
      Locking.run_getClientsWith]
  | csNewRequest =>
    -- behind a loop that does not end there is no message
    obtain ⟨tests, -, hrun⟩ := @Locking.run_newTorrent db hash fuel conn calls msg.newRequest
    cases hr : TrackerThread.newTorrent hash fuel db conn msg.newRequest with
    | none => simp [run_newTorrent, hrun, hr]
    | some r => simp [run_newTorrent, hrun, hr]
  | csImASeed => simp [run_handleSeedNotification, Locking.run_handleSeedNotification]
  | _ => rfl

/-! ### Any number of threads -/

/-- On an empty database a thread writes nothing. It does not get to the end of `CS_NEW_REQUEST`,
and every other message it answers as `respond` does. -/
theorem readsOnly_respond (hash : Bytes → Hash) (a : Arrival) :
    (respond hash a.fuel a.conn a.msg).ReadsOnly {} (fun held reply ↦ held = none ∧
      a.msg.code ≠ .csNewRequest ∧
        TrackerThread.respond hash a.fuel a.conn {} a.msg = some ({}, reply)) none := by
  rw [respond, TrackerThread.respond]
  cases a.msg.code with
  | csNewRequest =>
    cases hfuel : a.fuel with
    | zero => simp [newTorrent, addTorrent, salted]
    | succ fuel =>
      -- the test of the hash requests the mutex, which the thread holds
      simp [newTorrent, addTorrent, salted, isHashUnique, guardedLoop]
  | csSeedlistRequest =>
    simp [seedlistResponse, getClientsWith, TrackerThread.seedlistResponse,
      Database.getClientsWith]
  | csImASeed => simp [handleSeedNotification, TrackerThread.handleSeedNotification]
  | _ => simp

/-- However the steps of the tracker's threads are interleaved, no thread ever writes to the
database: it stays empty, no `CS_NEW_REQUEST` is ever answered, and all other messages are answered
as an empty tracker does. -/
theorem database_stays_empty {hash : Bytes → Hash} {es : List (SharedMutex.Event Arrival)}
    {p : Pool Database Arrival (Option TcpMessage)}
    (hrun : Run (Pool.step fun a : Arrival ↦ respond hash a.fuel a.conn a.msg) Any
      { shared := {} } es p) :
    p.shared = {} ∧ (∀ l ∈ p.threads, ¬ l.Writes) ∧
      ∀ r ∈ p.results, r.1.msg.code ≠ .csNewRequest ∧
        TrackerThread.respond hash r.1.fuel r.1.conn {} r.1.msg = some ({}, r.2) := by
  have h := Pool.unwritten_run (readsOnly_respond hash) hrun
  exact ⟨h.shared, fun l hl ↦ (h.threads l hl).not_writes, h.results⟩

/-- One thread handles a request for a seed list. Then another one takes up a request for a new
torrent, and gets the mutex. -/
private def seedlistThenNew : List (SharedMutex.Event Arrival) :=
  [.spawn, .enter 0 { conn := someConnection, msg := { code := .csSeedlistRequest }, fuel := 1 },
    .proceed 0, .spawn, .proceed 0,
    .enter 1 { conn := someConnection, msg := newRequest, fuel := 1 },
    .proceed 0, .proceed 0, .proceed 1]

theorem database_stays_empty_seedlist :
    ∃ p : Pool Database Arrival (Option TcpMessage), seedlistThenNew.foldlM
        (Pool.step fun a : Arrival ↦ respond lengthHash a.fuel a.conn a.msg)
        { shared := {} } = some p ∧
      p.shared = {} ∧ (∀ l ∈ p.threads, ¬ l.Writes) ∧
      ∀ r ∈ p.results, r.1.msg.code ≠ .csNewRequest ∧
        TrackerThread.respond lengthHash r.1.fuel r.1.conn {} r.1.msg = some ({}, r.2) := by
  have hsome : (seedlistThenNew.foldlM
      (Pool.step fun a : Arrival ↦ respond lengthHash a.fuel a.conn a.msg)
      ({ shared := {} } : Pool Database Arrival (Option TcpMessage))).isSome = true := by
    decide
  obtain ⟨p, hp⟩ := Option.isSome_iff_exists.mp hsome
  exact ⟨p, hp, database_stays_empty (Run.of_foldlM hp Meets.any)⟩

end Programs

end P2PNetwork.Server
