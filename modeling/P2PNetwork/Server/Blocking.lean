import P2PNetwork.Lib.SharedMutex
import P2PNetwork.Server.Locking

/-!
# The tracker's threads and the mutex

`TrackerThread::respond` (`src/server/TrackerThread.cpp:3–71`) with the calls it makes on the
mutex of the database, and any number of such threads that share it. As `addTorrent` requests
the mutex that it holds, one `CS_NEW_REQUEST` stops them all.
-/

open Lib

namespace P2PNetwork.Server

namespace Locking

open Recorded TrackerThread

variable (db : Database)

/-- `handleSeedNotification` (`TrackerThread.cpp:3–11`). -/
def handleSeedNotification (address : IpAddress) (hashedTorrent : Hash) : Recorded Database := do
  let torrents ← torrentVector db
  match torrents.find? fun t ↦ t.hashed == hashedTorrent with
  | some t => addTorrentToClient db { isIpV4 := true, address := address } t
  | none => pure db

/-- The answer to `CS_SEEDLIST_REQUEST` (`TrackerThread.cpp:25–43`). -/
def seedlistResponse (request : SeedlistRequest) : Recorded SeedlistResponse := do
  let res ← getClientsWith db request.hashedTorrent
  pure
    { ipV4Peers := (res.filter ClientInfo.isIpV4).map fun c ↦ ⟨c.address.ip, c.address.port⟩
      ipV6Peers := (res.filter fun c ↦ !c.isIpV4).map fun c ↦ ⟨c.address.ip, c.address.port⟩ }

/-- `CS_NEW_REQUEST` (`TrackerThread.cpp:44–57`). -/
def newTorrent (hash : Bytes → Hash) (fuel : Nat) (conn : Connection) (request : NewRequest) :
    Recorded (Option (Database × NewResponse)) := do
  let newTorrent := (Torrent.ofMsg request.torrentMsg).genDefaultHash hash
  match ← addTorrent db hash fuel newTorrent with
  | none => pure none
  | some r =>
    let ci : ClientInfo := { isIpV4 := true, address := clientAddress conn }
    let db ← addTorrentToClient r.1 ci newTorrent
    pure (some (db, { newHash := newTorrent.hashed, fileCode := .fine }))

/-- `respond` (`TrackerThread.cpp:18–71`). -/
def respond (hash : Bytes → Hash) (fuel : Nat) (conn : Connection) (msg : TcpMessage) :
    Recorded (Option (Database × Option TcpMessage)) :=
  match msg.code with
  | .ok => pure (some (db, some { code := .ok }))
  | .csSeedlistRequest => do
    let list ← seedlistResponse db msg.seedlistRequest
    pure (some (db, some { code := .csSeedlistResponse, contents := .seedlistResponse list }))
  | .csNewRequest => do
    let r ← newTorrent db hash fuel conn msg.newRequest
    pure (r.map fun r ↦ (r.1, some { code := .csNewResponse, contents := .newResponse r.2 }))
  | .csImASeed => do
    let db ← handleSeedNotification db (clientAddress conn) msg.imASeed.hashedTorrent
    pure (some (db, none))
  | .csClientUnavailable =>
    let ips : Ips := { ipv4s := msg.clientUnavailable.ipV4Addresses
                       ipv6s := msg.clientUnavailable.ipV6Addresses }
    pure (some (handleUnavailables db ips, none))
  | _ => pure (some (db, none))

variable {db} {hash : Bytes → Hash} {fuel : Nat} {conn : Connection} {msg : TcpMessage}
  {calls : List LockCall}

/-- A seed notification requests the mutex if it finds its torrent. -/
theorem run_handleSeedNotification (address : IpAddress) (hashedTorrent : Hash) :
    (handleSeedNotification db address hashedTorrent).run calls =
      pure (TrackerThread.handleSeedNotification db address hashedTorrent,
        calls ++ if db.torrents.any fun t ↦ t.hashed == hashedTorrent then
          [.acquire .exclusive, .release .exclusive] else []) := by
  rw [handleSeedNotification, StateT.run_bind, run_torrentVector,
    TrackerThread.handleSeedNotification, ← List.isSome_find?]
  cases hfind : db.torrents.find? fun t ↦ t.hashed == hashedTorrent with
  | none => simp [Database.torrentVector, hfind]
  | some t => simp [Database.torrentVector, hfind, run_addTorrentToClient]

/-- A seed list takes the mutex in shared mode. -/
theorem run_seedlistResponse (request : SeedlistRequest) :
    (seedlistResponse db request).run calls = pure (TrackerThread.seedlistResponse db request,
      calls ++ [.acquire .shared, .release .shared]) := by
  simp [seedlistResponse, TrackerThread.seedlistResponse, run_getClientsWith]

/-- A new torrent is stored with the calls of `addTorrent`; if these end, its client follows. -/
theorem run_newTorrent (request : NewRequest) :
    ∃ tests, (0 < fuel → 0 < tests) ∧
      (newTorrent db hash fuel conn request).run calls =
        pure (TrackerThread.newTorrent hash fuel db conn request,
          calls ++ [.acquire .exclusive] ++
            (List.replicate tests [.acquire .shared, .release .shared]).flatten ++
            if (TrackerThread.newTorrent hash fuel db conn request).isSome then
              [.release .exclusive, .acquire .exclusive, .release .exclusive] else []) := by
  obtain ⟨tests, hpos, hadd⟩ := @run_addTorrent db calls hash fuel
    ((Torrent.ofMsg request.torrentMsg).genDefaultHash hash)
  refine ⟨tests, hpos, ?_⟩
  rw [newTorrent, StateT.run_bind, hadd, TrackerThread.newTorrent]
  cases hr : db.addTorrent hash fuel ((Torrent.ofMsg request.torrentMsg).genDefaultHash hash) with
  | none => simp
  | some r => simp [run_addTorrentToClient]

/-- With the lock calls or without them, `respond` computes the same. -/
theorem respond_eq : ((respond db hash fuel conn msg).run calls).1 =
    TrackerThread.respond hash fuel conn db msg := by
  rw [respond, TrackerThread.respond]
  cases msg.code with
  | csSeedlistRequest =>
    simp only [StateT.run_bind, run_seedlistResponse]
    rfl
  | csNewRequest =>
    obtain ⟨tests, -, hrun⟩ := @run_newTorrent db hash fuel conn calls msg.newRequest
    simp only [StateT.run_bind, hrun]
    rfl
  | csImASeed =>
    simp only [StateT.run_bind, run_handleSeedNotification]
    rfl
  | _ => rfl

/-- A message other than `CS_NEW_REQUEST` is answered in the lock discipline. -/
theorem disciplined_respond (hcode : msg.code ≠ .csNewRequest) :
    Disciplined ((respond db hash fuel conn msg).run []).2 := by
  unfold respond
  split
  · exact disciplined_nil
  · rw [StateT.run_bind, run_seedlistResponse]
    exact disciplined_bracket .shared
  · next hnew => exact absurd hnew hcode
  · rw [StateT.run_bind, run_handleSeedNotification]
    split
    · exact disciplined_bracket .exclusive
    · exact disciplined_nil
  · exact disciplined_nil
  · exact disciplined_nil

/-- `CS_NEW_REQUEST` requests the mutex twice. -/
theorem doomed_respond (hcode : msg.code = .csNewRequest) :
    SharedMutex.Doomed ((respond db hash (fuel + 1) conn msg).run []).2 := by
  obtain ⟨tests, hpos, hrun⟩ := @run_newTorrent db hash (fuel + 1) conn [] msg.newRequest
  obtain ⟨k, rfl⟩ : ∃ k, tests = k + 1 := ⟨tests - 1, by have := hpos (Nat.succ_pos fuel); omega⟩
  rw [respond, hcode, StateT.run_bind, hrun]
  exact ⟨.shared, _, rfl⟩

end Locking

/-- A message that a thread of the tracker handles, with the database it finds and the rounds that
the salting loop takes at most, which is one or more. -/
structure Job where
  conn : Connection
  db : Database
  msg : TcpMessage
  moreRounds : Nat

/-- The calls on the mutex that handling the message makes. -/
def Job.lockCalls (hash : Bytes → Hash) (job : Job) : List LockCall :=
  ((Locking.respond job.db hash (job.moreRounds + 1) job.conn job.msg).run []).2

/-- A thread that handles `CS_NEW_REQUEST` does not get the mutex. -/
def NoNewRequest (threads : List (Locker Job)) : SharedMutex.Event Job → Prop
  | .proceed i => ∀ l job, threads[i]? = some l → l.task = some job → job.msg.code ≠ .csNewRequest
  | _ => True

variable {hash : Bytes → Hash}

/-- The discipline is kept by all messages but one. -/
theorem disciplined_lockCalls_iff (job : Job) :
    Disciplined (job.lockCalls hash) ↔ job.msg.code ≠ .csNewRequest := by
  constructor
  · intro h hcode
    exact (Locking.doomed_respond hcode).not_disciplined h
  · exact Locking.disciplined_respond

theorem disciplined_or_doomed (job : Job) :
    Disciplined (job.lockCalls hash) ∨ SharedMutex.Doomed (job.lockCalls hash) := by
  by_cases hcode : job.msg.code = .csNewRequest
  · exact .inr (Locking.doomed_respond hcode)
  · exact .inl (Locking.disciplined_respond hcode)

private theorem keeps_iff {threads : List (Locker Job)} {e : SharedMutex.Event Job} :
    SharedMutex.Keeps (Job.lockCalls hash) threads e ↔ NoNewRequest threads e := by
  cases e with
  | spawn => exact Iff.rfl
  | enter i job => exact Iff.rfl
  | proceed i => simp only [SharedMutex.Keeps, NoNewRequest, disciplined_lockCalls_iff]

/-- However the calls of the tracker's threads are interleaved: some thread can go on, or all are
done, in every state that is reached, exactly if no thread that handles `CS_NEW_REQUEST` gets the
mutex. Where the first one gets it, no thread makes a call on the mutex any more. -/
theorem tracker_live_throughout_iff (hash : Bytes → Hash) :
    (∀ es, Throughout (SharedMutex.step (Job.lockCalls hash)) SharedMutex.Live [] es ↔
        Meets (SharedMutex.step (Job.lockCalls hash)) NoNewRequest [] es) ∧
      ∀ es threads i next es' threads',
        Run (SharedMutex.step (Job.lockCalls hash)) NoNewRequest [] es threads →
        ¬ NoNewRequest threads (.proceed i) →
        SharedMutex.step (Job.lockCalls hash) threads (.proceed i) = some next →
        Run (SharedMutex.step (Job.lockCalls hash)) Any next es' threads' →
        ∀ j, SharedMutex.proceed threads' j = none := by
  have hkeeps : SharedMutex.Keeps (Job.lockCalls hash) = NoNewRequest := by
    ext threads e
    exact keeps_iff
  constructor
  · intro es
    rw [← hkeeps]
    exact SharedMutex.live_throughout_iff disciplined_or_doomed es
  · intro es threads i next es' threads' hrun hnew hs hrest
    rw [← hkeeps] at hrun hnew
    exact SharedMutex.stuck_of_doomed disciplined_or_doomed hrun hs hnew hrest

/-- A first request for a new torrent. -/
def firstJob : Job where
  conn := TrackerThread.someConnection
  db := {}
  msg := TrackerThread.newRequest
  moreRounds := 0

/-- One thread takes it up and gets the mutex: no thread can go on. -/
theorem tracker_live_throughout_iff_first :
    ¬ Throughout (SharedMutex.step (Job.lockCalls TrackerThread.lengthHash)) SharedMutex.Live []
      [.spawn, .enter 0 firstJob, .proceed 0] := by
  rw [(tracker_live_throughout_iff TrackerThread.lengthHash).1]
  intro h
  obtain ⟨-, hspawned⟩ := h _ rfl
  obtain ⟨-, hentered⟩ := hspawned _ rfl
  obtain ⟨hgranted, -⟩ := hentered _ rfl
  exact hgranted _ firstJob rfl rfl rfl

end P2PNetwork.Server
