import P2PNetwork.Lib.LockDiscipline
import P2PNetwork.Server.Salting

/-!
# The tracker's mutex

The methods of the tracker's database (`src/server/database/Database.cpp`) with the calls they
make on its `std::shared_mutex`. Each computes what it computes with a reentrant lock.
-/

open Lib

namespace P2PNetwork.Server

namespace Locking

open Recorded

variable (db : Database)

/-- `addOrUpdateClient` (`Database.cpp:4–14`). -/
def addOrUpdateClient (clientInfo : ClientInfo) : Recorded Database :=
  let update := modifyFirst (fun c ↦ c.address = clientInfo.address) fun c ↦
    c.setTorrents clientInfo.torrents
  guardedLoop .exclusive (fun c ↦ c.address = clientInfo.address) db.clients
    { db with clients := update db.clients } { db with clients := db.clients ++ [clientInfo] }

/-- `addTorrentToClient` (`Database.cpp:16–28`), which adds the torrent to copies. -/
def addTorrentToClient (clientInfo : ClientInfo) (_torrent : Torrent) : Recorded Database :=
  guardedLoop .exclusive (fun c ↦ c.address = clientInfo.address) db.clients
    db { db with clients := db.clients ++ [clientInfo] }

/-- `deleteClient` (`Database.cpp:30–43`). -/
def deleteClient (client : ClientInfo) : Recorded Database :=
  guarded .exclusive
    { db with clients := db.clients.filter fun compared ↦ !client.same compared }

/-- `getClients` (`Database.cpp:45–50`). -/
def getClients : Recorded (List ClientInfo) := guarded .shared db.clients

/-- `isHashUnique` (`Database.cpp:52–63`). -/
def isHashUnique (hash : Hash) : Recorded Bool :=
  guardedLoop .shared (fun torrent ↦ torrent.hashed == hash) db.torrents false true

/-- The salting loop of `addTorrent` (`Database.cpp:70–73`), at most `fuel` rounds. -/
def salted (hash : Bytes → Hash) : Nat → UInt32 → Torrent → Recorded (Option Torrent)
  | 0, _, _ => pure none
  | fuel + 1, salt, t => do
    if ← isHashUnique db t.hashed then
      pure (some t)
    else
      salted hash fuel (salt + 1) (t.genSaltedHash hash salt)

/-- `addTorrent` (`Database.cpp:65–78`). It does not get behind a loop that does not end. -/
def addTorrent (hash : Bytes → Hash) (fuel : Nat) (t : Torrent) :
    Recorded (Option (Database × Hash)) := do
  lock .exclusive
  match ← salted db hash fuel 1 (t.genDefaultHash hash) with
  | none => pure none
  | some t =>
    unlock .exclusive
    pure (some ({ db with torrents := db.torrents ++ [t] }, t.hashed))

/-- `getClientsWith(Torrent)` (`Database.cpp:80–91`). -/
def getClientsWithTorrent (torrent : Torrent) : Recorded (List ClientInfo) :=
  guarded .shared (db.clients.filter fun i ↦ i.hasTorrentOf torrent)

/-- `getClientsWith(Hash)` (`Database.cpp:93–104`). -/
def getClientsWith (hash : Hash) : Recorded (List ClientInfo) :=
  guarded .shared (db.clients.filter fun i ↦ i.hasTorrent hash)

/-- `hasTorrent` (`Database.cpp:106–116`). -/
def hasTorrent (torrent : Torrent) : Recorded Bool :=
  guardedLoop .shared (fun t ↦ t.same torrent) db.torrents true false

/-- `torrentVector` (`Database.cpp:118–120`) does not use the mutex. -/
def torrentVector : Recorded (List Torrent) := pure db.torrents

variable {db} {calls : List LockCall}

/-! ### Results and calls -/

theorem run_addOrUpdateClient (ci : ClientInfo) :
    (addOrUpdateClient db ci).run calls =
      pure (db.addOrUpdateClient ci, calls ++ [.acquire .exclusive, .release .exclusive]) := by
  rw [addOrUpdateClient, run_guardedLoop]
  rfl

theorem run_addTorrentToClient (ci : ClientInfo) (t : Torrent) :
    (addTorrentToClient db ci t).run calls =
      pure (db.addTorrentToClient ci t, calls ++ [.acquire .exclusive, .release .exclusive]) := by
  rw [addTorrentToClient, run_guardedLoop, Database.addTorrentToClient, ← List.isSome_find?]
  cases db.clients.find? fun c ↦ c.address = ci.address <;> rfl

theorem run_deleteClient (client : ClientInfo) :
    (deleteClient db client).run calls =
      pure (db.deleteClient client, calls ++ [.acquire .exclusive, .release .exclusive]) :=
  run_guarded _ _ _

theorem run_getClients :
    (getClients db).run calls =
      pure (db.getClients, calls ++ [.acquire .shared, .release .shared]) :=
  run_guarded _ _ _

theorem run_isHashUnique (hash : Hash) :
    (isHashUnique db hash).run calls =
      pure (db.isHashUnique hash, calls ++ [.acquire .shared, .release .shared]) := by
  rw [isHashUnique, run_guardedLoop, Database.isHashUnique]
  cases db.torrents.any fun torrent ↦ torrent.hashed == hash <;> rfl

theorem run_getClientsWithTorrent (torrent : Torrent) :
    (getClientsWithTorrent db torrent).run calls =
      pure (db.getClientsWithTorrent torrent, calls ++ [.acquire .shared, .release .shared]) :=
  run_guarded _ _ _

theorem run_getClientsWith (hash : Hash) :
    (getClientsWith db hash).run calls =
      pure (db.getClientsWith hash, calls ++ [.acquire .shared, .release .shared]) :=
  run_guarded _ _ _

theorem run_hasTorrent (torrent : Torrent) :
    (hasTorrent db torrent).run calls =
      pure (db.hasTorrent torrent, calls ++ [.acquire .shared, .release .shared]) := by
  rw [hasTorrent, run_guardedLoop, Database.hasTorrent]
  cases db.torrents.any fun t ↦ t.same torrent <;> rfl

theorem run_torrentVector : (torrentVector db).run calls = pure (db.torrentVector, calls) := rfl

/-- Every test of the salting loop takes the mutex and gives it back. -/
theorem run_salted (hash : Bytes → Hash) (fuel : Nat) (salt : UInt32) (t : Torrent) :
    ∃ tests, (0 < fuel → 0 < tests) ∧
      (salted db hash fuel salt t).run calls = pure (db.salted hash fuel salt t,
        calls ++ (List.replicate tests [.acquire .shared, .release .shared]).flatten) := by
  induction fuel generalizing salt t calls with
  | zero => exact ⟨0, id, by simp [salted, Database.salted]⟩
  | succ fuel ih =>
    cases hunique : db.isHashUnique t.hashed with
    | true =>
      refine ⟨1, fun _ ↦ Nat.one_pos, ?_⟩
      simp [salted, Database.salted, run_isHashUnique, hunique]
    | false =>
      obtain ⟨tests, -, hrest⟩ := @ih (calls ++ [.acquire .shared, .release .shared]) (salt + 1)
        (t.genSaltedHash hash salt)
      refine ⟨tests + 1, fun _ ↦ Nat.succ_pos tests, ?_⟩
      simp [salted, Database.salted, run_isHashUnique, hunique, hrest, List.replicate_succ]

/-- `addTorrent` takes the mutex for all its tests, and gives it back if they end. -/
theorem run_addTorrent (hash : Bytes → Hash) (fuel : Nat) (t : Torrent) :
    ∃ tests, (0 < fuel → 0 < tests) ∧
      (addTorrent db hash fuel t).run calls = pure (db.addTorrent hash fuel t,
        calls ++ [.acquire .exclusive] ++
          (List.replicate tests [.acquire .shared, .release .shared]).flatten ++
          if (db.addTorrent hash fuel t).isSome then [.release .exclusive] else []) := by
  obtain ⟨tests, hpos, hsalted⟩ := @run_salted db (calls ++ [.acquire .exclusive]) hash fuel 1
    (t.genDefaultHash hash)
  refine ⟨tests, hpos, ?_⟩
  rw [Database.addTorrent]
  cases hstored : db.salted hash fuel 1 (t.genDefaultHash hash) with
  | none => simp [addTorrent, hsalted, hstored]
  | some stored => simp [addTorrent, hsalted, hstored]

/-! ### The discipline of the methods -/

/-- The public methods with their arguments, and the rounds that the loop of `addTorrent` may
take. -/
inductive Method
  | getClientsWithTorrent (torrent : Torrent)
  | getClientsWith (hash : Hash)
  | getClients
  | addOrUpdateClient (clientInfo : ClientInfo)
  | addTorrentToClient (clientInfo : ClientInfo) (torrent : Torrent)
  | deleteClient (client : ClientInfo)
  | torrentVector
  | isHashUnique (hash : Hash)
  | hasTorrent (torrent : Torrent)
  | addTorrent (torrent : Torrent) (fuel : Nat)
  deriving DecidableEq, Repr

/-- The calls a method makes on the mutex. -/
def Method.lockCalls (hash : Bytes → Hash) (db : Database) : Method → List LockCall
  | .getClientsWithTorrent torrent => ((Locking.getClientsWithTorrent db torrent).run []).2
  | .getClientsWith h => ((Locking.getClientsWith db h).run []).2
  | .getClients => ((Locking.getClients db).run []).2
  | .addOrUpdateClient clientInfo => ((Locking.addOrUpdateClient db clientInfo).run []).2
  | .addTorrentToClient clientInfo torrent =>
    ((Locking.addTorrentToClient db clientInfo torrent).run []).2
  | .deleteClient client => ((Locking.deleteClient db client).run []).2
  | .torrentVector => ((Locking.torrentVector db).run []).2
  | .isHashUnique h => ((Locking.isHashUnique db h).run []).2
  | .hasTorrent torrent => ((Locking.hasTorrent db torrent).run []).2
  | .addTorrent torrent fuel => ((Locking.addTorrent db hash fuel torrent).run []).2

/-- The tests of `addTorrent` request the mutex that it holds. -/
theorem not_disciplined_addTorrent (hash : Bytes → Hash) (fuel : Nat) (t : Torrent) :
    ¬ Disciplined ((addTorrent db hash fuel t).run []).2 := by
  obtain ⟨tests, hpos, hrun⟩ := @run_addTorrent db [] hash fuel t
  rw [hrun]
  cases tests with
  | zero =>
    have hfuel : fuel = 0 := by omega
    subst hfuel
    exact not_disciplined_of_kept .exclusive
  | succ tests => exact not_disciplined_of_nested .exclusive .shared _

private theorem disciplined_of_other {hash : Bytes → Hash} {method : Method}
    (h : ∀ t fuel, method ≠ .addTorrent t fuel) : Disciplined (method.lockCalls hash db) := by
  cases method with
  | getClientsWithTorrent torrent =>
    rw [Method.lockCalls, run_getClientsWithTorrent]
    exact disciplined_bracket .shared
  | getClientsWith hash =>
    rw [Method.lockCalls, run_getClientsWith]
    exact disciplined_bracket .shared
  | getClients =>
    rw [Method.lockCalls, run_getClients]
    exact disciplined_bracket .shared
  | addOrUpdateClient ci =>
    rw [Method.lockCalls, run_addOrUpdateClient]
    exact disciplined_bracket .exclusive
  | addTorrentToClient ci t =>
    rw [Method.lockCalls, run_addTorrentToClient]
    exact disciplined_bracket .exclusive
  | deleteClient client =>
    rw [Method.lockCalls, run_deleteClient]
    exact disciplined_bracket .exclusive
  | torrentVector =>
    rw [Method.lockCalls, run_torrentVector]
    exact disciplined_nil
  | isHashUnique hash =>
    rw [Method.lockCalls, run_isHashUnique]
    exact disciplined_bracket .shared
  | hasTorrent torrent =>
    rw [Method.lockCalls, run_hasTorrent]
    exact disciplined_bracket .shared
  | addTorrent t fuel => exact absurd rfl (h t fuel)

/-- Exactly the methods other than `addTorrent` request the mutex only while they do not hold it
and give back what they have taken. -/
theorem disciplined_iff (hash : Bytes → Hash) (db : Database) (method : Method) :
    Disciplined (method.lockCalls hash db) ↔ ∀ t fuel, method ≠ .addTorrent t fuel := by
  constructor
  · rintro h t fuel rfl
    exact not_disciplined_addTorrent hash fuel t h
  · exact disciplined_of_other

/-- A first torrent: `addTorrent` takes the mutex, and its first test requests it again. -/
theorem not_disciplined_first_torrent :
    ¬ Disciplined (Method.lockCalls TrackerThread.lengthHash {} (.addTorrent .empty 1)) := by
  decide

end Locking

end P2PNetwork.Server
