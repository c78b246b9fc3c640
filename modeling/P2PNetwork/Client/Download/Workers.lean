import P2PNetwork.Client.File.File
import P2PNetwork.Lib.Run

/-!
# Workers for new peers

`DownloadManager::startWorkersForNewPeers` (`src/client/download/DownloadManager.cpp:48–63,81–85`)
starts a worker for every peer that no earlier worker seems to work with. The constructor of a
worker (`src/client/download/DownloadWorker.cpp:63–72`) asks a pointer for the torrent that it has
just moved from, so the first worker that is needed ends the client.
-/

open Lib

namespace P2PNetwork.Client

/-- `std::move` of a `std::shared_ptr` into a new one: the new pointer, and the null pointer that is
left behind. -/
def moved {α : Type} (pointer : Option α) : Option α × Option α := (pointer, none)

/-- `class DownloadWorker` (`DownloadWorker.h:16–21`) without the reference to the file manager. -/
structure DownloadWorker where
  file : Option File
  peer : PeerInfo
  torrent : Torrent
  finished : Bool
  deriving DecidableEq, Repr

namespace DownloadWorker

/-- The constructor (`DownloadWorker.cpp:63–72`), which initialises the members in the order of
their declarations: `file` is made from `file1` first. There is no result where a null pointer is
dereferenced. -/
def construct (file1 : Option File) (peer1 : PeerInfo) : Option DownloadWorker := do
  let (file, file1) := moved file1
  let torrent ← file1.map File.torrent
  some { file := file, peer := peer1, torrent := torrent, finished := false }

/-- `getPeer` (`DownloadWorker.cpp:53–55`). -/
def getPeer (w : DownloadWorker) : PeerInfo := w.peer

/-- No worker is ever constructed: `file1` is null when the torrent is taken from it. -/
@[simp] theorem construct_eq_none (file1 : Option File) (peer1 : PeerInfo) :
    construct file1 peer1 = none := rfl

end DownloadWorker

/-- The file of a `DownloadManager` and its workers (`DownloadManager.h:15–21`). -/
structure Manager where
  file : File
  workers : List DownloadWorker := []
  deriving DecidableEq, Repr

namespace Manager

/-- `checkIfWorkersWorkWithPeer` (`DownloadManager.cpp:81–85`). -/
def checkIfWorkersWorkWithPeer (myPeers : List PeerInfo) (peer : PeerInfo) : Bool :=
  myPeers.any fun x ↦ x.ipV6Address == peer.ipV6Address || x.ipV4Address == peer.ipV4Address

variable (m : Manager)

/-- `startWorkerThreadForPeer` (`DownloadManager.cpp:58–63`). -/
def startWorkerThreadForPeer (peer : PeerInfo) : Option Manager := do
  let worker ← DownloadWorker.construct (some m.file) peer
  some { m with workers := m.workers ++ [worker] }

/-- `startWorkersForNewPeers` (`DownloadManager.cpp:48–57`): the peers are compared with the
workers there are before the loop. -/
def startWorkersForNewPeers : Option Manager :=
  let filePeers := m.file.getPeers
  let myPeers := m.workers.map DownloadWorker.getPeer
  filePeers.foldlM (fun m fp ↦
    if !checkIfWorkersWorkWithPeer myPeers fp then m.startWorkerThreadForPeer fp else some m) m

/-- Some peers are added to the file, and workers are started. -/
def round (new : List PeerInfo) : Option Manager :=
  { m with file := new.foldl File.addPeer m.file }.startWorkersForNewPeers

/-- Every peer of the file has one worker, and every worker has a peer of the file. -/
def OneWorkerEach : Prop :=
  (∀ p ∈ m.file.peers, (m.workers.map DownloadWorker.getPeer).count p = 1) ∧
    ∀ w ∈ m.workers, w.getPeer ∈ m.file.peers

/-- The round comes to its end, and then every peer has one worker. -/
def Served (new : List PeerInfo) : Prop := ∃ m', m.round new = some m' ∧ m'.OneWorkerEach

end Manager

namespace PeerInfo

/-- Where a peer is found. -/
def address (p : PeerInfo) : Bytes × Bytes × Int := (p.ipV4Address, p.ipV6Address, p.port)

/-- The peer has an IPv4 address or an IPv6 address, as `addPeersToFile` builds them. -/
def OneFamily (p : PeerInfo) : Prop :=
  (p.ipV4Address ≠ [] ∧ p.ipV6Address = []) ∨ (p.ipV4Address = [] ∧ p.ipV6Address ≠ [])

instance (p : PeerInfo) : Decidable p.OneFamily := inferInstanceAs (Decidable (_ ∨ _))

end PeerInfo

namespace Manager

variable {m m' : Manager} {new : List PeerInfo}

/-- Adding peers to a file appends them. -/
theorem peers_foldl_addPeer (new : List PeerInfo) (file : File) :
    (new.foldl File.addPeer file).peers = file.peers ++ new := by
  induction new generalizing file with
  | nil => simp
  | cons p new ih => simp [ih, File.addPeer]

/-- No worker is ever started. -/
@[simp] theorem startWorkerThreadForPeer_eq_none (peer : PeerInfo) :
    m.startWorkerThreadForPeer peer = none := rfl

/-- Without workers the loop comes to its end over no peers only. -/
theorem peers_eq_nil_of_start (hm : m.workers = []) (h : m.startWorkersForNewPeers = some m') :
    m.file.peers = [] := by
  rw [startWorkersForNewPeers, File.getPeers, hm] at h
  cases hpeers : m.file.peers with
  | nil => rfl
  | cons p peers =>
    -- the first peer has no worker, and the constructor of its worker does not return
    rw [hpeers, List.foldlM_cons] at h
    cases h

/-- A round without peers starts nothing. -/
theorem round_nil (hpeers : m.file.peers = []) : m.round [] = some m := by
  rw [Manager.round, List.foldl_nil, startWorkersForNewPeers, File.getPeers, hpeers]
  rfl

/-- So a round is served exactly if there is nobody to serve. -/
theorem served_iff (hm : m.workers = []) : m.Served new ↔ m.file.peers = [] ∧ new = [] := by
  constructor
  · rintro ⟨m', hround, -⟩
    have hnone := peers_eq_nil_of_start
      (m := { m with file := new.foldl File.addPeer m.file }) hm hround
    rw [peers_foldl_addPeer] at hnone
    exact List.append_eq_nil_iff.mp hnone
  · rintro ⟨hpeers, rfl⟩
    refine ⟨m, round_nil hpeers, ?_, ?_⟩
    · simp [hpeers]
    · simp [hm]

/-- Every round comes to its end with one worker for each peer exactly if the file has no peers
and gets none: the first worker that is started ends the client. -/
theorem oneWorkerEach_throughout_iff (file : File) (rounds : List (List PeerInfo)) :
    Each Manager.round Served ⟨file, []⟩ rounds ↔
      ∀ new ∈ rounds, file.peers = [] ∧ new = [] := by
  induction rounds with
  | nil => simp [Each]
  | cons new rounds ih =>
    rw [Each, served_iff rfl, List.forall_mem_cons]
    apply and_congr_right
    rintro ⟨hpeers, rfl⟩
    rw [← ih]
    constructor
    · exact fun h ↦ h _ (round_nil hpeers)
    · intro h m' hm'
      rwa [← Option.some_inj.mp ((round_nil hpeers).symm.trans hm')]

/-! ### One peer -/

/-- The new peers have one address each, and no address occurs twice. -/
def Admissible (m : Manager) (new : List PeerInfo) : Prop :=
  ((m.file.peers ++ new).map PeerInfo.address).Nodup ∧ ∀ p ∈ new, p.OneFamily

instance (m : Manager) (new : List PeerInfo) : Decidable (m.Admissible new) :=
  inferInstanceAs (Decidable (_ ∧ _))

/-- A peer with an IPv4 address. -/
def ipV4Peer (id : Int) (ip : Bytes) : PeerInfo :=
  { id := id, ipV4Address := ip, ipV6Address := [], port := 2000 }

/-- A file without peers. -/
def newFile : File := .ofTorrent .empty []

/-- The file gets a peer, and the manager does not come back from starting its worker. -/
theorem not_oneWorkerEach_first :
    Admissible ⟨newFile, []⟩ [ipV4Peer 1 [49]] ∧
      Manager.round ⟨newFile, []⟩ [ipV4Peer 1 [49]] = none ∧
      ¬ Each Manager.round Served ⟨newFile, []⟩ [[ipV4Peer 1 [49]]] := by
  have hnone : Manager.round ⟨newFile, []⟩ [ipV4Peer 1 [49]] = none := by decide
  refine ⟨by decide, hnone, ?_⟩
  rintro ⟨⟨m', hround, -⟩, -⟩
  cases hnone.symm.trans hround

end Manager

end P2PNetwork.Client
