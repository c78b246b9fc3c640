import P2PNetwork.Client.File.File
import P2PNetwork.Lib.Run

/-!
# The peers of a file

`src/client/download/DownloadManager.cpp:71–80,87–100`: the addresses of a seedlist become
peers of the file. `getPeers` returns a new vector at every call, so the search for an address
runs from the beginning of one vector towards the end of another.
-/

namespace P2PNetwork.Client

/-- An iterator into the vector that the `n`-th call has returned. An empty vector has no
storage, and both its ends are null. -/
inductive Iter
  | null
  | inside (vector index : Nat)
  deriving DecidableEq, Repr

namespace Iter

/-- `begin()` of the `n`-th vector. -/
def first {α : Type} (n : Nat) (xs : List α) : Iter :=
  if xs.isEmpty then .null else .inside n 0

/-- `end()` of the `n`-th vector. -/
def last {α : Type} (n : Nat) (xs : List α) : Iter :=
  if xs.isEmpty then .null else .inside n xs.length

/-- The loop of `std::find_if` over what is left of the `n`-th vector; no result where it
leaves the vector. -/
def findFrom {α : Type} (p : α → Bool) (stop : Iter) (n : Nat) : Nat → List α → Option Iter
  | i, [] => if .inside n i = stop then some stop else none
  | i, x :: rest =>
    if .inside n i = stop then some stop
    else if p x then some (.inside n i)
    else findFrom p stop n (i + 1) rest

/-- `std::find_if` from `begin()` of the `n`-th vector; a null iterator points to nothing. -/
def findIf {α : Type} (p : α → Bool) (n : Nat) (xs : List α) (stop : Iter) : Option Iter :=
  match first n xs with
  | .null => if .null = stop then some stop else none
  | .inside _ i => findFrom p stop n i xs

end Iter

namespace DownloadManager

/-- The common shape of `checkIfFileContainsPeerWithGivenIpV4` and `…IpV6`: three calls of
`getPeers`, the third one for the `end()` that the result is compared with. -/
def checkIfFileContains (field : PeerInfo → Bytes) (file : File) (address : Bytes) : Option Bool :=
  let peers := file.getPeers
  (Iter.findIf (fun x ↦ field x == address) 0 peers (.last 1 peers)).map fun found ↦
    !(found == Iter.last 2 peers)

/-- `checkIfFileContainsPeerWithGivenIpV4` (`DownloadManager.cpp:71–75`). -/
def checkIfFileContainsPeerWithGivenIpV4 : File → Bytes → Option Bool :=
  checkIfFileContains PeerInfo.ipV4Address

/-- `checkIfFileContainsPeerWithGivenIpV6` (`DownloadManager.cpp:76–80`). -/
def checkIfFileContainsPeerWithGivenIpV6 : File → Bytes → Option Bool :=
  checkIfFileContains PeerInfo.ipV6Address

/-- One entry of a loop of `addPeersToFile`: the peer is added where the file contains it. -/
def addPeerToFile (contains : File → Bytes → Option Bool) (peer : Int → IpPort → PeerInfo)
    (file : File) (i : IpPort) : Option File :=
  (contains file i.ip).map fun found ↦
    if found then file.addPeer (peer (toInt32 (file.getPeers.length + 1 : Nat)) i) else file

/-- The loops over `ipv6peers` and `ipv6seeds` (`DownloadManager.cpp:88–93`). -/
def addIpV6PeersToFile : File → List IpPort → Option File :=
  List.foldlM (addPeerToFile checkIfFileContainsPeerWithGivenIpV6
    fun id i ↦ { id := id, ipV4Address := [], ipV6Address := i.ip, port := idOf i.port })

/-- The loops over `ipv4seeds` and `ipv4peers` (`DownloadManager.cpp:94–99`). -/
def addIpV4PeersToFile : File → List IpPort → Option File :=
  List.foldlM (addPeerToFile checkIfFileContainsPeerWithGivenIpV4
    fun id i ↦ { id := id, ipV4Address := i.ip, ipV6Address := [], port := idOf i.port })

/-- `addPeersToFile` (`DownloadManager.cpp:87–100`). -/
def addPeersToFile (file : File) (response : SeedlistResponse) : Option File := do
  let file ← addIpV6PeersToFile file response.ipV6Peers
  let file ← addIpV6PeersToFile file response.ipV6Seeds
  let file ← addIpV4PeersToFile file response.ipV4Seeds
  addIpV4PeersToFile file response.ipV4Peers

/-- The IPv4 addresses of a response. -/
def ipV4Addresses (response : SeedlistResponse) : List Bytes :=
  (response.ipV4Seeds ++ response.ipV4Peers).map IpPort.ip

/-- The IPv6 addresses of a response. -/
def ipV6Addresses (response : SeedlistResponse) : List Bytes :=
  (response.ipV6Peers ++ response.ipV6Seeds).map IpPort.ip

/-- The peers that a file should have after some responses: every address once, no other
address, and different ids. -/
structure Booked (responses : List SeedlistResponse) (peers : List PeerInfo) : Prop where
  ipV4 : ∀ a, a ≠ [] → a ∈ responses.flatMap ipV4Addresses →
    peers.countP (fun x ↦ x.ipV4Address == a) = 1
  ipV6 : ∀ a, a ≠ [] → a ∈ responses.flatMap ipV6Addresses →
    peers.countP (fun x ↦ x.ipV6Address == a) = 1
  onlyIpV4 : ∀ x ∈ peers, x.ipV4Address ≠ [] → x.ipV4Address ∈ responses.flatMap ipV4Addresses
  onlyIpV6 : ∀ x ∈ peers, x.ipV6Address ≠ [] → x.ipV6Address ∈ responses.flatMap ipV6Addresses
  ids : (peers.map PeerInfo.id).Nodup

/-- No entry of the responses has an address. -/
def Addressless (responses : List SeedlistResponse) : Prop :=
  ∀ response ∈ responses, ∀ a ∈ ipV4Addresses response ++ ipV6Addresses response, a = []

/-- A file without peers contains no address. -/
private theorem checkIfFileContains_of_empty {file : File} (h : file.peers = [])
    (field : PeerInfo → Bytes) (address : Bytes) :
    checkIfFileContains field file address = some false := by
  simp [checkIfFileContains, File.getPeers, h, Iter.findIf, Iter.first, Iter.last]

/-- So nothing is added to it. -/
private theorem foldlM_addPeerToFile {file : File} (h : file.peers = [])
    (field : PeerInfo → Bytes) (peer : Int → IpPort → PeerInfo) (entries : List IpPort) :
    entries.foldlM (addPeerToFile (checkIfFileContains field) peer) file = some file := by
  apply Lib.foldlM_fixed
  intro i _
  rw [addPeerToFile, checkIfFileContains_of_empty h]
  rfl

/-- A response adds no peer to a file without peers. -/
theorem addPeersToFile_of_empty {file : File} (h : file.peers = [])
    (response : SeedlistResponse) : addPeersToFile file response = some file := by
  simp only [addPeersToFile, addIpV6PeersToFile, addIpV4PeersToFile,
    checkIfFileContainsPeerWithGivenIpV6, checkIfFileContainsPeerWithGivenIpV4,
    foldlM_addPeerToFile h, Option.bind_eq_bind, Option.bind_some]

private theorem foldlM_addPeersToFile {file : File} (h : file.peers = [])
    (responses : List SeedlistResponse) :
    responses.foldlM addPeersToFile file = some file := by
  apply Lib.foldlM_fixed
  intro response _
  exact addPeersToFile_of_empty h response

/-- Having no peers is right exactly when the responses name no address. -/
private theorem booked_nil_iff {responses : List SeedlistResponse} :
    Booked responses [] ↔ Addressless responses := by
  constructor
  · intro h response hr a ha
    by_contra hne
    rcases List.mem_append.mp ha with ha | ha
    · exact absurd (h.ipV4 a hne (List.mem_flatMap.mpr ⟨response, hr, ha⟩)) (by simp)
    · exact absurd (h.ipV6 a hne (List.mem_flatMap.mpr ⟨response, hr, ha⟩)) (by simp)
  · intro h
    refine ⟨?_, ?_, by simp, by simp, List.nodup_nil⟩
    · intro a hne ha
      obtain ⟨response, hr, ha⟩ := List.mem_flatMap.mp ha
      exact absurd (h response hr a (List.mem_append_left _ ha)) hne
    · intro a hne ha
      obtain ⟨response, hr, ha⟩ := List.mem_flatMap.mp ha
      exact absurd (h response hr a (List.mem_append_right _ ha)) hne

/-- On a file that starts without peers, the peers are what the responses name exactly when
they name no address: only addresses that the file contains are added. -/
theorem booked_iff {file : File} (h : file.peers = []) (responses : List SeedlistResponse) :
    ∃ file', responses.foldlM addPeersToFile file = some file' ∧
      (Booked responses file'.getPeers ↔ Addressless responses) := by
  refine ⟨file, foldlM_addPeersToFile h responses, ?_⟩
  rw [File.getPeers, h]
  exact booked_nil_iff

/-! ### One seed -/

/-- A response with one seed. -/
def oneSeed : SeedlistResponse := { ipV4Seeds := [⟨[49], 2000⟩] }

/-- A new file and the response with one seed. -/
theorem booked_iff_oneSeed :
    ∃ file', [oneSeed].foldlM addPeersToFile (.ofTorrent .empty []) = some file' ∧
      (Booked [oneSeed] file'.getPeers ↔ Addressless [oneSeed]) :=
  booked_iff rfl [oneSeed]

/-- The seed does not become a peer. -/
theorem not_booked_oneSeed :
    ¬ ∃ file', [oneSeed].foldlM addPeersToFile (.ofTorrent .empty []) = some file' ∧
      Booked [oneSeed] file'.getPeers := by
  rintro ⟨file', hfile, hbooked⟩
  rw [foldlM_addPeersToFile rfl, Option.some_inj] at hfile
  subst hfile
  exact absurd (hbooked.ipV4 [49] (by decide) (by decide)) (by decide)

end DownloadManager

end P2PNetwork.Client
