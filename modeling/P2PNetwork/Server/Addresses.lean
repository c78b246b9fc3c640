import P2PNetwork.Server.NewTorrent
import P2PNetwork.Server.Registry

/-!
# One entry per address

A client is appended only where its address is new, and no call changes the address of a stored
client. So no address has two clients in a state that the tracker's database reaches, whatever
kinds of address the calls say, and every list of peers names an address once.
-/

open Lib

namespace P2PNetwork.Server

/-- A seedlist names the addresses of the clients that `getClientsWith` finds, the IPv4
addresses first. -/
theorem TrackerThread.listedAddresses_perm (db : Database) (request : SeedlistRequest) :
    (listedAddresses (seedlistResponse db request)).Perm
      ((db.getClientsWith request.hashedTorrent).map ClientInfo.address) := by
  have hlisted : listedAddresses (seedlistResponse db request) =
      ((db.getClientsWith request.hashedTorrent).filter ClientInfo.isIpV4 ++
        (db.getClientsWith request.hashedTorrent).filter fun c ↦ !c.isIpV4).map
          ClientInfo.address := by
    simp [listedAddresses, seedlistResponse, Function.comp_def]
  rw [hlisted]
  exact (List.filter_append_perm _ _).map _

namespace Database

variable {db db' : Database}

/-- No address has two clients. -/
def OneEntryPerAddress (db : Database) : Prop := Distinct ClientInfo.address db.clients

private theorem lookup_of_not_any {clients : List ClientInfo} {ci : ClientInfo}
    (h : ¬ clients.any (fun c ↦ c.address = ci.address) = true) :
    lookup ClientInfo.address clients ci.address = none := by
  simpa [lookup_eq_none_iff] using h

/-- `addOrUpdateClient` changes the torrents of a client or appends one with a new address. -/
theorem oneEntry_addOrUpdateClient (h : db.OneEntryPerAddress) (ci : ClientInfo) :
    (db.addOrUpdateClient ci).OneEntryPerAddress := by
  unfold addOrUpdateClient
  split
  · apply distinct_modifyFirst h
    intro c
    rfl
  · next hnew => exact distinct_append_new h (lookup_of_not_any hnew)

/-- `addTorrentToClient` leaves the clients alone or appends one with a new address. -/
theorem oneEntry_addTorrentToClient (h : db.OneEntryPerAddress) (ci : ClientInfo) (t : Torrent) :
    (db.addTorrentToClient ci t).OneEntryPerAddress := by
  unfold addTorrentToClient
  split
  · exact h
  · next hnew => exact distinct_append_new h hnew

/-- Every call keeps one entry per address. -/
theorem oneEntry_operate {hash : Bytes → Hash} {op : Operation} (h : db.OneEntryPerAddress)
    (hop : db.operate hash op = some db') : db'.OneEntryPerAddress := by
  cases op with
  | update u =>
    cases hop
    cases u with
    | addOrUpdateClient ci => exact oneEntry_addOrUpdateClient h ci
    | addTorrentToClient ci t => exact oneEntry_addTorrentToClient h ci t
    | deleteClient ci => exact distinct_filter h _
  | addTorrent t fuel =>
    obtain ⟨r, hr, rfl⟩ := Option.map_eq_some_iff.mp hop
    obtain ⟨stored, -, rfl⟩ := addTorrent_spec hr
    exact h

/-- In every state that the tracker's database reaches, no address has two clients, and neither
`getClientsWith` nor a seedlist names an address twice. -/
theorem oneEntry_of_run {hash : Bytes → Hash} {ops : List Operation}
    (hrun : Run (operate hash) Any {} ops db) :
    db.OneEntryPerAddress ∧
      (∀ h, ((db.getClientsWith h).map ClientInfo.address).Nodup) ∧
      ∀ request, (TrackerThread.listedAddresses
        (TrackerThread.seedlistResponse db request)).Nodup := by
  have hdistinct : db.OneEntryPerAddress := by
    apply hrun.invariant
    · exact List.nodup_nil
    · intro s op s' hs _ hop
      exact oneEntry_operate hs hop
  have hfound : ∀ h, ((db.getClientsWith h).map ClientInfo.address).Nodup := by
    intro h
    exact distinct_filter hdistinct _
  refine ⟨hdistinct, hfound, ?_⟩
  intro request
  rw [(TrackerThread.listedAddresses_perm db request).nodup_iff]
  exact hfound request.hashedTorrent

/-! ### One address, two kinds -/

/-- A client that is added, added again as an IPv6 client, and given a torrent. -/
def twiceAdded : List Operation :=
  [.update (.addOrUpdateClient ⟨true, ⟨[49], 2000⟩, []⟩),
    .update (.addOrUpdateClient
      ⟨false, ⟨[49], 2000⟩, [{ hashed := 5, size := 1, fileName := [] }]⟩),
    .update (.addTorrentToClient ⟨false, ⟨[49], 2000⟩, []⟩ .empty)]

/-- The database after these calls. -/
def onceListed : Database :=
  { clients := [⟨true, ⟨[49], 2000⟩, [{ hashed := 5, size := 1, fileName := [] }]⟩] }

/-- It has one client. -/
theorem oneEntry_of_run_twice :
    onceListed.OneEntryPerAddress ∧
      (∀ h, ((onceListed.getClientsWith h).map ClientInfo.address).Nodup) ∧
      ∀ request, (TrackerThread.listedAddresses
        (TrackerThread.seedlistResponse onceListed request)).Nodup :=
  @oneEntry_of_run onceListed TrackerThread.lengthHash twiceAdded
    (.of_foldlM (by decide) .any)

end Database

end P2PNetwork.Server
