import P2PNetwork.Lib.Run
import P2PNetwork.Server.TrackerThread
import Mathlib.Data.Set.Insert

/-!
# The registry of clients

What the tracker's list of clients is for: a map from addresses to the hashes a client
shares. The list follows the map as long as `addTorrentToClient` has nothing to add,
because it adds to a copy.
-/

open Lib

namespace P2PNetwork.Server

/-- The abstract registry: the hashes shared from each address. -/
abbrev Registry := IpAddress → Option (Set Hash)

/-- The hashes a client shares. -/
def ClientInfo.hashes (c : ClientInfo) : Set Hash := {h | c.hasTorrent h = true}

/-- The calls that change the list of clients. -/
inductive Update
  | addOrUpdateClient (clientInfo : ClientInfo)
  | addTorrentToClient (clientInfo : ClientInfo) (torrent : Torrent)
  | deleteClient (client : ClientInfo)
  deriving DecidableEq, Repr

/-- The client a call is about. -/
def Update.client : Update → ClientInfo
  | .addOrUpdateClient ci => ci
  | .addTorrentToClient ci _ => ci
  | .deleteClient ci => ci

/-- What a call does to the database. -/
def Database.apply (db : Database) : Update → Database
  | .addOrUpdateClient ci => db.addOrUpdateClient ci
  | .addTorrentToClient ci t => db.addTorrentToClient ci t
  | .deleteClient ci => db.deleteClient ci

/-- The calls that change the database: those about a client, and `addTorrent` with the rounds
its loop may take. -/
inductive Operation
  | update (u : Update)
  | addTorrent (t : Torrent) (fuel : Nat)
  deriving DecidableEq, Repr

/-- What a call that returns does to the database. -/
def Database.operate (hash : Bytes → Hash) (db : Database) : Operation → Option Database
  | .update u => some (db.apply u)
  | .addTorrent t fuel => (db.addTorrent hash fuel t).map Prod.fst

/-- What a call is meant to do to the registry. -/
noncomputable def Registry.apply (m : Registry) : Update → Registry
  | .addOrUpdateClient ci => Function.update m ci.address (some ci.hashes)
  | .addTorrentToClient ci t =>
    Function.update m ci.address (some (insert t.hashed ((m ci.address).getD ci.hashes)))
  | .deleteClient ci => Function.update m ci.address none

/-- One call on the database and on the registry. -/
noncomputable def registryStep (s : Database × Registry) (u : Update) :
    Option (Database × Registry) :=
  some (s.1.apply u, Registry.apply s.2 u)

/-- Both start empty. -/
def registryStart : Database × Registry := ({}, fun _ ↦ none)

/-- For every hash, `getClientsWith` and the seedlist name exactly the addresses that the
registry has under it. -/
def Lists (s : Database × Registry) : Prop :=
  ∀ hash a, ((∃ c ∈ s.1.getClientsWith hash, c.address = a) ↔ ∃ hs, s.2 a = some hs ∧ hash ∈ hs) ∧
    (a ∈ TrackerThread.listedAddresses
        (TrackerThread.seedlistResponse s.1 { hashedTorrent := hash }) ↔
      ∃ hs, s.2 a = some hs ∧ hash ∈ hs)

/-- `addTorrentToClient` has nothing to add: the client that is stored in the end, the one
found or else the argument, shares the torrent already. -/
def Covered (s : Database × Registry) : Update → Prop
  | .addTorrentToClient ci t =>
    ((lookup ClientInfo.address s.1.clients ci.address).getD ci).hasTorrent t.hashed = true
  | _ => True

/-- A list of clients represents a registry: each address occurs once, always with the same
kind of address, and shares what the registry says. -/
structure Represents (family : IpAddress → Bool) (clients : List ClientInfo) (m : Registry) :
    Prop where
  distinct : Distinct ClientInfo.address clients
  kind : ∀ c ∈ clients, c.isIpV4 = family c.address
  entry : ∀ a, m a = (lookup ClientInfo.address clients a).map ClientInfo.hashes

section

variable {family : IpAddress → Bool} {clients : List ClientInfo} {db : Database} {m : Registry}
  {ci : ClientInfo} {t : Torrent}

/-- The addresses of the clients with a torrent are those the represented registry has. -/
theorem Represents.lists (h : Represents family db.clients m) : Lists (db, m) := by
  have hclients : ∀ hash a, (∃ c ∈ db.getClientsWith hash, c.address = a) ↔
      ∃ hs, m a = some hs ∧ hash ∈ hs := by
    intro hash a
    simp only [Database.getClientsWith, List.mem_filter]
    constructor
    · rintro ⟨c, ⟨hc, hhash⟩, rfl⟩
      refine ⟨c.hashes, ?_, hhash⟩
      rw [h.entry c.address, (mem_iff_lookup h.distinct).mp hc, Option.map_some]
    · rintro ⟨hs, hm, hhash⟩
      rw [h.entry a] at hm
      obtain ⟨c, hc, rfl⟩ := Option.map_eq_some_iff.mp hm
      obtain ⟨hmem, hkey⟩ := key_lookup hc
      exact ⟨c, ⟨hmem, hhash⟩, hkey⟩
  intro hash a
  exact ⟨hclients hash a, TrackerThread.mem_listedAddresses.trans (hclients hash a)⟩

/-- Appending a client whose address is new adds its entry. -/
theorem Represents.append (h : Represents family clients m) (hci : ci.isIpV4 = family ci.address)
    (hnew : lookup ClientInfo.address clients ci.address = none) :
    Represents family (clients ++ [ci]) (Function.update m ci.address (some ci.hashes)) where
  distinct := distinct_append_new h.distinct hnew
  kind := by
    intro c hc
    rcases List.mem_append.mp hc with hc | hc
    · exact h.kind c hc
    · rw [List.mem_singleton.mp hc, hci]
  entry := by
    intro a
    rw [lookup_append_new hnew]
    by_cases ha : a = ci.address
    · rw [ha, if_pos rfl, Function.update_self, Option.map_some]
    · rw [if_neg ha, Function.update_of_ne ha, h.entry a]

/-- `addOrUpdateClient` sets the entry of its client. -/
theorem Represents.addOrUpdate (h : Represents family db.clients m)
    (hci : ci.isIpV4 = family ci.address) :
    Represents family (db.addOrUpdateClient ci).clients
      (Function.update m ci.address (some ci.hashes)) := by
  unfold Database.addOrUpdateClient
  split
  · next hfound =>
    have hkey : ∀ c : ClientInfo, (c.setTorrents ci.torrents).address = c.address := fun _ ↦ rfl
    refine ⟨distinct_modifyFirst h.distinct hkey, ?_, ?_⟩
    · intro c hc
      rcases mem_modifyFirst hc with hc | ⟨b, hb, rfl⟩
      · exact h.kind c hc
      · exact h.kind b hb
    · intro a
      rw [lookup_modifyFirst hkey]
      by_cases ha : a = ci.address
      · have hsome : lookup ClientInfo.address db.clients ci.address ≠ none := by
          simpa [lookup_eq_none_iff] using hfound
        obtain ⟨c, hc⟩ := Option.ne_none_iff_exists'.mp hsome
        rw [ha, if_pos rfl, Function.update_self, hc]
        rfl
      · rw [if_neg ha, Function.update_of_ne ha, h.entry a]
  · next hfound =>
    apply h.append hci
    simpa [lookup_eq_none_iff] using hfound

/-- `deleteClient` removes the entry of its client. -/
theorem Represents.delete (h : Represents family db.clients m)
    (hci : ci.isIpV4 = family ci.address) :
    Represents family (db.deleteClient ci).clients (Function.update m ci.address none) := by
  have hfilter : (db.deleteClient ci).clients =
      db.clients.filter fun c ↦ c.address ≠ ci.address := by
    apply List.filter_congr
    intro c hc
    by_cases ha : c.address = ci.address
    · simp [ClientInfo.same, ha, hci, h.kind c hc]
    · simp [ClientInfo.same, ha, Ne.symm ha]
  rw [hfilter]
  refine ⟨distinct_filter h.distinct _, fun c hc ↦ h.kind c (List.mem_of_mem_filter hc), ?_⟩
  intro a
  rw [lookup_filter_ne]
  by_cases ha : a = ci.address
  · rw [ha, if_pos rfl, Function.update_self]
    rfl
  · rw [if_neg ha, Function.update_of_ne ha, h.entry a]

/-- `addTorrentToClient` with nothing to add keeps up with the registry. -/
theorem Represents.addTorrent (h : Represents family db.clients m)
    (hci : ci.isIpV4 = family ci.address) (hcovered : Covered (db, m) (.addTorrentToClient ci t)) :
    Represents family (db.addTorrentToClient ci t).clients
      (Registry.apply m (.addTorrentToClient ci t)) := by
  have hcovered : ((lookup ClientInfo.address db.clients ci.address).getD ci).hasTorrent t.hashed =
    true := hcovered
  have hentry := h.entry ci.address
  simp only [Database.addTorrentToClient, Registry.apply]
  cases hfound : lookup ClientInfo.address db.clients ci.address with
  | some c =>
    rw [hfound, Option.getD_some] at hcovered
    rw [hfound, Option.map_some] at hentry
    have hinsert : insert t.hashed c.hashes = c.hashes := Set.insert_eq_of_mem hcovered
    have hfind : db.clients.find? (fun c ↦ c.address = ci.address) = some c := hfound
    rw [hentry, Option.getD_some, hinsert, ← hentry, Function.update_eq_self, hfind]
    exact h
  | none =>
    rw [hfound, Option.getD_none] at hcovered
    rw [hfound, Option.map_none] at hentry
    have hinsert : insert t.hashed ci.hashes = ci.hashes := Set.insert_eq_of_mem hcovered
    have hfind : db.clients.find? (fun c ↦ c.address = ci.address) = none := hfound
    rw [hentry, Option.getD_none, hinsert, hfind]
    exact h.append hci hfound

private theorem mem_apply_addTorrent (m : Registry) (ci : ClientInfo) (t : Torrent) : ∃ hs,
    Registry.apply m (.addTorrentToClient ci t) ci.address = some hs ∧ t.hashed ∈ hs :=
  ⟨_, Function.update_self _ _ _, Set.mem_insert _ _⟩

/-- Where `addTorrentToClient` has something to add, the address is missing under the new
hash afterwards. -/
theorem Represents.covered_of_lists (h : Represents family db.clients m)
    (hlists : Lists (db.addTorrentToClient ci t, Registry.apply m (.addTorrentToClient ci t))) :
    Covered (db, m) (.addTorrentToClient ci t) := by
  obtain ⟨c, hc, hkey⟩ := ((hlists t.hashed ci.address).1).mpr (mem_apply_addTorrent m ci t)
  rw [Database.getClientsWith, List.mem_filter] at hc
  obtain ⟨hmem, hhash⟩ := hc
  show ((lookup ClientInfo.address db.clients ci.address).getD ci).hasTorrent t.hashed = true
  simp only [Database.addTorrentToClient] at hmem
  cases hfound : lookup ClientInfo.address db.clients ci.address with
  | some b =>
    have hfind : db.clients.find? (fun c ↦ c.address = ci.address) = some b := hfound
    rw [hfind] at hmem
    have hlookup := (mem_iff_lookup h.distinct).mp hmem
    rw [hkey, hfound, Option.some_inj] at hlookup
    rw [Option.getD_some, hlookup, hhash]
  | none =>
    have hfind : db.clients.find? (fun c ↦ c.address = ci.address) = none := hfound
    rw [hfind] at hmem
    rcases List.mem_append.mp hmem with hold | hnew
    · exact absurd hkey (lookup_eq_none_iff.mp hfound c hold)
    · rw [List.mem_singleton.mp hnew] at hhash
      rw [Option.getD_none, hhash]

/-- The tracker lists what the registry says after every prefix of a sequence of calls
exactly when no call of `addTorrentToClient` in it has anything to add. -/
theorem lists_throughout_iff {updates : List Update}
    (hfamily : ∀ u ∈ updates, u.client.isIpV4 = family u.client.address) :
    Throughout registryStep Lists registryStart updates ↔
      Meets registryStep Covered registryStart updates := by
  refine throughout_iff_meets (I := fun s ↦ Represents family s.1.clients s.2) hfamily ?_
    (fun s h ↦ h.lists) ?_ ?_
  · refine ⟨List.nodup_nil, ?_, fun _ ↦ rfl⟩
    intro c hc
    cases hc
  · rintro ⟨db, m⟩ u s' h hu hs
    cases hs
    cases u with
    | addOrUpdateClient ci => exact ⟨fun _ ↦ trivial, fun _ ↦ (h.addOrUpdate hu).lists⟩
    | addTorrentToClient ci t => exact ⟨h.covered_of_lists, fun hok ↦ (h.addTorrent hu hok).lists⟩
    | deleteClient ci => exact ⟨fun _ ↦ trivial, fun _ ↦ (h.delete hu).lists⟩
  · rintro ⟨db, m⟩ u s' h hu hs hok
    cases hs
    cases u with
    | addOrUpdateClient ci => exact h.addOrUpdate hu
    | addTorrentToClient ci t => exact h.addTorrent hu hok
    | deleteClient ci => exact h.delete hu

end

/-! ### One client and one torrent -/

/-- A client without torrents. -/
def oneClient : ClientInfo := { isIpV4 := true, address := ⟨[49], 2000⟩ }

/-- A torrent with hash `5`. -/
def oneTorrent : Torrent := { hashed := 5, size := 1, fileName := [97] }

/-- The client registers, a torrent is added to it, and it leaves. -/
theorem lists_throughout_iff_one :
    Throughout registryStep Lists registryStart
        [.addOrUpdateClient oneClient, .addTorrentToClient oneClient oneTorrent,
          .deleteClient oneClient] ↔
      Meets registryStep Covered registryStart
        [.addOrUpdateClient oneClient, .addTorrentToClient oneClient oneTorrent,
          .deleteClient oneClient] :=
  @lists_throughout_iff (fun _ ↦ true) _ (by decide)

/-- A single `addTorrentToClient` on the empty database is lost. -/
theorem not_lists_after_add :
    ¬ Throughout registryStep Lists registryStart [.addTorrentToClient oneClient oneTorrent] := by
  rintro ⟨_, h⟩
  have hlists := h _ rfl
  obtain ⟨c, hc, -⟩ := ((hlists oneTorrent.hashed oneClient.address).1).mpr
    (mem_apply_addTorrent (fun _ ↦ none) oneClient oneTorrent)
  have hnone : (Database.apply {} (.addTorrentToClient oneClient oneTorrent)).getClientsWith
      oneTorrent.hashed = [] := by decide
  have hempty : c ∈ ([] : List ClientInfo) := by rwa [← hnone]
  cases hempty

end P2PNetwork.Server
