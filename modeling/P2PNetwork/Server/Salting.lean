import P2PNetwork.Lib.Probing
import P2PNetwork.Server.NewTorrent
import P2PNetwork.Server.Registry

/-!
# The salting loop

`Database::addTorrent` (`src/server/database/Database.cpp:65–78`) looks for a file name whose
hash no stored torrent has. Every salt makes the name longer, so the names that are tried are
different, also after the salt has run through all its values. The name that is found in the
end is the one that is stored.
-/

open Lib

namespace P2PNetwork

namespace Torrent

/-- The file name after `k` salts. They are of type `uint32_t` and start with 1. -/
def candidateName (fileName : Bytes) : Nat → Bytes
  | 0 => fileName
  | k + 1 => candidateName fileName k ++ toDecimal (UInt32.ofNat (k + 1))

/-- The torrent that `addTorrent` tests after `k` salts. -/
def candidate (hash : Bytes → Hash) (t : Torrent) (k : Nat) : Torrent :=
  { t with fileName := candidateName t.fileName k, hashed := hash (candidateName t.fileName k) }

/-- `std::hash` tells the first `n + 1` candidate names apart. -/
def HashesApart (hash : Bytes → Hash) (t : Torrent) (n : Nat) : Prop :=
  ∀ i ≤ n, ∀ j ≤ n,
    hash (candidateName t.fileName i) = hash (candidateName t.fileName j) →
      candidateName t.fileName i = candidateName t.fileName j

variable {hash : Bytes → Hash} {t : Torrent}

/-- The next candidate is the salted one. -/
theorem candidate_succ (k : Nat) :
    t.candidate hash (k + 1) = (t.candidate hash k).genSaltedHash hash (UInt32.ofNat (k + 1)) :=
  rfl

/-- A number has a digit. -/
theorem length_toDecimal_pos (n : UInt32) : 0 < (toDecimal n).length := by
  rw [toDecimal, List.length_map]
  exact Nat.length_toDigits_pos

/-- Every salt makes the name longer. -/
theorem strictMono_length_candidateName (fileName : Bytes) :
    StrictMono fun k ↦ (candidateName fileName k).length := by
  apply strictMono_nat_of_lt_succ
  intro k
  have hpos := length_toDecimal_pos (UInt32.ofNat (k + 1))
  simp only [candidateName, List.length_append]
  omega

/-- The candidate names are different. -/
theorem candidateName_injective (fileName : Bytes) :
    Function.Injective (candidateName fileName) := by
  intro i j h
  exact (strictMono_length_candidateName fileName).injective (congrArg List.length h)

end Torrent

namespace Server

namespace Database

variable {hash : Bytes → Hash} {db : Database} {t : Torrent} {fuel : Nat}

/-- A hash is unique if no stored torrent has it. -/
theorem isHashUnique_iff {h : Hash} :
    db.isHashUnique h = true ↔ h ∉ db.torrents.map Torrent.hashed := by
  simp [isHashUnique]

/-- The salting loop probes the candidates. -/
theorem salted_eq_probe (k : Nat) :
    db.salted hash fuel (UInt32.ofNat (k + 1)) (t.candidate hash k) =
      probe (t.candidate hash) (fun c ↦ db.isHashUnique c.hashed) fuel k := by
  induction fuel generalizing k with
  | zero => rfl
  | succ fuel ih =>
    rw [salted, probe]
    split
    · rfl
    · have hsalt : UInt32.ofNat (k + 1) + 1 = UInt32.ofNat (k + 1 + 1) := by
        rw [UInt32.ofNat_add (k + 1) 1]
        rfl
      rw [← Torrent.candidate_succ, hsalt, ih]

/-- So does `addTorrent`, from the default hash on. -/
theorem salted_default_eq_probe :
    db.salted hash fuel 1 (t.genDefaultHash hash) =
      probe (t.candidate hash) (fun c ↦ db.isHashUnique c.hashed) fuel 0 :=
  salted_eq_probe 0

/-- Where the candidates have different hashes, one of the first is unique. -/
theorem exists_first_unique (hapart : t.HashesApart hash db.torrents.length) :
    ∃ k ≤ db.torrents.length, db.isHashUnique (t.candidate hash k).hashed = true ∧
      ∀ j < k, db.isHashUnique (t.candidate hash j).hashed = false := by
  have hinj : ∀ i ≤ (db.torrents.map Torrent.hashed).length,
      ∀ j ≤ (db.torrents.map Torrent.hashed).length,
      (t.candidate hash i).hashed = (t.candidate hash j).hashed → i = j := by
    rw [List.length_map]
    intro i hi j hj heq
    exact Torrent.candidateName_injective t.fileName (hapart i hi j hj heq)
  obtain ⟨k, hk, hnew, hold⟩ := exists_first_not_taken hinj
  rw [List.length_map] at hk
  refine ⟨k, hk, isHashUnique_iff.mpr hnew, ?_⟩
  intro j hj
  rw [← Bool.not_eq_true, isHashUnique_iff, not_not]
  exact hold j hj

/-- What `addTorrent` stores is the first candidate whose hash is unique. -/
theorem addTorrent_candidate {r : Database × Hash} (h : db.addTorrent hash fuel t = some r) :
    ∃ k, r = ({ db with torrents := db.torrents ++ [t.candidate hash k] },
        (t.candidate hash k).hashed) ∧
      db.isHashUnique (t.candidate hash k).hashed = true ∧
      ∀ j < k, db.isHashUnique (t.candidate hash j).hashed = false := by
  obtain ⟨stored, hstored, rfl⟩ := addTorrent_spec h
  rw [salted_default_eq_probe] at hstored
  obtain ⟨k, rfl, hunique, hfirst⟩ := probe_eq_some hstored
  simp only [Nat.zero_add] at hunique hfirst ⊢
  exact ⟨k, rfl, hunique, hfirst⟩

/-! ### Unique hashes -/

/-- No two stored torrents have the same hash. -/
def UniqueHashes (db : Database) : Prop := (db.torrents.map Torrent.hashed).Nodup

/-- A call about a client leaves the torrents as they are. -/
theorem torrents_apply (db : Database) (u : Update) : (db.apply u).torrents = db.torrents := by
  cases u with
  | addOrUpdateClient ci =>
    rw [apply, addOrUpdateClient]
    split <;> rfl
  | addTorrentToClient ci t =>
    rw [apply, addTorrentToClient]
    split <;> rfl
  | deleteClient ci => rfl

/-- Every call keeps the hashes unique. -/
theorem uniqueHashes_operate {db' : Database} {op : Operation} (h : db.UniqueHashes)
    (hop : db.operate hash op = some db') : db'.UniqueHashes := by
  cases op with
  | update u =>
    cases hop
    rw [UniqueHashes, torrents_apply]
    exact h
  | addTorrent t fuel =>
    obtain ⟨r, hr, rfl⟩ := Option.map_eq_some_iff.mp hop
    obtain ⟨k, rfl, hunique, -⟩ := addTorrent_candidate hr
    rw [isHashUnique_iff] at hunique
    simp only [UniqueHashes, List.map_append, List.map_cons, List.map_nil]
    rw [← List.concat_eq_append]
    exact h.concat hunique

/-- The salting loop ends after at most as many salts as there are stored torrents, if the hash
tells that many candidate names and one more apart; the torrent is then stored with a new hash.
In every state that the tracker's database reaches the hashes are unique. -/
theorem addTorrent_ends (hash : Bytes → Hash) :
    (∀ (db : Database) (t : Torrent), t.HashesApart hash db.torrents.length →
      ∃ k ≤ db.torrents.length, ∃ stored : Torrent,
        stored.hashed ∉ db.torrents.map Torrent.hashed ∧
        ∀ fuel, db.addTorrent hash fuel t =
          if k < fuel then
            some ({ db with torrents := db.torrents ++ [stored] }, stored.hashed)
          else none) ∧
      ∀ ops db, Run (operate hash) Any {} ops db → db.UniqueHashes := by
  constructor
  · intro db t hapart
    obtain ⟨k, hk, hunique, hfirst⟩ := exists_first_unique hapart
    refine ⟨k, hk, t.candidate hash k, isHashUnique_iff.mp hunique, ?_⟩
    intro fuel
    have hprobe : probe (t.candidate hash) (fun c ↦ db.isHashUnique c.hashed) fuel 0 =
        if k < fuel then some (t.candidate hash (0 + k)) else none := by
      apply probe_of_first_free
      · rwa [Nat.zero_add]
      · intro j hj
        rw [Nat.zero_add]
        exact hfirst j hj
    rw [addTorrent, salted_default_eq_probe, hprobe, Nat.zero_add]
    split <;> rfl
  · intro ops db hrun
    apply hrun.invariant
    · exact List.nodup_nil
    · intro s op s' hs _ hop
      exact uniqueHashes_operate hs hop

/-! ### The stored entry -/

/-- `db'` is `db` with one more torrent, which has the file name and the size of `t`. -/
def StoredAs (db : Database) (t : Torrent) (db' : Database) : Prop :=
  ∃ stored : Torrent, db' = { db with torrents := db.torrents ++ [stored] } ∧
    stored.fileName = t.fileName ∧ stored.size = t.size

/-- A torrent is stored under its own name exactly when its default hash is unique: otherwise the
salts are part of the name that is stored. -/
theorem storedAs_iff {r : Database × Hash} (h : db.addTorrent hash fuel t = some r) :
    db.StoredAs t r.1 ↔ db.isHashUnique (hash t.fileName) = true := by
  obtain ⟨k, rfl, hunique, hfirst⟩ := addTorrent_candidate h
  constructor
  · rintro ⟨stored, hdb, hname, -⟩
    have hstored : t.candidate hash k = stored := by
      simpa using congrArg Database.torrents hdb
    subst hstored
    have hk : k = 0 := Torrent.candidateName_injective t.fileName hname
    subst hk
    exact hunique
  · intro hdefault
    have hk : k = 0 := by
      by_contra hne
      have hcollides := hfirst 0 (Nat.pos_of_ne_zero hne)
      rw [show (t.candidate hash 0).hashed = hash t.fileName from rfl, hdefault] at hcollides
      cases hcollides
    subst hk
    exact ⟨t.candidate hash 0, rfl, rfl, rfl⟩

/-! ### The same file name twice -/

open TrackerThread (lengthHash)

/-- The torrent of a file `a`. -/
def torrentA : Torrent := { hashed := 0, size := 1, fileName := [97] }

/-- A database with a torrent of that name, stored under the hash 1. -/
def databaseA : Database := { torrents := [{ hashed := 1, size := 1, fileName := [97] }] }

/-- The second torrent gets a hash after at most one salt. -/
theorem addTorrent_ends_twice :
    ∃ k ≤ databaseA.torrents.length, ∃ stored : Torrent,
      stored.hashed ∉ databaseA.torrents.map Torrent.hashed ∧
      ∀ fuel, databaseA.addTorrent lengthHash fuel torrentA =
        if k < fuel then
          some ({ databaseA with torrents := databaseA.torrents ++ [stored] }, stored.hashed)
        else none :=
  (addTorrent_ends lengthHash).1 databaseA torrentA (by unfold Torrent.HashesApart; decide)

/-- The database with the second torrent. -/
def databaseAA : Database :=
  { torrents := databaseA.torrents ++ [{ hashed := 2, size := 1, fileName := [97, 49] }] }

/-- What is stored of the second torrent depends on its default hash. -/
theorem storedAs_iff_twice :
    databaseA.StoredAs torrentA databaseAA ↔
      databaseA.isHashUnique (lengthHash torrentA.fileName) = true :=
  @storedAs_iff lengthHash databaseA torrentA 2 (databaseAA, 2) (by decide)

/-- The second torrent is stored as `a1`. -/
theorem not_storedAs_twice :
    databaseA.addTorrent lengthHash 2 torrentA = some (databaseAA, 2) ∧
      ¬ databaseA.StoredAs torrentA databaseAA := by
  refine ⟨by decide, ?_⟩
  rintro ⟨stored, hdb, hname, -⟩
  have hstored : ({ hashed := 2, size := 1, fileName := [97, 49] } : Torrent) = stored := by
    simpa [databaseAA] using congrArg Database.torrents hdb
  rw [← hstored] at hname
  exact absurd hname (by decide)

end Database

end Server

end P2PNetwork
