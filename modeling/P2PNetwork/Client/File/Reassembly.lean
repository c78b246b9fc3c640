import P2PNetwork.Client.File.FileManager

/-!
# Splitting a file and putting it together again

One host reads the segments of a file, another stores them into the file it created
from the torrent. Reading pads the last segment to full length and storing writes full
segments, so the stored file ends at a multiple of the segment size.
-/

open Lib

namespace P2PNetwork.Client

/-- The length `getSegment` is asked for: a full segment or what is left of the file. -/
def segmentLength (size i : Nat) : Nat := min defaultSegmentSize (size - defaultSegmentSize * i)

/-- No segment is longer than a full one. -/
theorem segmentLength_le (size i : Nat) : segmentLength size i ≤ defaultSegmentSize :=
  Nat.min_le_left _ _

/-- One segment read by the first host and stored by the second; the buffer that
`getSegment` returned is the payload. -/
def transfer (source target : Filename) (path : Bytes) (size : Nat) (beyond : Nat → UInt8)
    (hosts : Host × Host) (i : Nat) : Option (Host × Host) :=
  match hosts.1.getSegment source i (segmentLength size i) with
  | some (sender, some buffer) =>
    (hosts.2.storeSegmentToFile target path i buffer (.success beyond)).map fun receiver ↦
      (sender, receiver)
  | _ => none

section

variable {c : Bytes} {source target : Filename} (path : Bytes) (beyond : Nat → UInt8)

/-- The receiving side after the segments in `D` have been stored. -/
private structure Received (c : Bytes) (source target : Filename) (hosts : Host × Host)
    (D : Finset Nat) : Prop where
  reading : hosts.1.Reading source c
  unlocked : hosts.2.openedFile target = none
  content : hosts.2.disk target =
    some (assembled 0 defaultSegmentSize c.length (block 0 defaultSegmentSize c) D)

private theorem read_eq_block {i : Nat} (hi : defaultSegmentSize * i ≤ c.length) :
    (c.drop (defaultSegmentSize * i)).take (segmentLength c.length i) ++
        List.replicate (defaultSegmentSize - segmentLength c.length i) 0 =
      block 0 defaultSegmentSize c i := by
  have htake : (c.drop (defaultSegmentSize * i)).take (segmentLength c.length i) =
      (c.drop (defaultSegmentSize * i)).take defaultSegmentSize := by
    rw [List.take_eq_take_min, List.take_eq_take_min (i := defaultSegmentSize)]
    congr 1
    simp only [segmentLength, List.length_drop]
    omega
  rw [block, htake]
  congr 2
  unfold segmentLength
  omega

private theorem transfer_received {hosts : Host × Host} {D : Finset Nat} {i : Nat}
    (hc : c.length < 2 ^ 31) (hi : i < File.blocks c.length)
    (hrec : Received c source target hosts D) :
    ∃ hosts', transfer source target path c.length beyond hosts i = some hosts' ∧
      Received c source target hosts' (insert i D) := by
  have hlt := File.lt_of_lt_blocks hi
  obtain ⟨sender, hget, hreading⟩ := Host.getSegment_of_reading (i := i)
    (n := segmentLength c.length i) hrec.reading (by unfold segmentLength; omega) (by omega)
    (by unfold segmentLength; omega)
  rw [read_eq_block (by omega)] at hget
  obtain ⟨receiver, hstore, hdisk, htable⟩ := Host.store_of_success (i := i) path
    (block 0 defaultSegmentSize c i) beyond hrec.unlocked hrec.content (by omega)
  refine ⟨(sender, receiver), ?_, hreading, ?_, ?_⟩
  · simp only [transfer, hget, hstore, Option.map_some]
  · simpa only [Host.openedFile, htable] using hrec.unlocked
  · rw [hdisk, Function.update_self, cStr_of_length _ (length_block i),
      overwrite_assembled defaultSegmentSize_pos (length_block i)]

private theorem foldlM_received (hc : c.length < 2 ^ 31) {order : List Nat}
    (hin : ∀ i ∈ order, i < File.blocks c.length) {hosts : Host × Host} {D : Finset Nat}
    (hrec : Received c source target hosts D) :
    ∃ hosts', order.foldlM (transfer source target path c.length beyond) hosts = some hosts' ∧
      Received c source target hosts' (D ∪ order.toFinset) := by
  induction order generalizing hosts D with
  | nil => exact ⟨hosts, rfl, by simpa using hrec⟩
  | cons i order ih =>
    obtain ⟨next, hstep, hnext⟩ := transfer_received path beyond hc (hin i (by simp)) hrec
    obtain ⟨last, hexec, hlast⟩ := ih (fun j hj ↦ hin j (by simp [hj])) hnext
    refine ⟨last, ?_, ?_⟩
    · rw [List.foldlM_cons, Option.bind_eq_bind, hstep, Option.bind_some, hexec]
    · rw [List.toFinset_cons, Finset.union_insert, ← Finset.insert_union]
      exact hlast

/-- Transferring every segment at least once, in any order and with any repetitions,
leaves the assembly of all padded blocks of the file. -/
private theorem foldlM_transfer_all {torrent : Torrent} {sender receiver : Host}
    (hc : c.length < 2 ^ 31) (hsize : torrent.size.toNat = c.length)
    (hreading : sender.Reading source c) (hunlocked : receiver.openedFile torrent.fileName = none)
    {order : List Nat} (hin : ∀ i ∈ order, i < File.blocks c.length)
    (hall : ∀ i, i < File.blocks c.length → i ∈ order) :
    ∃ hosts, order.foldlM (transfer source torrent.fileName path c.length beyond)
        (sender, receiver.createLocalFile torrent) = some hosts ∧
      hosts.2.disk torrent.fileName = some (assembled 0 defaultSegmentSize c.length
        (block 0 defaultSegmentSize c) (Finset.range (File.blocks c.length))) := by
  have hstart : Received c source torrent.fileName
      (sender, receiver.createLocalFile torrent) ∅ := by
    refine ⟨hreading, hunlocked, ?_⟩
    rw [assembled_empty, Host.disk_createLocalFile, hsize]
  obtain ⟨hosts, hexec, hrec⟩ := foldlM_received path beyond hc hin hstart
  have hset : ∅ ∪ order.toFinset = Finset.range (File.blocks c.length) := by
    ext i
    simp only [Finset.empty_union, List.mem_toFinset, Finset.mem_range]
    exact ⟨hin i, hall i⟩
  refine ⟨hosts, hexec, ?_⟩
  rw [hrec.content, hset]

private theorem all_blocks_iff :
    assembled 0 defaultSegmentSize c.length (block 0 defaultSegmentSize c)
        (Finset.range (File.blocks c.length)) = c ↔ c.length % defaultSegmentSize = 0 := by
  rw [assembled_blocks_eq_iff defaultSegmentSize_pos (File.le_blocks c.length)]
  unfold File.blocks defaultSegmentSize
  omega

/-- A file is restored exactly when its length is a multiple of the segment size: the
last store writes a full segment whatever is left of the file (`FileManager.cpp:70–74`). -/
theorem reassembled_iff {torrent : Torrent} {sender receiver : Host}
    (hc : c.length < 2 ^ 31) (hsize : torrent.size.toNat = c.length)
    (hreading : sender.Reading source c) (hunlocked : receiver.openedFile torrent.fileName = none)
    {order : List Nat} (hin : ∀ i ∈ order, i < File.blocks c.length)
    (hall : ∀ i, i < File.blocks c.length → i ∈ order) :
    ∃ hosts, order.foldlM (transfer source torrent.fileName path c.length beyond)
        (sender, receiver.createLocalFile torrent) = some hosts ∧
      (hosts.2.disk torrent.fileName = some c ↔ c.length % defaultSegmentSize = 0) := by
  obtain ⟨hosts, hexec, hdisk⟩ :=
    foldlM_transfer_all path beyond hc hsize hreading hunlocked hin hall
  refine ⟨hosts, hexec, ?_⟩
  rw [hdisk, Option.some_inj, all_blocks_iff]

end

/-! ### A file of one byte -/

/-- A host that has read-locked its file `a`, which holds one byte. -/
def byteSender : Host where
  disk := fun name ↦ if name = [97] then some [7] else none
  fm := { readLockedFiles := [⟨[97], .opened⟩] }

private theorem byteTorrent_size : byteTorrent.size.toNat = [(7 : UInt8)].length := rfl

private theorem emptyHost_unlocked : emptyHost.openedFile byteTorrent.fileName = none := rfl

private theorem reading_byteSender : byteSender.Reading [97] [7] :=
  Host.reading_of_readLock (h := { byteSender with fm := {} }) rfl rfl rfl

private theorem mem_order_of_lt {i : Nat} (h : i < File.blocks 1) : i ∈ [0] := by
  have h1 : File.blocks 1 = 1 := by decide
  simp only [List.mem_singleton]
  omega

/-- The transfer of one byte succeeds, and its length decides what is left. -/
theorem reassembled_iff_byte :
    ∃ hosts, [0].foldlM (transfer [97] byteTorrent.fileName [] 1 fun _ ↦ 0)
        (byteSender, emptyHost.createLocalFile byteTorrent) = some hosts ∧
      (hosts.2.disk byteTorrent.fileName = some [7] ↔ 1 % defaultSegmentSize = 0) :=
  reassembled_iff (c := [7]) [] (fun _ ↦ 0) (by decide) rfl reading_byteSender rfl (by decide)
    fun _ h ↦ mem_order_of_lt h

/-- The byte does not come back as it was: the stored file has 8000 of them. -/
theorem not_reassembled_byte :
    ¬ ∃ hosts, [0].foldlM (transfer [97] byteTorrent.fileName [] 1 fun _ ↦ 0)
        (byteSender, emptyHost.createLocalFile byteTorrent) = some hosts ∧
      hosts.2.disk byteTorrent.fileName = some [7] := by
  rintro ⟨hosts, hexec, hdisk⟩
  obtain ⟨hosts', hexec', hdisk'⟩ := foldlM_transfer_all (c := [7]) [] (fun _ ↦ 0) (by decide)
    byteTorrent_size reading_byteSender emptyHost_unlocked (by decide) fun _ h ↦ mem_order_of_lt h
  have heq : hosts = hosts' := Option.some_inj.mp (hexec.symm.trans hexec')
  rw [heq, hdisk', Option.some_inj, all_blocks_iff] at hdisk
  exact absurd hdisk (by decide)

end P2PNetwork.Client
