import P2PNetwork.Client.File.File
import Mathlib.Data.Set.Defs
import Mathlib.Data.Int.Order.Basic
import Mathlib.Order.MinMax

/-!
# The segments of a file

A torrent's size is an unsigned number of 32 bits, a file's size is an `int`. What the
segments of a file should be is stated for any size, and holds for the sizes an `int` has.
-/

namespace P2PNetwork.Client

/-- The bytes of segment `i` in a file of `s` bytes, from the offset computed for it
(`FileManager.cpp:69,127`). -/
def segmentWindow (s i : Nat) : Set Int :=
  {p | segmentOffset i ≤ p ∧ p < min (segmentOffset i + defaultSegmentSize) s}

namespace File

/-- A file of `s` bytes is cut into segments: they are numbered in order, the getters say
how many bytes and segments there are, no offset overflows, and every byte lies in the window
of exactly one segment. -/
structure Segmented (s : Nat) (f : File) : Prop where
  ids : f.segments.map Segment.id = (List.range (blocks s)).map fun i ↦ (i : Int)
  size : f.getSize = s
  count : f.getNumOfSegments = blocks s
  offset : ∀ i, i < blocks s → segmentOffset i = ((defaultSegmentSize * i : Nat) : Int)
  inside : ∀ i, i < blocks s → segmentWindow s i ⊆ {p | 0 ≤ p ∧ p < s}
  partition : ∀ p : Int, 0 ≤ p → p < s → ∃! i, i < blocks s ∧ p ∈ segmentWindow s i

/-- What the constructor makes of a size. -/
private theorem ofTorrent_spec {torrent : Torrent} {size : Int} (path : Bytes)
    (hsize : toInt32 torrent.size.toNat = size) :
    (ofTorrent torrent path).getSize = size ∧
      (ofTorrent torrent path).segments = generateSegments 0 size ∧
      (ofTorrent torrent path).getNumOfSegments = (generateSegments 0 size).length := by
  unfold ofTorrent
  rw [hsize]
  exact ⟨rfl, rfl, rfl⟩

private theorem length_generateSegments (dataBegin size : Int) :
    (generateSegments dataBegin size).length = (segmentCount size).toNat := by
  simp [generateSegments]

/-- Segments have offsets inside the range of an `int`, whatever the size of the torrent. -/
theorem offset_lt_of_lt_length {torrent : Torrent} {path : Bytes} {i : Nat}
    (h : i < (ofTorrent torrent path).segments.length) : defaultSegmentSize * i < 2 ^ 31 := by
  obtain ⟨size, hsize⟩ : ∃ size, toInt32 torrent.size.toNat = size := ⟨_, rfl⟩
  rw [(ofTorrent_spec path hsize).2.1, length_generateSegments] at h
  have hhi : size < 2 ^ 31 := by
    unfold toInt32 at hsize
    omega
  by_cases hneg : size < 0
  · -- rounding toward zero, a negative size has at most one segment
    have hpos : 0 ≤ (-size).tdiv defaultSegmentSize := Int.tdiv_nonneg (by omega) (by decide)
    rw [Int.neg_tdiv] at hpos
    have hzero : i = 0 := by
      unfold segmentCount at h
      split at h <;> omega
    rw [hzero]
    decide
  · obtain ⟨s, rfl⟩ := Int.eq_ofNat_of_zero_le (Int.not_lt.mp hneg)
    rw [segmentCount_natCast, Int.toNat_natCast] at h
    have hlt := lt_of_lt_blocks h
    omega

private theorem mem_segmentWindow {s i : Nat} {p : Int}
    (h : segmentOffset i = ((defaultSegmentSize * i : Nat) : Int)) :
    p ∈ segmentWindow s i ↔
      ((defaultSegmentSize * i : Nat) : Int) ≤ p ∧
        p < ((defaultSegmentSize * i : Nat) : Int) + defaultSegmentSize ∧ p < s := by
  rw [segmentWindow, Set.mem_ofPred_eq, h, lt_min_iff]

/-- The windows of the blocks cover the file without overlap. -/
private theorem existsUnique_segmentWindow {s : Nat} {p : Int}
    (hoffset : ∀ i, i < blocks s → segmentOffset i = ((defaultSegmentSize * i : Nat) : Int))
    (hlo : 0 ≤ p) (hhi : p < s) : ∃! i, i < blocks s ∧ p ∈ segmentWindow s i := by
  have hblock : p.toNat / defaultSegmentSize < blocks s := by
    unfold blocks defaultSegmentSize
    omega
  refine ⟨p.toNat / defaultSegmentSize, ⟨hblock, ?_⟩, ?_⟩
  · rw [mem_segmentWindow (hoffset _ hblock)]
    unfold defaultSegmentSize
    omega
  · rintro j ⟨hj, hmem⟩
    rw [mem_segmentWindow (hoffset j hj)] at hmem
    unfold defaultSegmentSize at hmem ⊢
    omega

/-- Sizes that an `int` has are kept by the constructor. -/
private theorem segmented_of_lt {torrent : Torrent} (path : Bytes)
    (h : torrent.size.toNat < 2 ^ 31) :
    Segmented torrent.size.toNat (ofTorrent torrent path) := by
  have hsize : toInt32 torrent.size.toNat = torrent.size.toNat :=
    toInt32_of_range (by omega) (by omega)
  have hoffset : ∀ i, i < blocks torrent.size.toNat →
      segmentOffset i = ((defaultSegmentSize * i : Nat) : Int) := by
    intro i hi
    have hlt := lt_of_lt_blocks hi
    exact segmentOffset_of_lt (by omega)
  obtain ⟨hget, hsegments, hcount⟩ := ofTorrent_spec path hsize
  refine ⟨?_, hget, ?_, hoffset, ?_, fun p ↦ existsUnique_segmentWindow hoffset⟩
  · simp only [hsegments, generateSegments, segmentCount_natCast, Int.toNat_natCast,
      List.map_map, Function.comp_def]
  · rw [hcount, length_generateSegments, segmentCount_natCast, Int.toNat_natCast]
  · intro i hi p hp
    rw [mem_segmentWindow (hoffset i hi)] at hp
    exact ⟨by omega, hp.2.2⟩

/-- The segments of a file are what they should be exactly below 2³¹ bytes: from there on the
size is a negative `int`. -/
theorem segmented_iff (torrent : Torrent) (path : Bytes) :
    Segmented torrent.size.toNat (ofTorrent torrent path) ↔ torrent.size.toNat < 2 ^ 31 := by
  constructor
  · intro h
    have hsize := h.size
    rw [(ofTorrent_spec path rfl).1] at hsize
    unfold toInt32 at hsize
    omega
  · exact segmented_of_lt path

/-- A torrent of 2³¹ bytes. -/
def largeTorrent : Torrent := { hashed := 0, size := 2147483648, fileName := [97] }

/-- Its file has a negative size and no segments, so that it looks complete. -/
theorem not_segmented_large :
    ¬ Segmented largeTorrent.size.toNat (ofTorrent largeTorrent []) ∧
      (ofTorrent largeTorrent []).segments = [] ∧
      (ofTorrent largeTorrent []).isComplete.1 = true := by
  refine ⟨?_, by decide, by decide⟩
  intro h
  exact absurd h.size (by decide)

end File

end P2PNetwork.Client
