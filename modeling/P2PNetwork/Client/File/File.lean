import P2PNetwork.Shared.Torrent

/-!
# Files and their segments

`src/client/file/Segment.h`, `PeerInfo.h` and `File.cpp`. Every method that a mutex
protects is one function here. An access outside the vector of segments has no result,
and a negative index is outside: it is converted to a huge `size_t`.
-/

namespace P2PNetwork.Client

/-- `enum SegmentState` (`Segment.h:7–11`). -/
inductive SegmentState
  | free
  | downloading
  | complete
  deriving DecidableEq, Repr, Inhabited

/-- `class Segment` (`Segment.h:13–31`); `data` is the address of its bytes. -/
structure Segment where
  id : Int
  data : Int
  state : SegmentState
  deriving DecidableEq, Repr

/-- `class PeerInfo` (`PeerInfo.h:8–32`). -/
structure PeerInfo where
  id : Int
  ipV4Address : Bytes
  ipV6Address : Bytes
  port : Int
  deriving DecidableEq, Repr, Inhabited

/-- `class File` (`File.h:16–49`). -/
structure File where
  torrent : Torrent
  segments : List Segment
  numOfSegments : Int
  size : Int
  path : Bytes
  peers : List PeerInfo
  dataBegin : Int
  isCompleted : Bool
  deriving DecidableEq, Repr

namespace File

/-! ### Construction -/

/-- The segment count of `generateSegments` (`File.cpp:73–76`); division of `int`s
rounds toward zero. -/
def segmentCount (size : Int) : Int :=
  if size.tmod defaultSegmentSize = 0 then size.tdiv defaultSegmentSize
  else size.tdiv defaultSegmentSize + 1

/-- `generateSegments` (`File.cpp:72–81`). -/
def generateSegments (dataBegin size : Int) : List Segment :=
  (List.range (segmentCount size).toNat).map fun i ↦
    { id := i, data := dataBegin + segmentOffset i, state := .free }

/-- `File(const Torrent& torrent, std::string path)` (`File.cpp:49–58`). -/
def ofTorrent (torrent : Torrent) (path : Bytes) : File :=
  let size := toInt32 torrent.size.toNat
  let segments := generateSegments 0 size
  { torrent := torrent
    segments := segments
    numOfSegments := segments.length
    size := size
    path := path
    peers := []
    dataBegin := 0
    isCompleted := false }

/-- `File(const File& other) {}` (`File.cpp:48`): nothing is copied, every member has its
default. -/
def copy (_other : File) : File where
  torrent := .empty
  segments := []
  numOfSegments := -1
  size := -1
  path := []
  peers := []
  dataBegin := 0
  isCompleted := false

/-- `getSize` (`File.cpp:64–66`). -/
def getSize (f : File) : Int := f.size

/-- `getNumOfSegments` (`File.cpp:91–93`). -/
def getNumOfSegments (f : File) : Int := f.numOfSegments

/-- `getId` (`File.cpp:87–89`): the hash of the torrent as an `Id`. -/
def getId (f : File) : Int := idOfHash f.torrent.hashed

/-- `getPeers` (`File.cpp:83–85`): a copy of the vector. -/
def getPeers (f : File) : List PeerInfo := f.peers

/-- `addPeer` (`File.cpp:4–8`). -/
def addPeer (f : File) (peer : PeerInfo) : File := { f with peers := f.peers ++ [peer] }

/-- The number of segments of a file of `s` bytes. -/
def blocks (s : Nat) : Nat := (s + defaultSegmentSize - 1) / defaultSegmentSize

theorem segmentCount_natCast (s : Nat) : segmentCount s = blocks s := by
  have hmod : (s : Int).tmod (defaultSegmentSize : Int) = ((s % defaultSegmentSize : Nat) : Int) :=
    rfl
  have hdiv : (s : Int).tdiv (defaultSegmentSize : Int) = ((s / defaultSegmentSize : Nat) : Int) :=
    rfl
  unfold segmentCount blocks
  rw [hmod, hdiv]
  unfold defaultSegmentSize
  split <;> omega

/-- Below 2³¹ bytes a file has one segment for every started block. -/
theorem length_segments_ofTorrent {torrent : Torrent} (path : Bytes)
    (h : torrent.size.toNat < 2 ^ 31) :
    (ofTorrent torrent path).segments.length = blocks torrent.size.toNat := by
  have hsize : toInt32 torrent.size.toNat = torrent.size.toNat :=
    toInt32_of_range (by omega) (by omega)
  simp [ofTorrent, generateSegments, hsize, segmentCount_natCast]

/-- Every block of a file of `s` bytes starts before its end. -/
theorem lt_of_lt_blocks {s i : Nat} (h : i < blocks s) : defaultSegmentSize * i < s := by
  unfold blocks defaultSegmentSize at *
  omega

/-- The blocks of a file cover it. -/
theorem le_blocks (s : Nat) : s ≤ defaultSegmentSize * blocks s := by
  unfold blocks defaultSegmentSize
  omega

/-! ### Segment states -/

variable (f : File)

/-- `segments[id]`, with no result outside the vector. -/
def segmentAt (id : Int) : Option Segment :=
  if id < 0 then none else f.segments[id.toNat]?

/-- An index inside the vector of segments. -/
def InRange (id : Int) : Prop := 0 ≤ id ∧ id < f.segments.length

instance (id : Int) : Decidable (f.InRange id) :=
  inferInstanceAs (Decidable (_ ∧ _))

/-- The state of segment `i`, where there is one. -/
def stateOf (i : Nat) : Option SegmentState := (f.segments[i]?).map Segment.state

/-- `segments[i].setSegmentState(state)`. -/
def setState (i : Nat) (state : SegmentState) : File :=
  { f with segments := f.segments.modify i fun s ↦ { s with state := state } }

/-- `tryToSetStateSegmentStateToDownload` (`File.cpp:10–17`). -/
def tryToSetStateSegmentStateToDownload (id : Int) : Option (File × Bool) :=
  (f.segmentAt id).map fun s ↦
    if s.state = .free then (f.setState id.toNat .downloading, true) else (f, false)

/-- `setSegmentState` (`File.cpp:19–27`): the new state is stored first, and the flag
tells whether a `std::logic_error` is thrown after that. -/
def setSegmentState (id : Int) (newState : SegmentState) : Option (File × Bool) :=
  (f.segmentAt id).map fun _ ↦ (f.setState id.toNat newState, newState == .downloading)

/-- `getSegmentState` (`File.cpp:29–32`). -/
def getSegmentState (id : Int) : Option SegmentState := (f.segmentAt id).map Segment.state

/-- `isComplete` (`File.cpp:33–45`): a positive answer is cached in `isCompleted`. -/
def isComplete : Bool × File :=
  if f.isCompleted then (true, f)
  else
    let maybeCompleted := f.segments.all fun s ↦ s.state == .complete
    (maybeCompleted, { f with isCompleted := maybeCompleted })

/-- `getSegment` (`File.cpp:59–62`). -/
def getSegment (id : Int) : Option Segment := f.segmentAt id

variable {f}

@[simp] theorem torrent_setState (i : Nat) (st : SegmentState) :
    (f.setState i st).torrent = f.torrent := rfl

@[simp] theorem isCompleted_setState (i : Nat) (st : SegmentState) :
    (f.setState i st).isCompleted = f.isCompleted := rfl

@[simp] theorem length_setState (i : Nat) (st : SegmentState) :
    (f.setState i st).segments.length = f.segments.length := by
  simp [setState]

/-- Setting a state changes that segment only. -/
theorem stateOf_setState (i j : Nat) (st : SegmentState) :
    (f.setState i st).stateOf j = if i = j then (f.stateOf j).map fun _ ↦ st else f.stateOf j := by
  simp only [stateOf, setState, List.getElem?_modify]
  by_cases h : i = j
  · simp [h, Function.comp_def]
  · simp [h]

/-- A segment has a state exactly when its index is in range. -/
theorem stateOf_eq_none_iff {i : Nat} : f.stateOf i = none ↔ f.segments.length ≤ i := by
  simp [stateOf]

/-- Every segment in range has a state. -/
theorem exists_stateOf {i : Nat} (h : i < f.segments.length) : ∃ st, f.stateOf i = some st :=
  ⟨f.segments[i].state, by simp [stateOf, h]⟩

/-- A segment with a state is in range. -/
theorem lt_of_stateOf {i : Nat} {st : SegmentState} (h : f.stateOf i = some st) :
    i < f.segments.length := by
  apply Nat.lt_of_not_le
  intro hle
  rw [stateOf_eq_none_iff.mpr hle] at h
  cases h

/-- An access succeeds exactly at a non-negative index with a state. -/
theorem segmentAt_natCast (i : Nat) : f.segmentAt i = f.segments[i]? := by
  rw [segmentAt, if_neg (by omega), Int.toNat_natCast]

/-- The accesses that succeed are those inside the vector. -/
theorem isSome_segmentAt {id : Int} : (f.segmentAt id).isSome = true ↔ f.InRange id := by
  unfold segmentAt InRange
  split
  · next hneg => simp only [Option.isSome_none, Bool.false_eq_true, false_iff]; omega
  · next hneg => rw [isSome_getElem?]; omega

private theorem stateOf_segmentAt {k : UInt32} {s : Segment} (h : f.segmentAt (idOf k) = some s) :
    idOf k = k.toNat ∧ f.stateOf k.toNat = some s.state := by
  unfold segmentAt at h
  split at h
  · cases h
  · next hneg =>
    have hid : idOf k = ((idOf k).toNat : Nat) := by omega
    rw [toNat_of_idOf hid] at h
    exact ⟨hid.trans (by rw [toNat_of_idOf hid]), by simp [stateOf, h]⟩

/-- Winning a segment: it was FREE and is DOWNLOADING now. -/
theorem try_won {k : UInt32} {f' : File}
    (h : f.tryToSetStateSegmentStateToDownload (idOf k) = some (f', true)) :
    idOf k = k.toNat ∧ f.stateOf k.toNat = some .free ∧ f' = f.setState k.toNat .downloading := by
  obtain ⟨s, hs, hres⟩ := Option.map_eq_some_iff.mp h
  obtain ⟨hid, hst⟩ := stateOf_segmentAt hs
  by_cases hfree : s.state = .free
  · rw [if_pos hfree, hid] at hres
    cases hres
    exact ⟨hid, by rw [hst, hfree], rfl⟩
  · rw [if_neg hfree] at hres
    cases hres

/-- Losing a segment: it was not FREE and nothing has changed. -/
theorem try_lost {k : UInt32} {f' : File}
    (h : f.tryToSetStateSegmentStateToDownload (idOf k) = some (f', false)) :
    ∃ st, f.stateOf k.toNat = some st ∧ st ≠ .free ∧ f' = f := by
  obtain ⟨s, hs, hres⟩ := Option.map_eq_some_iff.mp h
  obtain ⟨-, hst⟩ := stateOf_segmentAt hs
  by_cases hfree : s.state = .free
  · rw [if_pos hfree] at hres
    cases hres
  · rw [if_neg hfree] at hres
    cases hres
    exact ⟨s.state, hst, hfree, rfl⟩

/-- Setting a state: the segment is in range and has the new state now. -/
theorem set_spec {k : UInt32} {st : SegmentState} {r : File × Bool}
    (h : f.setSegmentState (idOf k) st = some r) :
    k.toNat < f.segments.length ∧ r.1 = f.setState k.toNat st := by
  obtain ⟨s, hs, rfl⟩ := Option.map_eq_some_iff.mp h
  obtain ⟨hid, hst⟩ := stateOf_segmentAt hs
  exact ⟨lt_of_stateOf hst, by rw [hid, Int.toNat_natCast]⟩

/-- Setting a state inside the file always has a result. -/
theorem set_of_lt {i : Nat} (st : SegmentState) (h : i < f.segments.length) :
    f.setSegmentState i st = some (f.setState i st, st == .downloading) := by
  simp [setSegmentState, segmentAt_natCast, h]

/-- Somebody has claimed segment `i`, or it is COMPLETE. -/
def Taken (f : File) (i : Nat) : Prop := ∃ st, f.stateOf i = some st ∧ st ≠ .free

/-- A FREE segment is not taken. -/
theorem not_taken_of_free {i : Nat} (h : f.stateOf i = some .free) : ¬ f.Taken i := by
  rintro ⟨st, hst, hne⟩
  rw [h] at hst
  cases hst
  exact hne rfl

/-- A file nobody has downloaded anything of: all segments are FREE. -/
structure Fresh (f : File) : Prop where
  free : ∀ i st, f.stateOf i = some st → st = .free
  unset : f.isCompleted = false

/-- The constructor builds a fresh file. -/
theorem fresh_ofTorrent (torrent : Torrent) (path : Bytes) : (ofTorrent torrent path).Fresh where
  free := by
    intro i st h
    simp only [stateOf, ofTorrent, generateSegments, List.getElem?_map, Option.map_map,
      Option.map_eq_some_iff] at h
    obtain ⟨_, _, rfl⟩ := h
    rfl
  unset := rfl

/-- A file that the constructor has built and its methods have changed since: the states of its
segments, its peers and the completeness flag are arbitrary. -/
structure Built (f : File) : Prop where
  size : f.size = toInt32 f.torrent.size.toNat
  numOfSegments : f.numOfSegments = f.segments.length
  segments : f.segments.map (fun s ↦ (s.id, s.data)) =
    (generateSegments f.dataBegin f.size).map fun s ↦ (s.id, s.data)

/-- The constructor builds such a file. -/
theorem built_ofTorrent (torrent : Torrent) (path : Bytes) : (ofTorrent torrent path).Built where
  size := by simp only [ofTorrent]
  numOfSegments := by simp only [ofTorrent]
  segments := by simp only [ofTorrent]

/-- A new state of a segment leaves the rest of the file. -/
theorem Built.setState (h : f.Built) (i : Nat) (st : SegmentState) : (f.setState i st).Built where
  size := h.size
  numOfSegments := by
    rw [length_setState]
    exact h.numOfSegments
  segments := by
    show (f.setState i st).segments.map _ = (generateSegments f.dataBegin f.size).map _
    rw [← h.segments]
    apply List.ext_getElem
    · simp
    · intro j hj hj'
      simp only [File.setState, List.getElem_map, List.getElem_modify]
      split <;> rfl

/-- So does a new peer. -/
theorem Built.addPeer (h : f.Built) (peer : PeerInfo) : (f.addPeer peer).Built where
  size := h.size
  numOfSegments := h.numOfSegments
  segments := h.segments

/-- So does the completeness check. -/
theorem Built.isComplete (h : f.Built) : f.isComplete.2.Built := by
  unfold File.isComplete
  split
  · exact h
  · exact ⟨h.size, h.numOfSegments, h.segments⟩

/-- A loop up to `numOfSegments` goes through all segments. -/
def Counted (f : File) : Prop := f.numOfSegments.toNat = f.segments.length

/-- So it does in a file that was built. -/
theorem Built.counted (h : f.Built) : f.Counted := by
  rw [Counted, h.numOfSegments, Int.toNat_natCast]

/-- And in a copy, which has none. -/
theorem counted_copy (other : File) : other.copy.Counted := rfl

/-- Every segment of the file is COMPLETE. -/
def AllComplete (f : File) : Prop := ∀ i, i < f.segments.length → f.stateOf i = some .complete

/-- The check of all segments decides `AllComplete`. -/
theorem all_complete_iff :
    (f.segments.all fun s ↦ s.state == .complete) = true ↔ f.AllComplete := by
  simp only [List.all_eq_true, beq_iff_eq, AllComplete, stateOf]
  constructor
  · intro h i hi
    simp [hi, h f.segments[i] (List.getElem_mem hi)]
  · intro h s hs
    obtain ⟨i, hi, rfl⟩ := List.getElem_of_mem hs
    simpa [hi] using h i hi

/-- The completeness check touches the cached flag only. -/
theorem isComplete_frame :
    f.isComplete.2 = { f with isCompleted := f.isComplete.2.isCompleted } := by
  unfold isComplete
  split <;> rfl

/-- The answer and the flag left behind agree, and both are the old flag or the scan. -/
theorem isComplete_flag :
    f.isComplete.1 = f.isComplete.2.isCompleted ∧
      (f.isComplete.1 = true ↔ f.isCompleted = true ∨ f.AllComplete) := by
  unfold isComplete
  split
  · next h => simp [h]
  · next h =>
    rw [← all_complete_iff]
    simp [h]

end File

end P2PNetwork.Client
