import P2PNetwork.Client.File.FileManager
import P2PNetwork.Lib.Run

/-!
# Reading segments in any order

`getSegment` between `readLock` and `readUnlock` (`src/client/file/FileManager.cpp:106–221`). All
reads of a file go through the stream that `readLock` has opened, and a read that fails leaves it
failed until the file is unlocked.
-/

open Lib

namespace P2PNetwork.Client

/-- A call that one thread makes. -/
inductive ReaderCall
  | readLock (fileName : Filename)
  | getSegment (fileName : Filename) (segmentId : Int) (segmentSize : Nat)
  | readUnlock (fileName : Filename)
  deriving DecidableEq, Repr

/-- What the calls so far have made of the stream of a file. -/
inductive Handle
  | closed
  | usable
  | spoiled
  deriving DecidableEq, Repr

/-- The bytes that segment `i` has in a file, and the zeros behind them. -/
def paddedSegment (c : Bytes) (i : Int) (n : Nat) : Bytes :=
  (c.drop (defaultSegmentSize * i.toNat)).take n ++ List.replicate (defaultSegmentSize - n) 0

/-- The `n` bytes from segment `i` on are inside a file. -/
def InFile (c : Bytes) (i : Int) (n : Nat) : Prop := 0 ≤ i ∧ defaultSegmentSize * i + n ≤ c.length

/-- A seek to this offset, or the read behind it, fails. -/
def Misses (c : Bytes) (offset : Int) (n : Nat) : Prop :=
  offset < 0 ∨ 0 < n ∧ c.length < offset + n

instance (c : Bytes) (i : Int) (n : Nat) : Decidable (InFile c i n) :=
  inferInstanceAs (Decidable (_ ∧ _))

instance (c : Bytes) (offset : Int) (n : Nat) : Decidable (Misses c offset n) :=
  inferInstanceAs (Decidable (_ ∨ _))

/-- The bits `is_open` and `failbit` of a stream. -/
def Handle.bits : Handle → Option (Bool × Bool)
  | .closed => none
  | .usable => some (true, false)
  | .spoiled => some (true, true)

/-- What a call makes of the stream of the file `name` with the content `c`: a request that misses
the file spoils it. -/
def Handle.after (name : Filename) (c : Bytes) (handle : Handle) : ReaderCall → Handle
  | .readLock fileName => if fileName = name ∧ handle = .closed then .usable else handle
  | .getSegment fileName segmentId segmentSize =>
    if fileName = name ∧ handle = .usable ∧ segmentSize ≤ defaultSegmentSize ∧
      Misses c (segmentOffset segmentId) segmentSize then .spoiled else handle
  | .readUnlock fileName => if fileName = name then .closed else handle

/-- What a call that returns does to the host. -/
def Host.perform (h : Host) : ReaderCall → Option Host
  | .readLock fileName => (h.readLock fileName).map Prod.fst
  | .getSegment fileName segmentId segmentSize =>
    (h.getSegment fileName segmentId segmentSize).map Prod.fst
  | .readUnlock fileName => h.readUnlock fileName

namespace SegmentReads

/-- One call, with what it makes of the stream of one file. -/
def step (name : Filename) (c : Bytes) (s : Host × Handle) (call : ReaderCall) :
    Option (Host × Handle) :=
  (s.1.perform call).map fun h ↦ (h, s.2.after name c call)

/-- A host with empty lock tables. -/
def start (disk : Filename → Option Bytes) : Host × Handle := (⟨disk, {}⟩, .closed)

/-- The call returns. A request for a segment of the file is answered: with the segment if the
file is locked, the size is not too big and the segment is inside the file, and with `nullptr`
else. -/
def Answered (name : Filename) (c : Bytes) (s : Host × Handle) : ReaderCall → Prop
  | .readLock fileName => (s.1.readLock fileName).isSome = true
  | .readUnlock fileName => (s.1.readUnlock fileName).isSome = true
  | .getSegment fileName segmentId segmentSize =>
    ∃ h' buffer, s.1.getSegment fileName segmentId segmentSize = some (h', buffer) ∧
      (fileName = name →
        (name ∈ s.1.readLockedNames ∧ segmentSize ≤ defaultSegmentSize ∧
          InFile c segmentId segmentSize →
            buffer = some (paddedSegment c segmentId segmentSize)) ∧
        (¬ (name ∈ s.1.readLockedNames ∧ segmentSize ≤ defaultSegmentSize ∧
          InFile c segmentId segmentSize) → buffer = none))

/-- A file is unlocked while it is not the last one of the table. A request has a size that is too
big, or it is made while its file is locked. One of the file `name` then does not ask for bytes of
the file behind a request that has missed it, and misses the file itself where it asks for other
bytes and is the first to do so. -/
def Unspoiled (name : Filename) (c : Bytes) (s : Host × Handle) : ReaderCall → Prop
  | .readLock _ => True
  | .readUnlock fileName => s.1.readLockedNames.getLast? ≠ some fileName
  | .getSegment fileName segmentId segmentSize =>
    defaultSegmentSize < segmentSize ∨ fileName ∈ s.1.readLockedNames ∧
      (fileName = name →
        match s.2 with
        | .spoiled => ¬ InFile c segmentId segmentSize
        | _ => InFile c segmentId segmentSize ∨ Misses c (segmentOffset segmentId) segmentSize)

end SegmentReads

/-- What a request does on the stream of its file. -/
def IfStream.fetch (s : IfStream) (content : Bytes) (offset : Int) (segmentSize : Nat) :
    IfStream × Option Bytes :=
  let sought := s.seekg offset
  if sought.tellg ≠ offset then (sought, none)
  else
    let r := sought.read content segmentSize
    if r.1.failbit || (r.1.eofbit && !r.1.failbit) then (r.1, none)
    else (r.1, some (r.2 ++ List.replicate (defaultSegmentSize - segmentSize) 0))

namespace IfStream

variable {s : IfStream} {c : Bytes} {offset : Int} {n : Nat}

/-- Where the seek leaves a failed stream, nothing is read. -/
private theorem fetch_of_seek_failed (hfail : (s.seekg offset).failbit = true) :
    (s.fetch c offset n).2 = none ∧ (s.fetch c offset n).1.failbit = true ∧
      (s.fetch c offset n).1.isOpen = (s.seekg offset).isOpen := by
  by_cases htell : (s.seekg offset).tellg ≠ offset
  · rw [fetch, if_pos htell]
    exact ⟨rfl, hfail, rfl⟩
  · have hread : (s.seekg offset).read c n = ({ s.seekg offset with failbit := true }, []) := by
      rw [read, hfail, Bool.true_or, if_pos rfl]
    rw [fetch, if_neg htell, hread]
    exact ⟨rfl, rfl, rfl⟩

/-- A stream that has failed gives nothing, and stays failed. -/
theorem fetch_of_failed (hfail : s.failbit = true) :
    (s.fetch c offset n).2 = none ∧ (s.fetch c offset n).1.failbit = true ∧
      (s.fetch c offset n).1.isOpen = s.isOpen := by
  have hsought : s.seekg offset = { s with eofbit := false } := by simp [seekg, hfail]
  have hseek : (s.seekg offset).failbit = true := by
    rw [hsought]
    exact hfail
  have h := @fetch_of_seek_failed s c offset n hseek
  rwa [hsought] at h

/-- A seek to an offset that exists. -/
private theorem seekg_of_nonneg (hfail : s.failbit = false) (hoffset : 0 ≤ offset) :
    s.seekg offset = { s with eofbit := false, pos := offset.toNat } ∧
      (s.seekg offset).tellg = offset := by
  have hsought : s.seekg offset = { s with eofbit := false, pos := offset.toNat } := by
    simp [seekg, hfail, Int.not_lt.mpr hoffset]
  refine ⟨hsought, ?_⟩
  rw [hsought]
  simp [tellg, hfail, Int.toNat_of_nonneg hoffset]

/-- A request that misses the file makes its stream fail. -/
theorem fetch_of_misses (hfail : s.failbit = false) (hmiss : Misses c offset n) :
    (s.fetch c offset n).2 = none ∧ (s.fetch c offset n).1.failbit = true ∧
      (s.fetch c offset n).1.isOpen = s.isOpen := by
  by_cases hoffset : offset < 0
  · have hsought : s.seekg offset = { s with eofbit := false, failbit := true } := by
      simp [seekg, hfail, hoffset]
    have hseek : (s.seekg offset).failbit = true := by rw [hsought]
    have h := @fetch_of_seek_failed s c offset n hseek
    rwa [hsought] at h
  · obtain ⟨hsought, htell⟩ := seekg_of_nonneg hfail (Int.not_lt.mp hoffset)
    obtain ⟨hpos, hend⟩ := hmiss.resolve_left hoffset
    have hshort : ((c.drop offset.toNat).take n).length ≠ n := by
      simp only [List.length_take, List.length_drop]
      omega
    have hread : ((s.seekg offset).read c n).1.failbit = true ∧
        ((s.seekg offset).read c n).1.isOpen = s.isOpen := by
      rw [hsought]
      simp only [read, hfail, Bool.or_self, Bool.false_eq_true, ↓reduceIte, if_neg hshort, true_and]
    have hcheck : (s.fetch c offset n) = (((s.seekg offset).read c n).1, none) := by
      simp only [fetch, htell, ne_eq, not_true_eq_false, ↓reduceIte, hread.1, Bool.true_or]
    rw [hcheck]
    exact ⟨rfl, hread⟩

/-- A request that does not miss the file gets its bytes. -/
theorem fetch_of_hits (hfail : s.failbit = false) (hhit : ¬ Misses c offset n) :
    (s.fetch c offset n).2 = some ((c.drop offset.toNat).take n ++
        List.replicate (defaultSegmentSize - n) 0) ∧
      (s.fetch c offset n).1.failbit = false ∧ (s.fetch c offset n).1.isOpen = s.isOpen := by
  have hoffset : 0 ≤ offset := Int.not_lt.mp fun h ↦ hhit (.inl h)
  obtain ⟨hsought, htell⟩ := seekg_of_nonneg hfail hoffset
  have hlength : ((c.drop offset.toNat).take n).length = n := by
    have hend : ¬ (0 < n ∧ c.length < offset + n) := fun h ↦ hhit (.inr h)
    simp only [List.length_take, List.length_drop]
    omega
  have hread : (s.seekg offset).read c n =
      ({ s with eofbit := false, pos := offset.toNat + n }, (c.drop offset.toNat).take n) := by
    rw [hsought]
    simp only [read, hfail, Bool.or_self, Bool.false_eq_true, ↓reduceIte, if_pos hlength]
  rw [fetch, if_neg (by simpa using htell), hread]
  simp [hfail]

end IfStream

namespace Host

variable {h h' : Host} {name other : Filename} {c : Bytes} {i : Int} {n : Nat}

/-- A request is one on the stream of the file. -/
theorem getSegment_of_open {f : OpenedFile} (hn : n ≤ defaultSegmentSize)
    (hf : h.openedFile name = some f) (hopen : f.stream.isOpen = true)
    (hc : h.disk name = some c) :
    h.getSegment name i n = some (h.setStream name (f.stream.fetch c (segmentOffset i) n).1,
      (f.stream.fetch c (segmentOffset i) n).2) := by
  rw [getSegment, if_neg (by omega), hf, Option.map_some, hopen, hc, Option.getD_some,
    IfStream.fetch]
  simp only [Bool.not_true, Bool.false_eq_true, ↓reduceIte]
  split_ifs <;> rfl

/-- Whatever a request does, it does to the entry of its file. -/
theorem getSegment_frame {buffer : Option Bytes}
    (hget : h.getSegment name i n = some (h', buffer)) :
    h' = h ∨ ∃ stream, h' = h.setStream name stream := by
  unfold getSegment at hget
  split at hget
  · cases hget
    exact .inl rfl
  · obtain ⟨f, -, hf⟩ := Option.map_eq_some_iff.mp hget
    split at hf
    · cases hf
      exact .inl rfl
    · refine .inr ?_
      dsimp only at hf
      split at hf
      · cases hf
        exact ⟨_, rfl⟩
      · split at hf
        · cases hf
          exact ⟨_, rfl⟩
        · cases hf
          exact ⟨_, rfl⟩

/-- A request of a size that is not too big returns exactly if its file has an entry. -/
theorem getSegment_isSome_iff (hn : n ≤ defaultSegmentSize) :
    (h.getSegment name i n).isSome = true ↔ name ∈ h.readLockedNames := by
  rw [← isSome_openedFile, getSegment, if_neg (Nat.not_lt.mpr hn), Option.isSome_map]

/-- What `readLock` does to the table: nothing, or the file gets an entry of its own. -/
theorem readLock_spec {success : Bool} (hlock : h.readLock name = some (h', success)) :
    (h' = h ∧ (h.openedFile name ≠ none ∨ h.disk name = none)) ∨
      (h.openedFile name = none ∧ h' = { h with fm := { h.fm with
        readLockedFiles := h.fm.readLockedFiles ++ [⟨name, .opened⟩] } }) := by
  unfold readLock at hlock
  split at hlock
  · cases hlock
  · split at hlock
    · next hsome =>
      cases hlock
      exact .inl ⟨rfl, .inl (Option.isSome_iff_ne_none.mp hsome)⟩
    · next hnone =>
      rw [Option.not_isSome_iff_eq_none] at hnone
      split at hlock
      · next hdisk =>
        cases hlock
        exact .inl ⟨rfl, .inr hdisk⟩
      · cases hlock
        exact .inr ⟨hnone, rfl⟩

end Host

namespace SegmentReads

variable {name : Filename} {c : Bytes} {s s' : Host × Handle}

/-- The stream of the file is as the calls so far have made it, and the tables hold one entry for
each file and no writer. -/
structure Tracks (name : Filename) (c : Bytes) (s : Host × Handle) : Prop where
  content : s.1.disk name = some c
  noWriter : s.1.fm.writeLockedFiles = []
  distinct : Distinct OpenedFile.fileName s.1.fm.readLockedFiles
  entry : (s.1.openedFile name).map (fun f ↦ (f.stream.isOpen, f.stream.failbit)) = s.2.bits

/-- A file whose stream is not closed has an entry with it. -/
private theorem Tracks.opened {failed : Bool} (hs : Tracks name c s)
    (hbits : s.2.bits = some (true, failed)) :
    ∃ f, s.1.openedFile name = some f ∧ f.stream.isOpen = true ∧ f.stream.failbit = failed := by
  have hentry := hs.entry
  rw [hbits] at hentry
  obtain ⟨f, hf, hstream⟩ := Option.map_eq_some_iff.mp hentry
  obtain ⟨hopen, hfail⟩ := Prod.mk.inj hstream
  exact ⟨f, hf, hopen, hfail⟩

/-- A file whose stream is closed has no entry. -/
private theorem Tracks.not_locked (hs : Tracks name c s) (hclosed : s.2 = .closed) :
    name ∉ s.1.readLockedNames := by
  have hentry := hs.entry
  rw [hclosed, Handle.bits, Option.map_eq_none_iff] at hentry
  rw [← Host.isSome_openedFile, hentry]
  exact Bool.false_ne_true

/-- The bytes of a segment inside the file are not missed, and the offset has not overflowed. -/
private theorem hits_of_inFile {i : Int} {n : Nat} (hsize : c.length < 2 ^ 31)
    (hinside : InFile c i n) :
    ¬ Misses c (segmentOffset i) n ∧ (segmentOffset i).toNat = defaultSegmentSize * i.toNat := by
  obtain ⟨hpos, hend⟩ := hinside
  obtain ⟨k, rfl⟩ := Int.eq_ofNat_of_zero_le hpos
  have hoffset : segmentOffset (k : Int) = ((defaultSegmentSize * k : Nat) : Int) := by
    apply segmentOffset_of_lt
    omega
  rw [hoffset]
  refine ⟨?_, rfl⟩
  rintro (hneg | ⟨-, hlt⟩)
  · omega
  · push_cast at hlt
    omega

/-- A request that is not too big, of a file with an entry, gives what the stream gives. -/
private theorem answered_iff_fetch {i : Int} {n : Nat} {f : OpenedFile} (hs : Tracks name c s)
    (hn : n ≤ defaultSegmentSize) (hf : s.1.openedFile name = some f)
    (hopen : f.stream.isOpen = true) :
    Answered name c s (.getSegment name i n) ↔
      (InFile c i n → (f.stream.fetch c (segmentOffset i) n).2 = some (paddedSegment c i n)) ∧
        (¬ InFile c i n → (f.stream.fetch c (segmentOffset i) n).2 = none) := by
  have hget := @Host.getSegment_of_open s.1 name c i n f hn hf hopen hs.content
  have hlocked : name ∈ s.1.readLockedNames := by
    rw [← Host.isSome_openedFile, hf]
    rfl
  constructor
  · rintro ⟨h', buffer, hsome, hanswer⟩
    rw [hget] at hsome
    obtain ⟨-, rfl⟩ := Prod.mk.inj (Option.some_inj.mp hsome)
    obtain ⟨hinside, houtside⟩ := hanswer rfl
    exact ⟨fun hin ↦ hinside ⟨hlocked, hn, hin⟩, fun hout ↦ houtside fun hin ↦ hout hin.2.2⟩
  · rintro ⟨hinside, houtside⟩
    exact ⟨_, _, hget, fun _ ↦ ⟨fun hin ↦ hinside hin.2.2, fun hout ↦ houtside fun hin ↦
      hout ⟨hlocked, hn, hin⟩⟩⟩

/-- A request of the file is answered exactly if it does not come at the wrong moment. -/
private theorem answered_getSegment_iff {i : Int} {n : Nat} (hsize : c.length < 2 ^ 31)
    (hs : Tracks name c s) (hn : n ≤ defaultSegmentSize) :
    Answered name c s (.getSegment name i n) ↔ Unspoiled name c s (.getSegment name i n) := by
  simp only [Unspoiled, Nat.not_lt.mpr hn, false_or, forall_const]
  cases hhandle : s.2 with
  | closed =>
    have hfree := hs.not_locked hhandle
    refine iff_of_false ?_ fun h ↦ hfree h.1
    rintro ⟨h', buffer, hsome, -⟩
    rw [← Host.getSegment_isSome_iff (i := i) hn, hsome] at hfree
    exact hfree rfl
  | usable =>
    obtain ⟨f, hf, hopen, hfail⟩ := hs.opened (congrArg Handle.bits hhandle)
    have hlocked : name ∈ s.1.readLockedNames := by
      rw [← Host.isSome_openedFile, hf]
      rfl
    rw [answered_iff_fetch hs hn hf hopen]
    by_cases hinside : InFile c i n
    · obtain ⟨hhit, hoffset⟩ := hits_of_inFile hsize hinside
      simp [hlocked, hinside, (IfStream.fetch_of_hits hfail hhit).1, paddedSegment, hoffset]
    · by_cases hmiss : Misses c (segmentOffset i) n
      · simp [hlocked, hinside, hmiss, (IfStream.fetch_of_misses hfail hmiss).1]
      · simp [hinside, hmiss, (IfStream.fetch_of_hits hfail hmiss).1]
  | spoiled =>
    obtain ⟨f, hf, hopen, hfail⟩ := hs.opened (congrArg Handle.bits hhandle)
    have hlocked : name ∈ s.1.readLockedNames := by
      rw [← Host.isSome_openedFile, hf]
      rfl
    rw [answered_iff_fetch hs hn hf hopen]
    simp [hlocked, (IfStream.fetch_of_failed hfail).1]

/-- A call is answered exactly if it does not come at the wrong moment. -/
theorem answered_iff_unspoiled {call : ReaderCall} (hsize : c.length < 2 ^ 31)
    (hs : Tracks name c s) : Answered name c s call ↔ Unspoiled name c s call := by
  cases call with
  | readLock fileName =>
    refine iff_of_true ?_ trivial
    rw [Answered, Option.isSome_iff_ne_none, ne_eq, Host.readLock_eq_none_iff, hs.noWriter]
    exact List.not_mem_nil
  | readUnlock fileName =>
    rw [Answered, Unspoiled, Option.isSome_iff_ne_none, ne_eq,
      Host.readUnlock_eq_none_iff hs.distinct]
  | getSegment fileName i n =>
    by_cases hbig : defaultSegmentSize < n
    · refine iff_of_true ⟨s.1, none, ?_, ?_⟩ (.inl hbig)
      · rw [Host.getSegment, if_pos hbig]
      · exact fun _ ↦ ⟨fun hin ↦ absurd hin.2.1 (Nat.not_le.mpr hbig), fun _ ↦ rfl⟩
    · have hn := Nat.not_lt.mp hbig
      by_cases hname : fileName = name
      · subst hname
        exact answered_getSegment_iff hsize hs hn
      · -- a request of another file only has to return
        rw [Unspoiled, or_iff_right hbig, ← Host.getSegment_isSome_iff (i := i) hn,
          Option.isSome_iff_exists]
        constructor
        · rintro ⟨h', buffer, hget, -⟩
          exact ⟨⟨_, hget⟩, fun h ↦ absurd h hname⟩
        · rintro ⟨⟨⟨h', buffer⟩, hget⟩, -⟩
          exact ⟨h', buffer, hget, fun h ↦ absurd h hname⟩

private theorem closed_of_bits {handle : Handle} (h : handle.bits = none) : handle = .closed := by
  cases handle with
  | closed => rfl
  | usable => cases h
  | spoiled => cases h

/-- A call of `readLock` keeps the stream as tracked. -/
private theorem tracks_readLock {fileName : Filename} {h' : Host} {success : Bool}
    (hs : Tracks name c s) (hlock : s.1.readLock fileName = some (h', success)) :
    Tracks name c (h', s.2.after name c (.readLock fileName)) := by
  have hentry := hs.entry
  rcases Host.readLock_spec hlock with ⟨rfl, hwhy⟩ | ⟨hnew, rfl⟩
  · have hkept : s.2.after name c (.readLock fileName) = s.2 := by
      apply if_neg
      rintro ⟨rfl, hclosed⟩
      rw [hclosed, Handle.bits, Option.map_eq_none_iff] at hentry
      rcases hwhy with hopened | hmissing
      · exact hopened hentry
      · rw [hs.content] at hmissing
        cases hmissing
    rw [hkept]
    exact hs
  · rw [Host.openedFile_eq_lookup] at hnew
    have hnew : lookup OpenedFile.fileName s.1.fm.readLockedFiles
        (OpenedFile.fileName ⟨fileName, .opened⟩) = none := hnew
    refine ⟨hs.content, hs.noWriter, distinct_append_new hs.distinct hnew, ?_⟩
    have hlookup := lookup_append_new hnew name
    by_cases hname : fileName = name
    · subst hname
      rw [Host.openedFile_eq_lookup, hnew] at hentry
      rw [Host.openedFile_eq_lookup, hlookup, if_pos rfl, Handle.after,
        if_pos ⟨rfl, closed_of_bits hentry.symm⟩]
      rfl
    · rw [Host.openedFile_eq_lookup, hlookup, if_neg (Ne.symm hname), Handle.after,
        if_neg fun h ↦ hname h.1, ← Host.openedFile_eq_lookup]
      exact hentry

/-- A request keeps the stream of another file. -/
private theorem tracks_getSegment_of_ne {fileName : Filename} {i : Int} {n : Nat} {h' : Host}
    {buffer : Option Bytes} (hs : Tracks name c s) (hname : fileName ≠ name)
    (hget : s.1.getSegment fileName i n = some (h', buffer)) : Tracks name c (h', s.2) := by
  rcases Host.getSegment_frame hget with rfl | ⟨stream, rfl⟩
  · exact hs
  · refine ⟨hs.content, hs.noWriter, Host.distinct_setStream stream hs.distinct, ?_⟩
    rw [Host.openedFile_setStream_of_ne stream hname.symm]
    exact hs.entry

/-- A request of the file leaves its stream as the handle says. -/
private theorem tracks_setStream {f : OpenedFile} {stream : IfStream} {handle : Handle}
    (hs : Tracks name c s) (hf : s.1.openedFile name = some f)
    (hbits : some (stream.isOpen, stream.failbit) = handle.bits) :
    Tracks name c (s.1.setStream name stream, handle) := by
  refine ⟨hs.content, hs.noWriter, Host.distinct_setStream stream hs.distinct, ?_⟩
  rw [Host.openedFile_setStream, hf]
  exact hbits

/-- A request keeps the stream as tracked. -/
private theorem tracks_getSegment {fileName : Filename} {i : Int} {n : Nat} {h' : Host}
    {buffer : Option Bytes} (hs : Tracks name c s)
    (hget : s.1.getSegment fileName i n = some (h', buffer)) :
    Tracks name c (h', s.2.after name c (.getSegment fileName i n)) := by
  by_cases hname : fileName = name
  swap
  · rw [Handle.after, if_neg fun h ↦ hname h.1]
    exact tracks_getSegment_of_ne hs hname hget
  subst hname
  by_cases hbig : defaultSegmentSize < n
  · rw [Host.getSegment, if_pos hbig] at hget
    cases hget
    rw [Handle.after, if_neg fun h ↦ by omega]
    exact hs
  have hn := Nat.not_lt.mp hbig
  cases hhandle : s.2 with
  | closed =>
    have hfree := hs.not_locked hhandle
    rw [← Host.getSegment_isSome_iff (i := i) hn, hget] at hfree
    exact absurd rfl hfree
  | usable =>
    obtain ⟨f, hf, hopen, hfail⟩ := hs.opened (congrArg Handle.bits hhandle)
    rw [Host.getSegment_of_open hn hf hopen hs.content] at hget
    cases hget
    apply tracks_setStream hs hf
    by_cases hmiss : Misses c (segmentOffset i) n
    · obtain ⟨-, hfailed, hkept⟩ := IfStream.fetch_of_misses hfail hmiss
      rw [Handle.after, if_pos ⟨rfl, rfl, hn, hmiss⟩, hfailed, hkept, hopen]
      rfl
    · obtain ⟨-, hfailed, hkept⟩ := IfStream.fetch_of_hits hfail hmiss
      rw [Handle.after, if_neg fun h ↦ hmiss h.2.2.2, hfailed, hkept, hopen]
      rfl
  | spoiled =>
    obtain ⟨f, hf, hopen, hfail⟩ := hs.opened (congrArg Handle.bits hhandle)
    rw [Host.getSegment_of_open hn hf hopen hs.content] at hget
    cases hget
    apply tracks_setStream hs hf
    obtain ⟨-, hfailed, hkept⟩ := @IfStream.fetch_of_failed f.stream c (segmentOffset i) n hfail
    rw [Handle.after, if_neg (by simp), hfailed, hkept, hopen]
    rfl

/-- A call of `readUnlock` keeps the stream as tracked. -/
private theorem tracks_readUnlock {fileName : Filename} {h' : Host} (hs : Tracks name c s)
    (hunlock : s.1.readUnlock fileName = some h') :
    Tracks name c (h', s.2.after name c (.readUnlock fileName)) := by
  have hopened := Host.openedFile_readUnlock hs.distinct hunlock name
  obtain ⟨left, hleft, rfl⟩ := Option.map_eq_some_iff.mp hunlock
  refine ⟨hs.content, hs.noWriter, ?_, ?_⟩
  · show Distinct OpenedFile.fileName left
    rw [Host.eraseEntries_of_distinct hs.distinct hleft]
    exact distinct_filter hs.distinct _
  · rw [hopened, Handle.after]
    by_cases hname : fileName = name
    · rw [if_pos hname.symm, if_pos hname]
      rfl
    · rw [if_neg (Ne.symm hname), if_neg hname]
      exact hs.entry

/-- A call keeps the stream as tracked. -/
theorem tracks_step {call : ReaderCall} (hs : Tracks name c s)
    (hstep : step name c s call = some s') : Tracks name c s' := by
  obtain ⟨h', hperform, rfl⟩ := Option.map_eq_some_iff.mp hstep
  cases call with
  | readLock fileName =>
    obtain ⟨r, hlock, rfl⟩ := Option.map_eq_some_iff.mp hperform
    exact tracks_readLock hs hlock
  | getSegment fileName i n =>
    obtain ⟨r, hget, rfl⟩ := Option.map_eq_some_iff.mp hperform
    exact tracks_getSegment hs hget
  | readUnlock fileName => exact tracks_readUnlock hs hperform

/-- Every call returns, and every request for a segment of a file is answered, exactly if no call
comes at the wrong moment. -/
theorem answered_throughout_iff {disk : Filename → Option Bytes} (hc : disk name = some c)
    (hsize : c.length < 2 ^ 31) (calls : List ReaderCall) :
    Each (step name c) (Answered name c) (start disk) calls ↔
      Each (step name c) (Unspoiled name c) (start disk) calls := by
  have hstart : Tracks name c (start disk) := ⟨hc, rfl, List.nodup_nil, rfl⟩
  apply Each.congr hstart
  · intro s call hs
    exact answered_iff_unspoiled hsize hs
  · intro s call s' hs _ hstep
    exact tracks_step hs hstep

/-! ### A request behind the end -/

/-- A disk on which every file has the byte 7. -/
def bytesOnDisk : Filename → Option Bytes := fun _ ↦ some [7]

/-- The file `a` is locked, its segment 1 is asked for, and then its segment 0. -/
def behindTheEnd : List ReaderCall :=
  [.readLock [97], .getSegment [97] 1 1, .getSegment [97] 0 1]

/-- The file has a segment 0 and no segment 1. -/
theorem answered_throughout_iff_behindTheEnd :
    Each (step [97] [7]) (Answered [97] [7]) (start bytesOnDisk) behindTheEnd ↔
      Each (step [97] [7]) (Unspoiled [97] [7]) (start bytesOnDisk) behindTheEnd :=
  @answered_throughout_iff [97] [7] bytesOnDisk rfl (by decide) behindTheEnd

/-- The second request gets `nullptr`. -/
theorem not_answered_behindTheEnd :
    ¬ Each (step [97] [7]) (Answered [97] [7]) (start bytesOnDisk) behindTheEnd := by
  rintro ⟨-, h⟩
  obtain ⟨-, h⟩ := h _ rfl
  obtain ⟨⟨h', buffer, hget, hanswer⟩, -⟩ := h _ rfl
  have hnone : none = buffer := Option.some_inj.mp (congrArg (Option.map Prod.snd) hget)
  have hsome := (hanswer rfl).1 ⟨by decide, by decide, by decide⟩
  rw [← hnone] at hsome
  cases hsome

end SegmentReads

end P2PNetwork.Client
