import P2PNetwork.Client.File.FileManager

/-!
# What a store may touch

The payload of a store comes from a peer and may have any length, the write always has the
length of a segment. What a store should read and change is compared with what it does, for
every payload and whatever the system calls return.
-/

open Lib

namespace P2PNetwork.Client

namespace StoreIo

/-- How many bytes behind `c_str()` are handed to `write` (`FileManager.cpp:70`): none where
the stream has failed before. -/
def bytesRead (io : StoreIo) : Nat := if io.opens && io.seeks then defaultSegmentSize else 0

/-- How many bytes a store puts into the file. -/
def bytesStored (io : StoreIo) : Nat :=
  if io.opens && io.seeks then
    match io.failsAfter with
    | none => defaultSegmentSize
    | some k => min k defaultSegmentSize
  else 0

end StoreIo

/-- The positions that a payload for segment `i` may change in a file of `s` bytes. -/
def InPayloadWindow (s i : Nat) (payload : Bytes) (p : Nat) : Prop :=
  defaultSegmentSize * i ≤ p ∧
    p < min (defaultSegmentSize * i + payload.length) (min (defaultSegmentSize * (i + 1)) s)

/-- A store touches only its segment and uses only its payload: it reads nothing behind the
payload, the bytes it puts into the file are the payload's and inside its window, and all other
bytes and the length stay. -/
structure StoreFrame (io : StoreIo) (payload : Bytes) (i : Nat) (content content' : Bytes) :
    Prop where
  reads : io.bytesRead ≤ payload.length
  length : content'.length = content.length
  inside : ∀ p, defaultSegmentSize * i ≤ p → p < defaultSegmentSize * i + io.bytesStored →
    InPayloadWindow content.length i payload p ∧
      content'[p]? = payload[p - defaultSegmentSize * i]?
  outside : ∀ p, ¬ (defaultSegmentSize * i ≤ p ∧ p < defaultSegmentSize * i + io.bytesStored) →
    content'[p]? = content[p]?

/-- The payload covers what a store reads, and what it stores ends inside the file. -/
def CoversStore (io : StoreIo) (payload : Bytes) (i s : Nat) : Prop :=
  io.opens = true → io.seeks = true →
    defaultSegmentSize ≤ payload.length ∧ defaultSegmentSize * i + io.bytesStored ≤ s

section

variable {io : StoreIo} (payload : Bytes) {content : Bytes} {i : Nat}

private theorem storeFrame_of_not_reached (h : (io.opens && io.seeks) = false) :
    StoreFrame io payload i content content := by
  have hstored : io.bytesStored = 0 := by rw [StoreIo.bytesStored, h]; rfl
  refine ⟨?_, rfl, fun p hlo hhi ↦ ?_, fun _ _ ↦ rfl⟩
  · rw [StoreIo.bytesRead, h]
    exact Nat.zero_le _
  · rw [hstored] at hhi
    omega

private theorem length_written (h : (io.opens && io.seeks) = true) :
    (io.written (cStr payload io.beyond defaultSegmentSize)).length = io.bytesStored := by
  rw [StoreIo.bytesStored, if_pos h, StoreIo.written]
  cases io.failsAfter with
  | none => exact length_cStr _ _ _
  | some k => rw [List.length_take, length_cStr]

/-- Of a payload that is long enough a store takes its first bytes. -/
private theorem getElem?_written {j : Nat} (h : (io.opens && io.seeks) = true)
    (hlen : defaultSegmentSize ≤ payload.length) (hj : j < io.bytesStored) :
    (io.written (cStr payload io.beyond defaultSegmentSize))[j]? = payload[j]? := by
  rw [StoreIo.bytesStored, if_pos h] at hj
  have htake : cStr payload io.beyond defaultSegmentSize = payload.take defaultSegmentSize := by
    rw [cStr, List.take_append_of_le_length hlen]
  rw [StoreIo.written, htake]
  cases hfails : io.failsAfter with
  | none =>
    rw [hfails] at hj
    exact List.getElem?_take_of_lt hj
  | some k =>
    rw [hfails] at hj
    obtain ⟨hk, hsegment⟩ := Nat.lt_min.mp hj
    rw [List.getElem?_take_of_lt hk, List.getElem?_take_of_lt hsegment]

private theorem length_overwritten (h : (io.opens && io.seeks) = true)
    (hi : defaultSegmentSize * i < content.length) :
    (overwrite 0 content (defaultSegmentSize * i)
      (io.written (cStr payload io.beyond defaultSegmentSize))).length =
      max content.length (defaultSegmentSize * i + io.bytesStored) := by
  have hlength := length_written payload h
  by_cases hnil : io.written (cStr payload io.beyond defaultSegmentSize) = []
  · rw [hnil, List.length_nil] at hlength
    rw [hnil, ← hlength]
    simp only [overwrite, List.isEmpty_nil, ↓reduceIte]
    omega
  · rw [length_overwrite _ _ _ hnil, hlength]

private theorem getElem?_eq_getD {l : Bytes} {p : Nat} (hp : p < l.length) :
    l[p]? = some (l.getD p 0) := by
  rw [List.getElem?_eq_getElem hp, List.getD_eq_getElem l 0 hp]

private theorem storeFrame_of_reached (h : (io.opens && io.seeks) = true)
    (hi : defaultSegmentSize * i < content.length)
    (hlen : defaultSegmentSize ≤ payload.length)
    (hend : defaultSegmentSize * i + io.bytesStored ≤ content.length) :
    StoreFrame io payload i content (overwrite 0 content (defaultSegmentSize * i)
      (io.written (cStr payload io.beyond defaultSegmentSize))) := by
  have hlength := length_overwritten payload h hi
  have hwritten := length_written payload h
  have hstored : io.bytesStored ≤ defaultSegmentSize := by
    unfold StoreIo.bytesStored
    rw [if_pos h]
    split <;> omega
  refine ⟨?_, by omega, ?_, ?_⟩
  · rw [StoreIo.bytesRead, if_pos h]
    exact hlen
  · intro p hlo hhi
    refine ⟨⟨hlo, by rw [Nat.mul_succ]; omega⟩, ?_⟩
    rw [getElem?_eq_getD (by omega), getD_overwrite, hwritten, if_pos ⟨hlo, hhi⟩,
      ← getElem?_written payload h hlen (by omega), getElem?_eq_getD (by omega)]
  · intro p hout
    by_cases hp : p < content.length
    · rw [getElem?_eq_getD (by omega), getElem?_eq_getD hp, getD_overwrite, hwritten, if_neg hout]
    · rw [List.getElem?_eq_none (by omega), List.getElem?_eq_none (by omega)]

/-- The frame of a store holds exactly when the payload covers it. -/
private theorem storeFrame_iff_of_reached (h : (io.opens && io.seeks) = true)
    (hi : defaultSegmentSize * i < content.length) :
    StoreFrame io payload i content (overwrite 0 content (defaultSegmentSize * i)
      (io.written (cStr payload io.beyond defaultSegmentSize))) ↔
      defaultSegmentSize ≤ payload.length ∧
        defaultSegmentSize * i + io.bytesStored ≤ content.length := by
  constructor
  · intro hframe
    have hreads := hframe.reads
    have hlength := hframe.length
    rw [StoreIo.bytesRead, if_pos h] at hreads
    rw [length_overwritten payload h hi] at hlength
    exact ⟨hreads, by omega⟩
  · rintro ⟨hlen, hend⟩
    exact storeFrame_of_reached payload h hi hlen hend

/-- For every payload and whatever the system calls return, a store of a segment of an existing
file touches only its segment and uses only its payload exactly when it does not get as far as
writing, or the payload covers it. No other file is touched. -/
theorem storeFrame_iff {h h' : Host} {name : Filename} (path : Bytes)
    (hcontent : h.disk name = some content) (hsize : content.length < 2 ^ 31)
    (hi : defaultSegmentSize * i < content.length)
    (hstore : h.storeSegmentToFile name path i payload io = some h') :
    ∃ content', h'.disk name = some content' ∧
      (∀ other, other ≠ name → h'.disk other = h.disk other) ∧
      (StoreFrame io payload i content content' ↔ CoversStore io payload i content.length) := by
  have hdisk := Host.disk_store hcontent (by omega) hstore
  refine ⟨_, by rw [hdisk, Function.update_self], ?_, ?_⟩
  · intro other hother
    rw [hdisk, Function.update_of_ne hother]
  · cases hreached : io.opens && io.seeks with
    | false =>
      refine iff_of_true (storeFrame_of_not_reached payload hreached) ?_
      intro hopens hseeks
      rw [hopens, hseeks] at hreached
      cases hreached
    | true =>
      rw [if_pos rfl, storeFrame_iff_of_reached payload hreached hi]
      rw [Bool.and_eq_true] at hreached
      exact ⟨fun hcovers _ _ ↦ hcovers, fun hcovers ↦ hcovers hreached.1 hreached.2⟩

end

/-! ### A payload of one byte -/

/-- The file of one byte, and a payload of one byte for its segment. -/
theorem storeFrame_iff_byte :
    ∃ h', (emptyHost.createLocalFile byteTorrent).storeSegmentToFile [97] [] 0 [7]
        (.success fun _ ↦ 0) = some h' ∧
      ∃ content', h'.disk [97] = some content' ∧
        (∀ other, other ≠ [97] →
          h'.disk other = (emptyHost.createLocalFile byteTorrent).disk other) ∧
        (StoreFrame (.success fun _ ↦ 0) [7] 0 [0] content' ↔
          CoversStore (.success fun _ ↦ 0) [7] 0 1) :=
  ⟨_, rfl, storeFrame_iff [7] [] (i := 0) rfl (by decide) (by decide) rfl⟩

/-- The store reads behind the payload, whatever is left in the file. -/
theorem not_storeFrame_byte :
    ∃ h', (emptyHost.createLocalFile byteTorrent).storeSegmentToFile [97] [] 0 [7]
        (.success fun _ ↦ 0) = some h' ∧
      ∀ content', h'.disk [97] = some content' →
        ¬ StoreFrame (.success fun _ ↦ 0) [7] 0 [0] content' :=
  ⟨_, rfl, fun _ _ hframe ↦ absurd hframe.reads (by decide)⟩

end P2PNetwork.Client
