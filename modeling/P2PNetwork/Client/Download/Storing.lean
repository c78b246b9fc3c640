import P2PNetwork.Client.Download.Completion
import P2PNetwork.Client.File.Reassembly
import P2PNetwork.Client.File.Segmentation

/-!
# COMPLETE and what is on the disk

A store that fails only says so in the log, and its worker marks the segment COMPLETE all the
same; a payload shorter than the segment leaves the rest of it to whatever lies behind the
string. With stores that succeed on payloads that cover their segments, the call before every
mark has put the whole segment into the local file.
-/

open Lib

namespace P2PNetwork.Client

/-- Every system call of the store succeeds. -/
def StoreIo.Succeeds (io : StoreIo) : Prop :=
  io.opens = true ∧ io.seeks = true ∧ io.failsAfter = none

instance (io : StoreIo) : Decidable io.Succeeds :=
  inferInstanceAs (Decidable (_ ∧ _ ∧ _))

/-- The store can open the local file, and its system calls succeed. -/
def CallsSucceed {W : Type} (d : Download W) (io : StoreIo) : Prop :=
  (d.host.disk d.file.torrent.fileName).isSome = true ∧ io.Succeeds

instance {W : Type} (d : Download W) (io : StoreIo) : Decidable (CallsSucceed d io) :=
  inferInstanceAs (Decidable (_ ∧ _))

/-- A payload that is about to be stored has `n` bytes at least. -/
def Pc.Covers (n : Nat) : Pc → Prop
  | .storing _ fragmentBytes _ => n ≤ fragmentBytes.length
  | _ => True

instance (n : Nat) : (p : Pc) → Decidable (p.Covers n)
  | .storing _ fragmentBytes _ => inferInstanceAs (Decidable (n ≤ fragmentBytes.length))
  | .connecting | .listing | .scanning _ | .requesting .. | .releasing .. | .completing ..
  | .finished => isTrue trivial

/-- The local file exists at every store, its system calls succeed, and the payload is as long
as the segment. -/
def StoreSucceeds {W : Type} (d : Download W) : Event W → Prop
  | .store w k io =>
    CallsSucceed d io ∧ (d.pc w).Covers (segmentLength d.file.torrent.size.toNat k.toNat)
  | _ => True

instance {W : Type} (d : Download W) : (e : Event W) → Decidable (StoreSucceeds d e)
  | .store w k io => inferInstanceAs (Decidable (CallsSucceed d io ∧
    (d.pc w).Covers (segmentLength d.file.torrent.size.toNat k.toNat)))
  | .connect .. | .list .. | .claim .. | .skip .. | .reply .. | .release .. | .complete ..
  | .finish _ | .checkComplete => isTrue trivial

/-- Between the two states of the machine the bytes of segment `i` of a file of `size` bytes were
written at its place: the payload has a byte for each of its positions, and these are what
stands there. -/
def WroteSegment (name : Filename) (size i : Nat) (payload : Bytes) (before after : Host) : Prop :=
  segmentLength size i ≤ payload.length ∧
    ∃ content bytes, before.disk name = some content ∧ bytes.length = defaultSegmentSize ∧
      bytes.take (segmentLength size i) = payload.take (segmentLength size i) ∧
      after.disk = Function.update before.disk name
        (some (overwrite 0 content (defaultSegmentSize * i) bytes))

/-- Behind a full segment the file is long enough to hold it. -/
private theorem WroteSegment.length_le {name : Filename} {size i : Nat} {payload c : Bytes}
    {before after : Host} (h : WroteSegment name size i payload before after)
    (hafter : after.disk name = some c) :
    defaultSegmentSize * i + defaultSegmentSize ≤ c.length := by
  obtain ⟨-, content, bytes, -, hlength, -, hwrote⟩ := h
  have hne : bytes ≠ [] := by
    rintro rfl
    cases hlength
  rw [hwrote, Function.update_self] at hafter
  rw [← Option.some_inj.mp hafter, length_overwrite _ _ _ hne, hlength]
  exact Nat.le_max_right _ _

namespace Download

variable {W : Type} [DecidableEq W]

/-- The last call of worker `w` in a run was a store of fragment `k` that wrote all bytes of the
segment. -/
def StoredLast (peer : W → PeerInfo) (d₀ : Download W) (es : List (Event W)) (w : W)
    (k : UInt32) : Prop :=
  ∃ es₁ io es₂ d₁ d₂ payload rest, es = es₁ ++ .store w k io :: es₂ ∧
    (∀ e ∈ es₂, e.worker ≠ some w) ∧ Run (step peer) Any d₀ es₁ d₁ ∧
    d₁.pc w = .storing k payload rest ∧ step peer d₁ (.store w k io) = some d₂ ∧
    WroteSegment d₁.file.torrent.fileName d₁.file.torrent.size.toNat k.toNat payload
      d₁.host d₂.host

/-- COMPLETE means stored: a segment is marked only behind a store of it that wrote all its
bytes, the COMPLETE segments and those behind a positive `isComplete` have been marked, and
after a failed store the segment is given back. -/
structure CompleteMeansStored (peer : W → PeerInfo) (d₀ : Download W) (es : List (Event W))
    (d : Download W) : Prop where
  marked : ∀ es₁ w k es₂, es = es₁ ++ .complete w k :: es₂ → StoredLast peer d₀ es₁ w k
  complete : ∀ i, d.file.stateOf i = some .complete →
    ∃ w k, k.toNat = i ∧ Event.complete w k ∈ es
  isComplete : d.file.isComplete.1 = true → ∀ i, i < d.file.segments.length →
    ∃ w k, k.toNat = i ∧ Event.complete w k ∈ es
  failed : ∀ es₁ w k io es₂ d₁, es = es₁ ++ .store w k io :: es₂ → Run (step peer) Any d₀ es₁ d₁ →
    ¬ CallsSucceed d₁ io → (∀ e ∈ es₂, e.worker ≠ some w) → GivesBack peer d w k

section

variable {peer : W → PeerInfo} {d₀ d d' : Download W} {es : List (Event W)} {e : Event W}

/-- Calls of other workers do not change what a worker stored last. -/
private theorem StoredLast.snoc {w : W} {k : UInt32} (h : StoredLast peer d₀ es w k)
    (hother : e.worker ≠ some w) : StoredLast peer d₀ (es ++ [e]) w k := by
  obtain ⟨es₁, io, es₂, d₁, d₂, payload, rest, rfl, hidle, hwrote⟩ := h
  refine ⟨es₁, io, es₂ ++ [e], d₁, d₂, payload, rest, by simp, ?_, hwrote⟩
  intro e' he'
  rcases List.mem_append.mp he' with he' | he'
  · exact hidle e' he'
  · rw [List.mem_singleton.mp he']
    exact hother

/-- A store that succeeds writes the whole segment. -/
private theorem wroteSegment_of_store {w : W} {k : UInt32} {io : StoreIo}
    (hoff : defaultSegmentSize * k.toNat < 2 ^ 31) (hid : idOf k = k.toNat)
    (hok : StoreSucceeds d (.store w k io)) (h : step peer d (.store w k io) = some d') :
    ∃ payload rest, d.pc w = .storing k payload rest ∧
      WroteSegment d.file.torrent.fileName d.file.torrent.size.toNat k.toNat payload
        d.host d'.host := by
  obtain ⟨⟨hsome, hopens, hseeks, hfails⟩, hcovers⟩ := hok
  obtain ⟨content, hcontent⟩ := Option.isSome_iff_exists.mp hsome
  obtain ⟨payload, rest, after, hpc, hstore, rfl⟩ := store_spec h
  rw [hpc, Pc.Covers] at hcovers
  rw [hid] at hstore
  have hdisk := Host.disk_store hcontent hoff hstore
  rw [hopens, hseeks, Bool.and_self, if_pos rfl, StoreIo.written, hfails] at hdisk
  have htake := congrArg (List.take (segmentLength d.file.torrent.size.toNat k.toNat))
    (take_cStr payload io.beyond defaultSegmentSize)
  rw [List.take_take, List.take_take, Nat.min_eq_left hcovers,
    Nat.min_eq_left (segmentLength_le _ _)] at htake
  exact ⟨payload, rest, hpc, hcovers, content, _, hcontent, length_cStr _ _ _, htake, hdisk⟩

/-- A worker is about to mark a segment only behind its own store. -/
private theorem completing_step {w : W} {k : UInt32} {rest : List UInt32}
    (h : step peer d e = some d') (hpc : d'.pc w = .completing k rest) :
    (e.worker ≠ some w ∧ d.pc w = .completing k rest) ∨ ∃ io, e = .store w k io := by
  by_cases hw : e.worker = some w
  · have hgoes := (step_effect h).moves w hw
    rw [hpc] at hgoes
    generalize d.pc w = p at hgoes
    cases hgoes
    exact .inr ⟨_, rfl⟩
  · rw [(step_effect h).others w hw] at hpc
    exact .inl ⟨hw, hpc⟩

/-- What holds along a run whose stores succeed. -/
private structure Marks (peer : W → PeerInfo) (d₀ : Download W) (es : List (Event W))
    (d : Download W) : Prop where
  completing : ∀ w k rest, d.pc w = .completing k rest → StoredLast peer d₀ es w k
  marked : ∀ es₁ w k es₂, es = es₁ ++ .complete w k :: es₂ → StoredLast peer d₀ es₁ w k
  complete : ∀ i, d.file.stateOf i = some .complete →
    ∃ w k, k.toNat = i ∧ Event.complete w k ∈ es
  stores : ∀ es₁ w k io es₂ d₁, es = es₁ ++ .store w k io :: es₂ → Run (step peer) Any d₀ es₁ d₁ →
    CallsSucceed d₁ io

private theorem Marks.step (hm : Marks peer d₀ es d) (hrun : Run (step peer) Any d₀ es d)
    (hok : StoreSucceeds d e) (h : step peer d e = some d')
    (hoff : ∀ w k, (d.pc w).fragment = some k →
      defaultSegmentSize * k.toNat < 2 ^ 31 ∧ idOf k = k.toNat) :
    Marks peer d₀ (es ++ [e]) d' where
  completing := by
    intro w k rest hpc
    rcases completing_step h hpc with ⟨hother, hold⟩ | ⟨io, rfl⟩
    · exact (hm.completing w k rest hold).snoc hother
    · obtain ⟨_, _, _, hbefore, _⟩ := store_spec h
      obtain ⟨hlt, hid⟩ := hoff w k (by rw [hbefore]; rfl)
      obtain ⟨payload, rest, hpc, hwrote⟩ := wroteSegment_of_store hlt hid hok h
      exact ⟨es, io, [], d, d', payload, rest, rfl, by simp, hrun, hpc, h, hwrote⟩
  marked := by
    intro es₁ w k es₂ hes
    rcases split_snoc hes with ⟨-, rfl, rfl⟩ | ⟨es₃, -, hbefore⟩
    · obtain ⟨rest, hpc, -, -⟩ := complete_spec h
      exact hm.completing w k rest hpc
    · exact hm.marked es₁ w k es₃ hbefore
  complete := by
    intro i hcomplete
    rcases stateOf_step h hcomplete with hold | ⟨k, hk, hsets⟩
    · obtain ⟨w, k, hk, hmem⟩ := hm.complete i hold
      exact ⟨w, k, hk, List.mem_append_left _ hmem⟩
    · cases e <;> cases hsets
      exact ⟨_, k, hk, List.mem_append_right _ (List.mem_singleton_self _)⟩
  stores := by
    intro es₁ w k io es₂ d₁ hes hbefore
    rcases split_snoc hes with ⟨-, rfl, rfl⟩ | ⟨es₃, -, hsplit⟩
    · obtain rfl := Option.some_inj.mp (hrun.foldlM_eq.symm.trans hbefore.foldlM_eq)
      exact hok.1
    · exact hm.stores es₁ w k io es₃ d₁ hsplit hbefore

end

variable {peer : W → PeerInfo} {torrent : Torrent} {path : Bytes} {host : Host}
  {es : List (Event W)} {d : Download W}

/-- The fragment that a worker holds lies in the file, so its offset is in range. -/
private theorem offset_of_fragment {w : W} {k : UInt32}
    (hrun : Run (step peer) Any (start (.ofTorrent torrent path) host) es d)
    (h : (d.pc w).fragment = some k) :
    defaultSegmentSize * k.toNat < 2 ^ 31 ∧ idOf k = k.toNat := by
  refine ⟨?_, idOf_run hrun h⟩
  obtain ⟨⟨b, ht⟩, -⟩ := tracks_and_flag (File.fresh_ofTorrent torrent path) hrun
  have hheld : (d.pc w).segment = some k.toNat := by
    rw [Pc.segment, h]
    rfl
  have hlt := File.lt_of_stateOf (ht.downloading hheld)
  rw [length_run hrun] at hlt
  exact File.offset_lt_of_lt_length hlt

/-- In every run whose stores succeed on payloads that cover their segments, COMPLETE means
stored. -/
theorem completeMeansStored
    (hrun : Run (step peer) StoreSucceeds (start (.ofTorrent torrent path) host) es d) :
    CompleteMeansStored peer (start (.ofTorrent torrent path) host) es d := by
  have hfresh := File.fresh_ofTorrent torrent path
  have hmarks : Marks peer (start (.ofTorrent torrent path) host) es d := by
    refine hrun.traceInvariant (P := Marks peer _) ⟨?_, ?_, ?_, ?_⟩ ?_
    · intro w k rest hpc
      cases hpc
    · simp
    · intro i h
      have hfree := hfresh.free i _ h
      cases hfree
    · simp
    · intro es d e d' hprefix hm hok hstep
      exact hm.step hprefix.any hok hstep fun w k h ↦ offset_of_fragment hprefix.any h
  refine ⟨hmarks.marked, hmarks.complete, ?_, ?_⟩
  · intro h i hi
    exact hmarks.complete i (allComplete_of_isComplete hfresh hrun h i hi)
  · intro es₁ w k io es₂ d₁ hes hbefore hfails
    exact absurd (hmarks.stores es₁ w k io es₂ d₁ hes hbefore) hfails

/-! ### A file that cannot be opened -/

/-- The run with one failing and one good peer; its store succeeds, and the reply has the one byte
of the segment. -/
theorem completeMeansStored_revisited :
    ∃ d, revisited.foldlM (step somePeer) byteStart = some d ∧
      CompleteMeansStored somePeer byteStart revisited d := by
  have hruns : (revisited.foldlM (step somePeer) byteStart).isSome = true := by decide
  have hmeets : Meets (step somePeer) StoreSucceeds byteStart revisited := by decide
  obtain ⟨d, hd⟩ := Option.isSome_iff_exists.mp hruns
  exact ⟨d, hd, completeMeansStored (Run.of_foldlM hd hmeets)⟩

/-- A store that cannot open the local file. -/
def cannotOpen : StoreIo :=
  { opens := false, seeks := true, failsAfter := none, beyond := fun _ ↦ 0 }

/-- A worker whose store cannot open the file. -/
def unopened : List (Event Bool) :=
  [.connect true .open, .list true (listOf [0]), .claim true 0, .reply true 0 byteReply,
    .store true 0 cannotOpen, .complete true 0]

/-- The segment is COMPLETE, so the file is, and nothing has been written. -/
theorem not_completeMeansStored_unopened :
    ∃ d, unopened.foldlM (step somePeer) byteStart = some d ∧
      d.file.isComplete.1 = true ∧ d.host.disk [97] = some [0] ∧
      ¬ CompleteMeansStored somePeer byteStart unopened d := by
  have hruns : ((unopened.foldlM (step somePeer) byteStart).map fun d ↦
      (d.file.isComplete.1, d.host.disk [97])) = some (true, some [0]) := by decide
  have hbefore : (((unopened.take 4).foldlM (step somePeer) byteStart).map fun d ↦
      (d.file.torrent.fileName, d.host.disk [97])) = some ([97], some [0]) := by decide
  have hafter : (((unopened.take 5).foldlM (step somePeer) byteStart).map fun d ↦
      d.host.disk [97]) = some (some [0]) := by decide
  obtain ⟨d, hd, hvalues⟩ := Option.map_eq_some_iff.mp hruns
  obtain ⟨hcomplete, hdisk⟩ := Prod.mk.inj hvalues
  refine ⟨d, hd, hcomplete, hdisk, fun hstored ↦ ?_⟩
  obtain ⟨es₁, io, es₂, d₁, d₂, payload, rest, hes, hidle, hrun, -, hstep, hwrote⟩ :=
    hstored.marked (unopened.take 5) true 0 [] rfl
  -- every call is one of this worker, so the store is the last one
  have hlast : unopened.take 4 ++ [.store true 0 cannotOpen] = es₁ ++ .store true 0 io :: es₂ :=
    hes
  rcases split_snoc hlast with ⟨-, rfl, hio⟩ | ⟨es₃, rfl, -⟩
  · rw [hio] at hstep
    rw [hrun.foldlM_eq] at hbefore
    have hname := (Prod.mk.inj (Option.some_inj.mp hbefore)).1
    have hdisk₂ : d₂.host.disk [97] = some [0] :=
      Option.some_inj.mp (((hrun.snoc trivial hstep).foldlM_eq ▸ hafter :))
    exact absurd (hwrote.length_le (hname ▸ hdisk₂)) (by decide)
  · exact hidle (.store true 0 cannotOpen) (by simp) rfl

end Download

end P2PNetwork.Client
