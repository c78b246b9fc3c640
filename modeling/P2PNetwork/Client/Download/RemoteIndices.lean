import P2PNetwork.Client.Database.Database
import P2PNetwork.Client.Download.Ownership
import P2PNetwork.Client.Networking.ResponderThread

/-!
# Fragment numbers from the network

The ids of a peer's list and the number in a peer's request are used as indices of
`File::segments` without a check. Which messages stay inside the vector is said exactly, for
the loop of a worker in any company and for the answer of a responder.
-/

open Lib

namespace P2PNetwork.Client

/-- The index of `File::segments` that the next call of a worker uses. -/
def Pc.nextIndex : Pc → Option Int
  | .scanning (k :: _) => some (idOf k)
  | .releasing k _ => some (idOf k)
  | .completing k _ => some (idOf k)
  | _ => none

/-- The fragments that the loop of a worker still deals with, the current one included. -/
def Pc.pending : Pc → List UInt32
  | .scanning rest => rest
  | .requesting k rest => k :: rest
  | .releasing k rest => k :: rest
  | .storing k _ rest => k :: rest
  | .completing k rest => k :: rest
  | _ => []

/-- Inside the loop of `work`, or behind it. -/
def Pc.Looping : Pc → Prop
  | .connecting | .listing => False
  | _ => True

namespace Download

variable {W : Type} [DecidableEq W] {peer : W → PeerInfo} {d d' : Download W} {w : W}

/-- Whatever happens from here on, worker `w` accesses segments of the file only. -/
def StaysInRange (peer : W → PeerInfo) (d : Download W) (w : W) : Prop :=
  ∀ es d', Run (step peer) Any d es d' → ∀ i, (d'.pc w).nextIndex = some i → d'.file.InRange i

private theorem nextIndex_pending {p : Pc} {i : Int} (h : p.nextIndex = some i) :
    ∃ k ∈ p.pending, i = idOf k := by
  unfold Pc.nextIndex at h
  split at h
  · next k rest => exact ⟨k, List.mem_cons_self, (Option.some_inj.mp h).symm⟩
  · next k rest => exact ⟨k, List.mem_cons_self, (Option.some_inj.mp h).symm⟩
  · next k rest => exact ⟨k, List.mem_cons_self, (Option.some_inj.mp h).symm⟩
  · cases h

/-- The loop deals with fewer and fewer fragments. -/
private theorem pending_step {e : Event W} (h : step peer d e = some d')
    (hloop : (d.pc w).Looping) :
    (d'.pc w).Looping ∧ ∀ k ∈ (d'.pc w).pending, k ∈ (d.pc w).pending := by
  by_cases hw : e.worker = some w
  · have hgoes := (step_effect h).moves w hw
    generalize d'.pc w = p' at hgoes ⊢
    generalize d.pc w = p at hgoes hloop ⊢
    cases hgoes with
    | connect => exact hloop.elim
    | refused => exact hloop.elim
    | list => exact hloop.elim
    | claim => exact ⟨trivial, fun k hk ↦ hk⟩
    | skip => exact ⟨trivial, fun k hk ↦ List.mem_cons_of_mem _ hk⟩
    | error => exact ⟨trivial, fun k hk ↦ hk⟩
    | accept => exact ⟨trivial, fun k hk ↦ hk⟩
    | release => exact ⟨trivial, fun k hk ↦ List.mem_cons_of_mem _ hk⟩
    | store => exact ⟨trivial, fun k hk ↦ hk⟩
    | complete => exact ⟨trivial, fun k hk ↦ List.mem_cons_of_mem _ hk⟩
    | finish => exact ⟨trivial, fun k hk ↦ hk⟩
  · rw [(step_effect h).others w hw]
    exact ⟨hloop, fun k hk ↦ hk⟩

/-- The segments of the file are the same along every run. -/
theorem inRange_run {es : List (Event W)} {i : Int} (hrun : Run (step peer) Any d es d') :
    d'.file.InRange i ↔ d.file.InRange i := by
  unfold File.InRange
  rw [length_run hrun]

private theorem staysInRange_of_forall {fragments : List UInt32}
    (hpc : d.pc w = .scanning fragments) (h : ∀ k ∈ fragments, d.file.InRange (idOf k)) :
    StaysInRange peer d w := by
  intro es d' hrun i hi
  have hpending : (d'.pc w).Looping ∧ ∀ k ∈ (d'.pc w).pending, k ∈ fragments := by
    refine hrun.invariant (P := fun x ↦ (x.pc w).Looping ∧
      ∀ k ∈ (x.pc w).pending, k ∈ fragments) ?_ ?_
    · rw [hpc]
      exact ⟨trivial, fun k hk ↦ hk⟩
    · rintro s e s' ⟨hloop, hin⟩ _ hstep
      obtain ⟨hloop', hless⟩ := pending_step hstep hloop
      exact ⟨hloop', fun k hk ↦ hin k (hless k hk)⟩
  obtain ⟨k, hk, hik⟩ := nextIndex_pending hi
  rw [hik, inRange_run hrun]
  exact h k (hpending.2 k hk)

/-! ### How a worker gets past a fragment -/

/-- A worker claims the fragment in front of it, or passes it. -/
theorem claim_or_skip (peer : W → PeerInfo) {k : UInt32} {rest : List UInt32}
    (hpc : d.pc w = .scanning (k :: rest)) (hk : d.file.InRange (idOf k)) :
    (∃ d', step peer d (.claim w k) = some d' ∧ d'.pc w = .requesting k rest) ∨
      (∃ d', step peer d (.skip w k) = some d' ∧ d'.pc w = .scanning rest) := by
  obtain ⟨s, hs⟩ := Option.isSome_iff_exists.mp (File.isSome_segmentAt.mpr hk)
  by_cases hfree : s.state = .free
  · refine .inl ⟨({ d with file := d.file.setState (idOf k).toNat .downloading }).goto w
      (.requesting k rest), ?_, pc_goto_self _ _ _⟩
    show d.tryToClaim w k true = some _
    simp [tryToClaim, hpc, File.tryToSetStateSegmentStateToDownload, hs, hfree]
  · refine .inr ⟨d.goto w (.scanning rest), ?_, pc_goto_self _ _ _⟩
    show d.tryToClaim w k false = some _
    simp [tryToClaim, hpc, File.tryToSetStateSegmentStateToDownload, hs, hfree]

private theorem refused (peer : W → PeerInfo) {k : UInt32} {rest : List UInt32}
    (hpc : d.pc w = .requesting k rest) :
    ∃ d', step peer d (.reply w k { fileCode := .error }) = some d' ∧
      d'.pc w = .releasing k rest := by
  refine ⟨d.goto w (.releasing k rest), ?_, pc_goto_self _ _ _⟩
  show d.reply w k { fileCode := .error } = some _
  simp [reply, hpc]

/-- A worker gives a fragment of the file back. -/
theorem released (peer : W → PeerInfo) {k : UInt32} {rest : List UInt32}
    (hpc : d.pc w = .releasing k rest) (hk : d.file.InRange (idOf k)) :
    ∃ d', step peer d (.release w k) = some d' ∧ d'.pc w = .scanning rest := by
  obtain ⟨s, hs⟩ := Option.isSome_iff_exists.mp (File.isSome_segmentAt.mpr hk)
  refine ⟨({ d with file := d.file.setState (idOf k).toNat .free }).goto w (.scanning rest), ?_,
    pc_goto_self _ _ _⟩
  show d.release w k = some _
  simp [release, hpc, File.setSegmentState, hs]

/-- A worker can get past a fragment of the file: it claims it, gets an error and gives it
back, or somebody else has it. -/
private theorem pass_fragment (peer : W → PeerInfo) {k : UInt32} {rest : List UInt32}
    (hpc : d.pc w = .scanning (k :: rest)) (hk : d.file.InRange (idOf k)) :
    ∃ es d', Run (step peer) Any d es d' ∧ d'.pc w = .scanning rest := by
  rcases claim_or_skip peer hpc hk with ⟨d₁, hclaim, hpc₁⟩ | ⟨d₁, hskip, hpc₁⟩
  · obtain ⟨d₂, hreply, hpc₂⟩ := refused peer hpc₁
    have hrun : Run (step peer) Any d _ d₂ := (Run.single trivial hclaim).snoc trivial hreply
    obtain ⟨d₃, hrelease, hpc₃⟩ := released peer hpc₂ ((inRange_run hrun).mpr hk)
    exact ⟨_, d₃, hrun.snoc trivial hrelease, hpc₃⟩
  · exact ⟨_, d₁, Run.single trivial hskip, hpc₁⟩

private theorem forall_of_staysInRange {fragments : List UInt32}
    (hpc : d.pc w = .scanning fragments) (h : StaysInRange peer d w) :
    ∀ k ∈ fragments, d.file.InRange (idOf k) := by
  induction fragments generalizing d with
  | nil => simp
  | cons k rest ih =>
    have hk : d.file.InRange (idOf k) := h [] d .nil (idOf k) (by rw [hpc]; rfl)
    obtain ⟨es, d₁, hrun, hpc₁⟩ := pass_fragment peer hpc hk
    have hrest := ih hpc₁ fun es' d' hrun' ↦ h (es ++ es') d' (hrun.append hrun')
    intro k' hk'
    rcases List.mem_cons.mp hk' with rfl | hk'
    · exact hk
    · exact (inRange_run hrun).mp (hrest k' hk')

end Download

namespace ResponderThread

/-- A request is answered, and a number outside the file is not answered with `F_FINE`. -/
def Answers (files : List File) (cString : Int → Bytes) (request : FragmentRequest) : Prop :=
  ∃ fr, fragmentResponse files cString request = some fr ∧
    ((∀ s ∈ files, s.torrent.hashed = request.hashedTorrent → ¬ s.InRange (idOf request.fragNum)) →
      fr.fileCode ≠ .fine)

variable {files : List File} (cString : Int → Bytes) {request : FragmentRequest}

/-- One file of the loop is passed exactly when the number is inside it, or it is another
torrent's file. -/
private theorem isSome_offerFragment (fr : FragmentResponse) (s : File) :
    (offerFragment cString request fr s).isSome = true ↔
      (s.torrent.hashed = request.hashedTorrent → s.InRange (idOf request.fragNum)) := by
  unfold offerFragment
  by_cases hhash : s.torrent.hashed = request.hashedTorrent
  · rw [if_pos hhash, ← File.isSome_segmentAt]
    cases hat : s.segmentAt (idOf request.fragNum) with
    | none => simp [File.getSegmentState, hat, hhash]
    | some segment =>
      by_cases hcomplete : segment.state = .complete <;>
        simp [File.getSegmentState, File.getSegment, hat, hcomplete]
  · simp [hhash]

private theorem isSome_fragmentResponse (fr : FragmentResponse) :
    (files.foldlM (offerFragment cString request) fr).isSome = true ↔
      ∀ s ∈ files, s.torrent.hashed = request.hashedTorrent → s.InRange (idOf request.fragNum) := by
  induction files generalizing fr with
  | nil => simp
  | cons s files ih =>
    rw [List.foldlM_cons, List.forall_mem_cons, ← isSome_offerFragment cString fr s]
    cases hstep : offerFragment cString request fr s with
    | none => simp
    | some fr' => simp [ih]

/-- Files of other torrents leave the reply as it was. -/
private theorem fragmentResponse_of_other (fr : FragmentResponse)
    (h : ∀ s ∈ files, s.torrent.hashed ≠ request.hashedTorrent) :
    files.foldlM (offerFragment cString request) fr = some fr := by
  apply foldlM_fixed
  intro s hs
  exact if_neg (h s hs)

/-- A request is answered as it should be exactly when its number is inside every file of the
torrent. -/
private theorem answers_iff :
    Answers files cString request ↔ ∀ s ∈ files, s.torrent.hashed = request.hashedTorrent →
      s.InRange (idOf request.fragNum) := by
  constructor
  · rintro ⟨fr, hfr, -⟩
    rw [← isSome_fragmentResponse cString { fileCode := .noFile }]
    exact Option.isSome_iff_exists.mpr ⟨fr, hfr⟩
  · intro hall
    obtain ⟨fr, hfr⟩ := Option.isSome_iff_exists.mp
      ((isSome_fragmentResponse cString { fileCode := .noFile }).mpr hall)
    refine ⟨fr, hfr, fun hout ↦ ?_⟩
    have hother := fragmentResponse_of_other cString { fileCode := .noFile }
      fun s hs hhash ↦ hout s hs hhash (hall s hs hhash)
    obtain rfl := Option.some_inj.mp (hother.symm.trans hfr)
    decide

/-- The files of `respond` (`ResponderThread.cpp:39–41`): one file with a torrent of hash 1337,
size 10 and name `./path`. -/
def testdb : Database :=
  ({ files := [] } : Database).addFile
    (.ofTorrent { hashed := 1337, size := 10, fileName := [46, 47, 112, 97, 116, 104] }
      [46, 47, 112, 97, 116, 104])

end ResponderThread

namespace Download

variable {W : Type} [DecidableEq W] {peer : W → PeerInfo} {d d' : Download W} {w : W}
  {response : ListResponse}

/-- For every list of a peer and every request of a peer, all accesses to the segments are
inside the vector exactly when all the ids are: the list's ids inside the file, and the
request's number inside every file of its torrent. -/
theorem remote_indices_iff (h : step peer d (.list w response) = some d') (files : List File)
    (cString : Int → Bytes) (request : FragmentRequest) :
    (StaysInRange peer d' w ↔ ∀ k ∈ response.fragments, d.file.InRange (idOf k)) ∧
      (ResponderThread.Answers files cString request ↔
        ∀ s ∈ files, s.torrent.hashed = request.hashedTorrent →
          s.InRange (idOf request.fragNum)) := by
  obtain ⟨-, rfl⟩ := list_spec h
  refine ⟨⟨?_, ?_⟩, ResponderThread.answers_iff cString⟩
  · exact forall_of_staysInRange (pc_goto_self _ _ _)
  · exact staysInRange_of_forall (pc_goto_self _ _ _)

/-! ### Ids behind the end of the file -/

/-- A connected worker for the one-byte file, which has one segment. -/
def byteListing : Download Bool :=
  { file := .ofTorrent byteTorrent [], host := emptyHost, pc := fun _ ↦ .listing }

/-- The list `[1]` of a peer, and a request for fragment `0` of the torrent with hash `0`. -/
theorem remote_indices_iff_byte :
    ∃ d', step somePeer byteListing (.list true (listOf [1])) = some d' ∧
      (StaysInRange somePeer d' true ↔
        ∀ k ∈ (listOf [1]).fragments, byteListing.file.InRange (idOf k)) ∧
      (ResponderThread.Answers ResponderThread.testdb.files (fun _ ↦ []) {} ↔
        ∀ s ∈ ResponderThread.testdb.files,
          s.torrent.hashed = ({} : FragmentRequest).hashedTorrent →
            s.InRange (idOf ({} : FragmentRequest).fragNum)) :=
  ⟨_, rfl, remote_indices_iff (d := byteListing) rfl _ _ _⟩

/-- The worker leaves the vector with its next call, and the responder has no answer: its file
is a copy, with hash `0` and without segments. -/
theorem not_remote_indices_byte :
    (∃ d', step somePeer byteListing (.list true (listOf [1])) = some d' ∧
      ¬ StaysInRange somePeer d' true) ∧
      ¬ ResponderThread.Answers ResponderThread.testdb.files (fun _ ↦ []) {} := by
  refine ⟨⟨_, rfl, ?_⟩, ?_⟩
  · intro h
    have hindex := h [] _ .nil (idOf 1) rfl
    exact absurd hindex (by decide)
  · rintro ⟨fr, hfr, -⟩
    have hnone : ResponderThread.fragmentResponse ResponderThread.testdb.files (fun _ ↦ []) {} =
        none := by decide
    rw [hnone] at hfr
    cases hfr

end Download

end P2PNetwork.Client
