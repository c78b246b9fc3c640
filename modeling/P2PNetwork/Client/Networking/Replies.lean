import P2PNetwork.Client.File.Reassembly
import P2PNetwork.Client.Networking.ResponderThread
import P2PNetwork.Lib.CString
import P2PNetwork.Lib.KeyedList

/-!
# What a responder tells about its segments

The replies of `ResponderThread::respond` (`src/client/networking/ResponderThread.cpp:47–80`)
against the segments of the files it goes through. The list of fragments is built by position
in a field that has no element yet, and the payload ends where a string would.
-/

open Lib

namespace P2PNetwork.Client

namespace ResponderThread

variable {files : List File} {cString : Int → Bytes}

/-- A request for a list is answered with the list. -/
theorem respond_list {msg : TcpMessage} (hcode : msg.code = .ccListRequest) :
    respond files cString msg = (listResponse files msg.listRequest).map fun lr ↦
      some { code := .ccListResponse, contents := .listResponse lr } := by
  rw [respond, hcode]
  cases listResponse files msg.listRequest <;> rfl

/-- A request for a fragment is answered with the fragment. -/
theorem respond_fragment {msg : TcpMessage} (hcode : msg.code = .ccFragmentRequest) :
    respond files cString msg = (fragmentResponse files cString msg.fragmentRequest).map fun fr ↦
      some { code := .ccFragmentResponse, contents := .fragmentResponse fr } := by
  rw [respond, hcode]
  cases fragmentResponse files cString msg.fragmentRequest <;> rfl

/-! ### The list of fragments -/

/-- The reply names the COMPLETE segments of the file with the requested hash, in increasing
order. -/
structure ExactList (files : List File) (request : ListRequest) (lr : ListResponse) : Prop where
  hashed : lr.hashedTorrent = request.hashedTorrent
  increasing : lr.fragments.Pairwise (· < ·)
  complete : ∀ k : UInt32, k ∈ lr.fragments ↔ ∃ f ∈ files,
    f.torrent.hashed = request.hashedTorrent ∧
      ∃ s ∈ f.segments, s.state = .complete ∧ s.id = k.toNat

/-- No segment of a file with the requested hash is COMPLETE. -/
def NothingComplete (files : List File) (request : ListRequest) : Prop :=
  ∀ f ∈ files, f.torrent.hashed = request.hashedTorrent → ∀ s ∈ f.segments, s.state ≠ .complete

instance (files : List File) (request : ListRequest) :
    Decidable (NothingComplete files request) :=
  inferInstanceAs (Decidable (∀ f ∈ files, _))

/-- The first COMPLETE segment of a file is written to a position that does not exist. -/
theorem listSegments_of_empty {f : File} (hcount : f.Counted) :
    listSegments f ([], 0) =
      if ∀ s ∈ f.segments, s.state ≠ .complete then some ([], 0) else none := by
  unfold listSegments
  unfold File.Counted at hcount
  rw [hcount, foldlM_stays (p := fun i ↦ f.stateOf i ≠ some .complete)]
  · congr 1
    rw [eq_iff_iff]
    constructor
    · intro h s hs hcomplete
      obtain ⟨i, hi, rfl⟩ := List.getElem_of_mem hs
      exact h i (List.mem_range.mpr hi) (by simp [File.stateOf, hi, hcomplete])
    · intro h i hi hcomplete
      obtain ⟨s, hs, hstate⟩ := Option.map_eq_some_iff.mp hcomplete
      exact h s (List.mem_of_getElem? hs) hstate
  · intro i hi
    obtain ⟨st, hst⟩ := File.exists_stateOf (List.mem_range.mp hi)
    have hget : f.getSegmentState i = some st := by
      rw [File.getSegmentState, File.segmentAt_natCast]
      exact hst
    by_cases hcomplete : st = .complete
    · simp [hget, hst, hcomplete, setFragments]
    · simp [hget, hst, hcomplete]

/-- The loop over the files gets to its end exactly when it has nothing to write. -/
theorem listResponse_eq {request : ListRequest}
    (hcount : ∀ f ∈ files, f.Counted) :
    listResponse files request =
      if NothingComplete files request then
        some { hashedTorrent := request.hashedTorrent, fileCode := .fragComplete }
      else none := by
  unfold listResponse
  rw [foldlM_stays (p := fun f : File ↦ f.torrent.hashed = request.hashedTorrent →
    ∀ s ∈ f.segments, s.state ≠ .complete)]
  · by_cases hnone : NothingComplete files request
    · rw [if_pos hnone, if_pos (fun f hf ↦ hnone f hf)]
      rfl
    · rw [if_neg hnone, if_neg (fun h ↦ hnone fun f hf ↦ h f hf)]
      rfl
  · intro f hf
    by_cases hhash : request.hashedTorrent = f.torrent.hashed
    · rw [if_pos hhash, listSegments_of_empty (hcount f hf)]
      simp [hhash]
    · rw [if_neg hhash, if_pos fun heq ↦ absurd heq.symm hhash]

/-- A request for a list is answered, and exactly, if and only if there is nothing to list. -/
theorem exactList_iff {msg : TcpMessage} (hcode : msg.code = .ccListRequest)
    (hcount : ∀ f ∈ files, f.Counted) :
    (∃ lr, respond files cString msg =
        some (some { code := .ccListResponse, contents := .listResponse lr }) ∧
      ExactList files msg.listRequest lr) ↔ NothingComplete files msg.listRequest := by
  rw [respond_list hcode, listResponse_eq hcount]
  constructor
  · rintro ⟨lr, hlr, -⟩
    by_contra hsome
    rw [if_neg hsome] at hlr
    cases hlr
  · intro hnone
    rw [if_pos hnone]
    refine ⟨_, rfl, rfl, List.Pairwise.nil, ?_⟩
    intro k
    constructor
    · intro hk
      cases hk
    · rintro ⟨f, hf, hhash, s, hs, hstate, -⟩
      exact absurd hstate (hnone f hf hhash s hs)

/-! ### A file that is complete -/

/-- The file of one byte with its segment COMPLETE. -/
def completeFile : File := (File.ofTorrent byteTorrent []).setState 0 .complete

/-- It was built from its torrent. -/
theorem built_completeFile : completeFile.Built :=
  (File.built_ofTorrent byteTorrent []).setState 0 .complete

/-- A request for the list of fragments of its torrent. -/
def requestForList : TcpMessage := { code := .ccListRequest, contents := .listRequest {} }

/-- What is said about the reply to this request. -/
theorem exactList_iff_complete :
    (∃ lr, respond [completeFile] (fun _ ↦ []) requestForList =
        some (some { code := .ccListResponse, contents := .listResponse lr }) ∧
      ExactList [completeFile] requestForList.listRequest lr) ↔
      NothingComplete [completeFile] requestForList.listRequest :=
  exactList_iff rfl (List.forall_mem_singleton.mpr built_completeFile.counted)

/-- The only id is written out of range. -/
theorem not_exactList_complete :
    respond [completeFile] (fun _ ↦ []) requestForList = none ∧
      ¬ ∃ lr, respond [completeFile] (fun _ ↦ []) requestForList =
          some (some { code := .ccListResponse, contents := .listResponse lr }) ∧
        ExactList [completeFile] requestForList.listRequest lr := by
  have hnone : respond [completeFile] (fun _ ↦ []) requestForList = none := by decide
  refine ⟨hnone, ?_⟩
  rintro ⟨lr, hlr, -⟩
  rw [hnone] at hlr
  cases hlr

/-! ### The fragment -/

/-- The bytes of segment `k` of a file: those its address points to. -/
def segmentBytes (memory : Int → UInt8) (f : File) (k : UInt32) (s : Segment) : Bytes :=
  blockAt memory s.data (segmentLength f.size.toNat k.toNat)

/-- The reply has `F_FINE` for a COMPLETE segment, with the bytes of the segment, and else no
payload. -/
structure ExactReply (files : List File) (memory : Int → UInt8) (request : FragmentRequest)
    (fr : FragmentResponse) : Prop where
  fine : fr.fileCode = .fine ↔ ∃ f ∈ files, f.torrent.hashed = request.hashedTorrent ∧
    ∃ s, f.getSegment (idOf request.fragNum) = some s ∧ s.state = .complete
  payload : ∀ f ∈ files, f.torrent.hashed = request.hashedTorrent →
    ∀ s, f.getSegment (idOf request.fragNum) = some s → s.state = .complete →
      fr.hashedTorrent = request.hashedTorrent ∧ fr.fragNum = request.fragNum ∧
        fr.fragment = segmentBytes memory f request.fragNum s
  empty : fr.fileCode ≠ .fine → fr.fragment = []

/-- If the requested segment is COMPLETE, it has no zero byte, and memory has one behind it. -/
def EndsWithZero (files : List File) (memory : Int → UInt8) (request : FragmentRequest) : Prop :=
  ∀ f ∈ files, f.torrent.hashed = request.hashedTorrent →
    ∀ s, f.getSegment (idOf request.fragNum) = some s → s.state = .complete →
      0 ∉ segmentBytes memory f request.fragNum s ∧
        memory (s.data + segmentLength f.size.toNat request.fragNum.toNat) = 0

/-- The reply that carries a fragment. -/
def fineReply (cString : Int → Bytes) (request : FragmentRequest) (s : Segment) :
    FragmentResponse where
  fileCode := .fine
  fragNum := request.fragNum
  hashedTorrent := request.hashedTorrent
  fragment := cString s.data

/-- A file with the requested hash decides about the reply by the state of the segment. -/
theorem offerFragment_eq {request : FragmentRequest} {fr : FragmentResponse} {f : File}
    {s : Segment} (hhash : f.torrent.hashed = request.hashedTorrent)
    (hs : f.getSegment (idOf request.fragNum) = some s) :
    offerFragment cString request fr f =
      some (if s.state = .complete then fineReply cString request s else fr) := by
  have hat : f.segmentAt (idOf request.fragNum) = some s := hs
  rw [offerFragment, if_pos hhash, File.getSegmentState, File.getSegment, hat]
  by_cases hcomplete : s.state = .complete
  · simp [hcomplete, fineReply]
  · simp [hcomplete]

/-- With different hashes at most one file decides about the reply. -/
theorem fragmentResponse_eq {request : FragmentRequest}
    (hdistinct : Distinct (fun f : File ↦ f.torrent.hashed) files) :
    fragmentResponse files cString request =
      (lookup (fun f : File ↦ f.torrent.hashed) files request.hashedTorrent).elim
        (some { fileCode := .noFile }) (offerFragment cString request { fileCode := .noFile }) := by
  apply foldlM_of_distinct hdistinct
  intro fr f hne
  exact if_neg hne

/-- What is said about the COMPLETE segment that is requested holds of all requested ones. -/
private theorem forall_requested {request : FragmentRequest} {f : File} {s : Segment}
    (hdistinct : Distinct (fun f : File ↦ f.torrent.hashed) files)
    (hf : lookup (fun f : File ↦ f.torrent.hashed) files request.hashedTorrent = some f)
    (hs : f.getSegment (idOf request.fragNum) = some s) {P : File → Segment → Prop} :
    (∀ g ∈ files, g.torrent.hashed = request.hashedTorrent →
      ∀ r, g.getSegment (idOf request.fragNum) = some r → r.state = .complete → P g r) ↔
      (s.state = .complete → P f s) := by
  obtain ⟨hmem, hhash⟩ := key_lookup hf
  constructor
  · intro h
    exact h f hmem hhash s hs
  · intro h g hg hghash r hr
    have hlookup := (mem_iff_lookup hdistinct).mp hg
    rw [hghash, hf, Option.some_inj] at hlookup
    subst hlookup
    rw [hs, Option.some_inj] at hr
    subst hr
    exact h

/-- The reply about the segment that is found is exact exactly if its payload is. -/
private theorem exactReply_found {memory : Int → UInt8} {request : FragmentRequest} {f : File}
    {s : Segment} (hdistinct : Distinct (fun f : File ↦ f.torrent.hashed) files)
    (hf : lookup (fun f : File ↦ f.torrent.hashed) files request.hashedTorrent = some f)
    (hs : f.getSegment (idOf request.fragNum) = some s) :
    ExactReply files memory request
        (if s.state = .complete then fineReply cString request s else { fileCode := .noFile }) ↔
      (s.state = .complete → cString s.data = segmentBytes memory f request.fragNum s) := by
  obtain ⟨hmem, hhash⟩ := key_lookup hf
  by_cases hcomplete : s.state = .complete
  · rw [if_pos hcomplete]
    constructor
    · intro h _
      exact (h.payload f hmem hhash s hs hcomplete).2.2
    · intro h
      refine ⟨⟨fun _ ↦ ⟨f, hmem, hhash, s, hs, hcomplete⟩, fun _ ↦ rfl⟩, ?_, ?_⟩
      · rw [forall_requested hdistinct hf hs]
        intro _
        exact ⟨rfl, rfl, h hcomplete⟩
      · intro hnot
        exact absurd rfl hnot
  · rw [if_neg hcomplete]
    have hnone : ∀ g ∈ files, g.torrent.hashed = request.hashedTorrent →
        ∀ r, g.getSegment (idOf request.fragNum) = some r → r.state = .complete → False :=
      (forall_requested hdistinct hf hs).mpr hcomplete
    constructor
    · intro _ h
      exact absurd h hcomplete
    · intro _
      refine ⟨?_, ?_, fun _ ↦ rfl⟩
      · constructor
        · intro hfine
          cases hfine
        · rintro ⟨g, hg, hghash, r, hr, hstate⟩
          exact (hnone g hg hghash r hr hstate).elim
      · intro g hg hghash r hr hstate
        exact (hnone g hg hghash r hr hstate).elim

/-- The reply to a request inside the file is exact if and only if the segment, where it is
COMPLETE, ends with the first zero byte behind it. -/
theorem exactReply_iff {memory : Int → UInt8} {msg : TcpMessage}
    (hcode : msg.code = .ccFragmentRequest)
    (hdistinct : Distinct (fun f : File ↦ f.torrent.hashed) files)
    (hinside : ∀ f ∈ files, f.torrent.hashed = msg.fragmentRequest.hashedTorrent →
      f.InRange (idOf msg.fragmentRequest.fragNum))
    (hstring : ∀ f ∈ files, f.torrent.hashed = msg.fragmentRequest.hashedTorrent →
      ∀ s, f.getSegment (idOf msg.fragmentRequest.fragNum) = some s → s.state = .complete →
        IsCString 0 memory s.data (cString s.data)) :
    ∃ fr, respond files cString msg =
        some (some { code := .ccFragmentResponse, contents := .fragmentResponse fr }) ∧
      (ExactReply files memory msg.fragmentRequest fr ↔
        EndsWithZero files memory msg.fragmentRequest) := by
  rw [respond_fragment hcode, fragmentResponse_eq hdistinct]
  generalize msg.fragmentRequest = request at hinside hstring
  cases hf : lookup (fun f : File ↦ f.torrent.hashed) files request.hashedTorrent with
  | none =>
    have hother := lookup_eq_none_iff.mp hf
    refine ⟨_, rfl, ?_, ?_⟩
    · intro _ f hmem hhash
      exact absurd hhash (hother f hmem)
    · intro _
      refine ⟨?_, fun f hmem hhash ↦ absurd hhash (hother f hmem), fun _ ↦ rfl⟩
      constructor
      · intro hfine
        cases hfine
      · rintro ⟨f, hmem, hhash, -⟩
        exact absurd hhash (hother f hmem)
  | some f =>
    obtain ⟨hmem, hhash⟩ := key_lookup hf
    obtain ⟨s, hs⟩ := Option.isSome_iff_exists.mp (File.isSome_segmentAt.mpr (hinside f hmem hhash))
    refine ⟨_, by rw [Option.elim_some, offerFragment_eq hhash hs, Option.map_some], ?_⟩
    rw [exactReply_found hdistinct hf hs, EndsWithZero, forall_requested hdistinct hf hs]
    apply imp_congr_right
    intro hcomplete
    exact (hstring f hmem hhash s hs hcomplete).eq_blockAt_iff _

/-! ### A byte that is zero -/

/-- A request for the fragment of the complete file. -/
def requestForByte : TcpMessage := { code := .ccFragmentRequest, contents := .fragmentRequest {} }

/-- The complete file in a memory of zeros. -/
theorem exactReply_iff_zero :
    ∃ fr, respond [completeFile] (fun _ ↦ []) requestForByte =
        some (some { code := .ccFragmentResponse, contents := .fragmentResponse fr }) ∧
      (ExactReply [completeFile] (fun _ ↦ 0) requestForByte.fragmentRequest fr ↔
        EndsWithZero [completeFile] (fun _ ↦ 0) requestForByte.fragmentRequest) :=
  exactReply_iff rfl (List.nodup_singleton _) (by decide) fun _ _ _ _ _ _ ↦ ⟨rfl, by simp, rfl⟩

/-- The reply without a payload. -/
def emptyReply : FragmentResponse := { fileCode := .fine, fragment := [] }

/-- The byte of the file is not sent. -/
theorem not_exactReply_zero :
    IsCString 0 (fun _ ↦ (0 : UInt8)) 0 [] ∧
      respond [completeFile] (fun _ ↦ []) requestForByte =
        some (some { code := .ccFragmentResponse, contents := .fragmentResponse emptyReply }) ∧
      ¬ ExactReply [completeFile] (fun _ ↦ 0) requestForByte.fragmentRequest emptyReply := by
  refine ⟨⟨rfl, by simp, rfl⟩, by decide, ?_⟩
  intro h
  have hpayload := (h.payload completeFile List.mem_cons_self rfl ⟨0, 0, .complete⟩ (by decide)
    rfl).2.2
  exact absurd hpayload (by decide)

end ResponderThread

end P2PNetwork.Client
