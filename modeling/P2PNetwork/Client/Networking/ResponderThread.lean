import P2PNetwork.Client.File.File
import P2PNetwork.Shared.ReceiveLoop
import Mathlib.Data.Option.Basic

/-!
# Answering other clients

`ResponderThread::respond` (`src/client/networking/ResponderThread.cpp:32–82`). The files
are those its database returns, and `cString` is the memory a segment's address points
to, up to the first zero byte.
-/

open Lib

namespace P2PNetwork.Client

namespace ResponderThread

/-- `set_fragments(index, value)` of a repeated field: it overwrites an element that exists. -/
def setFragments (fragments : List UInt32) (index : Nat) (value : UInt32) : Option (List UInt32) :=
  if index < fragments.length then some (fragments.set index value) else none

/-- The loop over the segments of one file (`ResponderThread.cpp:53–57`). -/
def listSegments (s : File) (acc : List UInt32 × Nat) : Option (List UInt32 × Nat) :=
  (List.range s.numOfSegments.toNat).foldlM (fun acc (i : Nat) ↦ do
    let state ← s.getSegmentState i
    if state = .complete then
      let fragments ← setFragments acc.1 acc.2 (UInt32.ofNat i)
      some (fragments, acc.2 + 1)
    else some acc) acc

/-- The reply to `CC_LIST_REQUEST` (`ResponderThread.cpp:47–63`). -/
def listResponse (files : List File) (request : ListRequest) : Option ListResponse := do
  let acc ← files.foldlM (fun acc s ↦
    if request.hashedTorrent = s.torrent.hashed then listSegments s acc else some acc) ([], 0)
  some { hashedTorrent := request.hashedTorrent, fileCode := .fragComplete, fragments := acc.1 }

/-- One file in the loop of `CC_FRAGMENT_REQUEST` (`ResponderThread.cpp:69–77`). -/
def offerFragment (cString : Int → Bytes) (request : FragmentRequest) (fr : FragmentResponse)
    (s : File) : Option FragmentResponse :=
  if s.torrent.hashed = request.hashedTorrent then do
    let state ← s.getSegmentState (idOf request.fragNum)
    if state = .complete then
      let segment ← s.getSegment (idOf request.fragNum)
      some { fileCode := .fine, fragNum := request.fragNum, hashedTorrent := request.hashedTorrent,
             fragment := cString segment.data }
    else some fr
  else some fr

/-- The reply to `CC_FRAGMENT_REQUEST` (`ResponderThread.cpp:64–80`). -/
def fragmentResponse (files : List File) (cString : Int → Bytes) (request : FragmentRequest) :
    Option FragmentResponse :=
  files.foldlM (offerFragment cString request) { fileCode := .noFile }

/-- `respond` (`ResponderThread.cpp:32–82`): the message sent where there is one; no result
for an access outside a vector or a repeated field. -/
def respond (files : List File) (cString : Int → Bytes) (msg : TcpMessage) :
    Option (Option TcpMessage) :=
  match msg.code with
  | .ok => some (some { code := .ok })
  | .ccListRequest => do
    let lr ← listResponse files msg.listRequest
    some (some { code := .ccListResponse, contents := .listResponse lr })
  | .ccFragmentRequest => do
    let fr ← fragmentResponse files cString msg.fragmentRequest
    some (some { code := .ccFragmentResponse, contents := .fragmentResponse fr })
  | _ => some none

/-- `respond` on the files and the memory that the threads share. -/
def respondShared (shared : List File × (Int → Bytes)) (msg : TcpMessage) :
    Option ((List File × (Int → Bytes)) × Option TcpMessage) :=
  (respond shared.1 shared.2 msg).map fun reply ↦ (shared, reply)

/-- The loop of `run` (`ResponderThread.cpp:14–26`). -/
def run (pb : Protobuf) : Serving (List File × (Int → Bytes)) →
    Serving.Event (List File × (Int → Bytes)) → Option (Serving (List File × (Int → Bytes))) :=
  Serving.step pb respondShared

/-- What a responder says about a fragment: it delivers the requested one, or it has none. -/
def Truthful (request : FragmentRequest) (fr : FragmentResponse) : Prop :=
  (fr.fileCode = .fine ∧ fr.hashedTorrent = request.hashedTorrent ∧ fr.fragNum = request.fragNum) ∨
    fr = { fileCode := .noFile }

private theorem truthful_offer {cString : Int → Bytes} {request : FragmentRequest}
    {fr fr' : FragmentResponse} {s : File} (hfr : Truthful request fr)
    (h : offerFragment cString request fr s = some fr') : Truthful request fr' := by
  unfold offerFragment at h
  split at h
  · rw [Option.bind_eq_bind, Option.bind_eq_some_iff] at h
    obtain ⟨state, -, hstate⟩ := h
    split at hstate
    · rw [Option.bind_eq_bind, Option.bind_eq_some_iff] at hstate
      obtain ⟨segment, -, hsegment⟩ := hstate
      cases hsegment
      exact .inl ⟨rfl, rfl, rfl⟩
    · cases hstate
      exact hfr
  · cases h
    exact hfr

/-- A responder either delivers the requested fragment of the requested torrent, or says
`F_NO_FILE` and sends nothing. -/
theorem truthful_fragmentResponse {files : List File} {cString : Int → Bytes}
    {request : FragmentRequest} {fr : FragmentResponse}
    (h : fragmentResponse files cString request = some fr) : Truthful request fr :=
  (Run.of_foldlM h Meets.any).invariant (.inr rfl) fun _ _ _ hfr _ hs ↦ truthful_offer hfr hs

end ResponderThread

end P2PNetwork.Client
