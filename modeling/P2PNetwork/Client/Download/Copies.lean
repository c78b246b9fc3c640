import P2PNetwork.Client.Download.Termination
import P2PNetwork.Conversation

/-!
# Downloads from other copies of this program

The workers of a file on the one side, and `ResponderThread::respond` on the other
(`src/client/download/DownloadWorker.cpp:17–51`, `src/client/networking/ResponderThread.cpp:32–82`).
A responder sends no list but the empty one, so the workers have nothing to ask for.
-/

open Lib

namespace P2PNetwork.Client

/-- The list of a peer is what `requestFragmentsList` makes of the reply of a responder to some
message, or of none. -/
def FromResponder {W : Type} : Event W → Prop
  | .list _ response => ∃ torrent reply,
      (Request.requestFragmentsList torrent).answer reply = some response ∧
        ∀ m, reply = some m → ∃ files cString msg, (∀ f ∈ files, f.Counted) ∧
          ResponderThread.respond files cString msg = some (some m)
  | _ => True

/-- A responder that lists fragments lists none. -/
theorem ResponderThread.listResponse_of_respond {files : List File} {cString : Int → Bytes}
    {msg m : TcpMessage} (hcount : ∀ f ∈ files, f.Counted)
    (h : respond files cString msg = some (some m)) (hcode : m.code = .ccListResponse) :
    m.listResponse.fragments = [] := by
  cases hmsg : msg.code with
  | ok =>
    rw [respond, hmsg] at h
    cases h
    cases hcode
  | ccListRequest =>
    rw [respond_list hmsg, listResponse_eq hcount] at h
    split at h
    · cases h
      rfl
    · cases h
  | ccFragmentRequest =>
    rw [respond_fragment hmsg] at h
    obtain ⟨fr, -, hm⟩ := Option.map_eq_some_iff.mp h
    cases hm
    cases hcode
  | _ =>
    rw [respond, hmsg] at h
    cases h

/-- So the list that a worker gets is empty. -/
theorem FromResponder.fragments {W : Type} {w : W} {response : ListResponse}
    (h : FromResponder (.list w response)) : response.fragments = [] := by
  obtain ⟨torrent, reply, hanswer, hreply⟩ := h
  cases reply with
  | none =>
    cases hanswer
    rfl
  | some m =>
    obtain ⟨files, cString, msg, hcount, hrespond⟩ := hreply m rfl
    by_cases hcode : m.code = .ccListResponse
    · simp only [Request.answer, Request.result, hcode, ↓reduceIte, Option.some_inj] at hanswer
      rw [← hanswer]
      exact ResponderThread.listResponse_of_respond hcount hrespond hcode
    · simp only [Request.answer, Request.result, hcode, ↓reduceIte, Option.some_inj] at hanswer
      rw [← hanswer]

namespace Download

variable {W : Type} [DecidableEq W] {peer : W → PeerInfo} {d d' : Download W} {e : Event W}
  {es : List (Event W)} {file : File} {host : Host}

omit [DecidableEq W] in
/-- A worker that deals with no fragment sets no state, and stores nothing. -/
private theorem nothing_set {w : W} {p p' : Pc} (h : Goes peer w p e p') (hp : p.pending = []) :
    e.sets = none ∧ ∀ v k io, e ≠ .store v k io := by
  cases h with
  | claim => cases hp
  | skip => cases hp
  | error => cases hp
  | accept => cases hp
  | release => cases hp
  | store => cases hp
  | complete => cases hp
  | connect => exact ⟨rfl, nofun⟩
  | refused => exact ⟨rfl, nofun⟩
  | list => exact ⟨rfl, nofun⟩
  | finish => exact ⟨rfl, nofun⟩

/-- What the workers leave as it was: the segments, the machine and what `isComplete` answers. No
worker deals with a fragment. -/
structure Untouched (file : File) (host : Host) (d : Download W) : Prop where
  segments : d.file.segments = file.segments
  complete : d.file.isComplete.1 = file.isComplete.1
  host : d.host = host
  pending : ∀ w, (d.pc w).pending = []

/-- The check of completeness keeps its answer. -/
private theorem isComplete_again (f : File) : f.isComplete.2.isComplete.1 = f.isComplete.1 := by
  obtain ⟨hflag, hiff⟩ := @File.isComplete_flag f
  obtain ⟨-, hiff'⟩ := @File.isComplete_flag f.isComplete.2
  have hall : f.isComplete.2.AllComplete ↔ f.AllComplete := by
    rw [File.isComplete_frame]
    rfl
  rw [Bool.eq_iff_iff, hiff', hall, ← hflag, hiff]
  constructor
  · rintro (h | h)
    · exact h
    · exact .inr h
  · exact .inl

theorem Untouched.kept (h : Untouched file host d) (hok : FromResponder e)
    (hstep : step peer d e = some d') : Untouched file host d' := by
  have heffect := step_effect hstep
  have hnothing : e.sets = none ∧ ∀ v k io, e ≠ .store v k io := by
    cases hw : e.worker with
    | none =>
      cases e with
      | checkComplete => exact ⟨rfl, nofun⟩
      | _ => cases hw
    | some w => exact nothing_set (heffect.moves w hw) (h.pending w)
  have hhost : d'.host = d.host := by
    rcases heffect.host with hsame | ⟨v, k, io, hstore⟩
    · exact hsame
    · exact absurd hstore (hnothing.2 v k io)
  have hfile : d'.file = d.file ∨ d'.file = d.file.isComplete.2 := by
    rcases heffect.file with ⟨k, st, hsets, -⟩ | ⟨-, hfile⟩
    · rw [hnothing.1] at hsets
      cases hsets
    · exact hfile
  refine ⟨?_, ?_, hhost.trans h.host, ?_⟩
  · rcases hfile with hfile | hfile
    · rw [hfile, h.segments]
    · rw [hfile, File.isComplete_frame]
      exact h.segments
  · rcases hfile with hfile | hfile
    · rw [hfile, h.complete]
    · rw [hfile, isComplete_again, h.complete]
  · intro w
    rw [List.eq_nil_iff_forall_not_mem]
    intro k hk
    by_cases hw : e.worker = some w
    · rcases pending_goes (heffect.moves w hw) hk with hold | ⟨response, rfl, hnew⟩
      · rw [h.pending w] at hold
        cases hold
      · rw [hok.fragments] at hnew
        cases hnew
    · rw [heffect.others w hw, h.pending w] at hk
      cases hk

/-- No worker is told of a fragment. -/
theorem listed_of_responder {ok : Download W → Event W → Prop}
    (hrun : Run (step peer) ok d es d') (hok : ∀ d e, ok d e → FromResponder e) (w : W) :
    listed w es = [] := by
  refine hrun.traceInvariant (P := fun es _ ↦ listed w es = []) rfl ?_
  intro es d e d' _ ih hevent _
  rw [listed_append, ih, List.nil_append]
  have hresponder := hok d e hevent
  cases e with
  | list v response =>
    have hempty : response.fragments = [] := hresponder.fragments
    simp [listed, hempty]
  | _ => rfl

/-- In every run of any number of workers whose peers run this program, whatever files they have,
the segments and the machine stay as they are, and so does the answer of `isComplete`. Each worker
makes at most three calls, and when no worker can call any more all of them have finished. -/
theorem nothing_downloaded (hrun : Run (step peer) (fun _ ↦ FromResponder) (start file host) es d) :
    d.file.segments = file.segments ∧ d.host = host ∧
      d.file.isComplete.1 = file.isComplete.1 ∧
      (∀ w, es.countP (fun e ↦ e.worker = some w) ≤ 3) ∧
      ((∀ w, ¬ CanCall peer d w) → ∀ w, d.pc w = .finished) := by
  have hstart : Untouched file host (start file host : Download W) := ⟨rfl, rfl, rfl, fun _ ↦ rfl⟩
  have h : Untouched file host d := hrun.invariant hstart fun _ _ _ h hok hstep ↦ h.kept hok hstep
  refine ⟨h.segments, h.host, h.complete, ?_, ?_⟩
  · intro w
    have hcalls := calls_run hrun w
    rw [listed_of_responder hrun (fun _ _ hok ↦ hok) w] at hcalls
    exact Nat.le_trans (Nat.le_add_right _ _) hcalls
  · intro hstuck w
    by_contra hw
    apply hstuck w
    apply canCall_of_pending _ _ hw
    · intro k hk
      rw [h.pending w] at hk
      cases hk
    · intro k payload rest hpc
      have hpending := h.pending w
      rw [hpc] at hpending
      cases hpending

/-- Two workers: a client that has nothing of the file replies to one, nobody to the other. -/
private def unlisted : List (Event Bool) :=
  [.connect false .open, .connect true .open, .list false { fileCode := .fragComplete },
    .list true { fileCode := .error }, .finish false, .checkComplete, .finish true]

private theorem fromResponder_unlisted : ∀ e ∈ unlisted, FromResponder e := by
  intro e he
  simp only [unlisted, List.mem_cons, List.not_mem_nil, or_false] at he
  rcases he with rfl | rfl | rfl | rfl | rfl | rfl | rfl
  · trivial
  · trivial
  · let reply : TcpMessage :=
      { code := .ccListResponse, contents := .listResponse { fileCode := .fragComplete } }
    refine ⟨byteTorrent, some reply, rfl, ?_⟩
    rintro _ ⟨⟩
    refine ⟨[.ofTorrent byteTorrent []], fun _ ↦ [], CSocket.listMessage byteTorrent, ?_, by decide⟩
    exact List.forall_mem_singleton.mpr (File.built_ofTorrent byteTorrent []).counted
  · exact ⟨byteTorrent, none, rfl, nofun⟩
  · trivial
  · trivial
  · trivial

theorem nothing_downloaded_unlisted :
    ∃ d : Download Bool, unlisted.foldlM (step somePeer)
        (start (.ofTorrent byteTorrent []) emptyHost) = some d ∧
      d.file.segments = (File.ofTorrent byteTorrent []).segments ∧ d.host = emptyHost ∧
      d.file.isComplete.1 = (File.ofTorrent byteTorrent []).isComplete.1 ∧
      (∀ w, unlisted.countP (fun e ↦ e.worker = some w) ≤ 3) ∧
      ((∀ w, ¬ CanCall somePeer d w) → ∀ w, d.pc w = .finished) := by
  have hsome : (unlisted.foldlM (step somePeer)
      (start (.ofTorrent byteTorrent []) emptyHost)).isSome = true := by
    decide
  obtain ⟨d, hd⟩ := Option.isSome_iff_exists.mp hsome
  exact ⟨d, hd, nothing_downloaded (Run.of_foldlM hd (Meets.of_forall fromResponder_unlisted))⟩

end Download

end P2PNetwork.Client
