import P2PNetwork.Client.Download.RemoteIndices
import P2PNetwork.Client.File.Release

/-!
# How a download ends

Every worker of `src/client/download/DownloadWorker.cpp:17–51` goes once through the list of its
peer, with four calls at most for each of its fragments. A worker that has not finished can go on as
long as nobody reads the file, so the workers of a file all finish, and nothing is left DOWNLOADING.
-/

open Lib

namespace P2PNetwork.Client

/-- The fragments that worker `w` has been told of. -/
def listed {W : Type} [DecidableEq W] (w : W) (es : List (Event W)) : List UInt32 :=
  es.flatMap fun e ↦ match e with
    | .list v response => if v = w then response.fragments else []
    | _ => []

/-- How many calls a worker makes from here on at most, unless it is given a list. -/
def Pc.callsLeft : Pc → Nat
  | .connecting => 3
  | .listing => 2
  | .scanning rest => 4 * rest.length + 1
  | .requesting _ rest => 4 * rest.length + 4
  | .releasing _ rest => 4 * rest.length + 2
  | .storing _ _ rest => 4 * rest.length + 3
  | .completing _ rest => 4 * rest.length + 2
  | .finished => 0

namespace Download

variable {W : Type} [DecidableEq W] {peer : W → PeerInfo} {d d' : Download W} {w : W}
  {e : Event W} {es : List (Event W)} {file : File} {host : Host}

/-- The next call of the worker returns. -/
def CanCall (peer : W → PeerInfo) (d : Download W) (w : W) : Prop :=
  ∃ e d', e.worker = some w ∧ step peer d e = some d'

/-- A list that names segments of the file only. -/
def ListsInRange (d : Download W) : Event W → Prop
  | .list _ response => ∀ k ∈ response.fragments, d.file.InRange (idOf k)
  | _ => True

instance (d : Download W) : (e : Event W) → Decidable (d.ListsInRange e)
  | .list _ response =>
    List.decidableBAll (fun k ↦ d.file.InRange (idOf k)) response.fragments
  | .connect .. | .claim .. | .skip .. | .reply .. | .release .. | .store .. | .complete ..
  | .finish .. | .checkComplete => isTrue trivial

/-! ### The number of calls -/

@[simp] theorem listed_append (w : W) (es es' : List (Event W)) :
    listed w (es ++ es') = listed w es ++ listed w es' :=
  List.flatMap_append

/-- A call uses up one of those that are left; a list adds four for each of its fragments. -/
theorem callsLeft_goes {p p' : Pc} (h : Goes peer w p e p') :
    p'.callsLeft + 1 ≤ p.callsLeft + 4 * (listed w [e]).length := by
  cases h with
  | list =>
    simp only [Pc.callsLeft, listed, List.flatMap_cons, List.flatMap_nil, List.append_nil,
      ↓reduceIte]
    omega
  | claim =>
    simp only [Pc.callsLeft, List.length_cons]
    omega
  | skip =>
    simp only [Pc.callsLeft, List.length_cons]
    omega
  | _ =>
    simp only [Pc.callsLeft, List.length_nil]
    omega

/-- Along a run a worker makes four calls for each fragment it is told of, and three more. -/
theorem calls_run {ok : Download W → Event W → Prop}
    (hrun : Run (step peer) ok (start file host) es d) (w : W) :
    es.countP (fun e ↦ e.worker = some w) + (d.pc w).callsLeft ≤
      3 + 4 * (listed w es).length := by
  refine hrun.traceInvariant (P := fun es d ↦ es.countP (fun e ↦ e.worker = some w) +
    (d.pc w).callsLeft ≤ 3 + 4 * (listed w es).length) ?_ ?_
  · exact Nat.le_refl 3
  · intro es d e d' _ ih _ hstep
    rw [listed_append, List.length_append, List.countP_append, List.countP_singleton]
    by_cases hw : e.worker = some w
    · have hcall := callsLeft_goes ((step_effect hstep).moves w hw)
      simp only [hw, decide_true, ↓reduceIte]
      omega
    · rw [(step_effect hstep).others w hw]
      simp only [hw, decide_false, Bool.false_eq_true, ↓reduceIte]
      omega

/-! ### The next call -/

omit [DecidableEq W] in
/-- A worker deals with the fragments it had left, or with those of its list. -/
theorem pending_goes {p p' : Pc} (h : Goes peer w p e p') {k : UInt32} (hk : k ∈ p'.pending) :
    k ∈ p.pending ∨ ∃ response, e = .list w response ∧ k ∈ response.fragments := by
  cases h with
  | list => exact .inr ⟨_, rfl, hk⟩
  | connect => cases hk
  | refused => cases hk
  | claim => exact .inl hk
  | skip => exact .inl (List.mem_cons_of_mem _ hk)
  | error => exact .inl hk
  | accept => exact .inl hk
  | release => exact .inl (List.mem_cons_of_mem _ hk)
  | store => exact .inl hk
  | complete => exact .inl (List.mem_cons_of_mem _ hk)
  | finish => cases hk

/-- No call of a worker changes who reads. -/
theorem readLocked_step (h : step peer d e = some d')
    (hunlocked : d.file.torrent.fileName ∉ d.host.readLockedNames) :
    d'.host.readLockedNames = d.host.readLockedNames := by
  rcases (step_effect h).host with hhost | ⟨w, k, io, rfl⟩
  · rw [hhost]
  · obtain ⟨payload, _, host, _, hstore, rfl⟩ := store_spec h
    have hfree : d.host.openedFile d.file.torrent.fileName = none := by
      rw [← Option.not_isSome_iff_eq_none, Host.isSome_openedFile]
      exact hunlocked
    obtain ⟨host', hperform, hread, -⟩ := @Host.perform_spec d.host io
      (.storeSegmentToFile _ d.file.path (idOf k) payload) hfree
    obtain rfl := Option.some_inj.mp (hstore.symm.trans hperform)
    show host.fm.readLockedFiles.map _ = d.host.fm.readLockedFiles.map _
    rw [hread]

/-- What a worker needs to go on: nobody reads the file, and the fragments it still deals with are
segments of the file. -/
structure Unhindered (d : Download W) : Prop where
  unlocked : d.file.torrent.fileName ∉ d.host.readLockedNames
  pending : ∀ w, ∀ k ∈ (d.pc w).pending, d.file.InRange (idOf k)

/-- Every call leaves the workers so. -/
theorem Unhindered.kept (hd : Unhindered d) (hok : ListsInRange d e)
    (h : step peer d e = some d') : Unhindered d' := by
  have hrange : ∀ i, d'.file.InRange i ↔ d.file.InRange i := fun i ↦
    inRange_run (Run.single trivial h)
  constructor
  · rw [(step_frame h).1, readLocked_step h hd.unlocked]
    exact hd.unlocked
  · intro w k hk
    rw [hrange]
    by_cases hw : e.worker = some w
    · rcases pending_goes ((step_effect h).moves w hw) hk with hold | ⟨response, rfl, hnew⟩
      · exact hd.pending w k hold
      · exact hok k hnew
    · rw [(step_effect h).others w hw] at hk
      exact hd.pending w k hk

/-- A worker that has not finished can make its next call, if this is inside the file and does not
wait for a reader. -/
theorem canCall_of_pending (hpending : ∀ k ∈ (d.pc w).pending, d.file.InRange (idOf k))
    (hunlocked : ∀ k payload rest, d.pc w = .storing k payload rest →
      d.file.torrent.fileName ∉ d.host.readLockedNames)
    (hw : d.pc w ≠ .finished) : CanCall peer d w := by
  cases hpc : d.pc w with
  | connecting =>
    cases hip : (peer w).peerIp.isEmpty with
    | true => exact ⟨.connect w .open, d.goto w .finished, rfl, by simp [step, connect, hpc, hip]⟩
    | false => exact ⟨.connect w .open, d.goto w .listing, rfl, by simp [step, connect, hpc, hip]⟩
  | listing => exact ⟨.list w {}, d.goto w (.scanning []), rfl, by simp [step, list, hpc]⟩
  | scanning rest =>
    cases rest with
    | nil => exact ⟨.finish w, d.goto w .finished, rfl, by simp [step, finish, hpc]⟩
    | cons k rest =>
      have hk : d.file.InRange (idOf k) := hpending k (by simp [hpc, Pc.pending])
      rcases claim_or_skip peer hpc hk with ⟨d', hclaim, -⟩ | ⟨d', hskip, -⟩
      · exact ⟨.claim w k, d', rfl, hclaim⟩
      · exact ⟨.skip w k, d', rfl, hskip⟩
  | requesting k rest =>
    exact ⟨.reply w k { fileCode := .error }, d.goto w (.releasing k rest), rfl,
      by simp [step, reply, hpc]⟩
  | releasing k rest =>
    have hk : d.file.InRange (idOf k) := hpending k (by simp [hpc, Pc.pending])
    obtain ⟨d', hrelease, -⟩ := released peer hpc hk
    exact ⟨.release w k, d', rfl, hrelease⟩
  | storing k payload rest =>
    have hfree : d.host.openedFile d.file.torrent.fileName = none := by
      rw [← Option.not_isSome_iff_eq_none, Host.isSome_openedFile]
      exact hunlocked k payload rest hpc
    obtain ⟨host, hstore, -⟩ := @Host.perform_spec d.host (.success fun _ ↦ 0)
      (.storeSegmentToFile _ d.file.path (idOf k) payload) hfree
    simp only [StoreCall.perform] at hstore
    exact ⟨.store w k (.success fun _ ↦ 0), { d with host := host }.goto w (.completing k rest),
      rfl, by simp [step, store, hpc, hstore]⟩
  | completing k rest =>
    have hk : d.file.InRange (idOf k) := hpending k (by simp [hpc, Pc.pending])
    obtain ⟨s, hs⟩ := Option.isSome_iff_exists.mp (File.isSome_segmentAt.mpr hk)
    exact ⟨.complete w k, ({ d with file := d.file.setState (idOf k).toNat .complete }).goto w
      (.scanning rest), rfl, by simp [step, complete, hpc, File.setSegmentState, hs]⟩
  | finished => exact absurd hpc hw

/-- In every run over a fresh file that nobody reads, with lists that name its segments only: every
worker makes a bounded number of calls, and can make its next one until it has finished. When no
worker can, all of them have finished, and no segment is DOWNLOADING. -/
theorem download_ends (hfresh : file.Fresh)
    (hunlocked : file.torrent.fileName ∉ host.readLockedNames)
    (hrun : Run (step peer) ListsInRange (start file host) es d) :
    (∀ w, es.countP (fun e ↦ e.worker = some w) ≤ 3 + 4 * (listed w es).length ∧
      (d.pc w = .finished ∨ CanCall peer d w)) ∧
    ((∀ w, ¬ CanCall peer d w) →
      (∀ w, d.pc w = .finished) ∧ ∀ i, d.file.stateOf i ≠ some .downloading) := by
  have hstart : Unhindered (start file host : Download W) := by
    refine ⟨hunlocked, ?_⟩
    intro w k hk
    cases hk
  have hd : Unhindered d := hrun.invariant hstart fun _ _ _ hd hok hstep ↦ hd.kept hok hstep
  have hnext (w : W) : d.pc w = .finished ∨ CanCall peer d w := by
    by_cases hw : d.pc w = .finished
    · exact .inl hw
    · exact .inr (canCall_of_pending (hd.pending w) (fun _ _ _ _ ↦ hd.unlocked) hw)
  refine ⟨fun w ↦ ⟨?_, hnext w⟩, ?_⟩
  · have hcalls := calls_run hrun w
    omega
  · intro hstuck
    have hfinished (w : W) : d.pc w = .finished := (hnext w).resolve_right (hstuck w)
    refine ⟨hfinished, ?_⟩
    intro i hi
    obtain ⟨⟨b, ht⟩, -⟩ := tracks_and_flag hfresh hrun
    obtain ⟨w, hw, -⟩ := ht.existsUnique hi
    simp only [hfinished w] at hw
    cases hw

/-! ### Two workers for one segment -/

/-- No call changes which lists are in range. -/
private theorem meets_listsInRange (h : ∀ e ∈ es, d.ListsInRange e) :
    Meets (step peer) ListsInRange d es := by
  induction es generalizing d with
  | nil => trivial
  | cons e es ih =>
    intro d' hstep
    refine ⟨h e List.mem_cons_self, ih ?_⟩
    intro e' he'
    have hrange := h e' (List.mem_cons_of_mem e he')
    cases e' with
    | list w response =>
      intro k hk
      rw [inRange_run (Run.single trivial hstep)]
      exact hrange k hk
    | _ => trivial

private theorem listsInRange_contested : ∀ e ∈ contested,
    (start (.ofTorrent byteTorrent []) (emptyHost.createLocalFile byteTorrent) :
      Download Bool).ListsInRange e := by
  decide

/-- Both workers list the segment. They make 7 and 5 calls, of 7 and 11 at most. -/
theorem download_ends_contested :
    ∃ d : Download Bool, contested.foldlM (step somePeer) (start (.ofTorrent byteTorrent [])
        (emptyHost.createLocalFile byteTorrent)) = some d ∧
      (∀ w, contested.countP (fun e ↦ e.worker = some w) ≤ 3 + 4 * (listed w contested).length ∧
        (d.pc w = .finished ∨ CanCall somePeer d w)) ∧
      ((∀ w, ¬ CanCall somePeer d w) →
        (∀ w, d.pc w = .finished) ∧ ∀ i, d.file.stateOf i ≠ some .downloading) := by
  have hsome : (contested.foldlM (step somePeer) (start (.ofTorrent byteTorrent [])
      (emptyHost.createLocalFile byteTorrent))).isSome = true := by
    decide
  obtain ⟨d, hd⟩ := Option.isSome_iff_exists.mp hsome
  refine ⟨d, hd, download_ends (File.fresh_ofTorrent byteTorrent []) ?_
    (Run.of_foldlM hd (meets_listsInRange listsInRange_contested))⟩
  simp [Host.readLockedNames, Host.createLocalFile, emptyHost]

end Download

end P2PNetwork.Client
