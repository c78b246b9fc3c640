import P2PNetwork.Client.Networking.SSocket
import P2PNetwork.Server.Programs
import Mathlib.Data.Set.Insert

/-!
# Registered and announced endpoints

A client tells the tracker the port its responder listens on, and the tracker should register this
endpoint. The threads of the tracker never register one: none of them comes out of the first
`CS_NEW_REQUEST`. With a mutex that a thread may take again they would register address and port
of the connection instead; which of the two addresses the database ends up with is then compared
over whole runs.
-/

open Lib

namespace P2PNetwork.Server

open TrackerThread

/-- The endpoint a message announces where the tracker knows its torrent: the address of
the peer, and the port in the byte order in which `BaseSocket::start` takes it. -/
def announcement (db : Database) (a : Arrival) : Option IpAddress :=
  match a.msg.code with
  | .csNewRequest => some ⟨getConnectedIp a.conn, a.msg.newRequest.receiverPort⟩
  | .csImASeed =>
    if db.torrents.any fun t ↦ t.hashed == a.msg.imASeed.hashedTorrent then
      some ⟨getConnectedIp a.conn, a.msg.imASeed.receiverPort⟩
    else none
  | _ => none

/-- A client of the database has this address. -/
def Database.HasAddress (db : Database) (address : IpAddress) : Prop :=
  ∃ c ∈ db.clients, c.address = address

instance (db : Database) (address : IpAddress) : Decidable (db.HasAddress address) :=
  inferInstanceAs (Decidable (∃ c ∈ db.clients, c.address = address))

/-- The addresses of the clients are the endpoints that have been announced. -/
def Registered (s : Database × Set IpAddress) : Prop :=
  ∀ address, s.1.HasAddress address ↔ address ∈ s.2

/-! ### The threads of the tracker -/

/-- What a step of the threads announces: the endpoint of the message that a thread takes up. -/
def announced (db : Database) : SharedMutex.Event Arrival → Set IpAddress
  | .enter _ a => {e | announcement db a = some e}
  | .spawn | .proceed _ => ∅

/-- A step of the tracker's threads on their database and its mutex, and what it announces is noted
beside it. -/
def threadStep (hash : Bytes → Hash)
    (s : Pool Database Arrival (Option TcpMessage) × Set IpAddress)
    (e : SharedMutex.Event Arrival) :
    Option (Pool Database Arrival (Option TcpMessage) × Set IpAddress) :=
  (Pool.step (fun a : Arrival ↦ Programs.respond hash a.fuel a.conn a.msg) s.1 e).map fun p ↦
    (p, s.2 ∪ announced s.1.shared e)

section

variable {hash : Bytes → Hash} {es : List (SharedMutex.Event Arrival)}
  {s : Pool Database Arrival (Option TcpMessage) × Set IpAddress}

/-- An empty tracker knows no hash, so only `CS_NEW_REQUEST` announces an endpoint to it. -/
theorem announcement_empty (a : Arrival) :
    (∃ e, announcement {} a = some e) ↔ a.msg.code = .csNewRequest := by
  unfold announcement
  split
  · next hcode => simp [hcode]
  · next hcode => simp [hcode]
  · next hnew _ => exact iff_of_false (by simp) hnew

/-- The database stays empty in a run, and the endpoints that are announced are those of the
`CS_NEW_REQUEST`s that have been taken up. -/
private theorem threads_run (hrun : Run (threadStep hash) Any ({ shared := {} }, ∅) es s) :
    s.1.shared = {} ∧
      ∀ x, x ∈ s.2 ↔ ∃ i a, .enter i a ∈ es ∧ announcement {} a = some x := by
  have hboth : Run (Pool.step fun a : Arrival ↦ Programs.respond hash a.fuel a.conn a.msg) Any
      { shared := {} } es s.1 ∧
        ∀ x, x ∈ s.2 ↔ ∃ i a, .enter i a ∈ es ∧ announcement {} a = some x := by
    refine hrun.traceInvariant (P := fun es s ↦ Run (Pool.step fun a : Arrival ↦
      Programs.respond hash a.fuel a.conn a.msg) Any { shared := {} } es s.1 ∧
        ∀ x, x ∈ s.2 ↔ ∃ i a, .enter i a ∈ es ∧ announcement {} a = some x) ⟨.nil, by simp⟩ ?_
    intro es s e s' _ ⟨hpool, hnoted⟩ hok hs
    obtain ⟨p, hp, rfl⟩ := Option.map_eq_some_iff.mp hs
    have hempty := (Pool.unwritten_run (Programs.readsOnly_respond hash) hpool).shared
    refine ⟨hpool.snoc trivial hp, fun x ↦ ?_⟩
    rw [Set.mem_union, hnoted x, hempty]
    cases e with
    | spawn => simp [announced]
    | enter i a =>
      constructor
      · rintro (⟨j, b, hmem, hb⟩ | ha)
        · exact ⟨j, b, List.mem_append_left _ hmem, hb⟩
        · exact ⟨i, a, by simp, ha⟩
      · rintro ⟨j, b, hmem, hb⟩
        rcases List.mem_append.mp hmem with hold | hnew
        · exact .inl ⟨j, b, hold, hb⟩
        · cases List.mem_singleton.mp hnew
          exact .inr hb
    | proceed i => simp [announced]
  exact ⟨(Pool.unwritten_run (Programs.readsOnly_respond hash) hboth.1).shared, hboth.2⟩

/-- However the steps of the tracker's threads are interleaved, the registered addresses are the
announced ones exactly as long as no thread has taken up a `CS_NEW_REQUEST`. From the first one on
they differ in every later state: no thread ever registers its endpoint. -/
theorem registered_iff_no_newRequest
    (hrun : Run (threadStep hash) Any ({ shared := {} }, ∅) es s) :
    Registered (s.1.shared, s.2) ↔ ∀ i a, .enter i a ∈ es → a.msg.code ≠ .csNewRequest := by
  obtain ⟨hempty, hannounced⟩ := threads_run hrun
  have hnone : ∀ x, ¬ s.1.shared.HasAddress x := by
    intro x
    rw [hempty]
    simp [Database.HasAddress]
  constructor
  · intro h i a hmem hcode
    obtain ⟨e, he⟩ := (announcement_empty a).mpr hcode
    exact hnone e ((h e).mpr ((hannounced e).mpr ⟨i, a, hmem, he⟩))
  · intro h x
    refine iff_of_false (hnone x) fun hx ↦ ?_
    obtain ⟨i, a, hmem, ha⟩ := (hannounced x).mp hx
    exact h i a hmem ((announcement_empty a).mp ⟨x, ha⟩)

/-- What a client sends that has a file with hash 5. -/
private def seedMessage : TcpMessage :=
  Client.SSocket.imSeedMessage 2000 { hashed := 5, size := 1, fileName := [97] }

/-- A client says that it is a seed of a torrent that nobody has announced; then another thread
takes up a `CS_NEW_REQUEST` and gets the mutex. -/
private def seedBeforeNew : List (SharedMutex.Event Arrival) :=
  [.spawn, .enter 0 { conn := someConnection, msg := seedMessage, fuel := 1 },
    .proceed 0, .proceed 0, .spawn,
    .enter 1 { conn := someConnection, msg := newRequest, fuel := 1 }, .proceed 1]

theorem registered_iff_no_newRequest_seed :
    ∃ s, seedBeforeNew.foldlM (threadStep lengthHash) ({ shared := {} }, ∅) = some s ∧
      (Registered (s.1.shared, s.2) ↔
        ∀ i a, .enter i a ∈ seedBeforeNew → a.msg.code ≠ .csNewRequest) := by
  have hsome : (seedBeforeNew.foldlM (threadStep lengthHash)
      ({ shared := {} }, ∅)).isSome = true := by
    decide
  obtain ⟨s, hs⟩ := Option.isSome_iff_exists.mp hsome
  exact ⟨s, hs, registered_iff_no_newRequest (Run.of_foldlM hs Meets.any)⟩

/-- One thread takes up a `CS_NEW_REQUEST`, and gets the mutex. -/
private def firstNewRequest : List (SharedMutex.Event Arrival) :=
  [.spawn, .enter 0 { conn := someConnection, msg := newRequest, fuel := 1 }, .proceed 0]

/-- The thread requests the mutex that it holds and never goes on. The client that listens on
port 2000 is not registered. -/
theorem not_registered_after_first_newRequest :
    ∃ s, firstNewRequest.foldlM (threadStep lengthHash) ({ shared := {} }, ∅) = some s ∧
      threadStep lengthHash s (.proceed 0) = none ∧ (⟨[49], 2000⟩ : IpAddress) ∈ s.2 ∧
      s.1.shared.clients = [] ∧ ¬ Registered (s.1.shared, s.2) := by
  refine ⟨_, rfl, by decide, .inl (.inr rfl), by decide, fun h ↦ ?_⟩
  have hrecorded := (h ⟨[49], 2000⟩).mpr (.inl (.inr rfl))
  revert hrecorded
  decide

end

/-! ### A mutex that may be taken again -/

/-- The tracker handles a message, and what the message announces is noted beside it. -/
def endpointStep (hash : Bytes → Hash) (s : Database × Set IpAddress) (a : Arrival) :
    Option (Database × Set IpAddress) :=
  (trackerStep hash s.1 a).map fun db ↦ (db, s.2 ∪ {e | announcement s.1 a = some e})

/-- A message that announces an endpoint comes from that endpoint, by the source port as it
stands in `sin_port`; or both addresses are registered already. -/
def FromEndpoint (s : Database × Set IpAddress) (a : Arrival) : Prop :=
  ∀ e, announcement s.1 a = some e → clientAddress a.conn = e ∨
    (s.1.HasAddress (clientAddress a.conn) ∧ s.1.HasAddress e)

section

variable {hash : Bytes → Hash} {db db' : Database} {a : Arrival}

/-- `addTorrentToClient` registers the address of its client. -/
theorem hasAddress_addTorrentToClient (ci : ClientInfo) (t : Torrent) (address : IpAddress) :
    (db.addTorrentToClient ci t).HasAddress address ↔
      db.HasAddress address ∨ address = ci.address := by
  unfold Database.addTorrentToClient
  split
  · next c hfound =>
    have hmem : c ∈ db.clients := List.mem_of_find?_eq_some hfound
    have hkey : c.address = ci.address := by simpa using List.find?_some hfound
    constructor
    · exact .inl
    · intro h
      cases h with
      | inl h => exact h
      | inr h => exact ⟨c, hmem, by rw [hkey, h]⟩
  · simp only [Database.HasAddress, List.mem_append, List.mem_singleton]
    constructor
    · rintro ⟨c, hc | rfl, rfl⟩
      · exact .inl ⟨c, hc, rfl⟩
      · exact .inr rfl
    · rintro (⟨c, hc, rfl⟩ | rfl)
      · exact ⟨c, .inl hc, rfl⟩
      · exact ⟨ci, .inr rfl, rfl⟩

/-- Every message that announces an endpoint registers the address of its connection. -/
theorem hasAddress_step (h : trackerStep hash db a = some db') (address : IpAddress) :
    db'.HasAddress address ↔ db.HasAddress address ∨
      ((announcement db a).isSome = true ∧ address = clientAddress a.conn) := by
  obtain ⟨⟨db'', reply⟩, hrespond, rfl⟩ := Option.map_eq_some_iff.mp h
  unfold respond at hrespond
  unfold announcement
  split at hrespond
  · next hcode =>
    cases hrespond
    simp [hcode]
  · next hcode =>
    cases hrespond
    simp [hcode]
  · next hcode =>
    obtain ⟨r, hr, hpair⟩ := Option.map_eq_some_iff.mp hrespond
    obtain ⟨stored, -, hdb, -⟩ := newTorrent_spec hr
    cases hpair
    rw [hdb, hasAddress_addTorrentToClient, hcode]
    simp [Database.HasAddress]
  · next hcode =>
    cases hrespond
    rw [hcode]
    unfold handleSeedNotification
    split
    · next t hfound =>
      have hhash : (t.hashed == a.msg.imASeed.hashedTorrent) = true := by
        simpa using List.find?_some hfound
      have hknown : (db.torrents.any fun t ↦ t.hashed == a.msg.imASeed.hashedTorrent) = true :=
        List.any_eq_true.mpr ⟨t, List.mem_of_find?_eq_some hfound, hhash⟩
      rw [hasAddress_addTorrentToClient, hknown]
      simp
    · next hfound =>
      have hknown : (db.torrents.any fun t ↦ t.hashed == a.msg.imASeed.hashedTorrent) = false := by
        simpa using hfound
      rw [hknown]
      simp
  · next hcode =>
    cases hrespond
    simp [hcode]
  · next hcode =>
    cases hrespond
    simp

/-- What the database and the announcements agree on before a step, they agree on after it
exactly when the step comes from the endpoint it announces. -/
theorem registered_step_iff {s s' : Database × Set IpAddress} (h : Registered s)
    (hs : endpointStep hash s a = some s') : Registered s' ↔ FromEndpoint s a := by
  obtain ⟨db', hdb, rfl⟩ := Option.map_eq_some_iff.mp hs
  have hnow := hasAddress_step hdb
  constructor
  · intro hafter e he
    by_cases heq : clientAddress a.conn = e
    · exact .inl heq
    · refine .inr ⟨?_, ?_⟩
      · have hrecorded := (hafter _).mp ((hnow _).mpr (.inr ⟨by rw [he]; rfl, rfl⟩))
        cases hrecorded with
        | inl hold => exact (h _).mpr hold
        | inr hnew => exact absurd (Option.some_inj.mp (he.symm.trans hnew)).symm heq
      · have hannounced := (hnow e).mp ((hafter e).mpr (.inr he))
        cases hannounced with
        | inl hold => exact hold
        | inr hnew => exact absurd hnew.2.symm heq
  · intro hfrom address
    show db'.HasAddress address ↔ address ∈ s.2 ∨ announcement s.1 a = some address
    rw [hnow address, h address]
    cases he : announcement s.1 a with
    | none => simp
    | some e =>
      cases hfrom e he with
      | inl heq => simp [heq, eq_comm]
      | inr hboth =>
        have hrecorded := (h _).mp hboth.1
        have hannounced := (h _).mp hboth.2
        constructor
        · rintro (hold | ⟨-, rfl⟩)
          · exact .inl hold
          · exact .inl hrecorded
        · rintro (hold | hnew)
          · exact .inl hold
          · rw [← Option.some_inj.mp hnew]
            exact .inl hannounced

/-- The registered addresses are the announced ones after every prefix of a run exactly when
every message of the run that announces an endpoint comes from it. -/
theorem registered_throughout_iff (arrivals : List Arrival) :
    Throughout (endpointStep hash) Registered ({}, ∅) arrivals ↔
      Meets (endpointStep hash) FromEndpoint ({}, ∅) arrivals := by
  have hstart : Registered ({}, ∅) := by
    intro address
    simp [Database.HasAddress]
  exact throughout_iff_meets (Q := fun _ ↦ True) (fun _ _ ↦ trivial) hstart (fun _ h ↦ h)
    (fun _ _ _ h _ hs ↦ registered_step_iff h hs)
    (fun _ _ _ h _ hs hok ↦ (registered_step_iff h hs).mpr hok)

end

end P2PNetwork.Server
