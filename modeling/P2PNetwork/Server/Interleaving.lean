import P2PNetwork.Server.Exchanges
import P2PNetwork.Server.NewTorrent

/-!
# Threads of the tracker between two calls

`TrackerThread::respond` (`src/server/TrackerThread.cpp:3–71`) makes up to two calls on the
database, and other threads can make calls between them. Any such run is matched by one in which
every message is handled in one step: the torrents and the messages sent on every connection
are the same, and the clients are in another order at most.
-/

open Lib

namespace P2PNetwork.Server

/-- A thread that has made its first call on the database: the client and the torrent that the
second one, `addTorrentToClient`, is for, and the message that is sent after it. -/
structure Pending where
  address : IpAddress
  torrent : Torrent
  reply : Option TcpMessage

/-- The client: `ClientInfo ci(true, ...)` (`TrackerThread.cpp:4,49`). -/
def Pending.clientInfo (p : Pending) : ClientInfo := { isIpV4 := true, address := p.address }

/-- The database, the threads in the middle of a message, and the messages sent by each. -/
structure Tracker where
  db : Database := {}
  pending : Nat → Option Pending := fun _ ↦ none
  sent : List (Nat × TcpMessage) := []

namespace Tracker

open TrackerThread

/-- A thread handles a message up to its second call, or it makes that call and sends its reply. -/
inductive Event
  | receive (i : Nat) (a : Arrival)
  | resume (i : Nat)

/-- The message that an event begins to handle. -/
def Event.arrival : Event → Option (Nat × Arrival)
  | .receive i a => some (i, a)
  | .resume _ => none

/-- What is left of `CS_NEW_REQUEST` after the torrent has been added
(`TrackerThread.cpp:49–57`). -/
def newPending (hash : Bytes → Hash) (conn : Connection) (request : NewRequest) : Pending :=
  let newTorrent := (Torrent.ofMsg request.torrentMsg).genDefaultHash hash
  let response : NewResponse := { newHash := newTorrent.hashed, fileCode := .fine }
  { address := clientAddress conn
    torrent := newTorrent
    reply := some { code := .csNewResponse, contents := .newResponse response } }

/-- `respond` up to its second call on the database: the database, what is left to do, and the
message sent where nothing is left. -/
def begin (hash : Bytes → Hash) (fuel : Nat) (conn : Connection) (db : Database)
    (msg : TcpMessage) : Option (Database × Option Pending × Option TcpMessage) :=
  match msg.code with
  | .ok => some (db, none, some { code := .ok })
  | .csSeedlistRequest =>
    some (db, none,
      some { code := .csSeedlistResponse,
             contents := .seedlistResponse (seedlistResponse db msg.seedlistRequest) })
  | .csNewRequest =>
    let newTorrent := (Torrent.ofMsg msg.newRequest.torrentMsg).genDefaultHash hash
    (db.addTorrent hash fuel newTorrent).map fun r ↦
      (r.1, some (newPending hash conn msg.newRequest), none)
  | .csImASeed =>
    some (db, (db.torrents.find? fun t ↦ t.hashed == msg.imASeed.hashedTorrent).map fun t ↦
      { address := clientAddress conn, torrent := t, reply := none }, none)
  | .csClientUnavailable =>
    let ips : Ips := { ipv4s := msg.clientUnavailable.ipV4Addresses
                       ipv6s := msg.clientUnavailable.ipV6Addresses }
    some (handleUnavailables db ips, none, none)
  | _ => some (db, none, none)

/-- The rest of `respond`. -/
def finish (db : Database) (p : Pending) : Database × Option TcpMessage :=
  (db.addTorrentToClient p.clientInfo p.torrent, p.reply)

/-- The messages of a thread, with its number. -/
def tag (i : Nat) (reply : Option TcpMessage) : List (Nat × TcpMessage) :=
  reply.toList.map fun m ↦ (i, m)

/-- One event. A thread takes up a message only if it is not in the middle of one. -/
def step (hash : Bytes → Hash) (s : Tracker) : Event → Option Tracker
  | .receive i a =>
    match s.pending i with
    | some _ => none
    | none => (begin hash a.fuel a.conn s.db a.msg).map fun r ↦
      { db := r.1, pending := Function.update s.pending i r.2.1, sent := s.sent ++ tag i r.2.2 }
  | .resume i =>
    (s.pending i).map fun p ↦
      { db := (finish s.db p).1
        pending := Function.update s.pending i none
        sent := s.sent ++ tag i (finish s.db p).2 }

/-- A thread handles a message in one step. -/
def atomicStep (hash : Bytes → Hash) (s : Database × List (Nat × TcpMessage))
    (e : Nat × Arrival) : Option (Database × List (Nat × TcpMessage)) :=
  (respond hash e.2.fuel e.2.conn s.1 e.2.msg).map fun r ↦ (r.1, s.2 ++ tag e.1 r.2)

variable {hash : Bytes → Hash} {fuel : Nat} {conn : Connection} {db db' : Database}
  {msg : TcpMessage}

/-- Without other threads the two parts make up `respond`. -/
theorem respond_eq : respond hash fuel conn db msg = (begin hash fuel conn db msg).map fun r ↦
    match r.2.1 with
    | some p => finish r.1 p
    | none => (r.1, r.2.2) := by
  rw [respond, begin]
  cases msg.code with
  | csNewRequest =>
    simp only [newTorrent, finish, Option.map_map]
    rfl
  | csImASeed =>
    simp only [handleSeedNotification, finish, Option.map_some]
    cases db.torrents.find? fun t ↦ t.hashed == msg.imASeed.hashedTorrent <;> rfl
  | _ => rfl

/-! ### The clients of the tracker -/

/-- The clients are what `addTorrentToClient` makes of them: an address each, and no torrent. -/
structure Plain (db : Database) : Prop where
  client : ∀ c ∈ db.clients, c = { isIpV4 := true, address := c.address }
  distinct : (db.clients.map ClientInfo.address).Nodup

/-- There is a client with this address. -/
def Registered (db : Database) (address : IpAddress) : Prop := ∃ c ∈ db.clients, c.address = address

/-- Two databases with the same addresses have the same clients, but for their order. -/
theorem Plain.perm (h : Plain db) (h' : Plain db')
    (hsame : ∀ address, Registered db address ↔ Registered db' address) :
    db.clients.Perm db'.clients := by
  have mem_of {d d' : Database} (hd : Plain d) (hd' : Plain d')
      (hreg : ∀ address, Registered d address → Registered d' address) (c : ClientInfo)
      (hc : c ∈ d.clients) : c ∈ d'.clients := by
    obtain ⟨c', hc', haddress⟩ := hreg c.address ⟨c, hc, rfl⟩
    have heq : c = c' := by rw [hd.client c hc, hd'.client c' hc', haddress]
    rwa [heq]
  rw [List.perm_ext_iff_of_nodup h.distinct.of_map h'.distinct.of_map]
  intro c
  exact ⟨mem_of h h' (fun a ↦ (hsame a).mp) c, mem_of h' h (fun a ↦ (hsame a).mpr) c⟩

theorem plain_empty : Plain {} where
  client := by
    intro c hc
    cases hc
  distinct := List.nodup_nil

/-- What `addTorrentToClient` does for a client with an IPv4 address. -/
theorem plain_add (h : Plain db) (address : IpAddress) (t : Torrent) :
    Plain (db.addTorrentToClient { isIpV4 := true, address := address } t) ∧
      (db.addTorrentToClient { isIpV4 := true, address := address } t).torrents = db.torrents ∧
      ∀ a, Registered (db.addTorrentToClient { isIpV4 := true, address := address } t) a ↔
        Registered db a ∨ address = a := by
  rw [Database.addTorrentToClient]
  cases hfind : db.clients.find? fun c ↦ c.address = address with
  | some c =>
    refine ⟨h, rfl, ?_⟩
    intro a
    have hregistered : Registered db address :=
      ⟨c, List.mem_of_find?_eq_some hfind, by simpa using List.find?_some hfind⟩
    constructor
    · exact .inl
    · rintro (hold | rfl)
      · exact hold
      · exact hregistered
  | none =>
    have hnew : address ∉ db.clients.map ClientInfo.address := by
      intro hmem
      obtain ⟨c, hc, haddress⟩ := List.mem_map.mp hmem
      have hne := List.find?_eq_none.mp hfind c hc
      simp only [decide_eq_true_eq] at hne
      exact hne haddress
    refine ⟨⟨?_, ?_⟩, rfl, ?_⟩
    · intro c hc
      rcases List.mem_append.mp hc with hold | hlast
      · exact h.client c hold
      · rw [List.mem_singleton.mp hlast]
    · rw [List.map_append, List.map_singleton, ← List.concat_eq_append]
      exact h.distinct.concat hnew
    · intro a
      simp only [Registered, List.mem_append, List.mem_singleton, or_and_right, exists_or,
        exists_eq_left]

/-! ### Matching runs -/

/-- The messages that one thread has sent. -/
def messagesOf (i : Nat) (sent : List (Nat × TcpMessage)) : List TcpMessage :=
  (sent.filter fun m ↦ m.1 = i).map Prod.snd

theorem messagesOf_tag (i j : Nat) (sent : List (Nat × TcpMessage)) (reply : Option TcpMessage) :
    messagesOf i (sent ++ tag j reply) =
      messagesOf i sent ++ if j = i then reply.toList else [] := by
  rw [messagesOf, messagesOf, List.filter_append, List.map_append]
  congr 1
  by_cases hji : j = i
  · cases reply <;> simp [tag, hji]
  · cases reply <;> simp [tag, hji]

/-- The salting loop looks at the torrents only. -/
theorem salted_congr (h : db'.torrents = db.torrents) (salt : UInt32) (t : Torrent) :
    db'.salted hash fuel salt t = db.salted hash fuel salt t := by
  induction fuel generalizing salt t with
  | zero => rfl
  | succ fuel ih =>
    have hunique : db'.isHashUnique t.hashed = db.isHashUnique t.hashed := by
      rw [Database.isHashUnique, Database.isHashUnique, h]
    rw [Database.salted, Database.salted, hunique, ih]

/-- Nobody shares anything, so a seed list is empty. -/
theorem seedlistResponse_of_plain (h : Plain db) (request : SeedlistRequest) :
    seedlistResponse db request = {} := by
  have hnone : db.getClientsWith request.hashedTorrent = [] := by
    rw [Database.getClientsWith, List.filter_eq_nil_iff]
    intro c hc
    rw [h.client c hc]
    exact nofun
  rw [seedlistResponse, hnone]
  rfl

/-- The first part of handling a message has made `db₁` of `db`, and all of it has made `db₁'` of
`db'`: what is left to do makes up the difference. -/
structure Agrees (db db' db₁ db₁' : Database) (p : Option Pending) (m reply : Option TcpMessage) :
    Prop where
  torrents : db₁'.torrents = db₁.torrents
  plain : Plain db₁
  plain' : Plain db₁'
  registered : ∀ a, Registered db₁ a ↔ Registered db a
  registered' : ∀ a, Registered db₁' a ↔ Registered db' a ∨ ∃ q, p = some q ∧ q.address = a
  reply : reply.toList = m.toList ++ (p.bind Pending.reply).toList

/-- On databases with the same torrents, `respond` does what its first part and the rest do. -/
theorem respond_of_begin (hplain : Plain db) (hplain' : Plain db')
    (htorrents : db'.torrents = db.torrents) {db₁ : Database} {p : Option Pending}
    {m : Option TcpMessage} (h : begin hash fuel conn db msg = some (db₁, p, m)) :
    ∃ db₁' reply, respond hash fuel conn db' msg = some (db₁', reply) ∧
      Agrees db db' db₁ db₁' p m reply := by
  have unchanged (reply : Option TcpMessage) : Agrees db db' db db' none reply reply :=
    ⟨htorrents, hplain, hplain', fun _ ↦ Iff.rfl, by simp, by simp⟩
  rw [begin] at h
  rw [respond]
  cases hcode : msg.code with
  | csSeedlistRequest =>
    simp only [hcode] at h
    cases h
    rw [seedlistResponse_of_plain hplain, seedlistResponse_of_plain hplain']
    exact ⟨db', _, rfl, unchanged _⟩
  | csNewRequest =>
    simp only [hcode] at h
    obtain ⟨r, hr, hpair⟩ := Option.map_eq_some_iff.mp h
    obtain ⟨stored, hstored, rfl⟩ := Database.addTorrent_spec hr
    cases hpair
    let t := (Torrent.ofMsg msg.newRequest.torrentMsg).genDefaultHash hash
    have hadd : db'.addTorrent hash fuel t =
        some ({ db' with torrents := db'.torrents ++ [stored] }, stored.hashed) := by
      rw [Database.addTorrent, salted_congr htorrents, hstored]
      rfl
    have hgrown : Plain { db' with torrents := db'.torrents ++ [stored] } :=
      ⟨hplain'.client, hplain'.distinct⟩
    obtain ⟨hadded, hsame, hregistered⟩ := plain_add hgrown (clientAddress conn) t
    refine ⟨_, (newPending hash conn msg.newRequest).reply, ?_, ?_,
      ⟨hplain.client, hplain.distinct⟩, hadded, fun _ ↦ Iff.rfl, ?_, rfl⟩
    · simp only [newTorrent]
      rw [hadd]
      rfl
    · rw [hsame, htorrents]
    · intro a
      rw [hregistered]
      simp [Registered, newPending]
  | csImASeed =>
    simp only [hcode] at h
    cases h
    simp only [handleSeedNotification, htorrents]
    cases hfind : db.torrents.find? fun t ↦ t.hashed == msg.imASeed.hashedTorrent with
    | none => exact ⟨db', none, rfl, unchanged none⟩
    | some t =>
      obtain ⟨hadded, hsame, hregistered⟩ := plain_add hplain' (clientAddress conn) t
      refine ⟨_, none, rfl, hsame.trans htorrents, hplain, hadded, fun _ ↦ Iff.rfl, ?_, rfl⟩
      intro a
      rw [hregistered]
      simp
  | _ =>
    simp only [hcode] at h
    cases h
    exact ⟨db', _, rfl, unchanged _⟩

/-- The database and the messages of a run in which every message is handled in one step. It is
ahead of the threads by what they have left to do. -/
structure Matches (s : Tracker) (a : Database × List (Nat × TcpMessage)) : Prop where
  torrents : a.1.torrents = s.db.torrents
  plain : Plain s.db
  plain' : Plain a.1
  registered : ∀ address, Registered a.1 address ↔
    Registered s.db address ∨ ∃ i p, s.pending i = some p ∧ p.address = address
  sent : ∀ i, messagesOf i a.2 =
    messagesOf i s.sent ++ ((s.pending i).bind Pending.reply).toList

variable {s s' : Tracker} {a : Database × List (Nat × TcpMessage)}

/-- What is pending with one thread changed: with `p` in the place of nothing. -/
private theorem exists_pending_update {pending : Nat → Option Pending} {i : Nat}
    {p : Option Pending} (hi : pending i = none) (address : IpAddress) :
    (∃ j q, Function.update pending i p j = some q ∧ q.address = address) ↔
      (∃ j q, pending j = some q ∧ q.address = address) ∨
        ∃ q, p = some q ∧ q.address = address := by
  constructor
  · rintro ⟨j, q, hq, haddress⟩
    by_cases hji : j = i
    · subst hji
      rw [Function.update_self] at hq
      exact .inr ⟨q, hq, haddress⟩
    · rw [Function.update_of_ne hji] at hq
      exact .inl ⟨j, q, hq, haddress⟩
  · rintro (⟨j, q, hq, haddress⟩ | ⟨q, hq, haddress⟩)
    · have hji : j ≠ i := by
        rintro rfl
        rw [hi] at hq
        cases hq
      exact ⟨j, q, by rw [Function.update_of_ne hji, hq], haddress⟩
    · exact ⟨i, q, by rw [Function.update_self, hq], haddress⟩

/-- A thread that takes up a message is matched by the whole step. -/
private theorem matches_receive {i : Nat} {arrival : Arrival} (h : Matches s a)
    (hs : step hash s (.receive i arrival) = some s') :
    ∃ a', atomicStep hash a (i, arrival) = some a' ∧ Matches s' a' := by
  rw [step] at hs
  split at hs
  · cases hs
  · next hi =>
    obtain ⟨⟨db₁, p, m⟩, hbegin, rfl⟩ := Option.map_eq_some_iff.mp hs
    obtain ⟨db₁', reply, hrespond, hagrees⟩ :=
      respond_of_begin h.plain h.plain' h.torrents hbegin
    refine ⟨(db₁', a.2 ++ tag i reply), by rw [atomicStep, hrespond, Option.map_some], ?_⟩
    refine ⟨hagrees.torrents, hagrees.plain, hagrees.plain', ?_, ?_⟩
    · intro address
      rw [hagrees.registered', h.registered, hagrees.registered, exists_pending_update hi]
      exact or_assoc
    · intro j
      rw [messagesOf_tag, messagesOf_tag, h.sent]
      by_cases hij : i = j
      · subst hij
        simp [hagrees.reply, hi]
      · simp [hij, Ne.symm hij]

/-- A thread that makes its second call catches up. -/
private theorem matches_resume {i : Nat} (h : Matches s a)
    (hs : step hash s (.resume i) = some s') : Matches s' a := by
  obtain ⟨p, hp, rfl⟩ := Option.map_eq_some_iff.mp hs
  obtain ⟨hadded, hsame, hregistered⟩ := plain_add h.plain p.address p.torrent
  have hbefore : s.pending = Function.update (Function.update s.pending i none) i (some p) := by
    rw [Function.update_idem, ← hp, Function.update_eq_self]
  refine ⟨h.torrents.trans hsame.symm, hadded, h.plain', ?_, ?_⟩
  · intro address
    have hpending := @exists_pending_update (Function.update s.pending i none) i (some p)
      (Function.update_self _ _ _) address
    rw [← hbefore] at hpending
    rw [h.registered, hpending, finish, Pending.clientInfo, hregistered]
    simp only [Option.some.injEq, exists_eq_left']
    rw [or_assoc, or_comm (a := p.address = address)]
  · intro j
    rw [messagesOf_tag, h.sent]
    by_cases hij : i = j
    · subst hij
      simp [hp, finish]
    · simp [hij, Ne.symm hij]

private theorem matches_init : Matches {} ({}, []) where
  torrents := rfl
  plain := plain_empty
  plain' := plain_empty
  registered := by simp [Registered]
  sent := fun _ ↦ rfl

/-- However the threads of a tracker are interleaved between their calls on the database, the run
is matched by one in which the messages are handled in one step each, in the order in which they
were taken up: the torrents are the same, every thread has sent the same messages or still has to
send the last of them, and where no thread is in the middle of a message the clients are the same,
but for their order. -/
theorem linearizable {es : List Event} (hrun : Run (step hash) Any {} es s) :
    ∃ db sent, Run (atomicStep hash) Any ({}, []) (es.filterMap Event.arrival) (db, sent) ∧
      db.torrents = s.db.torrents ∧
      (∀ i, messagesOf i sent =
        messagesOf i s.sent ++ ((s.pending i).bind Pending.reply).toList) ∧
      ((∀ i, s.pending i = none) → db.clients.Perm s.db.clients) := by
  have hmatch : ∃ a, Run (atomicStep hash) Any ({}, []) (es.filterMap Event.arrival) a ∧
      Matches s a := by
    refine hrun.simulate matches_init ?_
    intro s e s' a h _ hs
    cases e with
    | receive i arrival => exact matches_receive h hs
    | resume i => exact ⟨a, rfl, matches_resume h hs⟩
  obtain ⟨⟨db, sent⟩, hatomic, h⟩ := hmatch
  refine ⟨db, sent, hatomic, h.torrents, h.sent, ?_⟩
  intro hidle
  apply h.plain'.perm h.plain
  intro address
  rw [h.registered]
  simp [hidle]

/-! ### Seed lists -/

/-- No seed list that is sent, or is still to be sent, names a peer. -/
structure NoPeers (s : Tracker) : Prop where
  plain : Plain s.db
  sent : ∀ i m, (i, m) ∈ s.sent → m.code = .csSeedlistResponse → m.seedlistResponse = {}
  pending : ∀ i p m, s.pending i = some p → p.reply = some m → m.code ≠ .csSeedlistResponse

/-- The first part of handling a message sends no peers, and leaves none to send. -/
private theorem noPeers_begin (hplain : Plain db) {db₁ : Database} {p : Option Pending}
    {m : Option TcpMessage} (h : begin hash fuel conn db msg = some (db₁, p, m)) :
    (∀ r, m = some r → r.code = .csSeedlistResponse → r.seedlistResponse = {}) ∧
      ∀ q r, p = some q → q.reply = some r → r.code ≠ .csSeedlistResponse := by
  rw [begin] at h
  cases hcode : msg.code with
  | ok =>
    simp only [hcode] at h
    cases h
    refine ⟨?_, fun _ _ h ↦ (nomatch h)⟩
    rintro r ⟨⟩ hr
    cases hr
  | csSeedlistRequest =>
    simp only [hcode] at h
    cases h
    refine ⟨?_, fun _ _ h ↦ (nomatch h)⟩
    rintro r ⟨⟩ -
    exact seedlistResponse_of_plain hplain msg.seedlistRequest
  | csNewRequest =>
    simp only [hcode] at h
    obtain ⟨r, -, hpair⟩ := Option.map_eq_some_iff.mp h
    cases hpair
    refine ⟨fun _ h ↦ (nomatch h), ?_⟩
    rintro q r ⟨⟩ hr hseedlist
    cases hr
    cases hseedlist
  | csImASeed =>
    simp only [hcode] at h
    cases h
    refine ⟨fun _ h ↦ (nomatch h), ?_⟩
    intro q r hq hr
    obtain ⟨t, -, rfl⟩ := Option.map_eq_some_iff.mp hq
    cases hr
  | _ =>
    simp only [hcode] at h
    cases h
    exact ⟨fun _ h ↦ (nomatch h), fun _ _ h ↦ (nomatch h)⟩

/-- A message of a thread is one that was sent before, or the reply that has just been sent. -/
private theorem mem_sent_tag {i j : Nat} {m : TcpMessage} {sent : List (Nat × TcpMessage)}
    {reply : Option TcpMessage} (h : (i, m) ∈ sent ++ tag j reply) :
    (i, m) ∈ sent ∨ reply = some m := by
  rcases List.mem_append.mp h with hold | hnew
  · exact .inl hold
  · obtain ⟨r, hr, heq⟩ := List.mem_map.mp hnew
    cases heq
    exact .inr (Option.mem_toList.mp hr)

/-- What is pending with one thread changed is what was pending, or what the thread has left. -/
private theorem pending_update {pending : Nat → Option Pending} {i j : Nat} {p : Option Pending}
    {q : Pending} (h : Function.update pending i p j = some q) :
    pending j = some q ∨ p = some q := by
  by_cases hji : j = i
  · subst hji
    rw [Function.update_self] at h
    exact .inr h
  · rw [Function.update_of_ne hji] at h
    exact .inl h

theorem noPeers_run {es : List Event} (hrun : Run (step hash) Any {} es s) : NoPeers s := by
  have hinit : NoPeers {} := by
    refine ⟨plain_empty, ?_, ?_⟩
    · intro i m h
      cases h
    · intro i p m h
      cases h
  refine hrun.invariant hinit ?_
  intro s e s' h _ hs
  cases e with
  | receive i arrival =>
    rw [step] at hs
    split at hs
    · cases hs
    · obtain ⟨⟨db₁, p, m⟩, hbegin, rfl⟩ := Option.map_eq_some_iff.mp hs
      obtain ⟨hsent, hpending⟩ := noPeers_begin h.plain hbegin
      obtain ⟨_, _, _, hagrees⟩ := respond_of_begin h.plain h.plain rfl hbegin
      refine ⟨hagrees.plain, ?_, ?_⟩
      · intro j r hr hcode
        rcases mem_sent_tag hr with hold | hnew
        · exact h.sent j r hold hcode
        · exact hsent r hnew hcode
      · intro j q r hq hr
        rcases pending_update hq with hold | hnew
        · exact h.pending j q r hold hr
        · exact hpending q r hnew hr
  | resume i =>
    obtain ⟨p, hp, rfl⟩ := Option.map_eq_some_iff.mp hs
    refine ⟨(plain_add h.plain p.address p.torrent).1, ?_, ?_⟩
    · intro j r hr hcode
      rcases mem_sent_tag hr with hold | hnew
      · exact h.sent j r hold hcode
      · exact absurd hcode (h.pending i p r hp hnew)
    · intro j q r hq hr
      rcases pending_update hq with hold | hnew
      · exact h.pending j q r hold hr
      · cases hnew

/-- Whatever a client receives of what a tracker has sent, `sendSeedlistRequest` never returns a
peer: it returns the empty list, or has no result because it logs the first peer of a list that has
none. -/
theorem response_of_tracker {es : List Event} {i : Nat} {pb : Protobuf} {select : Client.Select}
    (hrun : Run (step hash) Any {} es s)
    (hreceived : ∀ m, select.message pb = some m → (i, m) ∈ s.sent)
    (socket : Client.BaseSocket) (hashedTorrent : Hash) (bytesSent : Int) :
    (Client.SSocket.sendSeedlistRequest pb socket hashedTorrent bytesSent select).map
        Client.Exchange.response =
      if (select.message pb).any fun m ↦ m.code = .csSeedlistResponse then none else some {} := by
  rw [Client.SSocket.response_sendSeedlistRequest]
  cases hm : select.message pb with
  | none => rfl
  | some m =>
    by_cases hcode : m.code = .csSeedlistResponse
    · have hempty := (noPeers_run hrun).sent i m (hreceived m hm) hcode
      simp [hcode, hempty]
    · simp [hcode]

/-! ### Two requests at a time -/

/-- Two clients announce a file with the same name. The second one's thread is done first. -/
def twoRequests : List Event :=
  [.receive 0 ⟨someConnection, newRequest, 1⟩, .receive 1 ⟨⟨[50], 40001⟩, newRequest, 2⟩,
    .resume 1, .resume 0]

/-- The clients are registered in the other order than their torrents. -/
theorem linearizable_two : ∃ s, Run (step lengthHash) Any {} twoRequests s ∧
    s.db.clients.map (fun c ↦ c.address.ip) = [[50], [49]] ∧
    ∃ db sent, Run (atomicStep lengthHash) Any ({}, []) (twoRequests.filterMap Event.arrival)
        (db, sent) ∧
      db.torrents = s.db.torrents ∧
      (∀ i, messagesOf i sent =
        messagesOf i s.sent ++ ((s.pending i).bind Pending.reply).toList) ∧
      ((∀ i, s.pending i = none) → db.clients.Perm s.db.clients) := by
  have hrun : Run (step lengthHash) Any {} twoRequests _ := Run.of_foldlM rfl Meets.any
  exact ⟨_, hrun, rfl, linearizable hrun⟩

/-- A third client asks for the torrent that the first one has announced. -/
def askedFor : List Event :=
  twoRequests ++ [.receive 2 ⟨⟨[51], 40002⟩, Client.SSocket.seedlistMessage 1, 0⟩]

/-- The seed list that every request gets. -/
def emptyReply : TcpMessage where
  code := .csSeedlistResponse
  contents := .seedlistResponse {}

/-- The list, as it is received. -/
def emptyChunk : Chunk UInt8 Client.maxMessageSize :=
  ⟨Protobuf.proto3.serialize emptyReply, by decide, by decide⟩

/-- Both clients that have announced a file are registered, and the third one gets no peer. -/
theorem response_of_tracker_announced : ∃ s, Run (step lengthHash) Any {} askedFor s ∧
    s.db.clients.map (fun c ↦ c.address.ip) = [[50], [49]] ∧
    (Client.SSocket.sendSeedlistRequest .proto3 trackerSocket 1 13
        (.ready 5000000 (.bytes emptyChunk))).map Client.Exchange.response =
      if ((Client.Select.ready 5000000 (.bytes emptyChunk)).message .proto3).any
          fun m ↦ m.code = .csSeedlistResponse then none else some {} := by
  have hrun : Run (step lengthHash) Any {} askedFor _ := Run.of_foldlM rfl Meets.any
  have hmessage : (Client.Select.ready 5000000 (.bytes emptyChunk)).message .proto3 =
      some emptyReply := by decide
  refine ⟨_, hrun, rfl, response_of_tracker (i := 2) hrun ?_ trackerSocket 1 13⟩
  intro m hm
  rw [hmessage] at hm
  cases hm
  decide

end Tracker

end P2PNetwork.Server
