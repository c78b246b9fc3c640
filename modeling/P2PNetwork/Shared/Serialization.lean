import P2PNetwork.Lib.Proto3Writing
import P2PNetwork.Shared.Protobuf

/-!
# Messages on the wire

Every message of `src/shared/protoc/TcpMessage.proto` is decoded to itself. An enumeration is a
number of 32 bits, and a number with a name is stored under it.
-/

open Lib

namespace P2PNetwork

/-- A code as it is stored: no number of a named constant goes without its name. -/
def TcpCode.Canonical (c : TcpCode) : Prop := .ofNat c.toNat = c ∧ c.toNat < 2 ^ 32

/-- A file code as it is stored. -/
def FileCode.Canonical (c : FileCode) : Prop := .ofNat c.toNat = c ∧ c.toNat < 2 ^ 32

instance (c : TcpCode) : Decidable c.Canonical := inferInstanceAs (Decidable (_ ∧ _))

instance (c : FileCode) : Decidable c.Canonical := inferInstanceAs (Decidable (_ ∧ _))

theorem FileCode.ofNat_signExtend {c : FileCode} (h : c.Canonical) :
    FileCode.ofNat (Wire.signExtend c.toNat % 4294967296) = c := by
  show FileCode.ofNat (Wire.signExtend c.toNat % 2 ^ 32) = c
  rw [Wire.signExtend_mod h.2, h.1]

/-- Only one canonical code is left out where it is written. -/
theorem FileCode.toNat_eq_zero {c : FileCode} (h : c.Canonical) : c.toNat = 0 ↔ c = .error := by
  constructor
  · intro hzero
    rw [← h.1, hzero]
    rfl
  · rintro rfl
    rfl

namespace TcpMessage

/-- The fields of type `string`. -/
def strings (m : TcpMessage) : List Bytes :=
  match m.contents with
  | .seedlistResponse r => (r.ipV4Seeds ++ r.ipV4Peers ++ r.ipV6Seeds ++ r.ipV6Peers).map (·.ip)
  | .clientUnavailable r => r.ipV4Addresses ++ r.ipV6Addresses
  | .newRequest r => [r.torrentMsg.fileName]
  | _ => []

/-- What a message may hold: enumerations as they are stored, and text in its strings (a parser
may refuse a string that is not UTF-8). -/
structure Canonical (m : TcpMessage) : Prop where
  code : m.code.Canonical
  fileCode : match m.contents with
    | .newResponse r => r.fileCode.Canonical
    | .listResponse r => r.fileCode.Canonical
    | .fragmentResponse r => r.fileCode.Canonical
    | _ => True
  text : ∀ bs ∈ m.strings, ∃ text : String, text.toUTF8.toList = bs

/-- A serialized message is shorter than 2 GiB. -/
def Fits (m : TcpMessage) : Prop := m.serialize.length < 2 ^ 31

open Schema Wire

/-- The bytes make the change in the scope. -/
def Written (scope : Scope) (bs : Bytes) (change : TcpMessage → TcpMessage) : Prop :=
  @Schema.Writes TcpMessage schema scope bs change

variable {scope : Scope} {bs bs' : Bytes} {change change' : TcpMessage → TcpMessage}
  {number : Nat}

/-! ### Fields -/

theorem Written.append (h : Written scope bs change) (h' : Written scope bs' change') :
    Written scope (bs ++ bs') (change' ∘ change) :=
  Writes.append h h'

private theorem isPacked_eq (h : scope ≠ .fragments) : schema.isPacked scope = false := by
  simpa [schema] using h

/-- A field with a number of 64 bits. -/
theorem written_hash (hscope : scope ≠ .fragments) (hpos : 0 < number) (hnumber : number < 16)
    (v : UInt64) : Written scope (scalarField number v.toNat)
      fun m ↦ if v = 0 then m else setScalar scope number v.toNat m := by
  refine Writes.congr (Writes.scalarField (isPacked_eq hscope) hpos (by omega) v.toNat_lt) ?_
  intro m
  simp only [← UInt64.toNat_inj, UInt64.toNat_zero]
  rfl

/-- A field with a number of 32 bits. -/
theorem written_uint32 (hscope : scope ≠ .fragments) (hpos : 0 < number) (hnumber : number < 16)
    (v : UInt32) : Written scope (scalarField number v.toNat)
      fun m ↦ if v = 0 then m else setScalar scope number v.toNat m := by
  have hv := v.toNat_lt
  refine Writes.congr (Writes.scalarField (isPacked_eq hscope) hpos (by omega) (by omega)) ?_
  intro m
  simp only [← UInt32.toNat_inj, UInt32.toNat_zero]
  rfl

/-- A field with a file code. -/
theorem written_fileCode (hscope : scope ≠ .fragments) (hpos : 0 < number) (hnumber : number < 16)
    {c : FileCode} (hc : c.Canonical) : Written scope (enumField number c.toNat)
      fun m ↦ if c = .error then m else setScalar scope number (signExtend c.toNat) m := by
  have hlt := signExtend_lt hc.2
  refine Writes.congr (Writes.scalarField (isPacked_eq hscope) hpos (by omega) hlt) ?_
  intro m
  simp only [signExtend_eq_zero_iff, FileCode.toNat_eq_zero hc]
  rfl

/-- A string or bytes field that is left out where it is empty. -/
theorem written_bytesField (hscope : scope ≠ .fragments) (hleaf : child scope number = none)
    (hpos : 0 < number) (hnumber : number < 16) {payload : Bytes}
    (hlength : payload.length < 2 ^ 31) : Written scope (bytesField number payload)
      fun m ↦ if payload = [] then m else setBytes scope number payload m :=
  Writes.bytesField (isPacked_eq hscope) hleaf hpos (by omega) (by omega)

/-- An element of a repeated string field. -/
theorem written_string (hscope : scope ≠ .fragments) (hleaf : child scope number = none)
    (hpos : 0 < number) (hnumber : number < 16) {payload : Bytes}
    (hlength : payload.length < 2 ^ 31) :
    Written scope (lengthDelimited number payload) (setBytes scope number payload) :=
  Writes.lengthDelimited (isPacked_eq hscope) hleaf hpos (by omega) (by omega)

/-- A nested message. -/
theorem Written.enter {inner : Scope} (number : Nat) (hscope : scope ≠ .fragments)
    (hchild : child scope number = some inner) (hpos : 0 < number) (hnumber : number < 16)
    (hlength : bs.length < 2 ^ 31) (h : Written inner bs change) :
    Written scope (lengthDelimited number bs) (change ∘ TcpMessage.enter inner) :=
  Writes.enter (isPacked_eq hscope) hchild hpos (by omega) (by omega) h

/-! ### The members of the `oneof` -/

attribute [local simp] setScalar setBytes TcpMessage.enter

/-- The bytes set the `oneof`. -/
def Sets (bs : Bytes) (contents : Contents) : Prop :=
  ∃ change, Written .message bs change ∧
    ∀ code, change { code := code } = { code := code, contents := contents }

private theorem length_lt_of_lengthDelimited {payload : Bytes}
    (h : (lengthDelimited number payload).length < 2 ^ 31) : payload.length < 2 ^ 31 := by
  simp only [lengthDelimited, List.length_append] at h
  omega

private theorem length_lt_of_bytesField {payload : Bytes}
    (h : (bytesField number payload).length < 2 ^ 31) : payload.length < 2 ^ 31 := by
  by_cases hnil : payload = []
  · simp [hnil]
  · simp only [bytesField, List.isEmpty_iff, hnil, ↓reduceIte] at h
    exact length_lt_of_lengthDelimited h

/-- A member of the `oneof`, from what its body does. -/
private theorem sets_of_written (inner : Scope) {contents : Contents}
    (hchild : child .message number = some inner) (hpos : 0 < number) (hnumber : number < 16)
    (hlength : (lengthDelimited number bs).length < 2 ^ 31) (h : Written inner bs change)
    (hchange : ∀ code, change (TcpMessage.enter inner { code := code }) =
      { code := code, contents := contents }) : Sets (lengthDelimited number bs) contents :=
  ⟨_, h.enter number (by decide) hchild hpos hnumber (length_lt_of_lengthDelimited hlength),
    hchange⟩

private theorem sets_seedlistRequest (r : SeedlistRequest)
    (hfits : (serializeContents (.seedlistRequest r)).length < 2 ^ 31) :
    Sets (serializeContents (.seedlistRequest r)) (.seedlistRequest r) := by
  apply sets_of_written .seedlistRequest rfl (by decide) (by decide) hfits
  · exact written_hash (by decide) (by decide) (by decide) r.hashedTorrent
  · intro code
    obtain ⟨hash⟩ := r
    by_cases hzero : hash = 0 <;>
      simp [hzero, TcpMessage.seedlistRequest]

private theorem sets_listRequest (r : ListRequest)
    (hfits : (serializeContents (.listRequest r)).length < 2 ^ 31) :
    Sets (serializeContents (.listRequest r)) (.listRequest r) := by
  apply sets_of_written .listRequest rfl (by decide) (by decide) hfits
  · exact written_hash (by decide) (by decide) (by decide) r.hashedTorrent
  · intro code
    obtain ⟨hash⟩ := r
    by_cases hzero : hash = 0 <;>
      simp [hzero, TcpMessage.listRequest]

private theorem sets_imASeed (r : ImASeed)
    (hfits : (serializeContents (.imASeed r)).length < 2 ^ 31) :
    Sets (serializeContents (.imASeed r)) (.imASeed r) := by
  apply sets_of_written .imASeed rfl (by decide) (by decide) hfits
  · exact (written_hash (by decide) (by decide) (by decide) r.hashedTorrent).append
      (written_uint32 (by decide) (by decide) (by decide) r.receiverPort)
  · intro code
    obtain ⟨hash, port⟩ := r
    by_cases hhash : hash = 0 <;> by_cases hport : port = 0 <;>
      simp [hhash, hport, TcpMessage.imASeed]

private theorem sets_fragmentRequest (r : FragmentRequest)
    (hfits : (serializeContents (.fragmentRequest r)).length < 2 ^ 31) :
    Sets (serializeContents (.fragmentRequest r)) (.fragmentRequest r) := by
  apply sets_of_written .fragmentRequest rfl (by decide) (by decide) hfits
  · exact (written_hash (by decide) (by decide) (by decide) r.hashedTorrent).append
      (written_uint32 (by decide) (by decide) (by decide) r.fragNum)
  · intro code
    obtain ⟨hash, num⟩ := r
    by_cases hhash : hash = 0 <;> by_cases hnum : num = 0 <;>
      simp [hhash, hnum, TcpMessage.fragmentRequest]

private theorem sets_newResponse (r : NewResponse) (hcode : r.fileCode.Canonical)
    (hfits : (serializeContents (.newResponse r)).length < 2 ^ 31) :
    Sets (serializeContents (.newResponse r)) (.newResponse r) := by
  apply sets_of_written .newResponse rfl (by decide) (by decide) hfits
  · exact (written_fileCode (by decide) (by decide) (by decide) hcode).append
      (written_hash (by decide) (by decide) (by decide) r.newHash)
  · intro code
    obtain ⟨fileCode, hash⟩ := r
    have hmod := FileCode.ofNat_signExtend hcode
    by_cases herror : fileCode = .error <;> by_cases hhash : hash = 0 <;>
      simp [herror, hhash, hmod, TcpMessage.newResponse]

private theorem sets_fragmentResponse (r : FragmentResponse) (hcode : r.fileCode.Canonical)
    (hfits : (serializeContents (.fragmentResponse r)).length < 2 ^ 31) :
    Sets (serializeContents (.fragmentResponse r)) (.fragmentResponse r) := by
  have hbody := length_lt_of_lengthDelimited hfits
  rw [List.length_append] at hbody
  have hpayload := length_lt_of_bytesField (Nat.lt_of_le_of_lt (Nat.le_add_left _ _) hbody)
  apply sets_of_written .fragmentResponse rfl (by decide) (by decide) hfits
  · exact (((written_hash (by decide) (by decide) (by decide) r.hashedTorrent).append
      (written_uint32 (by decide) (by decide) (by decide) r.fragNum)).append
      (written_fileCode (by decide) (by decide) (by decide) hcode)).append
      (written_bytesField (by decide) rfl (by decide) (by decide) hpayload)
  · intro code
    obtain ⟨hash, num, fileCode, fragment⟩ := r
    have hmod := FileCode.ofNat_signExtend hcode
    by_cases hhash : hash = 0 <;> by_cases hnum : num = 0 <;>
      by_cases herror : fileCode = .error <;> by_cases hnil : fragment = [] <;>
      simp [hhash, hnum, herror, hnil, hmod,
        TcpMessage.fragmentResponse]

private theorem sets_newRequest (r : NewRequest)
    (hfits : (serializeContents (.newRequest r)).length < 2 ^ 31) :
    Sets (serializeContents (.newRequest r)) (.newRequest r) := by
  have hbody := length_lt_of_lengthDelimited hfits
  rw [List.length_append] at hbody
  have htorrent := length_lt_of_lengthDelimited (Nat.lt_of_le_of_lt (Nat.le_add_right _ _) hbody)
  have hname : r.torrentMsg.fileName.length < 2 ^ 31 := by
    rw [List.length_append] at htorrent
    exact length_lt_of_bytesField (Nat.lt_of_le_of_lt (Nat.le_add_left _ _) htorrent)
  have hmessage : Written .torrentMsg (scalarField 1 r.torrentMsg.hashed.toNat ++
      scalarField 2 r.torrentMsg.size.toNat ++ bytesField 3 r.torrentMsg.fileName) _ :=
    ((written_hash (by decide) (by decide) (by decide) r.torrentMsg.hashed).append
      (written_uint32 (by decide) (by decide) (by decide) r.torrentMsg.size)).append
      (written_bytesField (by decide) rfl (by decide) (by decide) hname)
  apply sets_of_written .newRequest rfl (by decide) (by decide) hfits
  · exact (hmessage.enter 1 (by decide) rfl (by decide) (by decide) htorrent).append
      (written_uint32 (by decide) (by decide) (by decide) r.receiverPort)
  · intro code
    obtain ⟨⟨hash, size, name⟩, port⟩ := r
    by_cases hhash : hash = 0 <;> by_cases hsize : size = 0 <;>
      by_cases hnil : name = [] <;> by_cases hport : port = 0 <;>
      simp [hhash, hsize, hnil, hport,
        TcpMessage.newRequest]

/-- What the elements of the packed list change. -/
def addFragments (fragments : List UInt32) (m : TcpMessage) : TcpMessage :=
  fragments.foldl (fun m k ↦ setScalar .fragments 0 k.toNat m) m

/-- The packed list of fragments. -/
private theorem written_fragments (fragments : List UInt32)
    (hlength : (bytesField 3 (fragments.flatMap fun k ↦ encodeVarint 10 k.toNat)).length <
      2 ^ 31) :
    Written .listResponse (bytesField 3 (fragments.flatMap fun k ↦ encodeVarint 10 k.toNat))
      fun m ↦ if fragments = [] then m else addFragments fragments (enter .fragments m) := by
  by_cases hnil : fragments = []
  · subst hnil
    exact Writes.nil
  · have hne : (fragments.flatMap fun k ↦ encodeVarint 10 k.toNat) ≠ [] := by
      obtain ⟨k, rest, rfl⟩ := List.exists_cons_of_ne_nil hnil
      simp [encodeVarint_ne_nil]
    have hbody : Written .fragments (fragments.flatMap fun k ↦ encodeVarint 10 k.toNat)
        (addFragments fragments) := by
      apply Writes.flatMap
      intro k _
      have hk := k.toNat_lt
      exact Writes.packed rfl (by omega)
    have hshort := length_lt_of_bytesField hlength
    simp only [bytesField, List.isEmpty_iff, hne, hnil, ↓reduceIte]
    exact hbody.enter 3 (by decide) rfl (by decide) (by decide) hshort

/-- Packed elements are appended. -/
private theorem addFragments_eq (fragments : List UInt32) (code : TcpCode) (r : ListResponse) :
    addFragments fragments { code := code, contents := .listResponse r } =
      { code := code,
        contents := .listResponse { r with fragments := r.fragments ++ fragments } } := by
  unfold addFragments
  induction fragments generalizing r with
  | nil => simp
  | cons k fragments ih =>
    have hfirst : setScalar .fragments 0 k.toNat { code := code, contents := .listResponse r } =
        { code := code,
          contents := .listResponse { r with fragments := r.fragments ++ [k] } } := by
      simp [TcpMessage.listResponse]
    rw [List.foldl_cons, hfirst, ih, List.append_assoc]
    rfl

private theorem sets_listResponse (r : ListResponse) (hcode : r.fileCode.Canonical)
    (hfits : (serializeContents (.listResponse r)).length < 2 ^ 31) :
    Sets (serializeContents (.listResponse r)) (.listResponse r) := by
  have hbody := length_lt_of_lengthDelimited hfits
  rw [List.length_append] at hbody
  have hlist := written_fragments r.fragments (Nat.lt_of_le_of_lt (Nat.le_add_left _ _) hbody)
  apply sets_of_written .listResponse rfl (by decide) (by decide) hfits
  · exact ((written_hash (by decide) (by decide) (by decide) r.hashedTorrent).append
      (written_fileCode (by decide) (by decide) (by decide) hcode)).append hlist
  · intro code
    obtain ⟨hash, fileCode, fragments⟩ := r
    have hmod := FileCode.ofNat_signExtend hcode
    by_cases hhash : hash = 0 <;> by_cases herror : fileCode = .error <;>
      by_cases hnil : fragments = [] <;>
      simp [hhash, herror, hnil, hmod, TcpMessage.listResponse,
        addFragments_eq]

/-- A repeated string field is appended to. -/
private theorem written_strings (hleaf : child .clientUnavailable number = none)
    (hpos : 0 < number) (hnumber : number < 16) (payloads : List Bytes)
    (hlength : (payloads.flatMap (lengthDelimited number)).length < 2 ^ 31) :
    Written .clientUnavailable (payloads.flatMap (lengthDelimited number))
      fun m ↦ payloads.foldl (fun m payload ↦ setBytes .clientUnavailable number payload m) m := by
  apply Writes.flatMap
  intro payload hpayload
  apply written_string (by decide) hleaf hpos hnumber
  obtain ⟨before, after, rfl⟩ := List.append_of_mem hpayload
  rw [List.flatMap_append, List.flatMap_cons, List.length_append, List.length_append] at hlength
  have hone : (lengthDelimited number payload).length < 2 ^ 31 := by omega
  exact length_lt_of_lengthDelimited hone

private theorem foldl_strings (payloads : List Bytes) (code : TcpCode) (r : ClientUnavailable) :
    payloads.foldl (fun m payload ↦ setBytes .clientUnavailable 1 payload m)
        { code := code, contents := .clientUnavailable r } =
      { code := code, contents := .clientUnavailable
          { r with ipV4Addresses := r.ipV4Addresses ++ payloads } } ∧
    payloads.foldl (fun m payload ↦ setBytes .clientUnavailable 3 payload m)
        { code := code, contents := .clientUnavailable r } =
      { code := code, contents := .clientUnavailable
          { r with ipV6Addresses := r.ipV6Addresses ++ payloads } } := by
  induction payloads generalizing r with
  | nil => simp
  | cons payload payloads ih =>
    simp only [List.foldl_cons]
    constructor
    · rw [← List.singleton_append, ← List.append_assoc]
      exact (ih { r with ipV4Addresses := r.ipV4Addresses ++ [payload] }).1
    · rw [← List.singleton_append, ← List.append_assoc]
      exact (ih { r with ipV6Addresses := r.ipV6Addresses ++ [payload] }).2

private theorem sets_clientUnavailable (r : ClientUnavailable)
    (hfits : (serializeContents (.clientUnavailable r)).length < 2 ^ 31) :
    Sets (serializeContents (.clientUnavailable r)) (.clientUnavailable r) := by
  have hbody := length_lt_of_lengthDelimited hfits
  rw [List.length_append] at hbody
  apply sets_of_written .clientUnavailable rfl (by decide) (by decide) hfits
  · exact (written_strings rfl (by decide) (by decide) r.ipV4Addresses (by omega)).append
      (written_strings rfl (by decide) (by decide) r.ipV6Addresses (by omega))
  · intro code
    simp only [Function.comp, TcpMessage.enter, TcpMessage.clientUnavailable]
    rw [(foldl_strings _ _ _).1, (foldl_strings _ _ _).2]
    simp

/-- Only the last peer is changed. -/
private theorem modify_last (peers : List IpPort) (p : IpPort) (f : IpPort → IpPort) :
    (peers ++ [p]).modify peers.length f = peers ++ [f p] := by
  induction peers with
  | nil => rfl
  | cons q peers ih => rw [List.cons_append, List.length_cons, List.modify_succ_cons, ih,
      List.cons_append]

/-- A peer is appended to its list. -/
private theorem written_peer (list : PeerList) (p : IpPort) (hpos : 0 < number)
    (hnumber : number < 16) (hchild : child .seedlistResponse number = some (.peer list))
    (hlength : (lengthDelimited number (serializePeer p)).length < 2 ^ 31) :
    ∃ change, Written .seedlistResponse (lengthDelimited number (serializePeer p)) change ∧
      ∀ code r, change { code := code, contents := .seedlistResponse r } =
        { code := code, contents := .seedlistResponse (r.modify (· ++ [p]) list) } := by
  have hbody := length_lt_of_lengthDelimited hlength
  rw [serializePeer, List.length_append] at hbody
  have hip := length_lt_of_bytesField (Nat.lt_of_le_of_lt (Nat.le_add_right _ _) hbody)
  have hpeer : Written (.peer list) (serializePeer p) _ :=
    (written_bytesField (by simp) rfl (by decide) (by decide) hip).append
      (written_uint32 (by simp) (by decide) (by decide) p.port)
  refine ⟨_, hpeer.enter number (by decide) hchild hpos hnumber
    (length_lt_of_lengthDelimited hlength), ?_⟩
  intro code r
  obtain ⟨ip, port⟩ := p
  cases list <;> by_cases hip : ip = [] <;> by_cases hport : port = 0 <;>
    simp [hip, hport, TcpMessage.seedlistResponse,
      SeedlistResponse.modify, modify_last]

/-- One of the lists of peers. -/
private theorem written_peers (list : PeerList) (number : Nat) (hpos : 0 < number)
    (hnumber : number < 16) (hchild : child .seedlistResponse number = some (.peer list))
    (peers : List IpPort)
    (hlength : (peers.flatMap fun p ↦ lengthDelimited number (serializePeer p)).length < 2 ^ 31) :
    ∃ change, Written .seedlistResponse
        (peers.flatMap fun p ↦ lengthDelimited number (serializePeer p)) change ∧
      ∀ code r, change { code := code, contents := .seedlistResponse r } =
        { code := code, contents := .seedlistResponse (r.modify (· ++ peers) list) } := by
  induction peers with
  | nil =>
    refine ⟨id, Writes.nil, fun code r ↦ ?_⟩
    cases list <;> simp [SeedlistResponse.modify]
  | cons p peers ih =>
    rw [List.flatMap_cons, List.length_append] at hlength
    obtain ⟨first, hfirst, heq₁⟩ := written_peer list p hpos hnumber hchild (by omega)
    obtain ⟨rest, hrest, heq₂⟩ := ih (by omega)
    refine ⟨rest ∘ first, hfirst.append hrest, fun code r ↦ ?_⟩
    rw [Function.comp, heq₁, heq₂]
    cases list <;> simp [SeedlistResponse.modify]

private theorem sets_seedlistResponse (r : SeedlistResponse)
    (hfits : (serializeContents (.seedlistResponse r)).length < 2 ^ 31) :
    Sets (serializeContents (.seedlistResponse r)) (.seedlistResponse r) := by
  have hbody := length_lt_of_lengthDelimited hfits
  simp only [List.length_append] at hbody
  obtain ⟨seeds₄, hseeds₄, heq₁⟩ :=
    written_peers .ipV4Seeds 2 (by decide) (by decide) rfl r.ipV4Seeds (by omega)
  obtain ⟨peers₄, hpeers₄, heq₂⟩ :=
    written_peers .ipV4Peers 3 (by decide) (by decide) rfl r.ipV4Peers (by omega)
  obtain ⟨seeds₆, hseeds₆, heq₃⟩ :=
    written_peers .ipV6Seeds 4 (by decide) (by decide) rfl r.ipV6Seeds (by omega)
  obtain ⟨peers₆, hpeers₆, heq₄⟩ :=
    written_peers .ipV6Peers 5 (by decide) (by decide) rfl r.ipV6Peers (by omega)
  apply sets_of_written .seedlistResponse rfl (by decide) (by decide) hfits
  · exact ((((written_hash (by decide) (by decide) (by decide) r.hashedTorrent).append
      hseeds₄).append hpeers₄).append hseeds₆).append hpeers₆
  · intro code
    have hhash : (if r.hashedTorrent = 0 then
        ({ code := code, contents := .seedlistResponse {} } : TcpMessage)
        else setScalar .seedlistResponse 1 r.hashedTorrent.toNat
          { code := code, contents := .seedlistResponse {} }) =
        { code := code, contents := .seedlistResponse { hashedTorrent := r.hashedTorrent } } := by
      by_cases hzero : r.hashedTorrent = 0 <;> simp [hzero, TcpMessage.seedlistResponse]
    simp only [Function.comp, TcpMessage.enter, TcpMessage.seedlistResponse, hhash, heq₁, heq₂,
      heq₃, heq₄]
    simp [SeedlistResponse.modify]

/-- Every member of the `oneof` is set by its bytes. -/
theorem sets_serializeContents {code : TcpCode} {contents : Contents}
    (hcanonical : Canonical { code := code, contents := contents })
    (hfits : (serializeContents contents).length < 2 ^ 31) :
    Sets (serializeContents contents) contents := by
  cases contents with
  | unset => exact ⟨id, Writes.nil, fun _ ↦ rfl⟩
  | seedlistRequest r => exact sets_seedlistRequest r hfits
  | seedlistResponse r => exact sets_seedlistResponse r hfits
  | clientUnavailable r => exact sets_clientUnavailable r hfits
  | imASeed r => exact sets_imASeed r hfits
  | newRequest r => exact sets_newRequest r hfits
  | newResponse r => exact sets_newResponse r hcanonical.fileCode hfits
  | listRequest r => exact sets_listRequest r hfits
  | listResponse r => exact sets_listResponse r hcanonical.fileCode hfits
  | fragmentRequest r => exact sets_fragmentRequest r hfits
  | fragmentResponse r => exact sets_fragmentResponse r hcanonical.fileCode hfits

/-! ### The whole message -/

/-- What a message is written as makes it from nothing. -/
private theorem exists_written {m : TcpMessage} (hcanonical : m.Canonical) (hfits : m.Fits) :
    ∃ change, Written .message m.serialize change ∧ change {} = m := by
  obtain ⟨code, contents⟩ := m
  have hlt : code.toNat < 2 ^ 32 := hcanonical.code.2
  have hname : TcpCode.ofNat code.toNat = code := hcanonical.code.1
  have hlength : (enumField 1 code.toNat).length + (serializeContents contents).length <
      2 ^ 31 := by
    rwa [Fits, serialize, List.length_append] at hfits
  obtain ⟨change, hchange, hset⟩ := sets_serializeContents hcanonical (by omega)
  have hcode : Written .message (enumField 1 code.toNat)
      fun m ↦ if signExtend code.toNat = 0 then m
        else setScalar .message 1 (signExtend code.toNat) m :=
    Writes.scalarField rfl (by decide) (by decide) (signExtend_lt hlt)
  refine ⟨_, hcode.append hchange, ?_⟩
  have hfirst : (if signExtend code.toNat = 0 then ({} : TcpMessage) else
      setScalar .message 1 (signExtend code.toNat) {}) = { code := code } := by
    by_cases hzero : code.toNat = 0
    · have herror : code = .connError := by
        rw [← hname, hzero]
        rfl
      rw [herror]
      rfl
    · simp only [signExtend_eq_zero_iff, hzero, ↓reduceIte, setScalar, signExtend_mod hlt, hname]
  rw [Function.comp, hfirst, hset]

/-- Every message is decoded to itself, and consists of whole fields. -/
theorem decode_serialize {m : TcpMessage} (hcanonical : m.Canonical) (hfits : m.Fits) :
    Protobuf.proto3.wire.decode (Protobuf.proto3.serialize m) = m ∧
      Protobuf.proto3.wire.Whole (Protobuf.proto3.serialize m) := by
  obtain ⟨change, hwritten, hchange⟩ := exists_written hcanonical hfits
  exact ⟨(Writes.decode hwritten).trans hchange, Writes.whole rfl hwritten⟩

/-- A message with numbers only, and perhaps the payload of a fragment. -/
def Flat (m : TcpMessage) : Prop :=
  match m.contents with
  | .listResponse r => r.fragments = []
  | .seedlistResponse _ | .clientUnavailable _ | .newRequest _ => False
  | _ => True

private theorem length_member_le {payload : Bytes} {n : Nat} (h : payload.length ≤ n + 55) :
    (lengthDelimited number payload).length ≤ n + 65 := by
  have hlength := length_lengthDelimited_le number payload
  omega

/-- Such a message has few bytes beside the payload. -/
private theorem length_serialize_le {m : TcpMessage} (hflat : m.Flat) :
    m.serialize.length ≤ m.fragmentResponse.fragment.length + 100 := by
  obtain ⟨code, contents⟩ := m
  have hbody : (serializeContents contents).length ≤
      (fragmentResponse ⟨code, contents⟩).fragment.length + 65 := by
    cases contents with
    | unset => exact Nat.zero_le _
    | seedlistResponse r => exact hflat.elim
    | clientUnavailable r => exact hflat.elim
    | newRequest r => exact hflat.elim
    | seedlistRequest r =>
      have hhash := length_scalarField_le 1 r.hashedTorrent.toNat
      exact length_member_le (Nat.le_trans hhash (by omega))
    | listRequest r =>
      have hhash := length_scalarField_le 1 r.hashedTorrent.toNat
      exact length_member_le (Nat.le_trans hhash (by omega))
    | imASeed r =>
      have hhash := length_scalarField_le 1 r.hashedTorrent.toNat
      have hport := length_scalarField_le 2 r.receiverPort.toNat
      apply length_member_le
      rw [List.length_append]
      omega
    | fragmentRequest r =>
      have hhash := length_scalarField_le 1 r.hashedTorrent.toNat
      have hnumber := length_scalarField_le 2 r.fragNum.toNat
      apply length_member_le
      rw [List.length_append]
      omega
    | newResponse r =>
      have hfile := length_enumField_le 1 r.fileCode.toNat
      have hhash := length_scalarField_le 2 r.newHash.toNat
      apply length_member_le
      rw [List.length_append]
      omega
    | listResponse r =>
      have hhash := length_scalarField_le 1 r.hashedTorrent.toNat
      have hfile := length_enumField_le 2 r.fileCode.toNat
      have hnil : r.fragments = [] := hflat
      apply length_member_le
      rw [hnil, List.length_append, List.length_append]
      show _ + 0 ≤ _
      omega
    | fragmentResponse r =>
      have hhash := length_scalarField_le 1 r.hashedTorrent.toNat
      have hnumber := length_scalarField_le 2 r.fragNum.toNat
      have hfile := length_enumField_le 3 r.fileCode.toNat
      have hpayload := length_bytesField_le 4 r.fragment
      apply @length_member_le _ _ r.fragment.length
      simp only [List.length_append]
      omega
  have hcode := length_enumField_le 1 code.toNat
  show (enumField 1 code.toNat ++ serializeContents contents).length ≤ _
  rw [List.length_append]
  omega

end TcpMessage

/-- What the documentation of protobuf says about the messages of the program: a message that may be
serialized is parsed back, and its bytes are those of its fields. A field that is zero or empty has
none, and a larger number has no fewer than a smaller one. -/
structure Protobuf.Documented (pb : Protobuf) : Prop where
  decode : ∀ m : TcpMessage, m.Canonical → (pb.serialize m).length < 2 ^ 31 →
    pb.wire.decode (pb.serialize m) = m ∧ pb.wire.Whole (pb.serialize m)
  nonempty : ∀ m : TcpMessage, m.Canonical → m.code ≠ .connError → pb.serialize m ≠ []
  overhead : ∀ m : TcpMessage, m.Flat →
    (pb.serialize m).length ≤ m.fragmentResponse.fragment.length + 100
  list_le_fragment : ∀ hash fragNum,
    (pb.serialize ⟨.ccListRequest, .listRequest ⟨hash⟩⟩).length ≤
      (pb.serialize ⟨.ccFragmentRequest, .fragmentRequest ⟨hash, fragNum⟩⟩).length
  fragment_mono : ∀ hash fragNum fragNum', fragNum ≤ fragNum' →
    (pb.serialize ⟨.ccFragmentRequest, .fragmentRequest ⟨hash, fragNum⟩⟩).length ≤
      (pb.serialize ⟨.ccFragmentRequest, .fragmentRequest ⟨hash, fragNum'⟩⟩).length

open Wire in
/-- The format of proto3 is as documented. -/
theorem Protobuf.documented_proto3 : Protobuf.proto3.Documented where
  decode := fun _ hcanonical hfits ↦ TcpMessage.decode_serialize hcanonical hfits
  nonempty := by
    intro m hcanonical hcode
    have hzero : m.code.toNat ≠ 0 := by
      intro hzero
      apply hcode
      rw [← hcanonical.code.1, hzero]
      rfl
    show enumField 1 m.code.toNat ++ _ ≠ []
    simp [enumField, scalarField, signExtend_eq_zero_iff, hzero, encodeVarint_ne_nil]
  overhead := fun _ hflat ↦ TcpMessage.length_serialize_le hflat
  list_le_fragment := by
    intro hash fragNum
    show (enumField 1 7 ++ lengthDelimited 6 _).length ≤
      (enumField 1 9 ++ lengthDelimited 8 _).length
    rw [List.length_append, List.length_append]
    apply Nat.add_le_add (Nat.le_refl 2)
    apply length_lengthDelimited_mono (by decide)
    rw [List.length_append]
    exact Nat.le_add_right _ _
  fragment_mono := by
    intro hash fragNum fragNum' hle
    show (enumField 1 9 ++ lengthDelimited 8 _).length ≤
      (enumField 1 9 ++ lengthDelimited 8 _).length
    rw [List.length_append, List.length_append]
    apply Nat.add_le_add_left
    apply length_lengthDelimited_mono (by decide)
    rw [List.length_append, List.length_append]
    exact Nat.add_le_add_left (length_scalarField_mono 2 hle) _

end P2PNetwork
