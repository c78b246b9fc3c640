import P2PNetwork.Lib.Proto3
import P2PNetwork.Shared.TcpMessage

/-!
# Protobuf

What the program uses of protobuf, as a parameter: any decoder that works field by field,
any serializer. The format of proto3 for `TcpMessage.proto` is one such pair.
-/

open Lib

namespace P2PNetwork

/-- What the program uses of protobuf: the parser, the serializer, and what `ParseFromArray`
leaves in a message for a negative size. -/
structure Protobuf where
  wire : FieldDecoder TcpMessage
  serialize : TcpMessage → Bytes
  negativeSize : TcpMessage

/-- `ParseFromArray(buf, size)`: it clears the message and decodes into it; its result is not
used anywhere. -/
def Protobuf.parseFromArray (pb : Protobuf) (buf : Bytes) (size : Int) : TcpMessage :=
  if size < 0 then pb.negativeSize else pb.wire.decode (buf.take size.toNat)

/-- The numbers of `enum TcpCode` (`TcpMessage.proto:3–20`). -/
def TcpCode.ofNat : Nat → TcpCode
  | 0 => .connError
  | 1 => .unknownError
  | 2 => .ok
  | 3 => .csSeedlistRequest
  | 4 => .csSeedlistResponse
  | 5 => .csClientUnavailable
  | 6 => .csImASeed
  | 7 => .ccListRequest
  | 8 => .ccListResponse
  | 9 => .ccFragmentRequest
  | 10 => .ccFragmentResponse
  | 11 => .csNewRequest
  | 12 => .csNewResponse
  | n => .unrecognized n

def TcpCode.toNat : TcpCode → Nat
  | .connError => 0
  | .unknownError => 1
  | .ok => 2
  | .csSeedlistRequest => 3
  | .csSeedlistResponse => 4
  | .csClientUnavailable => 5
  | .csImASeed => 6
  | .ccListRequest => 7
  | .ccListResponse => 8
  | .ccFragmentRequest => 9
  | .ccFragmentResponse => 10
  | .csNewRequest => 11
  | .csNewResponse => 12
  | .unrecognized n => n

/-- The numbers of `enum FileCode` (`TcpMessage.proto:22–29`). -/
def FileCode.ofNat : Nat → FileCode
  | 0 => .error
  | 1 => .deny
  | 2 => .noFile
  | 3 => .fragMissing
  | 4 => .fragComplete
  | 5 => .fine
  | n => .unrecognized n

def FileCode.toNat : FileCode → Nat
  | .error => 0
  | .deny => 1
  | .noFile => 2
  | .fragMissing => 3
  | .fragComplete => 4
  | .fine => 5
  | .unrecognized n => n

/-- The four lists of `SeedlistResponse`. -/
inductive PeerList
  | ipV4Seeds
  | ipV4Peers
  | ipV6Seeds
  | ipV6Peers
  deriving DecidableEq, Repr

/-- Change one list of peers. -/
def SeedlistResponse.modify (r : SeedlistResponse) (f : List IpPort → List IpPort) :
    PeerList → SeedlistResponse
  | .ipV4Seeds => { r with ipV4Seeds := f r.ipV4Seeds }
  | .ipV4Peers => { r with ipV4Peers := f r.ipV4Peers }
  | .ipV6Seeds => { r with ipV6Seeds := f r.ipV6Seeds }
  | .ipV6Peers => { r with ipV6Peers := f r.ipV6Peers }

/-- The nested messages of `TcpMessage`, and its packed list. -/
inductive Scope
  | message
  | seedlistRequest
  | seedlistResponse
  | peer (list : PeerList)
  | clientUnavailable
  | imASeed
  | newRequest
  | torrentMsg
  | newResponse
  | listRequest
  | listResponse
  | fragments
  | fragmentRequest
  | fragmentResponse
  deriving DecidableEq, Repr

namespace TcpMessage

/-- The field numbers of nested messages (`TcpMessage.proto:39–114`). -/
def child : Scope → Nat → Option Scope
  | .message, 2 => some .seedlistRequest
  | .message, 3 => some .seedlistResponse
  | .message, 4 => some .clientUnavailable
  | .message, 5 => some .imASeed
  | .message, 6 => some .listRequest
  | .message, 7 => some .listResponse
  | .message, 8 => some .fragmentRequest
  | .message, 9 => some .fragmentResponse
  | .message, 10 => some .newRequest
  | .message, 11 => some .newResponse
  | .seedlistResponse, 2 => some (.peer .ipV4Seeds)
  | .seedlistResponse, 3 => some (.peer .ipV4Peers)
  | .seedlistResponse, 4 => some (.peer .ipV6Seeds)
  | .seedlistResponse, 5 => some (.peer .ipV6Peers)
  | .newRequest, 1 => some .torrentMsg
  | .listResponse, 3 => some .fragments
  | _, _ => none

/-- Opening a nested message: a member of the `oneof` replaces another one, and a repeated
message gets a new last element. -/
def enter (scope : Scope) (m : TcpMessage) : TcpMessage :=
  match scope with
  | .seedlistRequest => { m with contents := .seedlistRequest m.seedlistRequest }
  | .seedlistResponse => { m with contents := .seedlistResponse m.seedlistResponse }
  | .peer list =>
    { m with contents := .seedlistResponse (m.seedlistResponse.modify (· ++ [{}]) list) }
  | .clientUnavailable => { m with contents := .clientUnavailable m.clientUnavailable }
  | .imASeed => { m with contents := .imASeed m.imASeed }
  | .newRequest => { m with contents := .newRequest m.newRequest }
  | .newResponse => { m with contents := .newResponse m.newResponse }
  | .listRequest => { m with contents := .listRequest m.listRequest }
  | .listResponse => { m with contents := .listResponse m.listResponse }
  | .fragmentRequest => { m with contents := .fragmentRequest m.fragmentRequest }
  | .fragmentResponse => { m with contents := .fragmentResponse m.fragmentResponse }
  | .message | .torrentMsg | .fragments => m

/-- A varint field of a scope; a field the scope does not have is skipped. -/
def setScalar (scope : Scope) (number value : Nat) (m : TcpMessage) : TcpMessage :=
  match scope, number with
  | .message, 1 => { m with code := .ofNat (value % 2 ^ 32) }
  | .seedlistRequest, 1 =>
    { m with contents := .seedlistRequest { hashedTorrent := .ofNat value } }
  | .seedlistResponse, 1 =>
    { m with
      contents := .seedlistResponse { m.seedlistResponse with hashedTorrent := .ofNat value } }
  | .peer list, 2 =>
    let setPort (peers : List IpPort) := peers.modify (peers.length - 1) fun p ↦
      { p with port := .ofNat value }
    { m with contents := .seedlistResponse (m.seedlistResponse.modify setPort list) }
  | .imASeed, 1 => { m with contents := .imASeed { m.imASeed with hashedTorrent := .ofNat value } }
  | .imASeed, 2 => { m with contents := .imASeed { m.imASeed with receiverPort := .ofNat value } }
  | .newRequest, 2 =>
    { m with contents := .newRequest { m.newRequest with receiverPort := .ofNat value } }
  | .torrentMsg, 1 =>
    let torrentMsg := { m.newRequest.torrentMsg with hashed := .ofNat value }
    { m with contents := .newRequest { m.newRequest with torrentMsg := torrentMsg } }
  | .torrentMsg, 2 =>
    let torrentMsg := { m.newRequest.torrentMsg with size := .ofNat value }
    { m with contents := .newRequest { m.newRequest with torrentMsg := torrentMsg } }
  | .newResponse, 1 =>
    let fileCode := FileCode.ofNat (value % 2 ^ 32)
    { m with contents := .newResponse { m.newResponse with fileCode := fileCode } }
  | .newResponse, 2 =>
    { m with contents := .newResponse { m.newResponse with newHash := .ofNat value } }
  | .listRequest, 1 => { m with contents := .listRequest { hashedTorrent := .ofNat value } }
  | .listResponse, 1 =>
    { m with contents := .listResponse { m.listResponse with hashedTorrent := .ofNat value } }
  | .listResponse, 2 =>
    let fileCode := FileCode.ofNat (value % 2 ^ 32)
    { m with contents := .listResponse { m.listResponse with fileCode := fileCode } }
  | .listResponse, 3 | .fragments, _ =>
    let fragments := m.listResponse.fragments ++ [.ofNat value]
    { m with contents := .listResponse { m.listResponse with fragments := fragments } }
  | .fragmentRequest, 1 =>
    { m with contents := .fragmentRequest { m.fragmentRequest with hashedTorrent := .ofNat value } }
  | .fragmentRequest, 2 =>
    { m with contents := .fragmentRequest { m.fragmentRequest with fragNum := .ofNat value } }
  | .fragmentResponse, 1 =>
    { m with
      contents := .fragmentResponse { m.fragmentResponse with hashedTorrent := .ofNat value } }
  | .fragmentResponse, 2 =>
    { m with contents := .fragmentResponse { m.fragmentResponse with fragNum := .ofNat value } }
  | .fragmentResponse, 3 =>
    let fileCode := FileCode.ofNat (value % 2 ^ 32)
    { m with contents := .fragmentResponse { m.fragmentResponse with fileCode := fileCode } }
  | _, _ => m

/-- A string or bytes field of a scope. -/
def setBytes (scope : Scope) (number : Nat) (payload : Bytes) (m : TcpMessage) : TcpMessage :=
  match scope, number with
  | .peer list, 1 =>
    let setIp (peers : List IpPort) := peers.modify (peers.length - 1) fun p ↦
      { p with ip := payload }
    { m with contents := .seedlistResponse (m.seedlistResponse.modify setIp list) }
  | .clientUnavailable, 1 =>
    let r := m.clientUnavailable
    { m with
      contents := .clientUnavailable { r with ipV4Addresses := r.ipV4Addresses ++ [payload] } }
  | .clientUnavailable, 3 =>
    let r := m.clientUnavailable
    { m with
      contents := .clientUnavailable { r with ipV6Addresses := r.ipV6Addresses ++ [payload] } }
  | .torrentMsg, 3 =>
    let torrentMsg := { m.newRequest.torrentMsg with fileName := payload }
    { m with contents := .newRequest { m.newRequest with torrentMsg := torrentMsg } }
  | .fragmentResponse, 4 =>
    { m with contents := .fragmentResponse { m.fragmentResponse with fragment := payload } }
  | _, _ => m

/-- `TcpMessage.proto` as a schema. -/
def schema : Schema TcpMessage where
  Scope := Scope
  root := .message
  isPacked := (· == .fragments)
  child := child
  enter := enter
  scalar := setScalar
  bytes := setBytes
  empty := {}

open Wire

/-- The bytes of an `IpPort`. -/
def serializePeer (p : IpPort) : Bytes := bytesField 1 p.ip ++ scalarField 2 p.port.toNat

/-- The bytes of the `oneof` member that is set; a member without any field is written, too. -/
def serializeContents : Contents → Bytes
  | .unset => []
  | .seedlistRequest r => lengthDelimited 2 (scalarField 1 r.hashedTorrent.toNat)
  | .seedlistResponse r =>
    let peers (number : Nat) (list : List IpPort) :=
      list.flatMap fun p ↦ lengthDelimited number (serializePeer p)
    lengthDelimited 3 (scalarField 1 r.hashedTorrent.toNat ++ peers 2 r.ipV4Seeds ++
      peers 3 r.ipV4Peers ++ peers 4 r.ipV6Seeds ++ peers 5 r.ipV6Peers)
  | .clientUnavailable r =>
    lengthDelimited 4 (r.ipV4Addresses.flatMap (lengthDelimited 1) ++
      r.ipV6Addresses.flatMap (lengthDelimited 3))
  | .imASeed r =>
    lengthDelimited 5 (scalarField 1 r.hashedTorrent.toNat ++ scalarField 2 r.receiverPort.toNat)
  | .listRequest r => lengthDelimited 6 (scalarField 1 r.hashedTorrent.toNat)
  | .listResponse r =>
    lengthDelimited 7 (scalarField 1 r.hashedTorrent.toNat ++ enumField 2 r.fileCode.toNat ++
      bytesField 3 (r.fragments.flatMap fun k ↦ encodeVarint 10 k.toNat))
  | .fragmentRequest r =>
    lengthDelimited 8 (scalarField 1 r.hashedTorrent.toNat ++ scalarField 2 r.fragNum.toNat)
  | .fragmentResponse r =>
    lengthDelimited 9 (scalarField 1 r.hashedTorrent.toNat ++ scalarField 2 r.fragNum.toNat ++
      enumField 3 r.fileCode.toNat ++ bytesField 4 r.fragment)
  | .newRequest r =>
    lengthDelimited 10 (lengthDelimited 1 (scalarField 1 r.torrentMsg.hashed.toNat ++
      scalarField 2 r.torrentMsg.size.toNat ++ bytesField 3 r.torrentMsg.fileName) ++
      scalarField 2 r.receiverPort.toNat)
  | .newResponse r =>
    lengthDelimited 11 (enumField 1 r.fileCode.toNat ++ scalarField 2 r.newHash.toNat)

/-- `SerializeToArray`: the fields in the order of their numbers. -/
def serialize (m : TcpMessage) : Bytes := enumField 1 m.code.toNat ++ serializeContents m.contents

end TcpMessage

/-- The format of proto3. -/
def Protobuf.proto3 : Protobuf where
  wire := TcpMessage.schema.decoder
  serialize := TcpMessage.serialize
  negativeSize := {}

end P2PNetwork
