import P2PNetwork.Shared.GeneralTypes

/-!
# Messages of the protocol

`src/shared/protoc/TcpMessage.proto`. Enumerations of proto3 are open: a number that
names no constant is kept. Absent scalar fields read as zero, absent strings and lists
as empty, and an absent `oneof` member as its default message.
-/

namespace P2PNetwork

/-- `enum TcpCode` (`TcpMessage.proto:3–20`). -/
inductive TcpCode
  | connError
  | unknownError
  | ok
  | csSeedlistRequest
  | csSeedlistResponse
  | csClientUnavailable
  | csImASeed
  | csNewRequest
  | csNewResponse
  | ccListRequest
  | ccListResponse
  | ccFragmentRequest
  | ccFragmentResponse
  | unrecognized (value : Nat)
  deriving DecidableEq, Repr, Inhabited

/-- `enum FileCode` (`TcpMessage.proto:22–29`). -/
inductive FileCode
  | error
  | deny
  | noFile
  | fragMissing
  | fragComplete
  | fine
  | unrecognized (value : Nat)
  deriving DecidableEq, Repr, Inhabited

/-- `message TorrentMessage` (`TcpMessage.proto:31–35`). -/
structure TorrentMessage where
  hashed : Hash := 0
  size : UInt32 := 0
  fileName : Bytes := []
  deriving DecidableEq, Repr, Inhabited

/-- `message SeedlistRequest` (`TcpMessage.proto:55–57`). -/
structure SeedlistRequest where
  hashedTorrent : Hash := 0
  deriving DecidableEq, Repr, Inhabited

/-- `message IpPort` (`TcpMessage.proto:59–62`). -/
structure IpPort where
  ip : Bytes := []
  port : UInt32 := 0
  deriving DecidableEq, Repr, Inhabited

/-- `message SeedlistResponse` (`TcpMessage.proto:64–70`). -/
structure SeedlistResponse where
  hashedTorrent : Hash := 0
  ipV4Seeds : List IpPort := []
  ipV4Peers : List IpPort := []
  ipV6Seeds : List IpPort := []
  ipV6Peers : List IpPort := []
  deriving DecidableEq, Repr, Inhabited

/-- `message ClientUnavailable` (`TcpMessage.proto:72–75`). -/
structure ClientUnavailable where
  ipV4Addresses : List Bytes := []
  ipV6Addresses : List Bytes := []
  deriving DecidableEq, Repr, Inhabited

/-- `message ImASeed` (`TcpMessage.proto:77–80`). -/
structure ImASeed where
  hashedTorrent : Hash := 0
  receiverPort : UInt32 := 0
  deriving DecidableEq, Repr, Inhabited

/-- `message NewRequest` (`TcpMessage.proto:82–85`). -/
structure NewRequest where
  torrentMsg : TorrentMessage := {}
  receiverPort : UInt32 := 0
  deriving DecidableEq, Repr, Inhabited

/-- `message NewResponse` (`TcpMessage.proto:87–90`). -/
structure NewResponse where
  fileCode : FileCode := .error
  newHash : Hash := 0
  deriving DecidableEq, Repr, Inhabited

/-- `message ListRequest` (`TcpMessage.proto:94–96`). -/
structure ListRequest where
  hashedTorrent : Hash := 0
  deriving DecidableEq, Repr, Inhabited

/-- `message ListResponse` (`TcpMessage.proto:98–102`). -/
structure ListResponse where
  hashedTorrent : Hash := 0
  fileCode : FileCode := .error
  fragments : List UInt32 := []
  deriving DecidableEq, Repr, Inhabited

/-- `message FragmentRequest` (`TcpMessage.proto:104–107`). -/
structure FragmentRequest where
  hashedTorrent : Hash := 0
  fragNum : UInt32 := 0
  deriving DecidableEq, Repr, Inhabited

/-- `message FragmentResponse` (`TcpMessage.proto:109–114`). -/
structure FragmentResponse where
  hashedTorrent : Hash := 0
  fragNum : UInt32 := 0
  fileCode : FileCode := .error
  fragment : Bytes := []
  deriving DecidableEq, Repr, Inhabited

/-- `oneof contents` of `TcpMessage` (`TcpMessage.proto:39–52`). -/
inductive Contents
  | unset
  | seedlistRequest (m : SeedlistRequest)
  | seedlistResponse (m : SeedlistResponse)
  | clientUnavailable (m : ClientUnavailable)
  | imASeed (m : ImASeed)
  | newRequest (m : NewRequest)
  | newResponse (m : NewResponse)
  | listRequest (m : ListRequest)
  | listResponse (m : ListResponse)
  | fragmentRequest (m : FragmentRequest)
  | fragmentResponse (m : FragmentResponse)
  deriving DecidableEq, Repr, Inhabited

/-- `message TcpMessage` (`TcpMessage.proto:37–53`). -/
structure TcpMessage where
  code : TcpCode := .connError
  contents : Contents := .unset
  deriving DecidableEq, Repr, Inhabited

namespace TcpMessage

variable (m : TcpMessage)

/-- `seedlistrequest()`. -/
def seedlistRequest : SeedlistRequest :=
  match m.contents with
  | .seedlistRequest r => r
  | _ => {}

/-- `seedlistresponse()`. -/
def seedlistResponse : SeedlistResponse :=
  match m.contents with
  | .seedlistResponse r => r
  | _ => {}

/-- `clientunavailable()`. -/
def clientUnavailable : ClientUnavailable :=
  match m.contents with
  | .clientUnavailable r => r
  | _ => {}

/-- `imaseed()`. -/
def imASeed : ImASeed :=
  match m.contents with
  | .imASeed r => r
  | _ => {}

/-- `newrequest()`. -/
def newRequest : NewRequest :=
  match m.contents with
  | .newRequest r => r
  | _ => {}

/-- `newresponse()`. -/
def newResponse : NewResponse :=
  match m.contents with
  | .newResponse r => r
  | _ => {}

/-- `listrequest()`. -/
def listRequest : ListRequest :=
  match m.contents with
  | .listRequest r => r
  | _ => {}

/-- `listresponse()`. -/
def listResponse : ListResponse :=
  match m.contents with
  | .listResponse r => r
  | _ => {}

/-- `fragmentrequest()`. -/
def fragmentRequest : FragmentRequest :=
  match m.contents with
  | .fragmentRequest r => r
  | _ => {}

/-- `fragmentresponse()`. -/
def fragmentResponse : FragmentResponse :=
  match m.contents with
  | .fragmentResponse r => r
  | _ => {}

end TcpMessage

end P2PNetwork
