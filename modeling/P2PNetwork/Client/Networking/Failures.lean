import P2PNetwork.Client.Networking.CSocket
import P2PNetwork.Client.Networking.SSocket
import P2PNetwork.Lib.Run

/-!
# Requests that fail

The five requests of `src/client/networking/SSocket.cpp` and `CSocket.cpp` that have a response, one
after the other on a socket, whatever their system calls return. A failed `send` leaves the state
SENT, a failed `read` leaves RECVD, and no message says which request it answers, so what is read
then is taken for the response.
-/

open Lib

namespace P2PNetwork.Client

/-- A request that has a response. -/
inductive Request
  | sendOk
  | sendNewTorrentRequest (torrent : Torrent)
  | sendSeedlistRequest (hashedTorrent : Hash)
  | requestFragmentsList (torrent : Torrent)
  | requestFragment (torrent : Torrent) (fragNum : UInt32)
  deriving DecidableEq, Repr

/-- What the system calls of a request return: `sendTcpMsg` the number of bytes or -1, and then
`select` and `read`. What is read may be the answer to a request, the first of which on a socket has
the number 0; no message says which. -/
structure Outcome where
  bytesSent : Int
  select : Select
  answers : Option Nat

namespace Outcome

end Outcome

/-- A socket, and how many requests have been made on it. -/
structure Requesting where
  socket : BaseSocket
  made : Nat

namespace Request

/-- The type of the response. -/
abbrev Response : Request → Type
  | sendOk => TcpCode
  | sendNewTorrentRequest _ => Hash
  | sendSeedlistRequest _ => SeedlistResponse
  | requestFragmentsList _ => ListResponse
  | requestFragment _ _ => FragmentResponse

/-- The value that stands for failure. -/
def failure : (r : Request) → r.Response
  | sendOk => .connError
  | sendNewTorrentRequest _ => 0
  | sendSeedlistRequest _ => {}
  | requestFragmentsList _ => { fileCode := .error }
  | requestFragment _ _ => { fileCode := .error }

variable (pb : Protobuf) (responderPort : UInt32)

/-- The call. -/
def perform (s : BaseSocket) (bytesSent : Int) (select : Select) :
    (r : Request) → Option (Exchange r.Response)
  | sendOk => some (SSocket.sendOk pb s bytesSent select)
  | sendNewTorrentRequest torrent =>
    some (SSocket.sendNewTorrentRequest pb responderPort s torrent bytesSent select)
  | sendSeedlistRequest hashedTorrent =>
    SSocket.sendSeedlistRequest pb s hashedTorrent bytesSent select
  | requestFragmentsList torrent =>
    some (CSocket.requestFragmentsList pb s torrent bytesSent select)
  | requestFragment torrent fragNum =>
    some (CSocket.requestFragment pb s torrent fragNum bytesSent select)

/-- A message that the request returns something of, other than the value for failure. -/
def Answers (m : TcpMessage) : Request → Prop
  | sendOk => m.code ≠ .connError
  | sendNewTorrentRequest _ => m.code = .csNewResponse ∧ m.newResponse.newHash ≠ 0
  | sendSeedlistRequest _ => m.code = .csSeedlistResponse
  | requestFragmentsList _ => m.code = .ccListResponse ∧ m.listResponse ≠ { fileCode := .error }
  | requestFragment _ _ =>
    m.code = .ccFragmentResponse ∧ m.fragmentResponse ≠ { fileCode := .error }

/-- One request after the other on a socket. -/
def step (s : Requesting) (call : Request × Outcome) : Option Requesting :=
  (call.1.perform pb responderPort s.socket call.2.bytesSent call.2.select).map fun e ↦
    ⟨e.socket, s.made + 1⟩

variable {pb : Protobuf} {responderPort : UInt32}

end Request

end P2PNetwork.Client
