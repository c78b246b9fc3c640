import P2PNetwork.Shared.TcpMessage

/-!
# Addresses and connections

`src/shared/sharedUtils.h` and `sharedUtils.cpp`. A connection is what `getpeername`
tells about it: the remote address, and the remote source port in network byte order.
-/

namespace P2PNetwork

/-- `struct IpAddress` (`sharedUtils.h:16–27`); its `operator==` compares both fields. -/
structure IpAddress where
  ip : Bytes
  port : UInt32
  deriving DecidableEq, Repr, Inhabited

/-- `struct Ips` (`sharedUtils.h:50–53`). -/
structure Ips where
  ipv4s : List Bytes
  ipv6s : List Bytes
  deriving DecidableEq, Repr, Inhabited

/-- `enum eSocketState` (`sharedUtils.h:29–38`). -/
inductive SocketState
  | error
  | cannotConnect
  | invalidAddress
  | closed
  | open
  | timedOut
  | sent
  | recvd
  deriving DecidableEq, Repr, Inhabited

/-- Swap the bytes of a port: `htons` and `ntohs` on a little-endian host. -/
def htons (port : UInt16) : UInt16 := UInt16.ofNat (port.toNat % 256 * 256 + port.toNat / 256)

/-- An accepted connection: the peer's address and the source port it connected from. -/
structure Connection where
  peerIp : Bytes
  peerPort : UInt16
  deriving DecidableEq, Repr, Inhabited

/-- `getConnectedIp` (`sharedUtils.cpp:30–35`). -/
def getConnectedIp (conn : Connection) : Bytes := conn.peerIp

/-- `getConnectedPort` (`sharedUtils.cpp:37–42`): `sin_port` as it stands, in network
byte order. -/
def getConnectedPort (conn : Connection) : UInt32 := (htons conn.peerPort).toUInt32

end P2PNetwork
