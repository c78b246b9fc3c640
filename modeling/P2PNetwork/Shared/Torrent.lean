import P2PNetwork.Shared.TcpMessage

/-!
# Torrents

`src/shared/Torrent.h` and `Torrent.cpp`: the description of a shared file and the
hashes a tracker gives it. `std::hash<std::string>` is an arbitrary function `hash`.
-/

namespace P2PNetwork

/-- `class Torrent` (`Torrent.h:15–38`). -/
structure Torrent where
  hashed : Hash
  size : UInt32
  fileName : Bytes
  hasPath : Bool := false
  currentPath : Bytes := []
  deriving DecidableEq, Repr, Inhabited

namespace Torrent

/-- `Torrent()` (`Torrent.cpp:14–18`). -/
def empty : Torrent where
  hashed := 0
  size := 0
  fileName := []

/-- `Torrent(const TorrentMessage &msg)` (`Torrent.cpp:27–31`). -/
def ofMsg (msg : TorrentMessage) : Torrent where
  hashed := msg.hashed
  size := msg.size
  fileName := msg.fileName

/-- `toMsg` (`Torrent.cpp:33–39`). -/
def toMsg (t : Torrent) : TorrentMessage where
  hashed := t.hashed
  size := t.size
  fileName := t.fileName

/-- `std::to_string` of an unsigned number: its decimal digits. -/
def toDecimal (n : UInt32) : Bytes :=
  (Nat.toDigits 10 n.toNat).map fun c ↦ UInt8.ofNat c.toNat

variable (hash : Bytes → Hash)

/-- `genDefaultHash` (`Torrent.cpp:6–8`). -/
def genDefaultHash (t : Torrent) : Torrent := { t with hashed := hash t.fileName }

/-- `genSaltedHash` (`Torrent.cpp:10–12`): `append` changes the file name in place. -/
def genSaltedHash (t : Torrent) (salt : UInt32) : Torrent :=
  let fileName := t.fileName ++ toDecimal salt
  { t with fileName := fileName, hashed := hash fileName }

/-- `operator==` (`Torrent.cpp:82–84`). -/
def same (t other : Torrent) : Bool :=
  t.hashed == other.hashed && t.size == other.size && t.fileName == other.fileName

theorem same_self (t : Torrent) : t.same t = true := by simp [same]

/-- A torrent survives the message that carries it, apart from its local path. -/
theorem ofMsg_toMsg (t : Torrent) :
    ofMsg t.toMsg = { t with hasPath := false, currentPath := [] } :=
  rfl

end Torrent

end P2PNetwork
