import Swnet.Lib.Memory

/-!
# Swnet — constants, machine integers and the protocol template

What every module of the development shares: the constants of `tcp.c`, C's 32-bit signed
arithmetic, the status codes, the attribute bits of a link and the protocol template `tst_t`.

`nis.h` is not part of the repository. What the code takes from it stays a parameter: the
bit values of the `LINKATTR_TCP_*` constants (`Linkattr`), and the three callback types of
a template, which are functions on the bytes they are handed.
-/

namespace Swnet

open CMem

abbrev Byte := UInt8

/-! ## Constants -/

def pageSize : Nat := 4096

def tcpRecvBufferSize : Nat := 17 * pageSize

def tcpMaximumPacketSize : Nat := 50 <<< 20

def tcpMaximumTemplateSize : Nat := 32

def tcpListenBlockCount : Int := 5

def tcpSynReqTimes : Nat := 150

def tcpMaximumSenderCachedCntPreLink : Int := 500

theorem tcpRecvBufferSize_eq : tcpRecvBufferSize = 69632 := rfl

theorem tcpMaximumPacketSize_eq : tcpMaximumPacketSize = 52428800 := rfl

/-! ## Error numbers -/

def eagain : Int := 11

def enomem : Int := 12

def einval : Int := 22

/-! ## 32-bit signed arithmetic -/

/-- The value an `int` holds after a computation that gave `x`. -/
def i32 (x : Int) : Int := Int.bmod x (2 ^ 32)

/-- An `int` that does not overflow. -/
theorem i32_of_bounds {x : Int} (h₁ : -2147483648 ≤ x) (h₂ : x < 2147483648) : i32 x = x := by
  rw [i32, Int.bmod_eq_of_le] <;> omega

/-! ## Status codes -/

abbrev NtStatus := Int32

/-- `NT_SUCCESS`. -/
def ntSuccess (status : NtStatus) : Bool := 0 ≤ status.toInt

def statusRemoteDisconnect : NtStatus := (0xC000013C : UInt32).toInt32

def statusConnectionDisconnected : NtStatus := (0xC000020C : UInt32).toInt32

def statusConnectionReset : NtStatus := (0xC000020D : UInt32).toInt32

/-! ## Link attributes -/

/-- The attribute bits `nis.h` defines for TCP links. -/
structure Linkattr where
  tcpFullyReceive : BitVec 32
  tcpNoBuild : BitVec 32
  tcpUpdateAcceptContext : BitVec 32

/-- `attr & bit`, as a condition. -/
def attrSet (attr bit : BitVec 32) : Bool := attr &&& bit != 0

/-! ## The protocol template -/

/-- `tst_t`. The parser is handed the header bytes and yields the user size, `none` when it
fails; the builder is handed the size of the user data and yields the bytes it puts at the
front of the packet, `none` when it fails. -/
structure Tst where
  cb : Int
  builder : Option (Int → Option (List Byte))
  parser : Option (List Byte → Option Int32)

/-- `nis_serializer_t`: the bytes put at the destination, out of the origin and the number
of bytes asked for; `none` when it fails. -/
abbrev NisSerializer := Block Byte → Int → Option (List Byte)

end Swnet
