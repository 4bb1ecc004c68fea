import Swnet.Packet

/-!
# Swnet — what `tcp_write` puts in its buffer (`tcp.c`)

The sequential half of `tcp_write`: the checks of its arguments, the length of the packet
and the bytes of the buffer. The order of its steps among those of other threads is the
subject of `Swnet.Send.Machine`.
-/

namespace Swnet

open CMem

/-- A call of `tcp_write`: its arguments, the template and the attributes it finds on the
link, and what its allocations answer. `packet` is the answer `allocate_packet` gets. -/
structure WriteCall where
  origin : Option (Block Byte)
  cb : Int
  serializer : Option NisSerializer
  tcpTst : Tst
  attr : BitVec 32
  malloc : Option (Nat → Byte)
  packet : Bool

namespace WriteCall

variable (A : Linkattr) (c : WriteCall)

/-- The arguments `tcp_write` turns down. -/
def rejected : Bool := c.cb ≤ 0 || tcpMaximumPacketSize < c.cb || c.origin.isNone

/-- The builder of the packet, when there is one and the link wants it called. -/
def builder : Option (Int → Option (List Byte)) :=
  if attrSet c.attr A.tcpNoBuild then none else c.tcpTst.builder

def totalPacketLength : Int :=
  match c.builder A with
  | none => c.cb
  | some _ => i32 (c.tcpTst.cb + c.cb)

/-- The user data at `off`: what the serializer makes of the origin, or the origin itself.
The serializer is told the size `asked`, the copy takes the whole origin. -/
def fillBody (buffer : Block Byte) (off asked : Int) : Exec (Option (Block Byte)) := do
  let origin ← deref c.origin
  match c.serializer with
  | some serializer =>
    match serializer origin asked with
    | none => return none
    | some data => do
      let buffer ← buffer.store off data
      return some buffer
  | none => do
    let buffer ← buffer.copy off origin 0 c.cb
    return some buffer

/-- The buffer as `tcp_write` fills it; `none` when the builder or the serializer fails. -/
def fill (buffer : Block Byte) : Exec (Option (Block Byte)) :=
  match c.builder A with
  | none => c.fillBody buffer 0 c.cb
  | some builder =>
    match builder c.cb with
    | none => return none
    | some header => do
      let buffer ← buffer.store 0 header
      c.fillBody buffer c.tcpTst.cb (c.cb - c.tcpTst.cb)

/-- The buffer of the call once it is filled. -/
def buffer : Exec (Option (Block Byte)) :=
  match c.malloc with
  | none => return none
  | some cell => c.fill A ⟨(c.totalPacketLength A).toNat, cell⟩

/-- The bytes the call hands to the transport. -/
def bytes : List Byte :=
  match c.buffer A with
  | .ok (some b) => b.read 0 (c.totalPacketLength A).toNat
  | _ => []

/-- A call for `data` on a link without a template, with everything it asks for granted. -/
def raw (data : List Byte) : WriteCall where
  origin := some ⟨data.length, fun i => data.getD i 0⟩
  cb := data.length
  serializer := none
  tcpTst := ⟨0, none, none⟩
  attr := 0
  malloc := some fun _ => 0
  packet := true

/-- The payload may go out of bounds, but into live memory. -/
theorem fillBody_safe (b : Block Byte) (off asked : Int) :
    LifetimeSafe (fun _ => True) (c.fillBody b off asked) := by
  refine (deref_safe c.origin).bind fun origin _ => ?_
  cases c.serializer with
  | none => exact (b.copy_safe _ _ _ _).bind fun _ _ => trivial
  | some serializer =>
    dsimp only
    cases serializer origin asked with
    | none => exact trivial
    | some data => exact (b.store_safe _ _).bind fun _ _ => trivial

theorem fill_safe (b : Block Byte) : LifetimeSafe (fun _ => True) (c.fill A b) := by
  unfold fill
  cases c.builder A with
  | none => exact c.fillBody_safe b _ _
  | some builder =>
    dsimp only
    cases builder c.cb with
    | none => exact trivial
    | some header => exact (b.store_safe _ _).bind fun b' _ => c.fillBody_safe b' _ _

end WriteCall

end Swnet
