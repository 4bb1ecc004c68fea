import Swnet.Basic

/-!
# Swnet — packets (`packet.h`, `packet.c`)

A packet carries one request to the system and back: a send, a receive, an accept, a
connect or a pipe message. The embedding keeps the fields the modelled functions read.
The `OVERLAPPED` header, `flag_`, `from_length_` and `size_completion_` only exist for the
system calls; the `TRANSMIT_PACKETS` array belongs to the group send of UDP.

Handles are integers, as `objhld_t` is. The buffer is a `Block`; `irp_`, which points into
it, is its offset in the block.
-/

namespace Swnet

open CMem

/-- `enum proto_type_t`. -/
inductive ProtoType where
  | unknown
  | ip
  | udp
  | tcp
  | pipe
  deriving DecidableEq, Repr

/-- The value of the enumerator. -/
def ProtoType.code : ProtoType → Int
  | .unknown => -1
  | .ip => 0
  | .udp => 1
  | .tcp => 2
  | .pipe => 3

/-- The protocols have numbers of their own. -/
theorem ProtoType.code_inj {a b : ProtoType} (h : a.code = b.code) : a = b := by
  cases a <;> cases b <;> first | rfl | cases h

/-- `enum pkt_type_t`. -/
inductive PktType where
  | send
  | recv
  | syn
  | connect
  | pipe
  | unknown
  deriving DecidableEq, Repr

/-- `enum page_style_t`. -/
inductive PageStyle where
  | noAccess
  | virtualHeap
  | nonPagedPool
  deriving DecidableEq, Repr

/-- `packet_t`. -/
structure Packet where
  type : PktType
  protoType : ProtoType
  pageStyle : PageStyle
  link : Int
  acceptedLink : Int
  sizeForReq : Int
  sizeForTranslation : Int
  analyzedOffset : Int
  oriBuffer : Option (Block Byte)
  irp : Int

/-- What the allocations of `allocate_packet` answer: whether there is memory for the
packet structure, and the cells of the buffer when there is memory for it. -/
structure AllocOutcome where
  packet : Bool
  buffer : Option (Nat → Byte)

/-- `allocate_packet`: `none` when it returns -1. -/
def allocatePacket (o : AllocOutcome) (h : Int) (protoType : ProtoType) (type : PktType)
    (cbSize : Int) (pageStyle : PageStyle) : Option Packet :=
  if h < 0 then none
  else if ¬ o.packet then none
  else
    let packet (buffer : Option (Block Byte)) : Packet :=
      { type, protoType, pageStyle, link := h, acceptedLink := -1, sizeForReq := cbSize,
        sizeForTranslation := 0, analyzedOffset := 0, oriBuffer := buffer, irp := 0 }
    if 0 < cbSize then
      match pageStyle with
      | .noAccess => none
      | .virtualHeap | .nonPagedPool => o.buffer.map fun cell => packet (some ⟨cbSize.toNat, cell⟩)
    else
      match pageStyle with
      | .noAccess => some (packet none)
      | .virtualHeap | .nonPagedPool => none

/-- The receive packet of a TCP link, its whole buffer posted. -/
def recvPacket (h : Int) (cell : Nat → Byte) : Packet where
  type := .recv
  protoType := .tcp
  pageStyle := .virtualHeap
  link := h
  acceptedLink := -1
  sizeForReq := tcpRecvBufferSize
  sizeForTranslation := 0
  analyzedOffset := 0
  oriBuffer := some ⟨tcpRecvBufferSize, cell⟩
  irp := 0

/-- The first receive packet of a link has the whole buffer to receive into. -/
theorem allocatePacket_recv {h : Int} (hh : 0 ≤ h) (cell : Nat → Byte) :
    allocatePacket ⟨true, some cell⟩ h .tcp .recv tcpRecvBufferSize .virtualHeap
      = some (recvPacket h cell) := by
  have hsize : tcpRecvBufferSize ≠ 0 := by decide
  rw [allocatePacket, if_neg (show ¬ h < 0 by omega)]
  simp [hsize, recvPacket]

end Swnet
