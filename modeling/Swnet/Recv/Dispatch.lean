import Swnet.Ncb

/-!
# Swnet — the receive path of a TCP link (`tcp.c`)

`tcp_prase_logic_packet`, `tcp_lb_assemble` and `tcp_dispatch_io_recv` over the two buffers
a link receives into: the 17-page buffer of its receive packet and the large-block buffer.

The state of a link under reception is a `RecvLink`: the control block, the receive packet,
whether the receive is posted, whether the link was closed, and what was observed on the
way (the events the user got, the calls of `ncb_mark_lb`). What the system decides is an
input of each step (`RecvOutcome`).
-/

namespace Swnet

open CMem

/-- A call of `ncb_mark_lb`: its sizes, and whether a large block was held at the call. -/
structure MarkCall where
  cb : Int
  currentSize : Int
  held : Bool
  deriving DecidableEq, Repr

/-- A link with its receive packet. -/
structure RecvLink where
  ncb : Ncb
  packet : Packet
  posted : Bool
  closed : Bool
  events : List Event
  marks : List MarkCall

namespace RecvLink

def raise (s : RecvLink) (es : List Event) : RecvLink := { s with events := s.events ++ es }

/-- A connected link. `tcp_entry` has zeroed the control block, and the receive is posted
for the first time. -/
def start (hld : Int) (nisCallback : Bool) (attr : BitVec 32) (tcpTst : Tst)
    (cell : Nat → Byte) : RecvLink where
  ncb := { hld, nisCallback, attr, tcpTst, lbData := none, lbCpyOffset := 0, lbLength := 0 }
  packet := recvPacket hld cell
  posted := true
  closed := false
  events := []
  marks := []

/-- `objclos` on the link and `freepkt` on its receive packet. -/
def close (s : RecvLink) : RecvLink := { s with posted := false, closed := true }

end RecvLink

/-! ## `tcp_prase_logic_packet` -/

/-- How the loop of `tcp_prase_logic_packet` is left: by a `return`, or by a `break` with
the current sizes. -/
inductive PraseExit where
  | ret (retval : Int) (s : RecvLink)
  | brk (s : RecvLink) (currentUsefuleSize currentParseOffset : Int)

/-- How many bytes of `b` a parser gets to see at `off`: the header of `cb_` bytes, or, where `cb_`
is negative and tells it nothing, whatever the buffer holds from there on. -/
def Tst.headerSize (t : Tst) (b : Block Byte) (off : Int) : Int :=
  if t.cb < 0 then b.size - off else t.cb

/-- A size that is not negative is that of the header. -/
@[simp] theorem Tst.headerSize_of_nonneg {t : Tst} (h : 0 ≤ t.cb) (b : Block Byte) (off : Int) :
    t.headerSize b off = t.cb := if_neg (by omega)

/-- The event of a complete packet at `off`: the user data, or the whole packet when
`LINKATTR_TCP_FULLY_RECEIVE` is set. -/
def tcpPraseEvent (A : Linkattr) (ncb : Ncb) (userSize : Int) (ori : Block Byte) (off : Int) :
    Exec (List Event) :=
  if attrSet ncb.attr A.tcpFullyReceive then
    ncbPostRecvdata ncb (i32 (userSize + ncb.tcpTst.cb)) ori off
  else
    ncbPostRecvdata ncb userSize ori (off + ncb.tcpTst.cb)

/-- The `while (TRUE)` loop of `tcp_prase_logic_packet`. `fuel` bounds its iterations; a run
that uses it up is a loop that does not end. -/
def tcpPraseLoop (A : Linkattr) (malloc : Option (Nat → Byte)) :
    Nat → RecvLink → Int → Int → Exec PraseExit
  | 0, _, _, _ => throw .diverged
  | fuel + 1, s, currentUsefuleSize, currentParseOffset =>
    let tst := s.ncb.tcpTst
    if currentUsefuleSize < tst.cb then return .brk s currentUsefuleSize currentParseOffset
    else do
      let ori ← deref s.packet.oriBuffer
      let parser ← deref tst.parser
      let header ← ori.load currentParseOffset (tst.headerSize ori currentParseOffset)
      match parser header with
      | none => return .ret (-1) s
      | some size =>
        let userSize := size.toInt
        if userSize > tcpMaximumPacketSize ∨ userSize < 0 then return .ret (-1) s
        else
          let totalPacketLength := i32 (userSize + tst.cb)
          -- a large packet ends the parsing: everything at hand goes to the large block
          if totalPacketLength > tcpRecvBufferSize then do
            let (retval, ncb) ← ncbMarkLb s.ncb totalPacketLength currentUsefuleSize ori
              currentParseOffset malloc
            let call := ⟨totalPacketLength, currentUsefuleSize, s.ncb.lbData.isSome⟩
            let s := { s with ncb, marks := s.marks ++ [call] }
            if retval < 0 then return .ret (-1) s
            else return .ret 0 { s with packet := { s.packet with analyzedOffset := 0 } }
          else if currentUsefuleSize < totalPacketLength then
            return .brk s currentUsefuleSize currentParseOffset
          else do
            let es ← tcpPraseEvent A s.ncb userSize ori currentParseOffset
            tcpPraseLoop A malloc fuel (s.raise es) (currentUsefuleSize - totalPacketLength)
              (currentParseOffset + totalPacketLength)

/-- The residue of a receive moves to the front of the buffer. -/
def tcpPraseResidue (ori : Block Byte) (currentUsefuleSize currentParseOffset : Int) :
    Exec (Block Byte) :=
  if currentUsefuleSize ≠ 0 ∧ currentParseOffset ≠ 0 then
    ori.copy 0 ori currentParseOffset currentUsefuleSize
  else return ori

/-- `tcp_prase_logic_packet`. -/
def tcpPraseLogicPacket (A : Linkattr) (malloc : Option (Nat → Byte)) (s : RecvLink) :
    Exec (Int × RecvLink) :=
  if s.packet.sizeForTranslation = 0 then return (-1, s)
  else do
    let currentUsefuleSize := s.packet.analyzedOffset + s.packet.sizeForTranslation
    let ori ← deref s.packet.oriBuffer
    -- no template: the whole receive is one packet
    if s.ncb.tcpTst.cb = 0 then do
      let es ← ncbPostRecvdata s.ncb currentUsefuleSize ori 0
      return (0, { s.raise es with packet := { s.packet with analyzedOffset := 0 } })
    else do
      match ← tcpPraseLoop A malloc (currentUsefuleSize.toNat + 1) s currentUsefuleSize 0 with
      | .ret retval s => return (retval, s)
      | .brk s currentUsefuleSize currentParseOffset =>
        let ori ← tcpPraseResidue ori currentUsefuleSize currentParseOffset
        return (0, { s with
          packet := { s.packet with analyzedOffset := currentUsefuleSize, oriBuffer := some ori } })

/-! ## `tcp_lb_assemble` -/

/-- `tcp_lb_assemble`: negative on failure, else the number of bytes left over behind the
large block, which then stand at the front of the receive buffer. -/
def tcpLbAssemble (ndebug : Bool) (s : RecvLink) : Exec (Int × RecvLink) :=
  let tst := s.ncb.tcpTst
  if s.packet.sizeForTranslation = 0 then return (-1, s)
  else match tst.parser with
    | none => return (-1, s)
    | some parser => do
      let currentUsefuleSize := s.packet.sizeForTranslation
      let ori ← deref s.packet.oriBuffer
      let lb ← deref s.ncb.lbData
      let header ← lb.load 0 (tst.headerSize lb 0)
      match parser header with
      | none => return (-1, s)
      | some size =>
        let userSize := size.toInt
        let logicReviseAcquireSize := i32 (userSize + tst.cb)
        let lbAcquireSize := i32 (logicReviseAcquireSize - s.ncb.lbCpyOffset)
        if currentUsefuleSize < lbAcquireSize then do
          assert ndebug (s.ncb.lbCpyOffset + currentUsefuleSize ≤ s.ncb.lbLength)
          let lb ← lb.copy s.ncb.lbCpyOffset ori 0 currentUsefuleSize
          return (0, { s with ncb := { s.ncb with
            lbData := some lb, lbCpyOffset := s.ncb.lbCpyOffset + currentUsefuleSize } })
        else do
          assert ndebug (s.ncb.lbCpyOffset + lbAcquireSize ≤ s.ncb.lbLength)
          let lb ← lb.copy s.ncb.lbCpyOffset ori 0 lbAcquireSize
          let es ← ncbPostRecvdata s.ncb userSize lb tst.cb
          let ncb ← ncbUnmarkLb ndebug { s.ncb with lbData := some lb }
          let s := { s.raise es with ncb }
          if currentUsefuleSize ≠ lbAcquireSize then do
            let ori ← ori.copy 0 ori lbAcquireSize (currentUsefuleSize - lbAcquireSize)
            return (currentUsefuleSize - lbAcquireSize, { s with packet := { s.packet with
              oriBuffer := some ori
              sizeForTranslation := s.packet.sizeForTranslation - lbAcquireSize } })
          else return (currentUsefuleSize - lbAcquireSize, s)

/-! ## `tcp_dispatch_io_recv` -/

/-- What the system answers while a receive completion is handled: whether the link can
still be referenced, the memory `ncb_mark_lb` gets, whether the receive can be posted. -/
structure RecvOutcome where
  refr : Bool
  malloc : Option (Nat → Byte)
  post : Bool

/-- The link is still there, and nothing the system is asked for fails. -/
structure RecvOutcome.Favourable (o : RecvOutcome) : Prop where
  refr : o.refr = true
  malloc : o.malloc.isSome = true
  post : o.post = true

/-- `tcp_prase_logic_packet` and the adjustment of the next receive. -/
def tcpRecvPrase (A : Linkattr) (malloc : Option (Nat → Byte)) (s : RecvLink) :
    Exec (Int × RecvLink) := do
  let (retval, s) ← tcpPraseLogicPacket A malloc s
  if retval < 0 then return (retval, s)
  else return (retval, { s with packet := { s.packet with
    irp := s.packet.analyzedOffset
    sizeForReq := tcpRecvBufferSize - s.packet.analyzedOffset } })

/-- The loop body of `tcp_dispatch_io_recv`: a pending large block is served first, and what
it leaves over is parsed like any receive. -/
def tcpRecvBody (A : Linkattr) (ndebug : Bool) (malloc : Option (Nat → Byte)) (s : RecvLink) :
    Exec (Int × RecvLink) :=
  if ncbLbMarked s.ncb then do
    let (retval, s) ← tcpLbAssemble ndebug s
    if retval ≤ 0 then return (retval, s) else tcpRecvPrase A malloc s
  else tcpRecvPrase A malloc s

/-- `tcp_dispatch_io_recv`. -/
def tcpDispatchIoRecv (A : Linkattr) (ndebug : Bool) (o : RecvOutcome) (s : RecvLink) :
    Exec RecvLink :=
  -- `tcp_shutdown_by_packet`
  if s.packet.sizeForTranslation ≤ 0 then return s.close
  -- the link was closed by somebody else: the packet is freed
  else if ¬ o.refr then return s.close
  else do
    let (retval, s) ← tcpRecvBody A ndebug o.malloc s
    if 0 ≤ retval ∧ o.post then return { s with posted := true }
    else return s.close

/-! ## Completions -/

/-- A receive completion: the bytes the system put at `irp_`, and what it answers while the
completion is handled. -/
structure RecvCompletion where
  data : List Byte
  outcome : RecvOutcome

/-- The system fills the posted buffer, and `so_dispatch_io_event` records the count. -/
def RecvLink.complete (s : RecvLink) (data : List Byte) : Exec RecvLink := do
  let ori ← deref s.packet.oriBuffer
  let ori ← ori.store s.packet.irp data
  return { s with
    posted := false
    packet := { s.packet with oriBuffer := some ori, sizeForTranslation := data.length } }

/-- One receive completion, from the system's write to the end of its dispatch. -/
def recvStep (A : Linkattr) (ndebug : Bool) (s : RecvLink) (x : RecvCompletion) :
    Exec RecvLink := do
  let s ← s.complete x.data
  tcpDispatchIoRecv A ndebug x.outcome s

/-- A run of completions. A link that was closed has no receive posted, so that nothing
more is completed on it. -/
def recvRun (A : Linkattr) (ndebug : Bool) : RecvLink → List RecvCompletion → Exec RecvLink
  | s, [] => .ok s
  | s, x :: xs =>
    if s.closed then .ok s
    else do
      let s ← recvStep A ndebug s x
      recvRun A ndebug s xs

/-- What the system can complete: at least one byte, and no more than was asked for. -/
def RecvLink.Accepts (s : RecvLink) (x : RecvCompletion) : Prop :=
  x.data ≠ [] ∧ (x.data.length : Int) ≤ s.packet.sizeForReq

/-- Every completion of a run fits what the step before it posted. -/
def RecvAdmissible (A : Linkattr) (ndebug : Bool) : RecvLink → List RecvCompletion → Prop
  | _, [] => True
  | s, x :: xs => s.closed = false →
      s.Accepts x ∧ ∀ s', recvStep A ndebug s x = .ok s' → RecvAdmissible A ndebug s' xs

end Swnet
