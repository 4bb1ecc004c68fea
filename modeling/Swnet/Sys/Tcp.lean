import Swnet.Sys.Calls
import Swnet.Send.Machine

/-!
# Swnet — the functions of `tcp.c` on links, as programs

Connecting, accepting, sending, receiving, and the dispatch of completions, with the
`asio_*` requests of `packet.c`. What the receive functions do to the bytes is embedded in `Recv`,
what `tcp_try_write` does to the queue in `Send`; here they are the calls they make.

A loop without a bound of its own takes the number of its turns; where it uses them up it is
`stuck`, and goes no further. A log message that names `ncb->hld` reads it.
-/

namespace Swnet.Sys

open Jobs Jobs.Prog

def eNOENT : Int := 2

def eINVAL : Int := 22

def ePROTOTYPE : Int := 136

/-! ## Helpers -/

/-- `ncb->hld`. -/
@[simp] def ncbHld (ncb : Int) : CallProg Unit := void (.ncb ncb (.read .hld))

/-- `nis_call_ecr(…, ncb->hld)`. -/
@[simp] def nisCallEcr (ncb : Int) : CallProg Unit := ncbHld ncb

/-- `objdefr(ncb->hld)`. -/
@[simp] def objdefrHld (ncb : Int) : CallProg Unit := do
  ncbHld ncb
  void (.objdefr ncb)

/-- `objclos(ncb->hld)`. -/
@[simp] def objclosHld (ncb : Int) : CallProg Unit := do
  ncbHld ncb
  void (.objclos ncb)

/-- `tcprefr`, and `udprefr`, which answers `-ENOENT` to a negative handle. -/
def protoRefr (proto : ProtoType) (negative : Int) (hld : Int) : CallProg Int :=
  if hld < 0 then return negative
  else do
    let ncb ← perform (.objrefr hld)
    if ncb < 0 then return -eNOENT
    else do
      let type ← perform (.ncb hld .proto)
      if type = proto.code then return 0
      else do
        void (.objdefr hld)
        return -ePROTOTYPE

/-- `tcprefr`. -/
def tcprefr (hld : Int) : CallProg Int := protoRefr .tcp (-eINVAL) hld

/-! ## Requests (`packet.c`) -/

/-- `asio_tcp_accept`. -/
def asioTcpAccept (packet : IoPacket) : CallProg Int := do
  let ncbListen ← perform (.objrefr packet.link)
  if ncbListen < 0 then return -1
  else do
    let status ← perform (.ncb packet.link (.sock .wsaIoctl))
    if status < 0 then do
      nisCallEcr packet.link
      objdefrHld packet.link
      return -1
    else do
      let ncbIncome ← perform (.objrefr packet.acceptedLink)
      if ncbIncome < 0 then do
        -- nothing was posted, and the caller is told it was
        objdefrHld packet.link
        return 0
      else do
        let accepted ← perform (.post packet)
        objdefrHld packet.acceptedLink
        objdefrHld packet.link
        return if accepted < 0 then -1 else 0

/-- `asio_tcp_send`, `asio_tcp_recv` and `asio_udp_recv`: one system call on the socket of
the link of the packet. -/
def asioTransfer (packet : IoPacket) : CallProg Int := do
  let ncb ← perform (.objrefr packet.link)
  if ncb < 0 then return -1
  else do
    let retval ← perform (.post packet)
    objdefrHld packet.link
    return if retval < 0 then -1 else 0

def asioTcpSend (packet : IoPacket) : CallProg Int := asioTransfer packet

def asioTcpRecv (packet : IoPacket) : CallProg Int := asioTransfer packet

/-- `asio_tcp_connect`. -/
def asioTcpConnect (packet : IoPacket) : CallProg Int := do
  let ncb ← perform (.objrefr packet.link)
  if ncb < 0 then return -1
  else do
    let status ← perform (.ncb packet.link (.sock .wsaIoctl))
    if status < 0 then do
      objdefrHld packet.link
      return -1
    else do
      let retval ← perform (.post packet)
      objdefrHld packet.link
      return if retval < 0 then -1 else 0

/-! ## Links -/

/-- `tcp_update_opts`. -/
def tcpUpdateOpts (ncb : Int) : CallProg Unit := do
  void (.ncb ncb (.sock .setsockopt))
  void (.ncb ncb (.sock .setsockopt))
  void (.ncb ncb (.sock .setsockopt))
  void (.ncb ncb (.sock .setsockopt))
  void (.ncb ncb (.sock .setsockopt))

/-- The part of `tcp_entry` on links that are not remote. -/
def tcpEntryLocal (ncb : Int) : CallProg Int := do
  tcpUpdateOpts ncb
  void (.ncb ncb (.write .localAddr))
  let bound ← perform (.ncb ncb (.sock .bind))
  if bound < 0 then return -1
  else do
    let attached ← perform (.ncb ncb (.sock .ioatth))
    if attached < 0 then return -1 else return 0

/-- The steps of `tcp_entry` that can fail. -/
def tcpEntrySteps (ncb : Int) (remote : Bool) : CallProg Int := do
  let sockfd ← perform (.ncb ncb .soCreate)
  if sockfd < 0 then return -1
  else do
    void (.ncb ncb .initLocker)
    void (.ncb ncb .initListHead)
    void (.ncb ncb .initSizes)
    if remote then return 0 else tcpEntryLocal ncb

/-- `tcp_entry`. `ioclose` does nothing to a socket that was not created. -/
def tcpEntry (h : Int) (remote : Bool) : CallProg Int := do
  void (.ncb h .setCallback)
  void (.ncb h (.write .hld))
  let retval ← tcpEntrySteps h remote
  if retval < 0 then do
    void (.ncb h .ioclose)
    return -1
  else return 0

/-- `tcp_allocate_object`. What `objrefr` returns is only looked at by `tcp_entry`, which
fails on `NULL`. -/
def tcpAllocateObject (remote : Bool) : CallProg Int := do
  let h ← perform (.objallo .tcp remote)
  if h < 0 then return -1
  else do
    let ncb ← perform (.objrefr h)
    let retval ← if ncb < 0 then pure (-1) else tcpEntry h remote
    void (.objdefr h)
    if retval < 0 then do
      void (.objclos h)
      return -1
    else return h

/-! ## Accepting -/

/-- The loop of `tcp_syn`, with `i` rounds left. -/
def tcpSynRounds (ncbListen synPacket : Int) : Nat → CallProg Int
  | 0 => do
    objclosHld ncbListen
    return -1
  | i + 1 => do
    void (.ncb ncbListen (.read .callback))
    let h ← tcpAllocateObject true
    if h < 0 then do
      objclosHld ncbListen
      return -1
    else do
      let retval ← asioTcpAccept ⟨synPacket, .tcp, .syn, ncbListen, h, noAddr⟩
      if 0 ≤ retval then return 0
      else do
        -- the request was not posted: the object made for it goes
        void (.objclos h)
        tcpSynRounds ncbListen synPacket i

/-- `tcp_syn`. The loop condition `i++ < TCP_SYN_REQ_TIMES` allows one round more. -/
def tcpSyn (ncbListen : Int) : CallProg Int := do
  ncbHld ncbListen
  let synPacket ← perform (.allocatePacket ncbListen .tcp .syn)
  if synPacket < 0 then return -1
  else tcpSynRounds ncbListen synPacket (tcpSynReqTimes + 1)

/-- `tcp_syn_copy`, once `WSAGetAcceptExSockAddrs` is known. -/
def tcpSynCopyKnown (ncbListen ncbAccepted : Int) (irp : AcceptAddrs) : CallProg Int := do
  void (.ncb ncbListen (.read .sockfd))
  let retval ← perform (.ncb ncbAccepted (.sock .setsockopt))
  if retval < 0 then do
    nisCallEcr ncbAccepted
    return -1
  else do
    let copy ← perform (.ncb ncbListen (.read .attr))
    -- `LINKATTR_TCP_UPDATE_ACCEPT_CONTEXT`
    if copy ≠ 0 then
      void (.ncb ncbAccepted (.write .attr))
      void (.ncb ncbListen (.read .tcpTst))
      void (.ncb ncbAccepted (.write .tcpTst))
    void (.ncb ncbAccepted (.acceptAddrs irp))
    let attached ← perform (.ncb ncbAccepted (.sock .ioatth))
    if attached < 0 then do
      nisCallEcr ncbAccepted
      return -1
    else do
      ncbHld ncbAccepted
      void (.emit (.accepted ncbListen ncbAccepted))
      return 0

/-- `tcp_syn_copy`. -/
def tcpSynCopy (ncbListen ncbAccepted : Int) (irp : AcceptAddrs) : CallProg Int := do
  let known ← perform (.other .cachedPointer)
  if known < 0 then do
    let status ← perform (.ncb ncbAccepted (.sock .wsaIoctl))
    if status < 0 then do
      nisCallEcr ncbAccepted
      return -1
    else tcpSynCopyKnown ncbListen ncbAccepted irp
  else tcpSynCopyKnown ncbListen ncbAccepted irp

/-- A receive packet for the link, and its request. -/
def firstRecv (ncb : Int) : CallProg Int := do
  ncbHld ncb
  let packet ← perform (.allocatePacket ncb .tcp .recv)
  if packet < 0 then return -1 else asioTcpRecv (.plain packet .tcp .recv ncb)

/-- The block of `tcp_dispatch_io_syn` on the accepted link, once it is referenced. -/
def takeAccepted (ncbListen ncbAccepted : Int) (irp : AcceptAddrs) : CallProg Unit := do
  let retval ← tcpSynCopy ncbListen ncbAccepted irp
  let retval ← if retval < 0 then pure retval else firstRecv ncbAccepted
  if retval < 0 then objclosHld ncbAccepted
  objdefrHld ncbAccepted

/-- `tcp_dispatch_io_syn`. -/
def tcpDispatchIoSyn (packet : IoPacket) (irp : AcceptAddrs) : CallProg Unit := do
  let ncbListen ← tcprefr packet.link
  if ncbListen < 0 then return ()
  else do
    let ncbAccepted ← tcprefr packet.acceptedLink
    if 0 ≤ ncbAccepted then takeAccepted packet.link packet.acceptedLink irp
    -- the next request is made with a packet of its own; the completed one is left alone
    let retval ← tcpSyn packet.link
    if retval < 0 then objclosHld packet.link
    objdefrHld packet.link

/-- `tcp_shutdown_by_packet`, on a `kSyn` packet. -/
def tcpShutdownSyn (packet : IoPacket) : CallProg Unit := do
  let ncb ← tcprefr packet.link
  if 0 ≤ ncb then
    let _ ← tcpSyn packet.link
    objdefrHld packet.link
  void (.objclos packet.acceptedLink)
  void (.freepkt packet.packet)

/-- `tcp_shutdown_by_packet`. -/
def tcpShutdownByPacket (packet : IoPacket) : CallProg Unit :=
  match packet.type with
  | .recv | .send | .connect => do
    void (.objclos packet.link)
    void (.freepkt packet.packet)
  | .syn => tcpShutdownSyn packet
  | _ => return ()

/-! ## Sending -/

/-- The `while` loop of `tcp_try_write`: whether this thread may take a packet out. -/
def tcpWritePendingLoop (ncb : Int) : Nat → CallProg Bool
  | 0 => do
    void .stuck
    return false
  | turns + 1 => do
    let up ← perform (.ncb ncb .incPending)
    if up ≤ 1 then return true
    else do
      let down ← perform (.ncb ncb .decPending)
      if 0 < down then return false else tcpWritePendingLoop ncb turns

/-- `tcp_try_write` once there is a packet in the queue. -/
def tcpTryWriteNext (turns : Nat) (ncb : Int) : CallProg Int := do
  let first ← tcpWritePendingLoop ncb turns
  if first then do
    let next ← perform (.ncb ncb .popFront)
    void (.ncb ncb .decListSize)
    void (.ncb ncb .leaveSender)
    let retval ← asioTcpSend (.plain next .tcp .send ncb)
    -- the link goes down, and the caller is told 0 all the same
    if retval < 0 then tcpShutdownByPacket (.plain next .tcp .send ncb)
    return 0
  else do
    void (.ncb ncb .leaveSender)
    return 0

/-- `tcp_try_write`, with the packet of the caller or `NULL`. -/
def tcpTryWrite (turns : Nat) (ncb : Int) (packet : Option Int) : CallProg Int := do
  void (.ncb ncb .enterSender)
  match packet with
  | some k => do
    let size ← perform (.ncb ncb .incListSize)
    if tcpMaximumSenderCachedCntPreLink ≤ size then do
      void (.ncb ncb .decListSize)
      nisCallEcr ncb
      void (.ncb ncb .leaveSender)
      return -1
    else do
      void (.ncb ncb (.addTail k))
      tcpTryWriteNext turns ncb
  | none => do
    let empty ← perform (.ncb ncb .listEmpty)
    if empty ≠ 0 then do
      void (.ncb ncb .leaveSender)
      return -1
    else tcpTryWriteNext turns ncb

/-- The packet of `tcp_write`: its buffer filled and wrapped; negative when a step fails. -/
def tcpWritePacket (ncb : Int) (builder serializer : Bool) : CallProg Int := do
  let buffer ← perform (.other .malloc)
  if buffer < 0 then return -1
  else do
    let built ← if builder then perform (.other .builder) else pure 0
    if built < 0 then do
      void (.other .free)
      return -1
    else do
      let filled ← perform (.other (if serializer then .serializer else .memcpy))
      if serializer ∧ filled < 0 then do
        void (.other .free)
        return -1
      else do
        let packet ← perform (.allocatePacket ncb .tcp .send)
        if packet < 0 then do
          void (.other .free)
          return -1
        else return packet

/-- `tcp_write`. `origin` tells whether the pointer is not `NULL`. The buffer goes with the
packet when `tcp_try_write` refuses it. -/
def tcpWrite (turns : Nat) (lnk : Int) (origin : Bool) (cb : Int) (serializer : Bool) :
    CallProg Int :=
  if lnk = -1 ∨ cb ≤ 0 ∨ (tcpMaximumPacketSize : Int) < cb ∨ origin = false then return -1
  else do
    let ncb ← tcprefr lnk
    if ncb < 0 then return -eNOENT
    else do
      let size ← perform (.ncb lnk .readListSize)
      let retval ← if tcpMaximumSenderCachedCntPreLink ≤ size then pure (-1)
        else do
          let builder ← perform (.ncb lnk (.read .tcpTst))
          let noBuild ← if builder = 0 then pure 0 else perform (.ncb lnk (.read .attr))
          let packet ← tcpWritePacket lnk (builder ≠ 0 ∧ noBuild = 0) serializer
          if packet < 0 then pure (-1)
          else do
            let retval ← tcpTryWrite turns lnk (some packet)
            if retval < 0 then void (.freepkt packet)
            pure retval
      objdefrHld lnk
      return retval

/-- `tcp_dispatch_io_send`. -/
def tcpDispatchIoSend (packet : IoPacket) (transfer : Int) (turns : Nat) : CallProg Unit :=
  if transfer ≤ 0 then tcpShutdownByPacket packet
  else do
    let ncb ← tcprefr packet.link
    if ncb < 0 then void (.freepkt packet.packet)
    else do
      void (.ncb packet.link .decPending)
      let _ ← tcpTryWrite turns packet.link none
      void (.freepkt packet.packet)
      void (.objdefr packet.link)

/-! ## Receiving -/

/-- `tcp_lb_assemble`: negative when it fails, 0 when the block is not full yet or nothing is
left over, positive otherwise. The block is full, and delivered, when the access answers a
positive number. -/
def tcpLbAssemble (ncb : Int) : CallProg Int := do
  let filled ← perform (.ncb ncb (.read .largeBlock))
  if filled < 0 then return -1
  else if filled = 0 then return 0
  else do
    void (.emit (.receiveData ncb))
    void (.ncb ncb (.write .largeBlock))
    return filled - 1

/-- `tcp_prase_logic_packet`: each turn of its loop finds a packet and delivers it, finds that
none is complete, or fails. -/
def tcpPraseLogicPacket (ncb : Int) : Nat → CallProg Int
  | 0 => do
    void .stuck
    return 0
  | turns + 1 => do
    let found ← perform (.ncb ncb (.read .tcpTst))
    if found < 0 then return -1
    else if found = 0 then return 0
    else do
      void (.emit (.receiveData ncb))
      tcpPraseLogicPacket ncb turns

/-- The parsing of `tcp_dispatch_io_recv`: a pending large block first. -/
def tcpParse (ncb : Int) (turns : Nat) : CallProg Int := do
  let marked ← perform (.ncb ncb (.read .largeBlock))
  if marked ≠ 0 then do
    let retval ← tcpLbAssemble ncb
    if retval ≤ 0 then return retval else tcpPraseLogicPacket ncb turns
  else tcpPraseLogicPacket ncb turns

/-- `tcp_dispatch_io_recv`. -/
def tcpDispatchIoRecv (packet : IoPacket) (transfer : Int) (turns : Nat) : CallProg Unit :=
  if transfer ≤ 0 then tcpShutdownByPacket packet
  else do
    let ncb ← tcprefr packet.link
    if ncb < 0 then void (.freepkt packet.packet)
    else do
      let retval ← tcpParse packet.link turns
      -- the packet is posted again, with room behind the tail that was kept
      let retval ← if 0 ≤ retval then asioTcpRecv packet else pure retval
      if retval < 0 then do
        objclosHld packet.link
        void (.freepkt packet.packet)
      objdefrHld packet.link

/-! ## Connecting -/

/-- The wildcard parts of the local address, from the socket. -/
def updateLocalAddr (ncb : Int) : CallProg Unit := do
  let wildcard ← perform (.ncb ncb (.read .localAddr))
  if wildcard ≠ 0 then
    let named ← perform (.ncb ncb (.sock .getsockname))
    if 0 ≤ named then void (.ncb ncb (.write .localAddr))

/-- The end of `tcp_dispatch_io_connected` where no receive could be posted: the reference is
released before `ncb->hld` is read for `objclos`. -/
def connectedFailed (ncb : Int) : CallProg Unit := do
  objdefrHld ncb
  objclosHld ncb

/-- `tcp_dispatch_io_connected`, once the link is referenced and its packet is freed. -/
def tcpConnected (ncb : Int) : CallProg Unit := do
  updateLocalAddr ncb
  let updated ← perform (.ncb ncb (.sock .setsockopt))
  if 0 ≤ updated then void (.ncb ncb .getpeername)
  ncbHld ncb
  let packet ← perform (.allocatePacket ncb .tcp .recv)
  if packet < 0 then do
    nisCallEcr ncb
    connectedFailed ncb
  else do
    let retval ← asioTcpRecv (.plain packet .tcp .recv ncb)
    if retval < 0 then do
      nisCallEcr ncb
      tcpShutdownByPacket (.plain packet .tcp .recv ncb)
      connectedFailed ncb
    else do
      void (.emit (.connected ncb))
      nisCallEcr ncb
      objdefrHld ncb

/-- `tcp_dispatch_io_connected`. -/
def tcpDispatchIoConnected (packet : IoPacket) : CallProg Unit := do
  let ncb ← tcprefr packet.link
  if ncb < 0 then void (.freepkt packet.packet)
  else do
    void (.freepkt packet.packet)
    tcpConnected packet.link

/-- `tcp_connect`, once the socket is connected: 0, or the packet to free when it failed.
The event comes after the receive is posted, and before the address is written. -/
def tcpConnectDone (ncb : Int) (addr : SockaddrIn) : CallProg Int := do
  updateLocalAddr ncb
  ncbHld ncb
  let packet ← perform (.allocatePacket ncb .tcp .recv)
  if packet < 0 then return -1
  else do
    let retval ← asioTcpRecv (.plain packet .tcp .recv ncb)
    if retval < 0 then do
      void (.freepkt packet)
      return -1
    else do
      void (.emit (.connected ncb))
      void (.ncb ncb (.setRemote addr))
      return 0

/-- `tcp_connect`. `rIpstr` tells whether the string is not `NULL`; `addr` is the address it
names, with the port. -/
def tcpConnect (lnk : Int) (rIpstr : Bool) (addr : SockaddrIn) : CallProg Int :=
  if rIpstr = false ∨ addr.sinPort = 0 then return -eINVAL
  else do
    let ncb ← tcprefr lnk
    if ncb < 0 then return -1
    else do
      let parsed ← perform (.other .inetPton)
      if parsed ≤ 0 then do
        objdefrHld lnk
        return -1
      else do
        let connected ← perform (.ncb lnk (.connect addr))
        let retval ← if connected < 0 then do
            nisCallEcr lnk
            pure (-1)
          else tcpConnectDone lnk addr
        objdefrHld lnk
        return retval

/-- `tcp_connect2`, once the link is referenced. -/
def tcpConnect2Post (ncb : Int) (addr : SockaddrIn) : CallProg Int := do
  ncbHld ncb
  let packet ← perform (.allocatePacket ncb .tcp .connect)
  if packet < 0 then return -1
  else do
    let parsed ← perform (.other .inetPton)
    let retval ← if parsed ≤ 0 then pure (-1)
      else asioTcpConnect ⟨packet, .tcp, .connect, ncb, -1, addr⟩
    -- a request that was not posted leaves its packet here
    if retval < 0 then do
      void (.freepkt packet)
      return -1
    else return 0

/-- `tcp_connect2`. -/
def tcpConnect2 (lnk : Int) (rIpstr : Bool) (addr : SockaddrIn) : CallProg Int :=
  if rIpstr = false ∨ addr.sinPort = 0 then return -eINVAL
  else do
    let ncb ← tcprefr lnk
    if ncb < 0 then return -1
    else do
      let retval ← tcpConnect2Post lnk addr
      objdefrHld lnk
      return retval

/-! ## Dispatch -/

/-- `tcp_dispatch_io_exception` on a send packet: whether the link goes down. -/
def tcpExceptionSend (packet : IoPacket) (status : NtStatus) (turns : Nat) : CallProg Unit :=
  if endsLink status then tcpShutdownByPacket packet
  else do
    void (.ncb packet.link .decPending)
    void (.freepkt packet.packet)
    let _ ← tcpTryWrite turns packet.link none
    return ()

/-- `tcp_dispatch_io_exception`. -/
def tcpDispatchIoException (packet : IoPacket) (status : NtStatus) (turns : Nat) :
    CallProg Unit := do
  let ncb ← tcprefr packet.link
  if ncb < 0 then void (.freepkt packet.packet)
  else do
    if packet.type = .send then tcpExceptionSend packet status turns
    else tcpShutdownByPacket packet
    objdefrHld packet.link

/-- `tcp_dispatch_io_event`. -/
def tcpDispatchIoEvent (packet : IoPacket) (status : NtStatus) (transfer : Int) (turns : Nat)
    (irp : AcceptAddrs) : CallProg Unit :=
  if ntSuccess status then
    match packet.type with
    | .syn => tcpDispatchIoSyn packet irp
    | .recv => tcpDispatchIoRecv packet transfer turns
    | .send => tcpDispatchIoSend packet transfer turns
    | .connect => tcpDispatchIoConnected packet
    | _ => return ()
  else tcpDispatchIoException packet status turns

/-! ## Calls of the user -/

/-- `tcp_create`. -/
def tcpCreate (userCallback lIpstr : Bool) : CallProg Int :=
  if userCallback = false then return -1
  else do
    let parsed ← if lIpstr then perform (.other .inetPton) else pure 1
    if parsed ≤ 0 then return -1 else tcpAllocateObject false

/-- `tcp_destroy`. -/
def tcpDestroy (lnk : Int) : CallProg Int := do
  let ncb ← perform (.objreff lnk)
  if ncb < 0 then return 0
  else do
    nisCallEcr lnk
    -- the object is closed, but referenced here until the socket is closed
    void (.ncb lnk .ioclose)
    void (.objdefr lnk)
    return 0

/-- The loop of `tcp_listen` once `i` is 1 and `n` rounds may follow. -/
def tcpListenRounds (ncb : Int) : Nat → CallProg Int
  | 0 => tcpSyn ncb
  | n + 1 => do
    let retval ← tcpSyn ncb
    if retval < 0 then return retval else tcpListenRounds ncb n

/-- `tcp_listen`. -/
def tcpListen (lnk block : Int) : CallProg Int := do
  let ncb ← tcprefr lnk
  if ncb < 0 then return -1
  else do
    let block := if block = 0 then tcpListenBlockCount else block
    let retval ← perform (.ncb lnk (.sock .listen))
    let retval ← if retval < 0 then pure retval else tcpListenRounds lnk (block - 1).toNat
    objdefrHld lnk
    return retval

/-- `tcp_awaken` and `udp_awaken`, which are the same code: `data` tells whether the pointer
is not `NULL`. Nothing releases the reference. -/
def awaken (link : Int) (data : Bool) (cb : Int) : CallProg Int := do
  let ncb ← perform (.objrefr link)
  if ncb < 0 then return -eNOENT
  else do
    ncbHld link
    let epfd ← perform (.other .pipeFd)
    if epfd < 0 then return -1
    else do
      let buffer ← if 0 < cb ∧ data then perform (.other .malloc) else pure 0
      if buffer < 0 then return -1
      else do
        let packet ← perform (.allocatePacket link .pipe .pipe)
        if packet < 0 then do
          void (.other .free)
          return -1
        else do
          void (.other .memcpy)
          let posted ← perform (.post (.plain packet .pipe .pipe link))
          if posted < 0 then do
            void (.freepkt packet)
            return -1
          else return 0

def tcpAwaken (link : Int) (data : Bool) (cb : Int) : CallProg Int := awaken link data cb

/-- A function that references a link with `refr`, makes one access to its control block and
releases it with `defr`: the shape of the getters and setters. It answers `failed r` when the
link cannot be referenced, and `result` of what the access gave otherwise. -/
def withLink (refr : CallProg Int) (failed : Int → Int) (body : CallProg Int)
    (defr : CallProg Unit) : CallProg Int := do
  let ncb ← refr
  if ncb < 0 then return failed ncb
  else do
    let retval ← body
    defr
    return retval

/-- `tcp_settst`. -/
def tcpSettst (lnk : Int) (tst : Bool) : CallProg Int :=
  if tst = false then return -1
  else withLink (tcprefr lnk) (fun _ => -1)
    (do
      void (.ncb lnk (.write .tcpTst))
      return 0)
    (objdefrHld lnk)

/-- `tcp_settst_r`, on a template of size `cb`. -/
def tcpSettstR (lnk : Int) (tst : Bool) (cb : Int) : CallProg Int :=
  if tst = false then return -eINVAL
  else if (tcpMaximumTemplateSize : Int) < cb then return -eINVAL
  else withLink (tcprefr lnk) id
    (do
      void (.ncb lnk (.write .tcpTst))
      return 0)
    (void (.objdefr lnk))

/-- `tcp_gettst`. -/
def tcpGettst (lnk : Int) : CallProg Int :=
  withLink (tcprefr lnk) (fun _ => -1)
    (do
      void (.ncb lnk (.read .tcpTst))
      return 0)
    (objdefrHld lnk)

/-- `tcp_gettst_r`. -/
def tcpGettstR (lnk : Int) (tst : Bool) : CallProg Int :=
  if tst = false then return -eINVAL
  else withLink (tcprefr lnk) id
    (do
      void (.ncb lnk (.read .tcpTst))
      return 0)
    (void (.objdefr lnk))

/-- `tcp_getaddr`. `kind` is `some true` for the local address, `some false` for the remote
one, `none` for a type that is neither. -/
def tcpGetaddr (lnk : Int) (ptrs : Bool) (kind : Option Bool) : CallProg Int :=
  if lnk = -1 ∨ ptrs = false then return -1
  else withLink (tcprefr lnk) (fun _ => -1)
    (match kind with
      | some true => do
        void (.ncb lnk (.read .localAddr))
        return 0
      | some false => do
        void (.ncb lnk (.read .remoteAddr))
        return 0
      | none => return -1)
    (objdefrHld lnk)

/-- `tcp_setopt` and `tcp_getopt`: one call on the socket. -/
def tcpSockopt (c : SockCall) (lnk : Int) (ptrs : Bool) : CallProg Int :=
  if lnk = -1 ∨ ptrs = false then return -1
  else withLink (tcprefr lnk) (fun _ => -1)
    (do
      let type ← perform (.ncb lnk .proto)
      if type = ProtoType.tcp.code then do
        let retval ← perform (.ncb lnk (.sock c))
        if retval = -1 then nisCallEcr lnk
        return retval
      else return -1)
    (objdefrHld lnk)

def tcpSetopt (lnk : Int) (val : Bool) : CallProg Int := tcpSockopt .setsockopt lnk val

def tcpGetopt (lnk : Int) (ptrs : Bool) : CallProg Int := tcpSockopt .getsockopt lnk ptrs

/-- `tcp_setattr`. `valid` tells whether the attribute is one of the three. -/
def tcpSetattr (lnk : Int) (valid : Bool) : CallProg Int :=
  withLink (tcprefr lnk) id
    (if valid then do
      void (.ncb lnk (.write .attr))
      return 0
    else return -eINVAL)
    (void (.objdefr lnk))

/-- `tcp_getattr`. -/
def tcpGetattr (lnk : Int) : CallProg Int :=
  withLink (tcprefr lnk) id
    (do
      void (.ncb lnk (.read .attr))
      return 0)
    (void (.objdefr lnk))

end Swnet.Sys
