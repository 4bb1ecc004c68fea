import Swnet.Sys.Tcp

/-!
# Swnet — the functions of `udp.c` and `mxx.c` on links, and the dispatch of completions

What `nis_setctx` and its companions do to the context is embedded in `Context`; here they
are the calls they make on the link.
-/

namespace Swnet.Sys

open Jobs Jobs.Prog

/-! ## Links -/

def udprefr (hld : Int) : CallProg Int := protoRefr .udp (-eNOENT) hld

/-- `asio_udp_recv`. -/
def asioUdpRecv (packet : IoPacket) : CallProg Int := asioTransfer packet

/-- `udp_update_opts`. -/
def udpUpdateOpts (ncb : Int) : CallProg Unit := do
  void (.ncb ncb (.sock .setsockopt))
  void (.ncb ncb (.sock .setsockopt))
  void (.ncb ncb (.sock .setsockopt))

/-- The part of `udp_entry` after the address is recorded. -/
def udpEntryOpts (ncb : Int) (broadcast : Bool) : CallProg Int := do
  udpUpdateOpts ncb
  let enabled ← if broadcast then perform (.ncb ncb (.sock .setsockopt)) else pure 0
  if enabled < 0 then return -1
  else do
    void (.ncb ncb (.write .flag))
    let behavior ← perform (.ncb ncb (.sock .wsaIoctl))
    if behavior < 0 then do
      nisCallEcr ncb
      return -1
    else do
      let attached ← perform (.ncb ncb (.sock .ioatth))
      if attached < 0 then return -1
      else do
        void (.ncb ncb .setCallback)
        return 0

/-- `udp_entry`. `anyPort` tells whether the port is 0. -/
def udpEntry (h : Int) (anyPort broadcast : Bool) : CallProg Int := do
  void (.ncb h (.write .hld))
  let sockfd ← perform (.ncb h .soCreate)
  if sockfd < 0 then return -1
  else do
    let bound ← perform (.ncb h (.sock .bind))
    let retval ← if bound < 0 then pure (-1)
      else do
        void (.ncb h (.write .localAddr))
        if anyPort then
          let named ← perform (.ncb h (.sock .getsockname))
          if 0 ≤ named then void (.ncb h (.write .localAddr))
        udpEntryOpts h broadcast
    if retval < 0 then do
      void (.ncb h .ioclose)
      return -1
    else return 0

/-- `udp_allocate_object`. -/
def udpAllocateObject (anyPort broadcast : Bool) : CallProg Int := do
  let h ← perform (.objallo .udp false)
  if h < 0 then return -1
  else do
    let ncb ← perform (.objrefr h)
    let retval ← if ncb < 0 then pure (-1) else udpEntry h anyPort broadcast
    void (.objdefr h)
    if retval < 0 then do
      void (.objclos h)
      return -1
    else return h

/-- `udp_create`. `so_asio_count` is 1, so that `udp_allocate_recv_array` is one allocation of
the array and one of a packet. -/
def udpCreate (userCallback lIpstr anyPort broadcast : Bool) : CallProg Int :=
  if userCallback = false then return -1
  else do
    let parsed ← if lIpstr then perform (.other .inetPton) else pure 1
    if parsed ≤ 0 then return -1
    else do
      let h ← udpAllocateObject anyPort broadcast
      if h < 0 then return -1
      else do
        let array ← perform (.other .malloc)
        let packet ← if array < 0 then pure (-1) else perform (.allocatePacket h .udp .recv)
        if packet < 0 then do
          if 0 ≤ array then void (.other .free)
          void (.objclos h)
          return -1
        else do
          -- whether the receive was posted is not looked at
          let _ ← asioUdpRecv (.plain packet .udp .recv h)
          void (.other .free)
          return h

/-! ## Dispatch -/

/-- `udp_dispatch_io_recv`. -/
def udpDispatchIoRecv (packet : IoPacket) : CallProg Unit := do
  let ncb ← udprefr packet.link
  -- the packet is left behind where the link is gone
  if ncb < 0 then return ()
  else do
    void (.emit (.receiveData packet.link))
    -- nor is it freed where it cannot be posted again
    let _ ← asioUdpRecv packet
    objdefrHld packet.link

/-- `udp_shutdown_by_packet`. -/
def udpShutdownByPacket (packet : IoPacket) : CallProg Unit := do
  void (.objclos packet.link)
  void (.freepkt packet.packet)

/-- The failures of a receive after which `udp_dispatch_io_exception` goes on. -/
def unreachable (status : NtStatus) : Bool :=
  status == (0xC000023F : UInt32).toInt32 || status == (0xC000023E : UInt32).toInt32
    || status == (0xC000023D : UInt32).toInt32

/-- `udp_dispatch_io_exception`. -/
def udpDispatchIoException (packet : IoPacket) (status : NtStatus) : CallProg Unit := do
  let ncb ← udprefr packet.link
  if ncb < 0 then return ()
  else do
    if unreachable status then
      let _ ← asioUdpRecv packet
    else udpShutdownByPacket packet
    objdefrHld packet.link

/-- `udp_dispatch_io_event`. -/
def udpDispatchIoEvent (packet : IoPacket) (status : NtStatus) (transfer : Int) :
    CallProg Unit :=
  if ntSuccess status then
    if transfer = 0 then udpShutdownByPacket packet
    else match packet.type with
      | .recv => udpDispatchIoRecv packet
      | .send => void (.freepkt packet.packet)
      | _ => return ()
  else udpDispatchIoException packet status

/-- `so_dispatch_pipe_event`. Nothing releases the reference. -/
def soDispatchPipeEvent (packet : IoPacket) : CallProg Unit := do
  let ncb ← perform (.objrefr packet.link)
  if 0 ≤ ncb then void (.emit (.pipeData packet.link))
  void (.freepkt packet.packet)

/-- `so_dispatch_io_event`. -/
def soDispatchIoEvent (packet : IoPacket) (status : NtStatus) (transfer : Int) (turns : Nat)
    (irp : AcceptAddrs) : CallProg Unit :=
  match packet.proto with
  | .udp => udpDispatchIoEvent packet status transfer
  | .tcp => tcpDispatchIoEvent packet status transfer turns irp
  | .pipe => soDispatchPipeEvent packet
  | _ => return ()

/-! ## Calls of the user: `udp.c` -/

def udpAwaken (link : Int) (data : Bool) (cb : Int) : CallProg Int := awaken link data cb

/-- `__udp_tx_single_packet`, with the turns its loop may take. -/
def udpTxSinglePacket (ncb : Int) : Nat → CallProg Int
  | 0 => do
    void .stuck
    return -1
  | turns + 1 => do
    -- positive: more to send or interrupted; 0: all sent; negative: failed
    let wcb ← perform (.ncb ncb (.sock .sendto))
    if wcb < 0 then do
      nisCallEcr ncb
      return -1
    else if wcb = 0 then return 0
    else udpTxSinglePacket ncb turns

/-- `udp_write`. `valid` tells whether the arguments pass its first test. -/
def udpWrite (turns : Nat) (lnk : Int) (valid serializer : Bool) : CallProg Int :=
  if valid = false ∨ lnk < 0 then return -eINVAL
  else withLink (perform (.objrefr lnk)) (fun _ => -eNOENT)
    (do
      let buffer ← perform (.other .malloc)
      if buffer < 0 then return -12
      else do
        let filled ← perform (.other (if serializer then .serializer else .memcpy))
        let retval ← if serializer ∧ filled < 0 then pure (-1) else udpTxSinglePacket lnk turns
        void (.other .free)
        return retval)
    (void (.objdefr lnk))

/-- `udp_destroy`. -/
def udpDestroy (lnk : Int) : CallProg Int := tcpDestroy lnk

/-- `udp_getaddr`. -/
def udpGetaddr (lnk : Int) (ptrs : Bool) : CallProg Int :=
  if lnk = -1 ∨ ptrs = false then return -1
  else withLink (udprefr lnk) (fun _ => -1)
    (do
      void (.ncb lnk (.read .localAddr))
      return 0)
    (objdefrHld lnk)

/-- `udp_setopt` and `udp_getopt`. -/
def udpSockopt (c : SockCall) (lnk : Int) (ptrs : Bool) : CallProg Int :=
  if lnk = -1 ∨ ptrs = false then return -1
  else withLink (udprefr lnk) (fun _ => -1) (perform (.ncb lnk (.sock c))) (objdefrHld lnk)

def udpSetopt (lnk : Int) (val : Bool) : CallProg Int := udpSockopt .setsockopt lnk val

def udpGetopt (lnk : Int) (ptrs : Bool) : CallProg Int := udpSockopt .getsockopt lnk ptrs

/-- The allocations of `udp_initialize_grp`, `count` of them to go: whether all succeeded. -/
def initializeItems : Nat → CallProg Int
  | 0 => return 0
  | count + 1 => do
    let data ← perform (.other .malloc)
    if data < 0 then return -1 else initializeItems count

/-- `udp_initialize_grp`. -/
def udpInitializeGrp (lnk : Int) (grp : Bool) (count : Nat) : CallProg Int :=
  if grp = false ∨ count = 0 then return -1
  else withLink (udprefr lnk) (fun _ => -1)
    (do
      let connected ← perform (.ncb lnk (.read .connected))
      if connected = 0 then return -1
      else do
        let retval ← initializeItems count
        if retval < 0 then void (.other .free)
        return retval)
    (objdefrHld lnk)

/-- `syio_v_connect`. -/
def syioVConnect (ncb : Int) : CallProg Int := do
  let retval ← perform (.ncb ncb (.sock .wsaConnect))
  if retval < 0 then do
    nisCallEcr ncb
    return -1
  else do
    updateLocalAddr ncb
    return 0

/-- `udp_raise_grp`. -/
def udpRaiseGrp (lnk : Int) : CallProg Int :=
  withLink (udprefr lnk) (fun _ => -1)
    (do
      let type ← perform (.ncb lnk .proto)
      if type = ProtoType.udp.code then do
        let parsed ← perform (.other .inetPton)
        if parsed ≤ 0 then return -1
        else do
          let connected ← perform (.ncb lnk (.read .connected))
          if connected ≠ 0 then do
            let same ← perform (.ncb lnk (.read .connected))
            return if same ≠ 0 then 0 else -1
          else do
            let retval ← syioVConnect lnk
            if 0 ≤ retval then void (.ncb lnk (.write .connected))
            return retval
      else return -1)
    (objdefrHld lnk)

/-- `udp_detach_grp`, with `syio_v_disconnect`. -/
def udpDetachGrp (lnk : Int) : CallProg Int :=
  withLink (udprefr lnk) (fun _ => 0)
    (do
      let connected ← perform (.ncb lnk (.read .connected))
      if connected ≠ 0 then
        void (.ncb lnk .proto)
        void (.ncb lnk (.write .connected))
        let retval ← perform (.ncb lnk (.sock .wsaConnect))
        -- a failure is noted, and not returned
        if retval = -1 then nisCallEcr lnk
      return 0)
    (objdefrHld lnk)

/-- `syio_grp_send`. -/
def syioGrpSend (link : Int) : CallProg Int :=
  withLink (perform (.objrefr link)) (fun _ => -1)
    (do
      let known ← perform (.other .cachedPointer)
      let status ← if known < 0 then perform (.ncb link (.sock .wsaIoctl)) else pure 0
      if status < 0 then do
        nisCallEcr link
        return -1
      else do
        let sent ← perform (.ncb link (.sock .transmitPackets))
        if sent < 0 then do
          nisCallEcr link
          return -1
        else return 0)
    (objdefrHld link)

/-- `udp_write_grp`. -/
def udpWriteGrp (lnk : Int) (grp : Bool) (count : Nat) : CallProg Int :=
  if grp = false ∨ count = 0 then return -1
  else withLink (udprefr lnk) (fun _ => -1)
    (do
      let connected ← perform (.ncb lnk (.read .connected))
      if connected = 0 then return -1
      else do
        let packet ← perform (.allocatePacket lnk .udp .send)
        if packet < 0 then return -1
        else do
          let elements ← perform (.other .malloc)
          let retval ← if elements < 0 then pure 0 else syioGrpSend lnk
          void (.freepkt packet)
          return retval)
    (objdefrHld lnk)

/-- `udp_joingrp`, on arguments that pass its first test. -/
def udpJoingrp (lnk : Int) (valid : Bool) : CallProg Int :=
  if lnk < 0 ∨ valid = false then return -eINVAL
  else withLink (perform (.objrefr lnk)) (fun _ => -1)
    (do
      let multicast ← perform (.ncb lnk (.read .flag))
      if multicast = 0 then return -1
      else do
        let loop ← perform (.ncb lnk (.sock .setsockopt))
        if loop < 0 then return loop
        else do
          let mreq ← perform (.ncb lnk (.read .mreq))
          let mreq ← if mreq = 0 then perform (.other .malloc) else pure mreq
          if mreq < 0 then return loop
          else do
            void (.ncb lnk (.write .mreq))
            let joined ← perform (.ncb lnk (.sock .setsockopt))
            return if joined < 0 then joined else 0)
    (void (.objdefr lnk))

/-- `udp_dropgrp`. -/
def udpDropgrp (lnk : Int) : CallProg Int :=
  if lnk < 0 then return -eINVAL
  else withLink (perform (.objrefr lnk)) (fun _ => -1)
    (do
      let multicast ← perform (.ncb lnk (.read .flag))
      let mreq ← perform (.ncb lnk (.read .mreq))
      if multicast = 0 ∨ mreq = 0 then return -1
      else do
        let loop ← perform (.ncb lnk (.sock .setsockopt))
        if loop < 0 then return loop
        else do
          let dropped ← perform (.ncb lnk (.sock .setsockopt))
          return if dropped < 0 then dropped else 0)
    (void (.objdefr lnk))

/-! ## Calls of the user: `mxx.c` -/

/-- `nis_setctx`. -/
def nisSetctx (lnk : Int) (ctx : Bool) (size : Int) : CallProg Int :=
  withLink (perform (.objrefr lnk)) (fun _ => -1)
    (if ctx = false ∨ size = 0 then do
      let old ← perform (.ncb lnk (.read .ncbCtx))
      if old ≠ 0 then void (.other .free)
      void (.ncb lnk (.write .ncbCtx))
      return 0
    else do
      let same ← perform (.ncb lnk (.read .ncbCtx))
      let retval ← if same = size then pure 0
        else do
          let old ← perform (.ncb lnk (.read .ncbCtx))
          if old ≠ 0 then void (.other .free)
          void (.ncb lnk (.write .ncbCtx))
          perform (.other .malloc)
      if retval < 0 then return -1
      else do
        void (.ncb lnk (.write .ncbCtx))
        void (.other .memcpy)
        return 0)
    (objdefrHld lnk)

/-- `nis_getctx`. -/
def nisGetctx (lnk : Int) (ctx : Bool) : CallProg Int :=
  if ctx = false then return -1
  else withLink (perform (.objrefr lnk)) (fun _ => -1)
    (do
      void (.ncb lnk (.read .ncbCtx))
      return 0)
    (objdefrHld lnk)

/-- `nis_refctx`, and `nis_ctxsize`. -/
def nisRefctx (lnk : Int) : CallProg Int :=
  withLink (perform (.objrefr lnk)) (fun _ => 0) (perform (.ncb lnk (.read .ncbCtx)))
    (objdefrHld lnk)

def nisCtxsize (lnk : Int) : CallProg Int :=
  withLink (perform (.objrefr lnk)) (fun _ => -1) (perform (.ncb lnk (.read .ncbCtx)))
    (objdefrHld lnk)

/-- `nis_setmask`. -/
def nisSetmask (lnk : Int) : CallProg Int :=
  withLink (perform (.objrefr lnk)) (fun _ => -17)
    (do
      void (.ncb lnk (.write .attr))
      return 0)
    (void (.objdefr lnk))

/-- `nis_getmask`. -/
def nisGetmask (lnk : Int) (mask : Bool) : CallProg Int :=
  withLink (perform (.objrefr lnk)) (fun _ => -1)
    (do
      if mask then void (.ncb lnk (.read .attr))
      return 0)
    (void (.objdefr lnk))

/-- The commands of `nis_cntl`. -/
inductive NiCmd where
  | setattr
  | getattr
  | setctx
  | getctx
  | settst (tst : Bool) (cb : Int)
  | gettst (tst : Bool)
  | unknown
  deriving DecidableEq, Repr

/-- `nis_cntl`. The default branch returns without releasing the reference. -/
def nisCntl (link : Int) (cmd : NiCmd) : CallProg Int := do
  let ncb ← perform (.objrefr link)
  if ncb < 0 then return -eNOENT
  else match cmd with
    | .setattr => do
      void (.ncb link (.write .attr))
      void (.objdefr link)
      return 0
    | .getattr => do
      let attr ← perform (.ncb link (.read .attr))
      void (.objdefr link)
      return attr
    | .setctx | .getctx => do
      void (.ncb link (.read .context))
      void (.ncb link (.write .context))
      void (.objdefr link)
      return 0
    | .settst tst cb => do
      let retval ← tcpSettstR link tst cb
      void (.objdefr link)
      return retval
    | .gettst tst => do
      let retval ← tcpGettstR link tst
      void (.objdefr link)
      return retval
    | .unknown => return -eINVAL

end Swnet.Sys
