import Swnet.Sys.Udp

/-!
# Swnet — the library at work

Threads of the user make the exported calls; IO threads dispatch completions. The completions
of one link are handled one at a time: a link is bound to the port of one IO thread
(`epmgr.epos[hld % divisions]`), and each thread handles what it dequeues before it dequeues
the next. Everything else comes in any order.

The user passes in handles it was given, by a `create` call or by `EVT_TCP_ACCEPTED`, or
negative numbers, which are not handles.
-/

namespace Swnet.Sys

open Jobs Jobs.Prog

/-! ## Jobs -/

/-- The exported calls on links. -/
inductive UserCall where
  | tcpCreate (userCallback lIpstr : Bool)
  | tcpDestroy (lnk : Int)
  | tcpListen (lnk block : Int)
  | tcpConnect (lnk : Int) (rIpstr : Bool) (addr : SockaddrIn)
  | tcpConnect2 (lnk : Int) (rIpstr : Bool) (addr : SockaddrIn)
  | tcpWrite (turns : Nat) (lnk : Int) (origin : Bool) (cb : Int) (serializer : Bool)
  | tcpAwaken (lnk : Int) (data : Bool) (cb : Int)
  | tcpSettst (lnk : Int) (tst : Bool)
  | tcpGettst (lnk : Int)
  | tcpGetaddr (lnk : Int) (ptrs : Bool) (kind : Option Bool)
  | tcpSetopt (lnk : Int) (val : Bool)
  | tcpGetopt (lnk : Int) (ptrs : Bool)
  | tcpSetattr (lnk : Int) (valid : Bool)
  | tcpGetattr (lnk : Int)
  | udpCreate (userCallback lIpstr anyPort broadcast : Bool)
  | udpDestroy (lnk : Int)
  | udpWrite (turns : Nat) (lnk : Int) (valid serializer : Bool)
  | udpAwaken (lnk : Int) (data : Bool) (cb : Int)
  | udpGetaddr (lnk : Int) (ptrs : Bool)
  | udpSetopt (lnk : Int) (val : Bool)
  | udpGetopt (lnk : Int) (ptrs : Bool)
  | udpInitializeGrp (lnk : Int) (grp : Bool) (count : Nat)
  | udpRaiseGrp (lnk : Int)
  | udpDetachGrp (lnk : Int)
  | udpWriteGrp (lnk : Int) (grp : Bool) (count : Nat)
  | udpJoingrp (lnk : Int) (valid : Bool)
  | udpDropgrp (lnk : Int)
  | nisSetctx (lnk : Int) (ctx : Bool) (size : Int)
  | nisGetctx (lnk : Int) (ctx : Bool)
  | nisRefctx (lnk : Int)
  | nisCtxsize (lnk : Int)
  | nisSetmask (lnk : Int)
  | nisGetmask (lnk : Int) (mask : Bool)
  | nisCntl (lnk : Int) (cmd : NiCmd)
  deriving DecidableEq, Repr

def UserCall.prog : UserCall → CallProg Int
  | .tcpCreate userCallback lIpstr => Sys.tcpCreate userCallback lIpstr
  | .tcpDestroy lnk => Sys.tcpDestroy lnk
  | .tcpListen lnk block => Sys.tcpListen lnk block
  | .tcpConnect lnk rIpstr addr => Sys.tcpConnect lnk rIpstr addr
  | .tcpConnect2 lnk rIpstr addr => Sys.tcpConnect2 lnk rIpstr addr
  | .tcpWrite turns lnk origin cb serializer => Sys.tcpWrite turns lnk origin cb serializer
  | .tcpAwaken lnk data cb => Sys.tcpAwaken lnk data cb
  | .tcpSettst lnk tst => Sys.tcpSettst lnk tst
  | .tcpGettst lnk => Sys.tcpGettst lnk
  | .tcpGetaddr lnk ptrs kind => Sys.tcpGetaddr lnk ptrs kind
  | .tcpSetopt lnk val => Sys.tcpSetopt lnk val
  | .tcpGetopt lnk ptrs => Sys.tcpGetopt lnk ptrs
  | .tcpSetattr lnk valid => Sys.tcpSetattr lnk valid
  | .tcpGetattr lnk => Sys.tcpGetattr lnk
  | .udpCreate userCallback lIpstr anyPort broadcast =>
    Sys.udpCreate userCallback lIpstr anyPort broadcast
  | .udpDestroy lnk => Sys.udpDestroy lnk
  | .udpWrite turns lnk valid serializer => Sys.udpWrite turns lnk valid serializer
  | .udpAwaken lnk data cb => Sys.udpAwaken lnk data cb
  | .udpGetaddr lnk ptrs => Sys.udpGetaddr lnk ptrs
  | .udpSetopt lnk val => Sys.udpSetopt lnk val
  | .udpGetopt lnk ptrs => Sys.udpGetopt lnk ptrs
  | .udpInitializeGrp lnk grp count => Sys.udpInitializeGrp lnk grp count
  | .udpRaiseGrp lnk => Sys.udpRaiseGrp lnk
  | .udpDetachGrp lnk => Sys.udpDetachGrp lnk
  | .udpWriteGrp lnk grp count => Sys.udpWriteGrp lnk grp count
  | .udpJoingrp lnk valid => Sys.udpJoingrp lnk valid
  | .udpDropgrp lnk => Sys.udpDropgrp lnk
  | .nisSetctx lnk ctx size => Sys.nisSetctx lnk ctx size
  | .nisGetctx lnk ctx => Sys.nisGetctx lnk ctx
  | .nisRefctx lnk => Sys.nisRefctx lnk
  | .nisCtxsize lnk => Sys.nisCtxsize lnk
  | .nisSetmask lnk => Sys.nisSetmask lnk
  | .nisGetmask lnk mask => Sys.nisGetmask lnk mask
  | .nisCntl lnk cmd => Sys.nisCntl lnk cmd

/-- The link a call is made on; a `create` call is made on none. -/
def UserCall.link : UserCall → Option Int
  | .tcpCreate .. | .udpCreate .. => none
  | .tcpDestroy l | .tcpListen l _ | .tcpConnect l _ _ | .tcpConnect2 l _ _
  | .tcpWrite _ l _ _ _ | .tcpAwaken l _ _ | .tcpSettst l _ | .tcpGettst l | .tcpGetaddr l _ _
  | .tcpSetopt l _ | .tcpGetopt l _ | .tcpSetattr l _ | .tcpGetattr l
  | .udpDestroy l | .udpWrite _ l _ _ | .udpAwaken l _ _ | .udpGetaddr l _ | .udpSetopt l _
  | .udpGetopt l _ | .udpInitializeGrp l _ _ | .udpRaiseGrp l | .udpDetachGrp l
  | .udpWriteGrp l _ _ | .udpJoingrp l _ | .udpDropgrp l
  | .nisSetctx l _ _ | .nisGetctx l _ | .nisRefctx l | .nisCtxsize l | .nisSetmask l
  | .nisGetmask l _ | .nisCntl l _ => some l

/-- What threads are set to do: a call of the user, or the dispatch of a completion. `irp` is
what the system left in the buffer of an accept packet; `turns` bounds the loops. -/
inductive Job where
  | user (c : UserCall)
  | completion (packet : IoPacket) (status : NtStatus) (transfer : Int) (turns : Nat)
      (irp : AcceptAddrs)
  deriving DecidableEq, Repr

/-- The link a job works on. -/
def Job.link : Job → Option Int
  | .user c => c.link
  | .completion packet .. => some packet.link

def Job.prog : Job → CallProg Int
  | .user c => c.prog
  | .completion packet status transfer turns irp => do
    soDispatchIoEvent packet status transfer turns irp
    return 0

/-! ## The system -/

namespace World

/-- A number the user may pass in. -/
def Usable (w : World) (h : Int) : Prop := h < 0 ∨ h ∈ w.known

instance (w : World) (h : Int) : Decidable (w.Usable h) := inferInstanceAs (Decidable (_ ∨ _))

/-- The socket of `h` is now connected; it can be once. -/
def connectPeer (w : World) (h : Int) (addr : SockaddrIn) : Option World :=
  match w.obj h with
  | none => some w
  | some o => if o.peer = none then some (w.setObj h { o with peer := some addr }) else none

/-- What a request that succeeded has done to the socket. -/
def succeed (w : World) (p : IoPacket) (irp : AcceptAddrs) : Option World :=
  match p.type with
  | .connect => w.connectPeer p.link p.remoteAddr
  | .syn => w.connectPeer p.acceptedLink irp.raddr
  | _ => some w

/-- A job starts on a handle the user may pass, or on a request that has completed, on a link
whose IO thread is free. -/
def startJob (w : World) : Job → Option World
  | .user c =>
    match c.link with
    | none => some w
    | some h => if w.Usable h then some w else none
  | .completion p status _ _ irp =>
    if p ∈ w.posted ∧ p.link ∉ w.busy then
      let w := { w with posted := w.posted.erase p, busy := p.link :: w.busy }
      if ntSuccess status then w.succeed p irp else some w
    else none

/-- The user has the link a `create` call returned; the IO thread is free again. -/
def finishJob (w : World) (j : Job) (r : Int) : World :=
  match j with
  | .user (.tcpCreate ..) | .user (.udpCreate ..) =>
    if 0 ≤ r then w.note (.created r) else w
  | .user (.tcpListen lnk block) => { w with listens := (lnk, block, r) :: w.listens }
  | .completion p _ _ _ _ => { w with busy := w.busy.erase p.link }
  | _ => w

end World

/-- The library. Nothing happens beside the jobs. -/
def system : System World Job Call Int Int Empty where
  prog := Job.prog
  answer := World.answer
  start := World.startJob
  finish := World.finishJob
  env _ e := nomatch e

abbrev SysState (τ : Type) := Jobs.State τ World Job Call Int Int

abbrev SysGuard := Guard World Job Call Int

/-- The states of the runs from the start that keep to `G`. -/
abbrev SysReaches {τ : Type} [DecidableEq τ] (G : SysGuard) (s : SysState τ) : Prop :=
  Reaches system G (State.rest World.initial) s

/-- No restriction. -/
def anyRun : SysGuard where
  start _ _ := True
  call _ _ _ _ _ := True

instance (w : World) (j : Job) : Decidable (anyRun.start w j) := instDecidableTrue

instance (w : World) (j : Job) (t : CallTrace) (c : Call) (a : Int) :
    Decidable (anyRun.call w j t c a) := instDecidableTrue

/-! ## What a thread is about to do -/

section

variable {τ : Type} {s : SysState τ} {u : τ} {j : Job} {t : CallTrace} {c : Call} {r : Int}

/-- The job of a thread and the calls it has made, with the call it makes next. -/
def calling (s : SysState τ) (u : τ) : Option (Job × CallTrace × Call) :=
  match s.thread u with
  | .running j t (.call c _) => some (j, t, c)
  | _ => none

/-- The job of a thread and the calls it has made, with the result it returns next. -/
def returning (s : SysState τ) (u : τ) : Option (Job × CallTrace × Int) :=
  match s.thread u with
  | .running j t (.done r) => some (j, t, r)
  | _ => none

/-- A thread does nothing. -/
def idling (s : SysState τ) (u : τ) : Bool :=
  match s.thread u with
  | .idle => true
  | .running .. => false

theorem idle_of_idling (h : idling s u = true) : s.thread u = .idle := by
  unfold idling at h
  split at h
  next hu => exact hu
  · cases h

theorem running_of_calling (h : calling s u = some (j, t, c)) :
    ∃ k, s.thread u = .running j t (.call c k) := by
  unfold calling at h
  split at h
  next hu =>
    cases h
    exact ⟨_, hu⟩
  · cases h

theorem running_of_returning (h : returning s u = some (j, t, r)) :
    s.thread u = .running j t (.done r) := by
  unfold returning at h
  split at h
  next hu =>
    cases h
    exact hu
  · cases h

end

/-! ## Moves -/

section

variable {τ : Type}

abbrev SysMove (τ : Type) := Move τ Job Int Empty

/-- A played run from the start. -/
theorem sys_of_play [DecidableEq τ] (G : SysGuard) [∀ w j, Decidable (G.start w j)]
    [∀ w j t c a, Decidable (G.call w j t c a)] {P : SysState τ → Prop} (ms : List (SysMove τ))
    (h : ∃ s ∈ (State.rest World.initial : SysState τ).play system G ms, P s) :
    ∃ s : SysState τ, SysReaches G s ∧ P s :=
  Jobs.exists_of_play ms h

/-- A call of `tcp_create` that succeeds, and makes link `h`. -/
def createTcp (u : τ) (h : Int) : List (SysMove τ) :=
  Move.whole u (.user (.tcpCreate true false)) (h :: List.replicate 16 0)

/-- The beginning of a function that references a TCP link. -/
def referTcp (u : τ) : List (SysMove τ) := Move.calls u [0, ProtoType.tcp.code]

/-- A call of `tcp_destroy` on an open link. -/
def destroyTcp (u : τ) (h : Int) : List (SysMove τ) :=
  Move.whole u (.user (.tcpDestroy h)) [0, 0, 0, 0]

/-- 10.0.0.2, port 80: both in network order. -/
def somePeer : SockaddrIn := ⟨2, 0x5000, 0x0200000A⟩

def noAddrs : AcceptAddrs := ⟨noAddr, noAddr⟩

/-- The packet of an accept request. -/
def synPacket (k l h : Int) : IoPacket := ⟨k, .tcp, .syn, l, h, noAddr⟩

/-- A round of `tcp_listen` that posts an accept request with packet `k` on link `h`. -/
def synRound (u : τ) (k h : Int) : List (SysMove τ) :=
  Move.calls u ([0, k, 0, h] ++ List.replicate 16 0)

/-- A call of `tcp_listen` on `l` that posts one accept request. -/
def listenTcp (u : τ) (l k h : Int) : List (SysMove τ) :=
  .start u (.user (.tcpListen l 1)) :: referTcp u ++ Move.calls u [0] ++ synRound u k h
    ++ Move.calls u [0, 0] ++ [.finish u]

/-- `STATUS_CANCELLED`. -/
def cancelled : NtStatus := (0xC0000120 : UInt32).toInt32

/-- The packet of a connect request. -/
def connectPacket (k h : Int) : IoPacket := ⟨k, .tcp, .connect, h, -1, somePeer⟩

/-- A call of `tcp_connect2` that posts a connect request. -/
def connect2Tcp (u : τ) (k h : Int) : List (SysMove τ) :=
  Move.whole u (.user (.tcpConnect2 h true somePeer))
    ([0, ProtoType.tcp.code, 0, k, 1] ++ List.replicate 7 0)

end

end Swnet.Sys
