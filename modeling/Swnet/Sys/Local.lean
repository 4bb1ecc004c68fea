import Swnet.Sys.Steps

/-!
# Swnet — the calls that stay on one link

Most functions only touch the link they are called on: they take and release references to
it, access its control block, allocate and free packets of it, post its requests that accept
nothing, close it, and tell the user what arrived on it. What remains is the making of links and
accepting: `tcp_create`, `udp_create`, `tcp_listen`, and the completions of accept requests.

To stay on a link is a property of the single calls (`Call.Local`), so that a function has it if
its calls have it, whatever they are answered: each lemma unfolds its function, uses the lemmas of
the functions that are called, and leaves the calls to `simp`. Only the loops take an induction, on
the turns they have left. The ledgers of links and packets take over from here what they say of a
program that stays on its link (`Meets.of_local`).
-/

namespace Swnet.Sys

open Jobs Jobs.Prog

/-- An access that is not part of the making of a link. -/
@[simp] def Access.Plain : Access → Prop
  | .setCallback | .soCreate | .initLocker | .initListHead | .initSizes => False
  | _ => True

/-- A call that stays on link `l`. -/
@[simp] def Call.Local (l : Int) : Call → Prop
  | .objallo .. => False
  | .objrefr h | .objdefr h | .objclos h | .objreff h => h = l
  | .ncb h x => h = l ∧ x.Plain
  | .allocatePacket h _ type => h = l ∧ type ≠ .syn
  | .post p => p.link = l ∧ ¬ p.IsSyn
  | .emit n => n = .connected l ∨ n = .receiveData l ∨ n = .pipeData l
  | .freepkt _ | .other _ | .stuck => True

/-- A packet that brings no link is an accept request by its type alone. -/
@[simp] theorem isSyn_plain {k l : Int} {proto : ProtoType} {type : PktType} :
    (IoPacket.plain k proto type l).IsSyn ↔ proto = .tcp ∧ type = .syn := Iff.rfl

/-- Such a packet is about the link it was allocated for. -/
@[simp] theorem plain_link {k l : Int} {proto : ProtoType} {type : PktType} :
    (IoPacket.plain k proto type l).link = l := rfl

section

variable {l : Int}

/-! ## Building blocks -/

/-- `tcprefr` and `udprefr`: a reference, and its release where the protocol is another. -/
theorem protoRefr_local {proto : ProtoType} {negative : Int} :
    (protoRefr proto negative l).Uses (Call.Local l) := by
  simp [protoRefr]

/-- A receive or a send is posted for its own link. -/
theorem asioTransfer_local {p : IoPacket} (hl : p.link = l) (hp : ¬ p.IsSyn) :
    (asioTransfer p).Uses (Call.Local l) := by
  simp [asioTransfer, hl, hp]

theorem asioTcpConnect_local {p : IoPacket} (hl : p.link = l) (hp : ¬ p.IsSyn) :
    (asioTcpConnect p).Uses (Call.Local l) := by
  simp [asioTcpConnect, hl, hp]

/-- `tcp_update_local_addr` asks the system for the address of the socket. -/
theorem updateLocalAddr_local : (updateLocalAddr l).Uses (Call.Local l) := by
  simp [updateLocalAddr]

/-- A packet that accepts nothing takes down no link but its own. -/
theorem tcpShutdownByPacket_local {p : IoPacket} (hl : p.link = l) (hp : p.type ≠ .syn) :
    (tcpShutdownByPacket p).Uses (Call.Local l) := by
  unfold tcpShutdownByPacket
  split <;> simp_all

/-- An exported function of the common shape stays on its link if the body does. -/
theorem withLink_local {refr body : CallProg Int} {failed : Int → Int} {defr : CallProg Unit}
    (hrefr : refr.Uses (Call.Local l)) (hbody : body.Uses (Call.Local l))
    (hdefr : defr.Uses (Call.Local l)) :
    (withLink refr failed body defr).Uses (Call.Local l) := by
  refine Uses.bind hrefr fun _ => ?_
  simp only [pure_eq, uses_ite, uses_done, implies_true, true_and]
  intro _
  refine Uses.bind hbody fun _ => ?_
  exact Uses.bind hdefr fun _ => uses_done

/-! ## Sending -/

/-- The loop on the pending counter. Induction on the turns. -/
theorem tcpWritePendingLoop_local {turns : Nat} :
    (tcpWritePendingLoop l turns).Uses (Call.Local l) := by
  induction turns with
  | zero => simp [tcpWritePendingLoop]
  | succ turns ih => simp [tcpWritePendingLoop, ih]

/-- The packet that is taken out of the queue is sent on the link whose queue it is. -/
theorem tcpTryWriteNext_local {turns : Nat} : (tcpTryWriteNext turns l).Uses (Call.Local l) := by
  refine Uses.bind tcpWritePendingLoop_local fun first => ?_
  cases first with
  | false => simp
  | true =>
      simp only [if_true, uses_perform_bind, uses_void_bind, Call.Local, Access.Plain, and_self,
        true_and]
      intro next
      refine Uses.bind (asioTransfer_local rfl (by simp)) fun _ => ?_
      simp only [pure_eq, uses_ite, uses_done, implies_true, and_true]
      intro _
      exact Uses.bind (tcpShutdownByPacket_local rfl (fun h => by cases h)) fun _ => uses_done

/-- `tcp_try_write`, with a packet or without. -/
theorem tcpTryWrite_local {turns : Nat} {packet : Option Int} :
    (tcpTryWrite turns l packet).Uses (Call.Local l) := by
  cases packet <;> simp [tcpTryWrite, tcpTryWriteNext_local]

/-- The packet of `tcp_write` is allocated for the link. -/
theorem tcpWritePacket_local {builder serializer : Bool} :
    (tcpWritePacket l builder serializer).Uses (Call.Local l) := by
  cases builder <;> cases serializer <;> simp [tcpWritePacket]

/-- `tcp_write`, on all its ways out. -/
theorem tcpWrite_local {turns : Nat} {origin serializer : Bool} {cb : Int} :
    (tcpWrite turns l origin cb serializer).Uses (Call.Local l) := by
  simp only [tcpWrite, Int.reduceNeg, pure_eq, objdefrHld, ncbHld, bind_bind, done_bind, ne_eq,
    Bool.decide_and, decide_not, decide_true, Bool.and_true, uses_ite, uses_done, implies_true,
    not_or, not_le, not_lt, Bool.not_eq_false, and_imp, true_and]
  intro _ _ _ _
  refine Uses.bind protoRefr_local fun _ => ?_
  simp only [Int.reduceNeg, uses_ite, uses_done, implies_true, not_lt, uses_perform_bind,
    Call.Local, Access.Plain, and_self, uses_void_bind, not_le, true_and]
  intro _ _ _ builder
  refine ⟨fun _ => ?_, fun _ _ => ?_⟩ <;>
  · refine Uses.bind tcpWritePacket_local fun packet => ?_
    simp only [Int.reduceNeg, uses_ite, uses_void_bind, Call.Local, Access.Plain, and_self,
      uses_done, implies_true, not_lt, true_and]
    intro _
    exact Uses.bind tcpTryWrite_local fun _ => by simp

theorem tcpDispatchIoSend_local {p : IoPacket} {transfer : Int} {turns : Nat} (hl : p.link = l)
    (hp : p.type ≠ .syn) : (tcpDispatchIoSend p transfer turns).Uses (Call.Local l) := by
  subst hl
  simp only [tcpDispatchIoSend, uses_ite, not_le]
  refine ⟨fun _ => tcpShutdownByPacket_local rfl hp, fun _ => ?_⟩
  refine Uses.bind protoRefr_local fun _ => ?_
  simp only [uses_ite, uses_void, Call.Local, implies_true, not_lt, uses_void_bind, Access.Plain,
    and_self, true_and]
  intro _
  exact Uses.bind tcpTryWrite_local fun _ => by simp

theorem tcpExceptionSend_local {p : IoPacket} {status : NtStatus} {turns : Nat}
    (hl : p.link = l) (hp : p.type ≠ .syn) :
    (tcpExceptionSend p status turns).Uses (Call.Local l) := by
  subst hl
  simp only [tcpExceptionSend, pure_eq, uses_ite, Bool.not_eq_true, uses_void_bind, Call.Local,
    Access.Plain, and_self, true_and]
  refine ⟨fun _ => tcpShutdownByPacket_local rfl hp, fun _ => ?_⟩
  exact Uses.bind tcpTryWrite_local fun _ => by simp

/-! ## Receiving -/

/-- The user is told of data on the link it came from. Induction on the turns. -/
theorem tcpPraseLogicPacket_local {turns : Nat} :
    (tcpPraseLogicPacket l turns).Uses (Call.Local l) := by
  induction turns with
  | zero => simp [tcpPraseLogicPacket]
  | succ turns ih => simp [tcpPraseLogicPacket, ih]

/-- The parsing, of a large block or of the buffer. -/
theorem tcpParse_local {turns : Nat} : (tcpParse l turns).Uses (Call.Local l) := by
  simp [tcpParse, tcpLbAssemble, tcpPraseLogicPacket_local]

/-- A completed receive: parsed, and posted again for the same link. -/
theorem tcpDispatchIoRecv_local {p : IoPacket} {transfer : Int} {turns : Nat} (hl : p.link = l)
    (hp : p.type ≠ .syn) : (tcpDispatchIoRecv p transfer turns).Uses (Call.Local l) := by
  subst hl
  have hrecv : (asioTcpRecv p).Uses (Call.Local p.link) :=
    asioTransfer_local rfl fun h => hp h.2
  simp only [tcpDispatchIoRecv, objclosHld, ncbHld, objdefrHld, bind_bind, pure_eq, done_bind,
    uses_ite, not_le]
  refine ⟨fun _ => tcpShutdownByPacket_local rfl hp, fun _ => ?_⟩
  refine Uses.bind protoRefr_local fun _ => ?_
  simp only [uses_ite, uses_void, Call.Local, implies_true, not_lt, true_and]
  intro _
  refine Uses.bind tcpParse_local fun _ => ?_
  simp only [uses_ite, not_le, uses_void_bind, Call.Local, Access.Plain, and_self, uses_void,
    implies_true, not_lt, and_true]
  intro _
  exact Uses.bind hrecv fun _ => by simp

/-! ## Connecting -/

/-- A link that was connected, from its address to its first receive. -/
theorem tcpConnected_local : (tcpConnected l).Uses (Call.Local l) := by
  refine Uses.bind updateLocalAddr_local fun _ => ?_
  simp only [ncbHld, nisCallEcr, connectedFailed, objdefrHld, objclosHld, bind_bind,
    uses_perform_bind, Call.Local, Access.Plain, and_self, uses_ite, uses_void_bind, ne_eq,
    reduceCtorEq, not_false_eq_true, uses_void, implies_true, not_lt, true_and, not_le]
  intro _
  refine ⟨fun _ packet _ => ?_, fun _ packet _ => ?_⟩ <;>
  · refine Uses.bind (asioTransfer_local rfl (by simp)) fun _ => ?_
    simp only [uses_ite, uses_void_bind, Call.Local, Access.Plain, and_self, true_and, not_lt,
      reduceCtorEq, or_self, or_false, uses_void, implies_true, and_true]
    intro _
    exact Uses.bind (tcpShutdownByPacket_local rfl (fun h => by cases h)) fun _ => by simp

theorem tcpDispatchIoConnected_local {p : IoPacket} (hl : p.link = l) :
    (tcpDispatchIoConnected p).Uses (Call.Local l) := by
  subst hl
  refine Uses.bind protoRefr_local fun _ => ?_
  simp [tcpConnected_local]

theorem tcpConnectDone_local {addr : SockaddrIn} : (tcpConnectDone l addr).Uses (Call.Local l) := by
  refine Uses.bind updateLocalAddr_local fun _ => ?_
  simp only [ncbHld, Int.reduceNeg, pure_eq, uses_void_bind, Call.Local, Access.Plain, and_self,
    uses_perform_bind, ne_eq, reduceCtorEq, not_false_eq_true, uses_ite, uses_done, implies_true,
    not_lt, true_and]
  intro packet _
  exact Uses.bind (asioTransfer_local rfl (by simp)) fun _ => by simp

theorem tcpConnect_local {rIpstr : Bool} {addr : SockaddrIn} :
    (tcpConnect l rIpstr addr).Uses (Call.Local l) := by
  simp only [tcpConnect, pure_eq, Int.reduceNeg, objdefrHld, ncbHld, bind_bind, nisCallEcr,
    done_bind, uses_ite, uses_done, implies_true, not_or, Bool.not_eq_false, and_imp, true_and]
  intro _ _
  refine Uses.bind protoRefr_local fun _ => ?_
  simp only [Int.reduceNeg, uses_ite, uses_done, implies_true, not_lt, uses_perform_bind,
    Call.Local, uses_void_bind, Access.Plain, and_self, not_le, true_and]
  intro _ _ _ _ _
  exact Uses.bind tcpConnectDone_local fun _ => by simp

theorem tcpConnect2_local {rIpstr : Bool} {addr : SockaddrIn} :
    (tcpConnect2 l rIpstr addr).Uses (Call.Local l) := by
  simp only [tcpConnect2, pure_eq, Int.reduceNeg, tcpConnect2Post, ncbHld, done_bind,
    Int.neg_neg_iff_pos, zero_lt_one, ↓reduceIte, objdefrHld, bind_bind, uses_ite, uses_done,
    implies_true, not_or, Bool.not_eq_false, and_imp, true_and]
  intro _ _
  refine Uses.bind protoRefr_local fun _ => ?_
  simp only [Int.reduceNeg, uses_ite, uses_done, implies_true, not_lt, uses_void_bind, Call.Local,
    Access.Plain, and_self, uses_perform_bind, ne_eq, reduceCtorEq, not_false_eq_true,
    uses_ite_bind, done_bind, bind_bind, not_le, true_and]
  intro _ packet _ _ _
  exact Uses.bind (asioTcpConnect_local rfl (fun h => by cases h.2)) fun _ => by simp

/-! ## UDP -/

/-- The loop around `sendto`. Induction on the turns. -/
theorem udpTxSinglePacket_local {turns : Nat} : (udpTxSinglePacket l turns).Uses
    (Call.Local l) := by
  induction turns with
  | zero => simp [udpTxSinglePacket]
  | succ turns ih => simp [udpTxSinglePacket, ih]

theorem udpWrite_local {turns : Nat} {valid serializer : Bool} :
    (udpWrite turns l valid serializer).Uses (Call.Local l) := by
  simp only [udpWrite, pure_eq, uses_ite, uses_done, implies_true, true_and]
  intro _
  refine withLink_local (by simp) ?_ (by simp)
  simp only [Int.reduceNeg, done_bind, uses_perform_bind, Call.Local, uses_ite, uses_done,
    implies_true, not_lt, uses_void_bind, and_self, not_and, true_and]
  intro _ _ _ _
  exact Uses.bind udpTxSinglePacket_local fun _ => by simp

/-- The items of a group, by induction on their number. -/
theorem initializeItems_local {count : Nat} : (initializeItems count).Uses (Call.Local l) := by
  induction count with
  | zero => simp [initializeItems]
  | succ count ih => simp [initializeItems, ih]

theorem udpInitializeGrp_local {grp : Bool} {count : Nat} :
    (udpInitializeGrp l grp count).Uses (Call.Local l) := by
  simp only [udpInitializeGrp, pure_eq, uses_ite, uses_done, implies_true, true_and]
  intro _
  refine withLink_local protoRefr_local ?_ (by simp)
  simp only [Int.reduceNeg, uses_perform_bind, Call.Local, Access.Plain, and_self, uses_ite,
    uses_done, implies_true, true_and]
  intro _ _
  exact Uses.bind initializeItems_local fun _ => by simp

/-- `WSAConnect` on the socket of the link. -/
theorem syioVConnect_local : (syioVConnect l).Uses (Call.Local l) := by
  simp only [syioVConnect, nisCallEcr, ncbHld, Int.reduceNeg, pure_eq, uses_perform_bind,
    Call.Local, Access.Plain, and_self, uses_ite, uses_void_bind, uses_done, implies_true, not_lt,
    true_and]
  intro _ _
  exact Uses.bind updateLocalAddr_local fun _ => by simp

theorem udpRaiseGrp_local : (udpRaiseGrp l).Uses (Call.Local l) := by
  refine withLink_local protoRefr_local ?_ (by simp)
  simp only [Int.reduceNeg, pure_eq, ne_eq, ite_not, uses_perform_bind, Call.Local, Access.Plain,
    and_self, uses_ite, uses_done, implies_true, not_le, and_true, forall_eq, true_and]
  intro _ _
  exact Uses.bind syioVConnect_local fun _ => by simp

theorem udpDetachGrp_local : (udpDetachGrp l).Uses (Call.Local l) :=
  withLink_local protoRefr_local (by simp) (by simp)

/-- The elements of a group go out on one socket. -/
theorem syioGrpSend_local : (syioGrpSend l).Uses (Call.Local l) :=
  withLink_local (by simp) (by simp) (by simp)

theorem udpWriteGrp_local {grp : Bool} {count : Nat} :
    (udpWriteGrp l grp count).Uses (Call.Local l) := by
  simp only [udpWriteGrp, pure_eq, uses_ite, uses_done, implies_true, true_and]
  intro _
  refine withLink_local protoRefr_local ?_ (by simp)
  simp only [Int.reduceNeg, done_bind, uses_perform_bind, Call.Local, Access.Plain, and_self,
    uses_ite, uses_done, implies_true, ne_eq, reduceCtorEq, not_false_eq_true, not_lt,
    uses_void_bind, true_and]
  intro _ _ _ _ _ _
  exact Uses.bind syioGrpSend_local fun _ => by simp

/-- Every completion of a UDP link: a UDP packet never accepts. -/
theorem udpDispatchIoEvent_local {p : IoPacket} {status : NtStatus} {transfer : Int}
    (hl : p.link = l) (hp : p.proto = .udp) :
    (udpDispatchIoEvent p status transfer).Uses (Call.Local l) := by
  subst hl
  have hrecv : (asioUdpRecv p).Uses (Call.Local p.link) :=
    asioTransfer_local rfl fun h => by simp [IoPacket.IsSyn, hp] at h
  simp only [udpDispatchIoEvent, udpShutdownByPacket, pure_eq, udpDispatchIoException, objdefrHld,
    ncbHld, bind_bind, uses_ite, uses_void_bind, Call.Local, uses_void, and_self, implies_true,
    true_and, Bool.not_eq_true]
  constructor
  · intro _ _
    split
    · refine Uses.bind protoRefr_local fun _ => ?_
      simp only [pure_eq, objdefrHld, ncbHld, uses_ite, uses_done, implies_true, not_lt,
        uses_void_bind, Call.Local, reduceCtorEq, or_false, or_true, true_and]
      intro _
      exact Uses.bind hrecv fun _ => by simp
    · simp
    · simp
  · intro _
    refine Uses.bind protoRefr_local fun _ => ?_
    simp only [uses_ite, uses_done, implies_true, not_lt, Bool.not_eq_true, uses_void_bind,
      Call.Local, Access.Plain, and_self, uses_void, and_true, true_and]
    intro _ _
    exact Uses.bind hrecv fun _ => by simp

/-! ## The exported calls, and the dispatch of completions -/

theorem tcpSockopt_local {c : SockCall} {ptrs : Bool} :
    (tcpSockopt c l ptrs).Uses (Call.Local l) := by
  simp only [tcpSockopt, pure_eq, uses_ite, uses_done, implies_true, true_and]
  intro _
  exact withLink_local protoRefr_local (by simp) (by simp)

theorem tcpGetaddr_local {ptrs : Bool} {kind : Option Bool} :
    (tcpGetaddr l ptrs kind).Uses (Call.Local l) := by
  simp only [tcpGetaddr, pure_eq, uses_ite, uses_done, implies_true, true_and]
  intro _
  refine withLink_local protoRefr_local ?_ (by simp)
  split <;> simp

theorem udpSockopt_local {c : SockCall} {ptrs : Bool} :
    (udpSockopt c l ptrs).Uses (Call.Local l) := by
  simp only [udpSockopt, pure_eq, uses_ite, uses_done, implies_true, true_and]
  intro _
  exact withLink_local protoRefr_local (by simp) (by simp)

theorem awaken_local {data : Bool} {cb : Int} : (awaken l data cb).Uses (Call.Local l) := by
  simp [awaken]

theorem tcpSettstR_local {tst : Bool} {cb : Int} : (tcpSettstR l tst cb).Uses (Call.Local l) := by
  simp only [tcpSettstR, pure_eq, uses_ite, uses_done, implies_true, true_and]
  intro _ _
  exact withLink_local protoRefr_local (by simp) (by simp)

theorem tcpGettstR_local {tst : Bool} : (tcpGettstR l tst).Uses (Call.Local l) := by
  simp only [tcpGettstR, pure_eq, uses_ite, uses_done, implies_true, true_and]
  intro _
  exact withLink_local protoRefr_local (by simp) (by simp)

theorem nisCntl_local {cmd : NiCmd} : (nisCntl l cmd).Uses (Call.Local l) := by
  simp only [nisCntl, pure_eq, uses_perform_bind, uses_ite, uses_done, implies_true, true_and]
  refine ⟨by simp, fun _ _ => ?_⟩
  cases cmd with
  | settst tst cb => exact Uses.bind tcpSettstR_local fun _ => by simp
  | gettst tst => exact Uses.bind tcpGettstR_local fun _ => by simp
  | _ => simp

/-- An exported call stays on the link it is made on, unless it is `tcp_listen`. -/
theorem UserCall.prog_local {c : UserCall} (hl : c.link = some l)
    (hlisten : ∀ block, c ≠ .tcpListen l block) : c.prog.Uses (Call.Local l) := by
  cases c <;> simp only [UserCall.link, Option.some.injEq, reduceCtorEq] at hl <;> subst hl <;>
    simp only [UserCall.prog]
  case tcpDestroy => simp [Sys.tcpDestroy]
  case tcpListen lnk block => exact absurd rfl (hlisten block)
  case tcpConnect => exact tcpConnect_local
  case tcpConnect2 => exact tcpConnect2_local
  case tcpWrite => exact tcpWrite_local
  case tcpAwaken => exact awaken_local
  case tcpSettst lnk tst =>
    simp only [Sys.tcpSettst, pure_eq, uses_ite, uses_done, implies_true, true_and]
    intro _
    exact withLink_local protoRefr_local (by simp) (by simp)
  case tcpGettst => exact withLink_local protoRefr_local (by simp) (by simp)
  case tcpGetaddr => exact tcpGetaddr_local
  case tcpSetopt => exact tcpSockopt_local
  case tcpGetopt => exact tcpSockopt_local
  case tcpSetattr => exact withLink_local protoRefr_local (by simp) (by simp)
  case tcpGetattr => exact withLink_local protoRefr_local (by simp) (by simp)
  case udpDestroy => simp [Sys.udpDestroy, Sys.tcpDestroy]
  case udpWrite => exact udpWrite_local
  case udpAwaken => exact awaken_local
  case udpGetaddr =>
    simp only [Sys.udpGetaddr, pure_eq, uses_ite, uses_done, implies_true, true_and]
    intro _
    exact withLink_local protoRefr_local (by simp) (by simp)
  case udpSetopt => exact udpSockopt_local
  case udpGetopt => exact udpSockopt_local
  case udpInitializeGrp => exact udpInitializeGrp_local
  case udpRaiseGrp => exact udpRaiseGrp_local
  case udpDetachGrp => exact udpDetachGrp_local
  case udpWriteGrp => exact udpWriteGrp_local
  case udpJoingrp =>
    simp only [Sys.udpJoingrp, pure_eq, uses_ite, uses_done, implies_true, true_and]
    intro _
    exact withLink_local (by simp) (by simp) (by simp)
  case udpDropgrp =>
    simp only [Sys.udpDropgrp, pure_eq, uses_ite, uses_done, implies_true, true_and]
    intro _
    exact withLink_local (by simp) (by simp) (by simp)
  case nisSetctx => exact withLink_local (by simp) (by simp) (by simp)
  case nisGetctx =>
    simp only [Sys.nisGetctx, pure_eq, uses_ite, uses_done, implies_true, true_and]
    intro _
    exact withLink_local (by simp) (by simp) (by simp)
  case nisRefctx => exact withLink_local (by simp) (by simp) (by simp)
  case nisCtxsize => exact withLink_local (by simp) (by simp) (by simp)
  case nisSetmask => exact withLink_local (by simp) (by simp) (by simp)
  case nisGetmask => exact withLink_local (by simp) (by simp) (by simp)
  case nisCntl => exact nisCntl_local

/-- The dispatch of a TCP completion, of any status, that is not an accept. -/
theorem tcpDispatchIoEvent_local {p : IoPacket} {status : NtStatus} {transfer : Int}
    {turns : Nat} {irp : AcceptAddrs} (hl : p.link = l) (hp : p.type ≠ .syn) :
    (tcpDispatchIoEvent p status transfer turns irp).Uses (Call.Local l) := by
  subst hl
  simp only [tcpDispatchIoEvent, tcpDispatchIoException, uses_ite]
  constructor
  · intro _
    split
    next hsyn => exact absurd hsyn hp
    · exact tcpDispatchIoRecv_local rfl hp
    · exact tcpDispatchIoSend_local rfl hp
    · exact tcpDispatchIoConnected_local rfl
    · simp
  · intro _
    refine Uses.bind protoRefr_local fun _ => ?_
    simp only [objdefrHld, ncbHld, uses_ite, uses_void, Call.Local, implies_true, not_lt, true_and]
    intro _
    refine ⟨fun _ => ?_, fun _ => ?_⟩
    · exact Uses.bind (tcpExceptionSend_local rfl hp) fun _ => by simp
    · exact Uses.bind (tcpShutdownByPacket_local rfl hp) fun _ => by simp

/-- The dispatch of a completion stays on the link of its packet, unless that is a request to
accept. -/
theorem soDispatchIoEvent_local {p : IoPacket} {status : NtStatus} {transfer : Int}
    {turns : Nat} {irp : AcceptAddrs} (hl : p.link = l) (hp : ¬ p.IsSyn) :
    (soDispatchIoEvent p status transfer turns irp).Uses (Call.Local l) := by
  subst hl
  unfold soDispatchIoEvent
  split
  next hudp => exact udpDispatchIoEvent_local rfl hudp
  next htcp => exact tcpDispatchIoEvent_local rfl fun h => hp ⟨htcp, h⟩
  · simp [soDispatchPipeEvent]
  · simp

end

end Swnet.Sys
