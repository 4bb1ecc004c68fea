import Swnet.Sys.Disposal

/-!
# Swnet — what a job does inside the lock of a sender

`tcp_try_write` works on the send queue of a link between `EnterCriticalSection` and
`LeaveCriticalSection` on `ncb->tcp_sender_locker_`. Inside it only reads fields of the control
block, counts, and moves packets; it raises no event, makes no request, and releases and closes
nothing. (Where the queue is full, it calls `nis_call_ecr`: what the user has installed to take the
message is left out.)

* `latches` — the ledger of the lock: whether a job is inside, and whether it has seen that the
  queue is not empty;
* `job_latches` — every job keeps to it;
* `job_checks` — a job enters the lock of a link only when it knows that it is a TCP link.
-/

namespace Swnet.Sys

open Jobs Jobs.Prog

/-! ## The record -/

/-- What is kept on record of the lock of the link a job works on. -/
structure Latch where
  link : Option Int
  inside : Bool
  /-- There is a packet in the queue, as the job knows. -/
  filled : Bool

namespace Latch

def after (g : Latch) (c : Call) (a : Int) : Latch :=
  match c with
  | .ncb _ .enterSender => { g with inside := true, filled := false }
  | .ncb _ .leaveSender => { g with inside := false, filled := false }
  | .ncb _ (.addTail _) => { g with filled := true }
  | .ncb _ .listEmpty => { g with filled := g.filled || decide (a = 0) }
  | .ncb _ .popFront => { g with filled := false }
  | _ => g

/-- The job is inside the lock of `h`. -/
def In (g : Latch) (h : Int) : Prop := g.link = some h ∧ g.inside = true

/-- The queue is worked on inside, and a packet taken out only where there is one. What is not
reading or counting waits until the lock is left. -/
@[simp] def Need (g : Latch) : Call → Prop
  | .ncb h .enterSender => g.link = some h ∧ g.inside = false
  | .ncb h .leaveSender | .ncb h (.addTail _) | .ncb h .listEmpty => g.In h
  | .ncb h .popFront => g.In h ∧ g.filled = true
  | .ncb h (.read _) | .ncb h .incListSize | .ncb h .decListSize | .ncb h .incPending
  | .ncb h .decPending => g.inside = true → g.link = some h
  | .stuck => True
  | _ => g.inside = false

/-- Outside. -/
def out (l : Option Int) : Latch := ⟨l, false, false⟩

/-- Inside the lock of `l`. -/
def within (l : Int) (filled : Bool) : Latch := ⟨some l, true, filled⟩

end Latch

/-- The ledger of the lock. -/
def latches : Ledger Job Call Int Int Latch where
  idle := .out none
  init j := .out j.link
  upd := .after
  need := Latch.Need
  ok _ _ _ := True
  post _ g _ := g.inside = false

/-- A call that has nothing to do with the lock and the queue. -/
@[simp] def Call.Apart : Call → Prop
  | .ncb _ .enterSender | .ncb _ .leaveSender | .ncb _ (.addTail _) | .ncb _ .listEmpty
  | .ncb _ .popFront => False
  | _ => True

section

variable {g : Latch} {l k : Int} {α β : Type}

/-- The program keeps to the ledger, and ends in `Q`. -/
abbrev Latches (p : CallProg α) (g : Latch) (Q : Latch → α → Prop) : Prop :=
  p.Meets Latch.after Latch.Need (fun _ _ _ => True) g Q

/-- It ends where it has begun. -/
abbrev Passes (p : CallProg α) (g : Latch) : Prop := Latches p g fun g' _ => g' = g

/-- What follows a part that leaves the latch alone finds it as it was. -/
theorem Passes.bind {p : CallProg α} {f : α → CallProg β} {Q : Latch → β → Prop}
    (hp : Passes p g) (hf : ∀ r, Latches (f r) g Q) : Latches (p >>= f) g Q :=
  Meets.bind_of_same hp hf

/-- A program that stays apart from the sender passes through any state of the latch outside.
Induction on the program. -/
theorem apart_passes {p : CallProg α} (hp : p.Uses Call.Apart) (hg : g.inside = false) :
    Passes p g := by
  refine hp.keeps (I := fun g' : Latch => g' = g) ?_ ?_ rfl
  · rintro g' c rfl hc
    cases c with
    | ncb h x => cases x <;> simp_all
    | _ => simp_all
  · rintro g' c a rfl hc
    cases c with
    | ncb h x => cases x <;> simp_all [Latch.after]
    | _ => rfl

/-! ## Programs that do not send -/

/-- A program without packets does nothing with the sender either. -/
theorem handsoff_apart {p : CallProg α} (hp : p.Uses Call.Handsoff) : p.Uses Call.Apart := by
  refine hp.mono fun c hc => ?_
  cases c with
  | ncb h x => cases x <;> simp_all
  | _ => trivial

theorem asioTransfer_apart {p : IoPacket} : (asioTransfer p).Uses Call.Apart := by
  simp [asioTransfer]

theorem asioTcpAccept_apart {p : IoPacket} : (asioTcpAccept p).Uses Call.Apart := by
  simp [asioTcpAccept]

/-- The rounds of `tcp_syn`, by induction. -/
theorem tcpSynRounds_apart {n : Nat} : (tcpSynRounds l k n).Uses Call.Apart := by
  induction n with
  | zero => simp [tcpSynRounds]
  | succ n ih =>
      refine uses_void_bind.mpr ⟨trivial, ?_⟩
      refine Uses.bind (handsoff_apart tcpAllocateObject_handsoff) fun h => ?_
      refine uses_ite.mpr ⟨fun _ => by simp, fun _ => ?_⟩
      refine Uses.bind asioTcpAccept_apart fun r => ?_
      refine uses_ite.mpr ⟨fun _ => by simp, fun _ => ?_⟩
      exact uses_void_bind.mpr ⟨trivial, ih⟩

theorem tcpSyn_apart : (tcpSyn l).Uses Call.Apart := by
  refine uses_void_bind.mpr ⟨trivial, ?_⟩
  refine uses_perform_bind.mpr ⟨trivial, fun k => ?_⟩
  exact uses_ite.mpr ⟨fun _ => by simp, fun _ => tcpSynRounds_apart⟩

/-- The loop of `tcp_listen`, by induction. -/
theorem tcpListenRounds_apart {n : Nat} : (tcpListenRounds l n).Uses Call.Apart := by
  induction n with
  | zero => exact tcpSyn_apart
  | succ n ih => exact Uses.bind tcpSyn_apart fun _ => uses_ite.mpr ⟨fun _ => by simp, fun _ => ih⟩

theorem tcpListen_apart {block : Int} : (tcpListen l block).Uses Call.Apart := by
  refine Uses.bind (handsoff_apart protoRefr_handsoff) fun r => ?_
  refine uses_ite.mpr ⟨fun _ => by simp, fun _ => ?_⟩
  refine uses_perform_bind.mpr ⟨trivial, fun a => ?_⟩
  refine uses_ite.mpr ⟨fun _ => by simp, fun _ => ?_⟩
  exact Uses.bind tcpListenRounds_apart fun _ => by simp

theorem firstRecv_apart : (firstRecv l).Uses Call.Apart := by
  refine uses_void_bind.mpr ⟨trivial, ?_⟩
  refine uses_perform_bind.mpr ⟨trivial, fun k => ?_⟩
  exact uses_ite.mpr ⟨fun _ => by simp, fun _ => asioTransfer_apart⟩

theorem takeAccepted_apart {h : Int} {irp : AcceptAddrs} :
    (takeAccepted l h irp).Uses Call.Apart := by
  refine Uses.bind (handsoff_apart tcpSynCopy_handsoff) fun r => ?_
  dsimp only
  refine uses_ite.mpr ⟨fun _ => by simp, fun _ => ?_⟩
  exact Uses.bind firstRecv_apart fun _ => by simp

theorem tcpDispatchIoSyn_apart {p : IoPacket} {irp : AcceptAddrs} :
    (tcpDispatchIoSyn p irp).Uses Call.Apart := by
  have hagain : (do
      let retval ← tcpSyn p.link
      if retval < 0 then objclosHld p.link
      objdefrHld p.link : CallProg Unit).Uses Call.Apart :=
    Uses.bind tcpSyn_apart fun _ => by simp
  refine Uses.bind (handsoff_apart protoRefr_handsoff) fun r => ?_
  refine uses_ite.mpr ⟨fun _ => by simp, fun _ => ?_⟩
  refine Uses.bind (handsoff_apart protoRefr_handsoff) fun r₂ => ?_
  dsimp only
  exact uses_ite.mpr ⟨fun _ => Uses.bind takeAccepted_apart fun _ => hagain, fun _ => hagain⟩

/-- A link that is shut down: its sender is left to the unload routine. -/
theorem tcpShutdownByPacket_apart {p : IoPacket} : (tcpShutdownByPacket p).Uses Call.Apart := by
  unfold tcpShutdownByPacket
  split
  · simp
  · simp
  · simp
  · refine Uses.bind (handsoff_apart protoRefr_handsoff) fun r => ?_
    dsimp only
    exact uses_ite.mpr ⟨fun _ => Uses.bind tcpSyn_apart fun _ => by simp, fun _ => by simp⟩
  · simp

theorem tcpDispatchIoRecv_apart {p : IoPacket} {transfer : Int} {turns : Nat} :
    (tcpDispatchIoRecv p transfer turns).Uses Call.Apart := by
  refine uses_ite.mpr ⟨fun _ => tcpShutdownByPacket_apart, fun _ => ?_⟩
  refine Uses.bind (handsoff_apart protoRefr_handsoff) fun r => ?_
  refine uses_ite.mpr ⟨fun _ => by simp, fun _ => ?_⟩
  refine Uses.bind (handsoff_apart tcpParse_handsoff) fun r₁ => ?_
  dsimp only
  exact uses_ite.mpr ⟨fun _ => Uses.bind asioTransfer_apart fun _ => by simp, fun _ => by simp⟩

theorem tcpDispatchIoConnected_apart {p : IoPacket} :
    (tcpDispatchIoConnected p).Uses Call.Apart := by
  refine Uses.bind (handsoff_apart protoRefr_handsoff) fun r => ?_
  simp [tcpConnected, connectedFailed, updateLocalAddr, asioTcpRecv, asioTransfer,
    tcpShutdownByPacket, IoPacket.plain]

theorem udpDispatchIoEvent_apart {p : IoPacket} {status : NtStatus} {transfer : Int} :
    (udpDispatchIoEvent p status transfer).Uses Call.Apart := by
  have hrecv : (asioUdpRecv p).Uses Call.Apart := asioTransfer_apart
  refine uses_ite.mpr ⟨fun _ => uses_ite.mpr ⟨fun _ => by simp [udpShutdownByPacket], fun _ => ?_⟩,
    fun _ => ?_⟩
  · split
    · refine Uses.bind (handsoff_apart protoRefr_handsoff) fun r => ?_
      refine uses_ite.mpr ⟨fun _ => by simp, fun _ => uses_void_bind.mpr ⟨trivial, ?_⟩⟩
      exact Uses.bind hrecv fun _ => by simp
    · simp
    · simp
  · refine Uses.bind (handsoff_apart protoRefr_handsoff) fun r => ?_
    refine uses_ite.mpr ⟨fun _ => by simp, fun _ => ?_⟩
    dsimp only
    exact uses_ite.mpr ⟨fun _ => Uses.bind hrecv fun _ => by simp,
      fun _ => by simp [udpShutdownByPacket]⟩

theorem tcpConnect_apart {rIpstr : Bool} {addr : SockaddrIn} :
    (tcpConnect l rIpstr addr).Uses Call.Apart := by
  refine uses_ite.mpr ⟨fun _ => by simp, fun _ => ?_⟩
  refine Uses.bind (handsoff_apart protoRefr_handsoff) fun r => ?_
  simp [tcpConnectDone, updateLocalAddr, asioTcpRecv, asioTransfer]

theorem tcpConnect2_apart {rIpstr : Bool} {addr : SockaddrIn} :
    (tcpConnect2 l rIpstr addr).Uses Call.Apart := by
  refine uses_ite.mpr ⟨fun _ => by simp, fun _ => ?_⟩
  refine Uses.bind (handsoff_apart protoRefr_handsoff) fun r => ?_
  simp [tcpConnect2Post, asioTcpConnect]

theorem awaken_apart {data : Bool} {cb : Int} : (awaken l data cb).Uses Call.Apart := by
  simp [awaken]

theorem udpCreate_apart {userCallback lIpstr anyPort broadcast : Bool} :
    (udpCreate userCallback lIpstr anyPort broadcast).Uses Call.Apart := by
  refine uses_ite.mpr ⟨fun _ => by simp, fun _ => ?_⟩
  have hmake : ∀ parsed : Int, (do
      if parsed ≤ 0 then return -1
      else do
        let h ← udpAllocateObject anyPort broadcast
        if h < 0 then return -1
        else do
          let array ← perform (.other .malloc)
          let packet ← if array < 0 then pure (-1) else perform (.allocatePacket h .udp .recv)
          if packet < 0 then do
            if 0 ≤ array then void (.other .free)
            void (.objclos h)
            return -1
          else do
            let _ ← asioUdpRecv (.plain packet .udp .recv h)
            void (.other .free)
            return h : CallProg Int).Uses Call.Apart := by
    intro parsed
    refine uses_ite.mpr ⟨fun _ => by simp, fun _ => ?_⟩
    refine Uses.bind (handsoff_apart udpAllocateObject_handsoff) fun h => ?_
    simp [asioUdpRecv, asioTransfer]
  dsimp only
  exact uses_ite.mpr ⟨fun _ => uses_perform_bind.mpr ⟨trivial, hmake⟩, fun _ => hmake 1⟩

theorem udpWriteGrp_apart {grp : Bool} {count : Nat} :
    (udpWriteGrp l grp count).Uses Call.Apart := by
  have hsend : (syioGrpSend l).Uses Call.Apart :=
    handsoff_apart (withLink_handsoff (by simp) (by simp) (by simp))
  refine uses_ite.mpr ⟨fun _ => by simp, fun _ => ?_⟩
  refine Uses.bind (handsoff_apart protoRefr_handsoff) fun r => ?_
  refine uses_ite.mpr ⟨fun _ => by simp, fun _ => ?_⟩
  refine Uses.bind ?_ fun _ => by simp
  refine uses_perform_bind.mpr ⟨trivial, fun connected => ?_⟩
  refine uses_ite.mpr ⟨fun _ => by simp, fun _ => ?_⟩
  refine uses_perform_bind.mpr ⟨trivial, fun packet => ?_⟩
  refine uses_ite.mpr ⟨fun _ => by simp, fun _ => ?_⟩
  refine uses_perform_bind.mpr ⟨trivial, fun elements => ?_⟩
  dsimp only
  exact uses_ite.mpr ⟨fun _ => by simp, fun _ => Uses.bind hsend fun _ => by simp⟩

/-- The packet of `tcp_write` is made before the lock is taken. -/
theorem tcpWritePacket_apart {builder serializer : Bool} :
    (tcpWritePacket l builder serializer).Uses Call.Apart := by
  cases builder <;> cases serializer <;> simp [tcpWritePacket]

/-- Of the exported calls only `tcp_write` sends. -/
theorem UserCall.prog_apart {c : UserCall}
    (hc : ∀ turns lnk origin cb serializer, c ≠ .tcpWrite turns lnk origin cb serializer) :
    c.prog.Uses Call.Apart := by
  cases c with
  | tcpWrite turns lnk origin cb serializer => exact absurd rfl (hc turns lnk origin cb serializer)
  | tcpListen => exact tcpListen_apart
  | tcpConnect => exact tcpConnect_apart
  | tcpConnect2 => exact tcpConnect2_apart
  | tcpAwaken => exact awaken_apart
  | udpCreate => exact udpCreate_apart
  | udpAwaken => exact awaken_apart
  | udpWriteGrp => exact udpWriteGrp_apart
  | _ => exact handsoff_apart (UserCall.prog_handsoff rfl)

/-! ## Sending -/

/-- What the counters say does not let a job leave the lock. -/
theorem tcpWritePendingLoop_latches {turns : Nat} {filled : Bool} :
    Passes (tcpWritePendingLoop l turns) (.within l filled) := by
  induction turns with
  | zero => exact meets_bind.mpr (meets_void.mpr ⟨trivial, fun _ _ => rfl⟩)
  | succ turns ih =>
      refine meets_bind.mpr (meets_perform.mpr ⟨fun _ => rfl, fun up _ => ?_⟩)
      refine meets_ite.mpr ⟨fun _ => rfl, fun _ => ?_⟩
      refine meets_bind.mpr (meets_perform.mpr ⟨fun _ => rfl, fun down _ => ?_⟩)
      exact meets_ite.mpr ⟨fun _ => rfl, fun _ => ih⟩

/-- The lock is left before the packet is sent. -/
theorem tcpTryWriteNext_latches {turns : Nat} :
    Latches (tcpTryWriteNext turns l) (.within l true) fun g' _ => g' = .out (some l) := by
  have hout : ∀ {p : CallProg Int}, p.Uses Call.Apart → Passes p (.out (some l)) := fun hp =>
    apart_passes hp rfl
  refine Passes.bind tcpWritePendingLoop_latches fun first => ?_
  cases first with
  | false => exact meets_bind.mpr (meets_void.mpr ⟨⟨rfl, rfl⟩, fun _ _ => rfl⟩)
  | true =>
      refine meets_bind.mpr (meets_perform.mpr ⟨⟨⟨rfl, rfl⟩, rfl⟩, fun next _ => ?_⟩)
      refine meets_bind.mpr (meets_void.mpr ⟨fun _ => rfl, fun _ _ => ?_⟩)
      refine meets_bind.mpr (meets_void.mpr ⟨⟨rfl, rfl⟩, fun _ _ => ?_⟩)
      refine hout (Uses.bind asioTransfer_apart fun retval => ?_)
      dsimp only
      exact uses_ite.mpr ⟨fun _ => Uses.bind tcpShutdownByPacket_apart fun _ => by simp,
        fun _ => by simp⟩

/-- **`tcp_try_write` leaves the section on each of its ways out**: the queue is full, it is empty,
a send is outstanding, or a packet was taken out. -/
theorem tcpTryWrite_latches {turns : Nat} {packet : Option Int} :
    Passes (tcpTryWrite turns l packet) (.out (some l)) := by
  refine meets_bind.mpr (meets_void.mpr ⟨⟨rfl, rfl⟩, fun _ _ => ?_⟩)
  cases packet with
  | some k =>
      refine meets_bind.mpr (meets_perform.mpr ⟨fun _ => rfl, fun size _ => ?_⟩)
      refine meets_ite.mpr ⟨fun _ => ?_, fun _ => ?_⟩
      · refine meets_bind.mpr (meets_void.mpr ⟨fun _ => rfl, fun _ _ => ?_⟩)
        refine meets_bind.mpr (meets_void.mpr ⟨fun _ => rfl, fun _ _ => ?_⟩)
        exact meets_bind.mpr (meets_void.mpr ⟨⟨rfl, rfl⟩, fun _ _ => rfl⟩)
      · -- the packet of the caller is in the queue
        refine meets_bind.mpr (meets_void.mpr ⟨⟨rfl, rfl⟩, fun _ _ => ?_⟩)
        exact tcpTryWriteNext_latches
  | none =>
      refine meets_bind.mpr (meets_perform.mpr ⟨⟨rfl, rfl⟩, fun empty _ => ?_⟩)
      refine meets_ite.mpr ⟨fun _ => ?_, fun hempty => ?_⟩
      · exact meets_bind.mpr (meets_void.mpr ⟨⟨rfl, rfl⟩, fun _ _ => rfl⟩)
      · -- the queue was found not to be empty
        have hzero : empty = 0 := not_not.mp hempty
        subst hzero
        exact tcpTryWriteNext_latches

/-- `tcp_write` enters it once at most, through `tcp_try_write`. -/
theorem tcpWrite_latches {turns : Nat} {origin serializer : Bool} {cb : Int} :
    Passes (tcpWrite turns l origin cb serializer) (.out (some l)) := by
  have hout : ∀ {p : CallProg Int}, p.Uses Call.Apart → Passes p (.out (some l)) := fun hp =>
    apart_passes hp rfl
  have hwrite : ∀ b : Bool, Passes (do
      let packet ← tcpWritePacket l b serializer
      if packet < 0 then do
        objdefrHld l
        return -1
      else do
        let retval ← tcpTryWrite turns l (some packet)
        if retval < 0 then do
          void (.freepkt packet)
          objdefrHld l
          return retval
        else do
          objdefrHld l
          return retval : CallProg Int) (.out (some l)) := by
    intro b
    refine Passes.bind (hout tcpWritePacket_apart) fun packet => ?_
    refine meets_ite.mpr ⟨fun _ => hout (by simp), fun _ => ?_⟩
    refine Passes.bind tcpTryWrite_latches fun retval => ?_
    exact meets_ite.mpr ⟨fun _ => hout (by simp), fun _ => hout (by simp)⟩
  refine meets_ite.mpr ⟨fun _ => rfl, fun _ => ?_⟩
  refine Passes.bind (hout (handsoff_apart protoRefr_handsoff)) fun r => ?_
  refine meets_ite.mpr ⟨fun _ => rfl, fun _ => ?_⟩
  refine Passes.bind (hout (by simp)) fun size => ?_
  dsimp only
  refine meets_ite.mpr ⟨fun _ => hout (by simp), fun _ => ?_⟩
  refine Passes.bind (hout (by simp)) fun builder => ?_
  refine meets_ite.mpr ⟨fun _ => hwrite _, fun _ => ?_⟩
  exact Passes.bind (hout (by simp)) fun noBuild => hwrite _

section

variable {p : IoPacket} {status : NtStatus} {transfer : Int} {turns : Nat}

/-- A completed send lowers the counter before it enters. -/
theorem tcpDispatchIoSend_latches :
    Passes (tcpDispatchIoSend p transfer turns) (.out (some p.link)) := by
  refine meets_ite.mpr ⟨fun _ => apart_passes tcpShutdownByPacket_apart rfl, fun _ => ?_⟩
  refine Passes.bind (apart_passes (handsoff_apart protoRefr_handsoff) rfl) fun r => ?_
  refine meets_ite.mpr ⟨fun _ => apart_passes (by simp) rfl, fun _ => ?_⟩
  refine meets_bind.mpr (meets_void.mpr ⟨fun _ => rfl, fun _ _ => ?_⟩)
  refine Passes.bind (g := .out (some p.link)) tcpTryWrite_latches fun r₁ => ?_
  exact apart_passes (by simp) rfl

theorem tcpDispatchIoException_latches :
    Passes (tcpDispatchIoException p status turns) (.out (some p.link)) := by
  refine Passes.bind (apart_passes (handsoff_apart protoRefr_handsoff) rfl) fun r => ?_
  refine meets_ite.mpr ⟨fun _ => apart_passes (by simp) rfl, fun _ => ?_⟩
  have hshut : Passes (tcpShutdownByPacket p) (.out (some p.link)) :=
    apart_passes tcpShutdownByPacket_apart rfl
  have hsend : Passes (tcpExceptionSend p status turns) (.out (some p.link)) := by
    refine meets_ite.mpr ⟨fun _ => hshut, fun _ => ?_⟩
    refine meets_bind.mpr (meets_void.mpr ⟨fun _ => rfl, fun _ _ => ?_⟩)
    refine meets_bind.mpr (meets_void.mpr ⟨rfl, fun _ _ => ?_⟩)
    exact Passes.bind (g := .out (some p.link)) tcpTryWrite_latches fun _ => rfl
  dsimp only
  refine meets_ite.mpr ⟨fun _ => ?_, fun _ => ?_⟩
  · exact Passes.bind hsend fun _ => apart_passes (by simp) rfl
  · exact Passes.bind hshut fun _ => apart_passes (by simp) rfl

end

/-- A job does not send, or it is a call of `tcp_write`, or the dispatch of the completion of a
send request or of a request that failed. -/
theorem job_sends (j : Job) : j.prog.Uses Call.Apart
    ∨ (∃ turns lnk origin cb serializer, j = .user (.tcpWrite turns lnk origin cb serializer))
    ∨ ∃ p status transfer turns irp, j = .completion p status transfer turns irp
      ∧ (p.type = .send ∧ soDispatchIoEvent p status transfer turns irp
          = tcpDispatchIoSend p transfer turns
        ∨ soDispatchIoEvent p status transfer turns irp
          = tcpDispatchIoException p status turns) := by
  cases j with
  | user c =>
      by_cases hc : ∃ turns lnk origin cb serializer, c = .tcpWrite turns lnk origin cb serializer
      · obtain ⟨turns, lnk, origin, cb, serializer, rfl⟩ := hc
        exact .inr (.inl ⟨turns, lnk, origin, cb, serializer, rfl⟩)
      · refine .inl (UserCall.prog_apart ?_)
        rintro turns lnk origin cb serializer rfl
        exact hc ⟨turns, lnk, origin, cb, serializer, rfl⟩
  | completion p status transfer turns irp =>
      have hapart : (soDispatchIoEvent p status transfer turns irp).Uses Call.Apart →
          (Job.completion p status transfer turns irp).prog.Uses Call.Apart := fun hp =>
        Uses.bind hp fun _ => uses_done
      have hdone : (pure () : CallProg Unit).Uses Call.Apart := uses_done
      by_cases hproto : p.proto = .tcp
      · by_cases hstatus : ntSuccess status = true
        · have hevent : soDispatchIoEvent p status transfer turns irp
              = tcpDispatchIoEvent p status transfer turns irp := by
            simp only [soDispatchIoEvent, hproto]
          rw [hevent, tcpDispatchIoEvent, if_pos hstatus] at hapart
          cases htype : p.type <;> simp only [htype] at hapart
          case syn => exact .inl (hapart tcpDispatchIoSyn_apart)
          case recv => exact .inl (hapart tcpDispatchIoRecv_apart)
          case connect => exact .inl (hapart tcpDispatchIoConnected_apart)
          case send => exact .inr (.inr ⟨p, status, transfer, turns, irp, rfl, .inl ⟨htype, by
            simp only [hevent, tcpDispatchIoEvent, if_pos hstatus, htype]⟩⟩)
          all_goals exact .inl (hapart hdone)
        · refine .inr (.inr ⟨p, status, transfer, turns, irp, rfl, .inr ?_⟩)
          simp only [soDispatchIoEvent, hproto, tcpDispatchIoEvent, if_neg hstatus]
      · refine .inl (hapart ?_)
        unfold soDispatchIoEvent
        split
        · exact udpDispatchIoEvent_apart
        next htcp => exact absurd htcp hproto
        · simp [soDispatchPipeEvent]
        · exact hdone

/-- **Every job keeps to the lock.** -/
theorem job_latches (j : Job) :
    j.prog.Meets Latch.after Latch.Need (fun _ _ _ => True) (.out j.link) fun g _ =>
      g.inside = false := by
  have hend : ∀ {p : CallProg Int}, Passes p (.out j.link) → Latches p (.out j.link) fun g _ =>
      g.inside = false := fun hp => hp.mono fun g _ hg => by rw [hg]; rfl
  refine hend ?_
  rcases job_sends j with hapart | ⟨turns, lnk, origin, cb, serializer, rfl⟩
    | ⟨p, status, transfer, turns, irp, rfl, ⟨-, hsend⟩ | hfailed⟩
  · exact apart_passes hapart rfl
  · exact tcpWrite_latches
  · refine Passes.bind ?_ fun _ => rfl
    rw [hsend]
    exact tcpDispatchIoSend_latches
  · refine Passes.bind ?_ fun _ => rfl
    rw [hfailed]
    exact tcpDispatchIoException_latches

/-- The dispatch of a connect request does not send. -/
theorem connects_apart {j : Job} (hj : j.Connects = true) : j.prog.Uses Call.Apart := by
  cases j with
  | user c => cases hj
  | completion p status transfer turns irp =>
      obtain ⟨hproto, htype, hstatus⟩ := of_decide_eq_true hj
      refine Uses.bind ?_ fun _ => uses_done
      simp only [soDispatchIoEvent, hproto, tcpDispatchIoEvent, hstatus, if_true, htype]
      exact tcpDispatchIoConnected_apart

/-! ## Only TCP links are sent on -/

/-- A lock is entered only on what the job knows to be a TCP link. -/
@[simp] def LinkRecord.NeedTcp (g : LinkRecord) : Call → Prop
  | .ncb h .enterSender => h ∈ g.tcp
  | _ => True

/-- The ledger of links, and what sending asks of it. -/
def senders : Ledger Job Call Int Int LinkRecord where
  idle := .blank
  init := .start
  upd := .after
  need := LinkRecord.NeedTcp
  ok _ _ _ := True
  post _ _ _ := True

section

variable {g : LinkRecord} {turns : Nat}

abbrev Checks (p : CallProg α) (g : LinkRecord) (Q : LinkRecord → α → Prop) : Prop :=
  p.Meets LinkRecord.after LinkRecord.NeedTcp (fun _ _ _ => True) g Q

/-- A program that stays apart from the sender enters no lock. -/
theorem apart_checks {p : CallProg α} (hp : p.Uses Call.Apart) : Checks p g fun _ _ => True := by
  refine hp.keeps (I := fun _ => True) ?_ (fun _ _ _ _ _ => trivial) trivial
  intro g' c _ hc
  cases c with
  | ncb h x => cases x <;> trivial
  | _ => trivial

/-- A program that stays on a TCP link. -/
theorem local_checks {p : CallProg α} (hp : p.Uses (Call.Local l)) (hl : l ∈ g.tcp) :
    Checks p g fun _ _ => True := by
  refine (hp.keeps (I := fun g' : LinkRecord => l ∈ g'.tcp) ?_ ?_ hl).mono fun _ _ _ => trivial
  · intro g' c hg hc
    cases c with
    | ncb h x =>
        obtain ⟨rfl, -⟩ := hc
        cases x <;> trivial
    | _ => trivial
  · intro g' c a hg hc
    exact (LinkRecord.grows_after g' c a).tcp hg

/-- A link that `tcprefr` grants is a TCP link. -/
theorem tcprefr_checks : Checks (tcprefr l) g fun g' r => 0 ≤ r → l ∈ g'.tcp := by
  have hneg : ∀ {n : Int} {g' : LinkRecord}, n < 0 → 0 ≤ n → l ∈ g'.tcp := by
    intro n g' hn hpos
    omega
  refine meets_ite.mpr ⟨fun _ => hneg (by decide), fun _ => ?_⟩
  refine meets_bind.mpr (meets_perform.mpr ⟨trivial, fun ncb _ => ?_⟩)
  refine meets_ite.mpr ⟨fun _ => hneg (by decide), fun hncb => ?_⟩
  refine meets_bind.mpr (meets_perform.mpr ⟨trivial, fun type _ => ?_⟩)
  refine meets_ite.mpr ⟨fun htype _ => ?_, fun _ => ?_⟩
  · simp [LinkRecord.after, hncb, htype]
  · exact meets_bind.mpr (meets_void.mpr ⟨trivial, fun _ _ => hneg (by decide)⟩)

/-- After `tcprefr`, a program stays on the TCP link. -/
theorem referred_checks {f : Int → CallProg α} (hf : (tcprefr l >>= f).Uses (Call.Local l))
    (hneg : ∀ r g', r < 0 → Checks (f r) g' fun _ _ => True) :
    Checks (tcprefr l >>= f) g fun _ _ => True := by
  refine meets_bind.mpr ((tcprefr_checks.and_uses hf).mono fun g' r hr => ?_)
  by_cases hpos : 0 ≤ r
  · exact local_checks hr.2 (hr.1 hpos)
  · exact hneg r g' (by omega)

/-- `tcp_write` has read the protocol of the link in `tcprefr` when it enters. -/
theorem tcpWrite_checks {origin serializer : Bool} {cb : Int} :
    Checks (tcpWrite turns l origin cb serializer) g fun _ _ => True := by
  have hlocal : (tcpWrite turns l origin cb serializer).Uses (Call.Local l) := tcpWrite_local
  refine meets_ite.mpr ⟨fun _ => trivial, fun hargs => ?_⟩
  rw [tcpWrite, if_neg hargs] at hlocal
  refine referred_checks hlocal fun r g' hr => ?_
  exact meets_ite.mpr ⟨fun _ => trivial, fun hpos => absurd hr hpos⟩

theorem tcpDispatchIoSend_checks {p : IoPacket} {transfer : Int} (hp : p.type = .send) :
    Checks (tcpDispatchIoSend p transfer turns) g fun _ _ => True := by
  have hlocal : (tcpDispatchIoSend p transfer turns).Uses (Call.Local p.link) :=
    tcpDispatchIoSend_local rfl (by rw [hp]; decide)
  refine meets_ite.mpr ⟨fun _ => apart_checks tcpShutdownByPacket_apart, fun htransfer => ?_⟩
  rw [tcpDispatchIoSend, if_neg htransfer] at hlocal
  refine referred_checks hlocal fun r g' hr => ?_
  exact meets_ite.mpr ⟨fun _ => apart_checks (by simp), fun hpos => absurd hr hpos⟩

theorem tcpDispatchIoException_checks {p : IoPacket} {status : NtStatus} :
    Checks (tcpDispatchIoException p status turns) g fun _ _ => True := by
  refine meets_bind.mpr (tcprefr_checks.mono fun g' r hr => ?_)
  refine meets_ite.mpr ⟨fun _ => apart_checks (by simp), fun hpos => ?_⟩
  dsimp only
  refine meets_ite.mpr ⟨fun hsend => ?_, fun _ => ?_⟩
  · refine local_checks (l := p.link) ?_ (hr (by omega))
    exact Uses.bind (tcpExceptionSend_local rfl (by rw [hsend]; decide)) fun _ => by simp
  · exact apart_checks (Uses.bind tcpShutdownByPacket_apart fun _ => by simp)

/-- **Every job enters the locks of TCP links only.** -/
theorem job_checks (j : Job) : Checks j.prog (.start j) fun _ _ => True := by
  rcases job_sends j with hapart | ⟨turns, lnk, origin, cb, serializer, rfl⟩
    | ⟨p, status, transfer, turns, irp, rfl, ⟨hsend, hevent⟩ | hevent⟩
  · exact apart_checks hapart
  · exact tcpWrite_checks
  · refine meets_bind.mpr (Meets.mono (Q := fun _ _ => True) ?_ fun _ _ _ => trivial)
    rw [hevent]
    exact tcpDispatchIoSend_checks hsend
  · refine meets_bind.mpr (Meets.mono (Q := fun _ _ => True) ?_ fun _ _ _ => trivial)
    rw [hevent]
    exact tcpDispatchIoException_checks

end

end

end Swnet.Sys
