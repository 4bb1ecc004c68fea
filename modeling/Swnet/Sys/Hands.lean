import Swnet.Sys.Steps

/-!
# Swnet — the packets a job has in hand

A job has in hand the packet of the completion it dispatches, the packets it allocates, and
those it takes out of a send queue. It gives them to the system, to a send queue or to `freepkt`.

* `hands` — the ledger of packets: a job frees, posts and queues no packet but those in hand;
* `job_hands` — every job keeps to it. Some packets are lost on the way, and stay allocated.

The list of packets in hand is all there is on record. A function has one of four contracts, from
the strongest to the weakest: it `Gives` a packet away unless it fails, it `Restores` what was in
hand, it `Spares` it and may leave more, or it is `Honest` and no more is said about what is left.
The functions that do nothing with packets (`Call.Handsoff`) restore by one induction on programs;
of the others each has its lemma, with the contract its callers need.
-/

namespace Swnet.Sys

open Jobs Jobs.Prog

/-! ## The packets in hand -/

namespace Hands

/-- The packets a job has in hand, after a call. -/
def after (g : List Int) (c : Call) (a : Int) : List Int :=
  match c with
  | .allocatePacket .. => if a < 0 then g else a :: g
  | .freepkt k => g.erase k
  | .post p => if a < 0 then g else g.erase p.packet
  | .ncb _ (.addTail k) => g.erase k
  | .ncb _ .popFront => a :: g
  | _ => g

/-- Only a packet in hand is freed, posted or queued. -/
@[simp] def Need (g : List Int) : Call → Prop
  | .freepkt k | .ncb _ (.addTail k) => k ∈ g
  | .post p => p.packet ∈ g
  | _ => True

def start : Job → List Int
  | .completion p _ _ _ _ => [p.packet]
  | .user _ => []

end Hands

/-- The ledger of packets. -/
def hands : Ledger Job Call Int Int (List Int) where
  idle := []
  init := Hands.start
  upd := Hands.after
  need := Hands.Need
  ok _ _ _ := True
  post _ _ _ := True

/-- A call that does nothing with packets, nor with the lock and the queue of a sender. -/
@[simp] def Call.Handsoff : Call → Prop
  | .allocatePacket .. | .freepkt _ | .post _ | .ncb _ (.addTail _) | .ncb _ .popFront
  | .ncb _ .enterSender | .ncb _ .leaveSender | .ncb _ .listEmpty => False
  | _ => True

section

variable {g : List Int} {l k : Int} {α β : Type}

/-- The program frees, posts and queues only what it has in hand, and ends in `Q`. -/
abbrev Handles (p : CallProg α) (g : List Int) (Q : List Int → α → Prop) : Prop :=
  p.Meets Hands.after Hands.Need (fun _ _ _ => True) g Q

/-- It ends with what it has begun with in hand. -/
abbrev Restores (p : CallProg α) (g : List Int) : Prop := Handles p g fun g' _ => g' = g

/-- It may end with more in hand. -/
abbrev Spares (p : CallProg α) (g : List Int) : Prop := Handles p g fun g' _ => g <:+ g'

/-- Whatever it ends with. -/
abbrev Honest (p : CallProg α) (g : List Int) : Prop := Handles p g fun _ _ => True

/-- It gives packet `k` away, unless it answers a negative number. -/
abbrev Gives (k : Int) (p : CallProg Int) (g : List Int) : Prop :=
  Handles p g fun g' r => g' = if r < 0 then g else g.erase k

/-- A call that does nothing with packets leaves the record as it is. -/
@[simp] theorem Hands.after_handsoff {c : Call} (a : Int) (hc : c.Handsoff) :
    Hands.after g c a = g := by
  cases c with
  | ncb h x => cases x <;> simp_all [Hands.after]
  | _ => simp_all [Hands.after]

/-- Nor does a program of such calls. By induction on the program. -/
theorem handsoff_restores {p : CallProg α} (hp : p.Uses Call.Handsoff) : Restores p g := by
  refine hp.keeps (I := fun g' : List Int => g' = g) ?_ ?_ rfl
  · intro g' c _ hc
    cases c with
    | ncb h x => cases x <;> trivial
    | _ => trivial
  · rintro g' c a rfl hc
    exact Hands.after_handsoff a hc

/-- What follows a part that restores has the same packets in hand. -/
theorem Restores.bind {p : CallProg α} {f : α → CallProg β} {Q : List Int → β → Prop}
    (hp : Restores p g) (hf : ∀ r, Handles (f r) g Q) : Handles (p >>= f) g Q :=
  Meets.bind_of_same hp hf

/-- Honest parts make an honest program. -/
theorem Honest.bind {p : CallProg α} {f : α → CallProg β} (hp : Honest p g)
    (hf : ∀ r g', Honest (f r) g') : Honest (p >>= f) g :=
  meets_bind.mpr (hp.mono fun g' r _ => hf r g')

/-- A program without packets is honest whatever is in hand. -/
theorem handsoff_honest {p : CallProg α} (hp : p.Uses Call.Handsoff) : Honest p g :=
  (handsoff_restores hp).mono fun _ _ _ => trivial

/-! ## Requests -/

/-- The answer of the `asio_*` functions is negative where that of the system is. -/
theorem retval_neg {a : Int} : (if a < 0 then -1 else 0 : Int) < 0 ↔ a < 0 := by
  split <;> omega

/-- A request that the system takes has its packet from then on; one that it refuses leaves it in
hand. -/
theorem asioTransfer_hands {p : IoPacket} (hk : p.packet ∈ g) :
    Gives p.packet (asioTransfer p) g := by
  simp +contextual [asioTransfer, Hands.after, hk, retval_neg, -not_lt, -Int.not_lt]

/-- The same of a connect request, which may fail before that too. -/
theorem asioTcpConnect_hands {p : IoPacket} (hk : p.packet ∈ g) :
    Gives p.packet (asioTcpConnect p) g := by
  simp +contextual [asioTcpConnect, Hands.after, hk, retval_neg, -not_lt, -Int.not_lt]

/-- It may answer 0 without having posted the packet. -/
theorem asioTcpAccept_hands {p : IoPacket} (hk : p.packet ∈ g) :
    Handles (asioTcpAccept p) g fun g' r =>
      g' = g ∨ ¬ r < 0 ∧ g' = g.erase p.packet := by
  have hposted : ∀ a : Int, a < 0 ∨ ¬ a < 0 ∧ (a < 0 → g = g.erase p.packet) := fun a =>
    (em (a < 0)).imp_right fun ha => ⟨ha, fun hneg => absurd hneg ha⟩
  simp +contextual [asioTcpAccept, Hands.after, hk, retval_neg, hposted, -not_lt, -Int.not_lt]

/-! ## Programs that leave packets alone -/

/-- A reference has nothing to do with packets. -/
theorem protoRefr_handsoff {proto : ProtoType} {negative : Int} :
    (protoRefr proto negative l).Uses Call.Handsoff := by
  simp [protoRefr]

/-- An exported function of the common shape does nothing with packets if its body does not. -/
theorem withLink_handsoff {refr body : CallProg Int} {failed : Int → Int} {defr : CallProg Unit}
    (hrefr : refr.Uses Call.Handsoff) (hbody : body.Uses Call.Handsoff)
    (hdefr : defr.Uses Call.Handsoff) : (withLink refr failed body defr).Uses Call.Handsoff := by
  refine Uses.bind hrefr fun _ => ?_
  simp only [pure_eq, uses_ite, uses_done, implies_true, true_and]
  intro _
  refine Uses.bind hbody fun _ => ?_
  exact Uses.bind hdefr fun _ => uses_done

/-- `tcp_update_local_addr` works on the control block. -/
theorem updateLocalAddr_handsoff : (updateLocalAddr l).Uses Call.Handsoff := by
  simp [updateLocalAddr]

/-- A link is made without a packet. -/
theorem tcpAllocateObject_handsoff {remote : Bool} :
    (tcpAllocateObject remote).Uses Call.Handsoff := by
  cases remote <;> simp [tcpAllocateObject, tcpEntry, tcpEntrySteps, tcpEntryLocal, tcpUpdateOpts]

/-- So is a UDP link: the receive comes after it, in `udp_create`. -/
theorem udpAllocateObject_handsoff {anyPort broadcast : Bool} :
    (udpAllocateObject anyPort broadcast).Uses Call.Handsoff := by
  cases anyPort <;> cases broadcast <;>
    simp [udpAllocateObject, udpEntry, udpEntryOpts, udpUpdateOpts]

/-- `tcp_syn_copy` reads the addresses that are behind the packet, not the packet. -/
theorem tcpSynCopy_handsoff {h : Int} {irp : AcceptAddrs} :
    (tcpSynCopy l h irp).Uses Call.Handsoff := by
  simp [tcpSynCopy, tcpSynCopyKnown]

/-- The pending counter. Induction on the turns. -/
theorem tcpWritePendingLoop_handsoff {turns : Nat} :
    (tcpWritePendingLoop l turns).Uses Call.Handsoff := by
  induction turns with
  | zero => simp [tcpWritePendingLoop]
  | succ turns ih => simp [tcpWritePendingLoop, ih]

/-- The parsing leaves the receive packet to `tcp_dispatch_io_recv`. -/
theorem tcpParse_handsoff {turns : Nat} : (tcpParse l turns).Uses Call.Handsoff := by
  have hloop : ∀ turns, (tcpPraseLogicPacket l turns).Uses Call.Handsoff := by
    intro turns
    induction turns with
    | zero => simp [tcpPraseLogicPacket]
    | succ turns ih => simp [tcpPraseLogicPacket, ih]
  simp [tcpParse, tcpLbAssemble, hloop]

/-- `udp_write` sends without a packet. -/
theorem udpTxSinglePacket_handsoff {turns : Nat} :
    (udpTxSinglePacket l turns).Uses Call.Handsoff := by
  induction turns with
  | zero => simp [udpTxSinglePacket]
  | succ turns ih => simp [udpTxSinglePacket, ih]

/-- The blocks of a group are no packets. Induction on the items. -/
theorem initializeItems_handsoff {count : Nat} : (initializeItems count).Uses Call.Handsoff := by
  induction count with
  | zero => simp [initializeItems]
  | succ count ih => simp [initializeItems, ih]

/-! ## Accepting -/

/-- The rounds of `tcp_syn` share one packet: a request that is refused leaves it for the next
round, and after the last it is left over, as nothing frees it. -/
theorem tcpSynRounds_hands {n : Nat} : Handles (tcpSynRounds l k n) (k :: g) fun g' _ =>
    g <:+ g' := by
  induction n with
  | zero => simp [tcpSynRounds, Hands.after]
  | succ n ih =>
      refine meets_bind.mpr (meets_void.mpr ⟨trivial, fun a _ => ?_⟩)
      refine Restores.bind (handsoff_restores tcpAllocateObject_handsoff) fun h => ?_
      refine meets_ite.mpr ⟨fun _ => by simp [Hands.after], fun _ => ?_⟩
      refine meets_bind.mpr ((asioTcpAccept_hands List.mem_cons_self).mono fun g₁ r h₁ => ?_)
      refine meets_ite.mpr ⟨fun _ => ?_, fun hr => ?_⟩
      · rcases h₁ with rfl | ⟨-, rfl⟩
        · exact List.suffix_cons k g
        · rw [List.erase_cons_head]
          exact List.suffix_rfl
      · -- the packet is used again in the next round
        obtain rfl := h₁.resolve_right fun h => hr (by omega)
        exact meets_bind.mpr (meets_void.mpr ⟨trivial, fun _ _ => ih⟩)

/-- `tcp_syn` allocates the packet of its request. -/
theorem tcpSyn_hands : Spares (tcpSyn l) g := by
  refine meets_bind.mpr (meets_void.mpr ⟨trivial, fun a _ => ?_⟩)
  refine meets_bind.mpr (meets_perform.mpr ⟨trivial, fun k _ => ?_⟩)
  refine meets_ite.mpr ⟨fun hk => ?_, fun hk => ?_⟩
  · simp [Hands.after, hk]
  · simp only [Hands.after, if_neg hk]
    exact tcpSynRounds_hands

/-- The loop of `tcp_listen`, by induction on the turns left. -/
theorem tcpListenRounds_hands {n : Nat} : Spares (tcpListenRounds l n) g := by
  induction n generalizing g with
  | zero => exact tcpSyn_hands
  | succ n ih =>
      refine meets_bind.mpr (tcpSyn_hands.mono fun g₁ r h₁ => ?_)
      refine meets_ite.mpr ⟨fun _ => h₁, fun _ => ?_⟩
      exact ih.mono fun g₂ _ h₂ => h₁.trans h₂

/-- `tcp_listen` starts with no packet, and may lose one. -/
theorem tcpListen_hands {block : Int} : Honest (tcpListen l block) g := by
  refine Restores.bind (handsoff_restores protoRefr_handsoff) fun r => ?_
  refine meets_ite.mpr ⟨fun _ => trivial, fun _ => ?_⟩
  refine meets_bind.mpr (meets_perform.mpr ⟨trivial, fun a _ => ?_⟩)
  dsimp only
  refine meets_ite.mpr ⟨fun _ => by simp, fun _ => ?_⟩
  exact meets_bind.mpr (tcpListenRounds_hands.mono fun g₁ r₁ _ => by simp)

/-- The packet of the first receive is allocated, and given to the system. -/
theorem firstRecv_hands : Honest (firstRecv l) g := by
  refine meets_bind.mpr (meets_void.mpr ⟨trivial, fun a _ => ?_⟩)
  refine meets_bind.mpr (meets_perform.mpr ⟨trivial, fun k _ => ?_⟩)
  refine meets_ite.mpr ⟨fun _ => trivial, fun hk => ?_⟩
  exact (asioTransfer_hands (by simp [Hands.after, hk, IoPacket.plain])).mono fun _ _ _ => trivial

/-- What is done with an accepted link allocates the packet of its first receive. -/
theorem takeAccepted_hands {h : Int} {irp : AcceptAddrs} : Honest (takeAccepted l h irp) g := by
  refine Honest.bind (handsoff_honest tcpSynCopy_handsoff) fun r g₁ => ?_
  dsimp only
  refine meets_ite.mpr ⟨fun _ => handsoff_honest (by simp), fun _ => ?_⟩
  exact Honest.bind firstRecv_hands fun r₂ g₂ => handsoff_honest (by simp)

/-- The dispatch of an accept lets go of its packet, without freeing it. -/
theorem tcpDispatchIoSyn_hands {p : IoPacket} {irp : AcceptAddrs} :
    Honest (tcpDispatchIoSyn p irp) g := by
  have hagain : ∀ g₂, Honest (do
      let retval ← tcpSyn p.link
      if retval < 0 then objclosHld p.link
      objdefrHld p.link : CallProg Unit) g₂ := fun g₂ =>
    Honest.bind (tcpSyn_hands.mono fun _ _ _ => trivial) fun r₃ g₃ => handsoff_honest (by simp)
  refine Honest.bind (handsoff_honest protoRefr_handsoff) fun r g₁ => ?_
  refine meets_ite.mpr ⟨fun _ => trivial, fun _ => ?_⟩
  refine Honest.bind (handsoff_honest protoRefr_handsoff) fun r₂ g₂ => ?_
  dsimp only
  refine meets_ite.mpr ⟨fun _ => ?_, fun _ => hagain g₂⟩
  exact Honest.bind takeAccepted_hands fun _ g₃ => hagain g₃

/-- A failed accept frees its packet, after the request was made again with another. -/
theorem tcpShutdownSyn_hands {p : IoPacket} (hk : p.packet ∈ g) : Honest (tcpShutdownSyn p) g := by
  have hend : ∀ g₁, g <:+ g₁ → Honest (do
      void (.objclos p.acceptedLink)
      void (.freepkt p.packet) : CallProg Unit) g₁ := by
    intro g₁ h₁
    simp [Hands.after, h₁.subset hk]
  refine Restores.bind (handsoff_restores protoRefr_handsoff) fun r => ?_
  dsimp only
  refine meets_ite.mpr ⟨fun _ => ?_, fun _ => hend g List.suffix_rfl⟩
  refine meets_bind.mpr (tcpSyn_hands.mono fun g₁ r₁ h₁ => ?_)
  exact Restores.bind (handsoff_restores (by simp)) fun _ => hend g₁ h₁

/-- The packet is freed, whatever it was for. -/
theorem tcpShutdownByPacket_hands {p : IoPacket} (hk : p.packet ∈ g) :
    Honest (tcpShutdownByPacket p) g := by
  unfold tcpShutdownByPacket
  split
  · simp [Hands.after, hk]
  · simp [Hands.after, hk]
  · simp [Hands.after, hk]
  · exact tcpShutdownSyn_hands hk
  · trivial

/-! ## Sending -/

/-- The packet that is taken from the queue is posted, or freed with its link. -/
theorem tcpTryWriteNext_hands {turns : Nat} :
    Handles (tcpTryWriteNext turns l) g fun g' r => g' = g ∧ r = 0 := by
  refine Restores.bind (handsoff_restores tcpWritePendingLoop_handsoff) fun first => ?_
  cases first with
  | false => simp [Hands.after]
  | true =>
      refine meets_bind.mpr (meets_perform.mpr ⟨trivial, fun next _ => ?_⟩)
      refine meets_bind.mpr (meets_void.mpr ⟨trivial, fun _ _ => ?_⟩)
      refine meets_bind.mpr (meets_void.mpr ⟨trivial, fun _ _ => ?_⟩)
      refine meets_bind.mpr ((asioTransfer_hands (g := next :: g) List.mem_cons_self).mono
        fun g₁ r h₁ => ?_)
      replace h₁ : g₁ = if r < 0 then next :: g else g := by
        rw [h₁, IoPacket.plain, List.erase_cons_head]
      refine meets_ite.mpr ⟨fun hr => ?_, fun hr => ?_⟩
      · rw [if_pos hr] at h₁
        subst h₁
        simp [tcpShutdownByPacket, IoPacket.plain, Hands.after]
      · rw [if_neg hr] at h₁
        exact ⟨h₁, rfl⟩

/-- Without a packet of its own `tcp_try_write` takes one out of the queue and gives it away, or
takes none. -/
theorem tcpTryWrite_none_hands {turns : Nat} : Restores (tcpTryWrite turns l none) g := by
  refine meets_bind.mpr (meets_void.mpr ⟨trivial, fun a _ => ?_⟩)
  refine meets_bind.mpr (meets_perform.mpr ⟨trivial, fun empty _ => ?_⟩)
  refine meets_ite.mpr ⟨fun _ => by simp [Hands.after], fun _ => ?_⟩
  exact tcpTryWriteNext_hands.mono fun g₁ _ h₁ => h₁.1

/-- A packet that is handed over is queued, unless the queue is full: then it stays with the
caller. -/
theorem tcpTryWrite_some_hands {turns : Nat} (hk : k ∈ g) :
    Gives k (tcpTryWrite turns l (some k)) g := by
  refine meets_bind.mpr (meets_void.mpr ⟨trivial, fun a _ => ?_⟩)
  refine meets_bind.mpr (meets_perform.mpr ⟨trivial, fun size _ => ?_⟩)
  refine meets_ite.mpr ⟨fun _ => by simp [Hands.after], fun _ => ?_⟩
  refine meets_bind.mpr (meets_void.mpr ⟨hk, fun _ _ => ?_⟩)
  refine tcpTryWriteNext_hands.mono fun g₁ r h₁ => ?_
  obtain ⟨rfl, rfl⟩ := h₁
  simp [Hands.after]

/-- The packet of `tcp_write` is in hand where it could be made. -/
theorem tcpWritePacket_hands {builder serializer : Bool} :
    Handles (tcpWritePacket l builder serializer) g fun g' r =>
      g' = if r < 0 then g else r :: g := by
  cases builder <;> cases serializer <;>
    simp +contextual [tcpWritePacket, Hands.after, -not_lt, -Int.not_lt]

/-- `tcp_write` frees what it could not queue. -/
theorem tcpWrite_hands {turns : Nat} {origin serializer : Bool} {cb : Int} :
    Restores (tcpWrite turns l origin cb serializer) g := by
  refine meets_ite.mpr ⟨fun _ => rfl, fun _ => ?_⟩
  refine Restores.bind (handsoff_restores protoRefr_handsoff) fun r => ?_
  refine meets_ite.mpr ⟨fun _ => rfl, fun _ => ?_⟩
  have hend : ∀ r : Int, Restores (do
      objdefrHld l
      return r : CallProg Int) g := fun r => handsoff_restores (by simp)
  -- from the packet on; what comes before is without one
  have hwrite : ∀ b : Bool, Restores (do
      let packet ← tcpWritePacket l b serializer
      if packet < 0 then do
        objdefrHld l
        return -1
      else do
        let retval ← tcpTryWrite turns l (some packet)
        if retval < 0 then do
          void (.freepkt packet)
          objdefrHld l
          return retval
        else do
          objdefrHld l
          return retval : CallProg Int) g := by
    intro b
    refine meets_bind.mpr (tcpWritePacket_hands.mono fun g₁ packet h₁ => ?_)
    refine meets_ite.mpr ⟨fun hp => ?_, fun hp => ?_⟩
    · rw [if_pos hp] at h₁
      rw [h₁]
      exact hend _
    rw [if_neg hp] at h₁
    subst h₁
    refine meets_bind.mpr ((tcpTryWrite_some_hands List.mem_cons_self).mono fun g₂ r₂ h₂ => ?_)
    rw [List.erase_cons_head] at h₂
    refine meets_ite.mpr ⟨fun hr => ?_, fun hr => ?_⟩
    · -- a packet that was refused is freed by the caller
      rw [if_pos hr] at h₂
      subst h₂
      refine meets_bind.mpr (meets_void.mpr ⟨List.mem_cons_self, fun _ _ => ?_⟩)
      simp [Hands.after]
    · rw [if_neg hr] at h₂
      rw [h₂]
      exact hend _
  refine meets_bind.mpr (meets_perform.mpr ⟨trivial, fun size _ => ?_⟩)
  dsimp only
  refine meets_ite.mpr ⟨fun _ => hend _, fun _ => ?_⟩
  refine meets_bind.mpr (meets_perform.mpr ⟨trivial, fun builder _ => ?_⟩)
  refine meets_ite.mpr ⟨fun _ => hwrite _, fun _ => ?_⟩
  exact meets_bind.mpr (meets_perform.mpr ⟨trivial, fun noBuild _ => hwrite _⟩)

/-! ## Completions -/

section

variable {p : IoPacket} {status : NtStatus} {transfer : Int} {turns : Nat}

/-- A send that completed frees its packet, and the next is taken out of the queue. -/
theorem tcpDispatchIoSend_hands (hk : p.packet ∈ g) :
    Honest (tcpDispatchIoSend p transfer turns) g := by
  refine meets_ite.mpr ⟨fun _ => tcpShutdownByPacket_hands hk, fun _ => ?_⟩
  refine Restores.bind (handsoff_restores protoRefr_handsoff) fun r => ?_
  refine meets_ite.mpr ⟨fun _ => by simp [hk], fun _ => ?_⟩
  refine meets_bind.mpr (meets_void.mpr ⟨trivial, fun _ _ => ?_⟩)
  refine Restores.bind (g := g) tcpTryWrite_none_hands fun r₁ => ?_
  simp [hk]

theorem tcpExceptionSend_hands (hk : p.packet ∈ g) :
    Honest (tcpExceptionSend p status turns) g := by
  refine meets_ite.mpr ⟨fun _ => tcpShutdownByPacket_hands hk, fun _ => ?_⟩
  refine meets_bind.mpr (meets_void.mpr ⟨trivial, fun _ _ => ?_⟩)
  refine meets_bind.mpr (meets_void.mpr ⟨hk, fun _ _ => ?_⟩)
  exact Restores.bind tcpTryWrite_none_hands fun _ => trivial

/-- A failed completion frees its packet, by itself or through `tcp_shutdown_by_packet`. -/
theorem tcpDispatchIoException_hands (hk : p.packet ∈ g) :
    Honest (tcpDispatchIoException p status turns) g := by
  refine Restores.bind (handsoff_restores protoRefr_handsoff) fun r => ?_
  refine meets_ite.mpr ⟨fun _ => by simp [hk], fun _ => ?_⟩
  dsimp only
  refine meets_ite.mpr ⟨fun _ => ?_, fun _ => ?_⟩
  · exact Honest.bind (tcpExceptionSend_hands hk) fun _ g₁ => handsoff_honest (by simp)
  · exact Honest.bind (tcpShutdownByPacket_hands hk) fun _ g₁ => handsoff_honest (by simp)

/-- The receive packet is posted again, or freed with the link. -/
theorem tcpDispatchIoRecv_hands (hk : p.packet ∈ g) :
    Honest (tcpDispatchIoRecv p transfer turns) g := by
  refine meets_ite.mpr ⟨fun _ => tcpShutdownByPacket_hands hk, fun _ => ?_⟩
  refine Restores.bind (handsoff_restores protoRefr_handsoff) fun r => ?_
  refine meets_ite.mpr ⟨fun _ => by simp [hk], fun _ => ?_⟩
  refine Restores.bind (handsoff_restores tcpParse_handsoff) fun r₁ => ?_
  dsimp only
  refine meets_ite.mpr ⟨fun _ => ?_, fun hr₁ => by simp [hk, hr₁, Hands.after]⟩
  refine meets_bind.mpr ((asioTransfer_hands hk).mono fun g₂ r₂ h₂ => ?_)
  -- it is freed where it was not posted again
  by_cases hr₂ : r₂ < 0
  · rw [if_pos hr₂] at h₂
    subst h₂
    simp [hk, Hands.after]
  · simp [hr₂]

/-- The packet of the first receive of a connected link. -/
theorem tcpConnected_hands : Honest (tcpConnected l) g := by
  refine Restores.bind (handsoff_restores updateLocalAddr_handsoff) fun _ => ?_
  have hfailed : ∀ g₁, Honest (connectedFailed l) g₁ := fun g₁ =>
    handsoff_honest (by simp [connectedFailed])
  have hrest : Honest (do
      ncbHld l
      let packet ← perform (.allocatePacket l .tcp .recv)
      if packet < 0 then do
        nisCallEcr l
        connectedFailed l
      else do
        let retval ← asioTcpRecv (.plain packet .tcp .recv l)
        if retval < 0 then do
          nisCallEcr l
          tcpShutdownByPacket (.plain packet .tcp .recv l)
          connectedFailed l
        else do
          void (.emit (.connected l))
          nisCallEcr l
          objdefrHld l : CallProg Unit) g := by
    refine meets_bind.mpr (meets_void.mpr ⟨trivial, fun _ _ => ?_⟩)
    refine meets_bind.mpr (meets_perform.mpr ⟨trivial, fun packet _ => ?_⟩)
    refine meets_ite.mpr ⟨fun _ => ?_, fun hp => ?_⟩
    · exact meets_bind.mpr (meets_void.mpr ⟨trivial, fun _ _ => hfailed _⟩)
    have hg : Hands.after (Hands.after g (.ncb l (.read .hld)) 0)
      (.allocatePacket l .tcp .recv) packet
        = packet :: g := by simp [Hands.after, hp]
    refine meets_bind.mpr ((asioTransfer_hands (by simp [Hands.after, hp, IoPacket.plain])).mono
      fun g₁ r h₁ => ?_)
    refine meets_ite.mpr ⟨fun hr => ?_, fun _ => handsoff_honest (by simp)⟩
    rw [if_pos hr] at h₁
    refine meets_bind.mpr (meets_void.mpr ⟨trivial, fun _ _ => ?_⟩)
    refine Honest.bind (tcpShutdownByPacket_hands ?_) fun _ g₂ => hfailed g₂
    rw [h₁]
    simp [Hands.after, hp, IoPacket.plain]
  refine meets_bind.mpr (meets_perform.mpr ⟨trivial, fun updated _ => ?_⟩)
  dsimp only
  refine meets_ite.mpr ⟨fun _ => ?_, fun _ => hrest⟩
  exact meets_bind.mpr (meets_void.mpr ⟨trivial, fun _ _ => hrest⟩)

/-- The packet of the connect request is freed before anything else is done. -/
theorem tcpDispatchIoConnected_hands (hk : p.packet ∈ g) :
    Honest (tcpDispatchIoConnected p) g := by
  refine Restores.bind (handsoff_restores protoRefr_handsoff) fun r => ?_
  refine meets_ite.mpr ⟨fun _ => by simp [hk], fun _ => ?_⟩
  exact meets_bind.mpr (meets_void.mpr ⟨hk, fun _ _ => tcpConnected_hands⟩)

/-- The receive packet of a UDP link is posted again or freed; a send packet is freed. -/
theorem udpDispatchIoEvent_hands (hk : p.packet ∈ g) :
    Honest (udpDispatchIoEvent p status transfer) g := by
  have hrecv : Honest (asioUdpRecv p) g := (asioTransfer_hands hk).mono fun _ _ _ => trivial
  have hshut : Honest (udpShutdownByPacket p) g := by simp [udpShutdownByPacket, Hands.after, hk]
  refine meets_ite.mpr ⟨fun _ => meets_ite.mpr ⟨fun _ => hshut, fun _ => ?_⟩, fun _ => ?_⟩
  · split
    · refine Restores.bind (handsoff_restores protoRefr_handsoff) fun r => ?_
      refine meets_ite.mpr ⟨fun _ => trivial, fun _ => ?_⟩
      refine meets_bind.mpr (meets_void.mpr ⟨trivial, fun _ _ => ?_⟩)
      exact Honest.bind hrecv fun _ g₁ => handsoff_honest (by simp)
    · simp [hk]
    · trivial
  · refine Restores.bind (handsoff_restores protoRefr_handsoff) fun r => ?_
    refine meets_ite.mpr ⟨fun _ => trivial, fun _ => ?_⟩
    dsimp only
    refine meets_ite.mpr ⟨fun _ => ?_, fun _ => ?_⟩
    · exact Honest.bind hrecv fun _ g₁ => handsoff_honest (by simp)
    · exact Honest.bind hshut fun _ g₁ => handsoff_honest (by simp)

/-- Every dispatch does honest work on the packet of its completion. -/
theorem soDispatchIoEvent_hands {irp : AcceptAddrs} (hk : p.packet ∈ g) :
    Honest (soDispatchIoEvent p status transfer turns irp) g := by
  unfold soDispatchIoEvent
  split
  · exact udpDispatchIoEvent_hands hk
  · refine meets_ite.mpr ⟨fun _ => ?_, fun _ => tcpDispatchIoException_hands hk⟩
    split
    · exact tcpDispatchIoSyn_hands
    · exact tcpDispatchIoRecv_hands hk
    · exact tcpDispatchIoSend_hands hk
    · exact tcpDispatchIoConnected_hands hk
    · trivial
  · simp +contextual [soDispatchPipeEvent, Hands.after, hk]
  · trivial

end

/-! ## Calls of the user -/

/-- The receive packet of `tcp_connect`: where the system refuses it, it is lost. -/
theorem tcpConnectDone_hands {addr : SockaddrIn} : Honest (tcpConnectDone l addr) g := by
  refine Restores.bind (handsoff_restores updateLocalAddr_handsoff) fun _ => ?_
  refine meets_bind.mpr (meets_void.mpr ⟨trivial, fun _ _ => ?_⟩)
  refine meets_bind.mpr (meets_perform.mpr ⟨trivial, fun packet _ => ?_⟩)
  refine meets_ite.mpr ⟨fun _ => trivial, fun hp => ?_⟩
  have hk : packet ∈ Hands.after g (.allocatePacket l .tcp .recv) packet := by
    simp [Hands.after, hp]
  refine meets_bind.mpr ((asioTransfer_hands (p := .plain packet .tcp .recv l) hk).mono
    fun g₁ r h₁ => ?_)
  refine meets_ite.mpr ⟨fun hr => ?_, fun _ => handsoff_honest (by simp)⟩
  rw [if_pos hr] at h₁
  subst h₁
  exact meets_bind.mpr (meets_void.mpr ⟨hk, fun _ _ => trivial⟩)

/-- `tcp_connect`, which allocates it. -/
theorem tcpConnect_hands {rIpstr : Bool} {addr : SockaddrIn} :
    Honest (tcpConnect l rIpstr addr) g := by
  refine meets_ite.mpr ⟨fun _ => trivial, fun _ => ?_⟩
  refine Restores.bind (handsoff_restores protoRefr_handsoff) fun r => ?_
  refine meets_ite.mpr ⟨fun _ => trivial, fun _ => ?_⟩
  refine meets_bind.mpr (meets_perform.mpr ⟨trivial, fun parsed _ => ?_⟩)
  refine meets_ite.mpr ⟨fun _ => handsoff_honest (by simp), fun _ => ?_⟩
  refine meets_bind.mpr (meets_perform.mpr ⟨trivial, fun connected _ => ?_⟩)
  dsimp only
  refine meets_ite.mpr ⟨fun _ => handsoff_honest (by simp), fun _ => ?_⟩
  exact Honest.bind tcpConnectDone_hands fun _ g₁ => handsoff_honest (by simp)

/-- A connect request that was not posted leaves its packet in hand, and it is freed. -/
theorem tcpConnect2Post_hands {addr : SockaddrIn} : Honest (tcpConnect2Post l addr) g := by
  refine meets_bind.mpr (meets_void.mpr ⟨trivial, fun _ _ => ?_⟩)
  refine meets_bind.mpr (meets_perform.mpr ⟨trivial, fun packet _ => ?_⟩)
  refine meets_ite.mpr ⟨fun _ => trivial, fun hp => ?_⟩
  have hk : packet ∈ Hands.after g (.allocatePacket l .tcp .connect) packet := by
    simp [Hands.after, hp]
  refine meets_bind.mpr (meets_perform.mpr ⟨trivial, fun parsed _ => ?_⟩)
  dsimp only
  refine meets_ite.mpr ⟨fun _ => ?_, fun _ => ?_⟩
  · exact meets_bind.mpr (meets_bind.mpr (meets_void.mpr ⟨hk, fun _ _ => trivial⟩))
  · refine meets_bind.mpr ((asioTcpConnect_hands
      (p := ⟨packet, .tcp, .connect, l, -1, addr⟩) hk).mono fun g₁ r h₁ => ?_)
    refine meets_ite.mpr ⟨fun hr => ?_, fun _ => trivial⟩
    rw [if_pos hr] at h₁
    subst h₁
    exact meets_bind.mpr (meets_void.mpr ⟨hk, fun _ _ => trivial⟩)

theorem tcpConnect2_hands {rIpstr : Bool} {addr : SockaddrIn} :
    Honest (tcpConnect2 l rIpstr addr) g := by
  refine meets_ite.mpr ⟨fun _ => trivial, fun _ => ?_⟩
  refine Restores.bind (handsoff_restores protoRefr_handsoff) fun r => ?_
  refine meets_ite.mpr ⟨fun _ => trivial, fun _ => ?_⟩
  exact Honest.bind tcpConnect2Post_hands fun _ g₁ => handsoff_honest (by simp)

/-- `tcp_awaken` and `udp_awaken` write to the pipe. -/
theorem awaken_hands {data : Bool} {cb : Int} : Honest (awaken l data cb) g := by
  simp +contextual [awaken, Hands.after, IoPacket.plain, -not_lt, -Int.not_lt]

/-- `udp_create` posts the receive packet it allocated, and does not free it where it is refused. -/
theorem udpCreate_hands {userCallback lIpstr anyPort broadcast : Bool} :
    Honest (udpCreate userCallback lIpstr anyPort broadcast) g := by
  have hmake : ∀ g₁, Honest (do
      let h ← udpAllocateObject anyPort broadcast
      if h < 0 then return -1
      else do
        let array ← perform (.other .malloc)
        let packet ← if array < 0 then pure (-1) else perform (.allocatePacket h .udp .recv)
        if packet < 0 then do
          if 0 ≤ array then void (.other .free)
          void (.objclos h)
          return -1
        else do
          let _ ← asioUdpRecv (.plain packet .udp .recv h)
          void (.other .free)
          return h : CallProg Int) g₁ := by
    intro g₁
    refine Restores.bind (handsoff_restores udpAllocateObject_handsoff) fun h => ?_
    simp +contextual [asioUdpRecv, asioTransfer, Hands.after, IoPacket.plain, -not_lt, -Int.not_lt]
  cases userCallback <;> cases lIpstr
  · simp [udpCreate]
  · simp [udpCreate]
  · simpa [udpCreate] using hmake g
  · refine meets_bind.mpr (meets_perform.mpr ⟨trivial, fun a _ => ?_⟩)
    exact meets_ite.mpr ⟨fun _ => trivial, fun _ => hmake _⟩

/-- The packet of a group is allocated, sent and freed by the one call. -/
theorem udpWriteGrp_hands {grp : Bool} {count : Nat} : Honest (udpWriteGrp l grp count) g := by
  have hsend : (syioGrpSend l).Uses Call.Handsoff :=
    withLink_handsoff (by simp) (by simp) (by simp)
  refine meets_ite.mpr ⟨fun _ => trivial, fun _ => ?_⟩
  refine Restores.bind (handsoff_restores protoRefr_handsoff) fun r => ?_
  refine meets_ite.mpr ⟨fun _ => trivial, fun _ => ?_⟩
  refine Honest.bind ?_ fun _ g₁ => handsoff_honest (by simp)
  refine meets_bind.mpr (meets_perform.mpr ⟨trivial, fun connected _ => ?_⟩)
  refine meets_ite.mpr ⟨fun _ => trivial, fun _ => ?_⟩
  refine meets_bind.mpr (meets_perform.mpr ⟨trivial, fun packet _ => ?_⟩)
  refine meets_ite.mpr ⟨fun _ => trivial, fun hp => ?_⟩
  have hk : packet ∈ Hands.after g (.allocatePacket l .udp .send) packet := by
    simp [Hands.after, hp]
  refine meets_bind.mpr (meets_perform.mpr ⟨trivial, fun elements _ => ?_⟩)
  dsimp only
  refine meets_ite.mpr ⟨fun _ => ?_, fun _ => ?_⟩
  · exact meets_bind.mpr (meets_bind.mpr (meets_void.mpr ⟨hk, fun _ _ => trivial⟩))
  · refine Restores.bind (handsoff_restores hsend) fun r₁ => ?_
    exact meets_bind.mpr (meets_void.mpr ⟨hk, fun _ _ => trivial⟩)

/-- Of the exported calls, those that connect, send, awaken and make a UDP link handle packets. -/
def UserCall.Packets : UserCall → Bool
  | .tcpListen .. | .tcpConnect .. | .tcpConnect2 .. | .tcpWrite .. | .tcpAwaken .. | .udpCreate ..
  | .udpAwaken .. | .udpWriteGrp .. => true
  | _ => false

theorem tcpSockopt_handsoff {c : SockCall} {ptrs : Bool} :
    (tcpSockopt c l ptrs).Uses Call.Handsoff := by
  simp only [tcpSockopt, pure_eq, uses_ite, uses_done, implies_true, true_and]
  exact fun _ => withLink_handsoff protoRefr_handsoff (by simp) (by simp)

theorem udpSockopt_handsoff {c : SockCall} {ptrs : Bool} :
    (udpSockopt c l ptrs).Uses Call.Handsoff := by
  simp only [udpSockopt, pure_eq, uses_ite, uses_done, implies_true, true_and]
  exact fun _ => withLink_handsoff protoRefr_handsoff (by simp) (by simp)

/-- `udp_write` frees its buffer, which is no packet. -/
theorem udpWrite_handsoff {turns : Nat} {valid serializer : Bool} :
    (udpWrite turns l valid serializer).Uses Call.Handsoff := by
  simp only [udpWrite, pure_eq, uses_ite, uses_done, implies_true, true_and]
  intro _
  refine withLink_handsoff (by simp) ?_ (by simp)
  simp only [Int.reduceNeg, done_bind, uses_perform_bind, Call.Handsoff, uses_ite, uses_done,
    implies_true, uses_void_bind, true_and]
  intro _ _ _ _
  exact Uses.bind udpTxSinglePacket_handsoff fun _ => by simp

/-- `udp_initialize_grp` allocates the blocks of a group. -/
theorem udpInitializeGrp_handsoff {grp : Bool} {count : Nat} :
    (udpInitializeGrp l grp count).Uses Call.Handsoff := by
  simp only [udpInitializeGrp, pure_eq, uses_ite, uses_done, implies_true, true_and]
  intro _
  refine withLink_handsoff protoRefr_handsoff ?_ (by simp)
  simp only [Int.reduceNeg, uses_perform_bind, Call.Handsoff, uses_ite, uses_done, implies_true,
    true_and]
  intro _ _
  exact Uses.bind initializeItems_handsoff fun _ => by simp

theorem nisCntl_handsoff {cmd : NiCmd} : (nisCntl l cmd).Uses Call.Handsoff := by
  have hset : ∀ tst cb, (tcpSettstR l tst cb).Uses Call.Handsoff := by
    intro tst cb
    simp only [tcpSettstR, pure_eq, uses_ite, uses_done, implies_true, true_and]
    exact fun _ _ => withLink_handsoff protoRefr_handsoff (by simp) (by simp)
  have hget : ∀ tst, (tcpGettstR l tst).Uses Call.Handsoff := by
    intro tst
    simp only [tcpGettstR, pure_eq, uses_ite, uses_done, implies_true, true_and]
    exact fun _ => withLink_handsoff protoRefr_handsoff (by simp) (by simp)
  simp only [nisCntl, pure_eq, uses_perform_bind, uses_ite, uses_done, implies_true, true_and]
  refine ⟨by simp, fun _ _ => ?_⟩
  cases cmd with
  | settst tst cb => exact Uses.bind (hset tst cb) fun _ => by simp
  | gettst tst => exact Uses.bind (hget tst) fun _ => by simp
  | _ => simp

/-- The exported functions that never have a packet in hand, all at once. -/
theorem UserCall.prog_handsoff {c : UserCall} (hc : c.Packets = false) :
    c.prog.Uses Call.Handsoff := by
  cases c <;> simp only [UserCall.prog]
  case tcpListen => cases hc
  case tcpConnect => cases hc
  case tcpConnect2 => cases hc
  case tcpWrite => cases hc
  case tcpAwaken => cases hc
  case udpCreate => cases hc
  case udpAwaken => cases hc
  case udpWriteGrp => cases hc
  case tcpCreate userCallback lIpstr =>
    cases userCallback <;> cases lIpstr <;> simp [Sys.tcpCreate, tcpAllocateObject_handsoff]
  case tcpDestroy => simp [Sys.tcpDestroy]
  case udpDestroy => simp [Sys.udpDestroy, Sys.tcpDestroy]
  case udpWrite => exact udpWrite_handsoff
  case udpInitializeGrp => exact udpInitializeGrp_handsoff
  case tcpSettst =>
    simp only [Sys.tcpSettst, pure_eq, uses_ite, uses_done, implies_true, true_and]
    exact fun _ => withLink_handsoff protoRefr_handsoff (by simp) (by simp)
  case tcpGettst => exact withLink_handsoff protoRefr_handsoff (by simp) (by simp)
  case tcpGetaddr =>
    simp only [Sys.tcpGetaddr, pure_eq, uses_ite, uses_done, implies_true, true_and]
    refine fun _ => withLink_handsoff protoRefr_handsoff ?_ (by simp)
    split <;> simp
  case tcpSetopt => exact tcpSockopt_handsoff
  case tcpGetopt => exact tcpSockopt_handsoff
  case tcpSetattr => exact withLink_handsoff protoRefr_handsoff (by simp) (by simp)
  case tcpGetattr => exact withLink_handsoff protoRefr_handsoff (by simp) (by simp)
  case udpGetaddr =>
    simp only [Sys.udpGetaddr, pure_eq, uses_ite, uses_done, implies_true, true_and]
    exact fun _ => withLink_handsoff protoRefr_handsoff (by simp) (by simp)
  case udpSetopt => exact udpSockopt_handsoff
  case udpGetopt => exact udpSockopt_handsoff
  case udpRaiseGrp =>
    refine withLink_handsoff protoRefr_handsoff ?_ (by simp)
    simp [syioVConnect, updateLocalAddr]
  case udpDetachGrp => exact withLink_handsoff protoRefr_handsoff (by simp) (by simp)
  case udpJoingrp =>
    simp only [Sys.udpJoingrp, pure_eq, uses_ite, uses_done, implies_true, true_and]
    exact fun _ => withLink_handsoff (by simp) (by simp) (by simp)
  case udpDropgrp =>
    simp only [Sys.udpDropgrp, pure_eq, uses_ite, uses_done, implies_true, true_and]
    exact fun _ => withLink_handsoff (by simp) (by simp) (by simp)
  case nisSetctx => exact withLink_handsoff (by simp) (by simp) (by simp)
  case nisGetctx =>
    simp only [Sys.nisGetctx, pure_eq, uses_ite, uses_done, implies_true, true_and]
    exact fun _ => withLink_handsoff (by simp) (by simp) (by simp)
  case nisRefctx => exact withLink_handsoff (by simp) (by simp) (by simp)
  case nisCtxsize => exact withLink_handsoff (by simp) (by simp) (by simp)
  case nisSetmask => exact withLink_handsoff (by simp) (by simp) (by simp)
  case nisGetmask => exact withLink_handsoff (by simp) (by simp) (by simp)
  case nisCntl => exact nisCntl_handsoff

/-- **Every exported function is honest.** -/
theorem userCall_hands {c : UserCall} : Honest c.prog g := by
  cases c with
  | tcpListen => exact tcpListen_hands
  | tcpConnect => exact tcpConnect_hands
  | tcpConnect2 => exact tcpConnect2_hands
  | tcpWrite => exact tcpWrite_hands.mono fun _ _ _ => trivial
  | tcpAwaken => exact awaken_hands
  | udpCreate => exact udpCreate_hands
  | udpAwaken => exact awaken_hands
  | udpWriteGrp => exact udpWriteGrp_hands
  | _ => exact handsoff_honest (UserCall.prog_handsoff rfl)

/-- **Every job handles only packets it has in hand.** -/
theorem job_hands (j : Job) : Honest j.prog (Hands.start j) := by
  cases j with
  | user c => exact userCall_hands
  | completion p status transfer turns irp =>
      exact Honest.bind (soDispatchIoEvent_hands (List.mem_singleton_self _)) fun _ _ => trivial

end

end Swnet.Sys
