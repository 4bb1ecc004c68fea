import Swnet.Sys.Receives

/-!
# Swnet — the packets of a dispatch

A completion comes with its packet, and the handler may allocate others: the next accept packet, or
the first receive packet of a link. `dispatch_hands_on` says when a dispatch posts or frees each of
them, once.

Who frees is up to each handler: the `asio_*` functions leave the packet with the caller,
`tcp_shutdown_by_packet` frees it, and `tcp_syn` posts a packet of its own in place of the completed
one.

The record of a job is what it allocated, posted and freed. A contract for each function says what
is on record after it, in terms of what was before (`Same`, `Refills`, `Frees`), and the contracts
are put together along the code. Either all packets at hand were handed on, or the record is `Short`
of one, and stays so whatever comes after: that is the other direction of the equivalence.
-/

namespace Swnet.Sys

open Jobs Jobs.Prog

/-! ## The record -/

/-- What a job did with packets, newest first. -/
structure PacketRecord where
  /-- The packets of the requests that the system took. -/
  posted : List Int
  freed : List Int
  allocated : List Int
  /-- The link was referenced as a UDP link. -/
  found : Bool

namespace PacketRecord

/-- The record after a call that was answered with `a`. -/
def after (l : Int) (g : PacketRecord) (c : Call) (a : Int) : PacketRecord where
  posted := match c with
    | .post p => if 0 ≤ a then p.packet :: g.posted else g.posted
    | _ => g.posted
  freed := match c with
    | .freepkt k => k :: g.freed
    | _ => g.freed
  allocated := match c with
    | .allocatePacket .. => if 0 ≤ a then a :: g.allocated else g.allocated
    | _ => g.allocated
  found := match c with
    | .ncb h .proto => g.found || decide (h = l ∧ a = ProtoType.udp.code)
    | _ => g.found

/-- Nothing on record. -/
def blank : PacketRecord := ⟨[], [], [], false⟩

/-- Each packet at hand, `k` and those that were allocated, was posted or freed, once. -/
def HandsOn (k : Int) (g : PacketRecord) : Prop := (g.posted ++ g.freed).Perm (k :: g.allocated)

instance (k : Int) (g : PacketRecord) : Decidable (g.HandsOn k) :=
  inferInstanceAs (Decidable (List.Perm _ _))

/-- The live packets and the requests that are outstanding or at hand change alike. -/
def Balanced (g : PacketRecord) : Prop :=
  (g.allocated.length : Int) - g.freed.length = g.posted.length - 1

/-- If each packet was posted or freed once, the counts agree. -/
theorem HandsOn.balanced {k : Int} {g : PacketRecord} (hg : g.HandsOn k) : g.Balanced := by
  have hlen := hg.length_eq
  rw [List.length_append, List.length_cons] at hlen
  unfold Balanced
  omega

/-- The answers under which a dispatch of `tcp.c` or `udp.c` does so.

* A completed accept is lost. One that failed is freed; the packet for the next one has to be posted
  where there is memory for it.
* The other completions of TCP links are always handed on.
* A completion of a UDP link is lost where the link cannot be referenced any more, or the system
does not take the receive again. -/
def Keeps (p : IoPacket) (status : NtStatus) (transfer : Int) (g : PacketRecord) : Prop :=
  match p.proto with
  | .tcp => p.type = .syn → ntSuccess status = false ∧ (g.allocated ≠ [] → g.posted ≠ [])
  | _ =>
    if ntSuccess status then transfer = 0 ∨ g.posted ≠ []
    else g.found = true ∧ (unreachable status = true → g.posted ≠ [])

/-- The books of a job on link `l` after the calls of a trace. -/
def books (l : Int) (t : CallTrace) : PacketRecord := record (after l) blank t

/-- What is as before. -/
structure Same (g g' : PacketRecord) : Prop where
  posted : g'.posted = g.posted
  freed : g'.freed = g.freed
  allocated : g'.allocated = g.allocated
  found : g.found = true → g'.found = true

theorem Same.refl (g : PacketRecord) : g.Same g := ⟨rfl, rfl, rfl, id⟩

theorem Same.trans {g₁ g₂ g₃ : PacketRecord} (h₁ : g₁.Same g₂) (h₂ : g₂.Same g₃) : g₁.Same g₃ :=
  ⟨h₂.posted.trans h₁.posted, h₂.freed.trans h₁.freed, h₂.allocated.trans h₁.allocated,
    h₂.found ∘ h₁.found⟩

theorem Same.posting {g g' : PacketRecord} (h : g.Same g') (k : Int) :
    { g with posted := k :: g.posted }.Same { g' with posted := k :: g'.posted } :=
  ⟨congrArg (List.cons k) h.posted, h.freed, h.allocated, h.found⟩

theorem Same.allocating {g g' : PacketRecord} (h : g.Same g') (k : Int) :
    { g with allocated := k :: g.allocated }.Same { g' with allocated := k :: g'.allocated } :=
  ⟨h.posted, h.freed, congrArg (List.cons k) h.allocated, h.found⟩

theorem Same.freeing {g g' : PacketRecord} (h : g.Same g') (k : Int) :
    { g with freed := k :: g.freed }.Same { g' with freed := k :: g'.freed } :=
  ⟨h.posted, congrArg (List.cons k) h.freed, h.allocated, h.found⟩

theorem Same.handsOn {g g' : PacketRecord} (h : g.Same g') {k : Int} :
    g'.HandsOn k ↔ g.HandsOn k := by
  unfold HandsOn
  rw [h.posted, h.freed, h.allocated]

/-- A handler that has posted the packet has handed it on. -/
theorem handsOn_of_posted {k : Int} {g' : PacketRecord}
    (h : { blank with posted := [k] }.Same g') : g'.HandsOn k :=
  h.handsOn.mpr (.refl [k])

/-- A handler that has freed the packet has handed it on. -/
theorem handsOn_of_freed {k : Int} {g g' : PacketRecord} (h : blank.Same g)
    (h' : { g with freed := k :: g.freed }.Same g') : g'.HandsOn k :=
  ((h.freeing k).trans h').handsOn.mpr (.refl [k])

/-- Every packet that was posted or freed was allocated, so that one more is left over. -/
def Short (g : PacketRecord) : Prop := g.posted.length + g.freed.length ≤ g.allocated.length

/-- A packet that is short unbalances the counts for good. -/
theorem Short.not_balanced {g : PacketRecord} (hg : g.Short) : ¬ g.Balanced := by
  have hle : g.posted.length + g.freed.length ≤ g.allocated.length := hg
  unfold Balanced
  omega

/-- It is short whatever else is the same. -/
theorem Short.same {g g' : PacketRecord} (hg : g.Short) (h : g.Same g') : g'.Short := by
  unfold Short
  rw [h.posted, h.freed, h.allocated]
  exact hg

/-- The program, with what is on record of its calls. -/
abbrev Meets {α : Type} (l : Int) (p : CallProg α) (g : PacketRecord)
    (Q : PacketRecord → α → Prop) : Prop :=
  p.Meets (after l) (fun _ _ => True) (fun _ _ _ => True) g Q

/-- A handler that did nothing has left the packet over. -/
theorem short_of_blank {g : PacketRecord} (h : blank.Same g) : g.Short :=
  Short.same (g := blank) le_rfl h

/-- The packets are handed on where `P` holds, and one is left over where it does not. -/
def HandsOnIff (k : Int) (P : Prop) (g : PacketRecord) : Prop := g.HandsOn k ∧ P ∨ g.Short ∧ ¬ P

/-- Either all packets are handed on and the counts agree, or neither is so. -/
theorem HandsOnIff.iff {k : Int} {P : Prop} {g : PacketRecord} (h : g.HandsOnIff k P) :
    (g.HandsOn k ↔ P) ∧ (g.Balanced ↔ P) := by
  rcases h with ⟨hg, hP⟩ | ⟨hg, hP⟩
  · exact ⟨iff_of_true hg hP, iff_of_true hg.balanced hP⟩
  · exact ⟨iff_of_false (fun hk => hg.not_balanced hk.balanced) hP, iff_of_false hg.not_balanced hP⟩

/-- The condition may be put in other words. -/
theorem HandsOnIff.congr {k : Int} {P Q : Prop} {g : PacketRecord} (h : g.HandsOnIff k P)
    (hPQ : P ↔ Q) : g.HandsOnIff k Q := by
  rwa [← propext hPQ]

end PacketRecord

/-- A call that has to do with no packet. -/
@[simp] def Call.Packetless : Call → Prop
  | .post _ | .freepkt _ | .allocatePacket .. => False
  | _ => True

/-! ## Programs -/

section

open PacketRecord (Meets blank handsOn_of_freed handsOn_of_posted short_of_blank)

variable {l : Int} {α : Type} {q : CallProg α} {g : PacketRecord}

theorem PacketRecord.packetless_after {c : Call} {a : Int} (hc : c.Packetless) :
    g.Same (g.after l c a) := by
  cases c with
  | ncb h x => cases x <;> refine ⟨rfl, rfl, rfl, fun hf => ?_⟩ <;> simp [PacketRecord.after, hf]
  | _ => first | exact .refl g | cases hc

theorem PacketRecord.Meets.of_packetless (hq : q.Uses Call.Packetless) :
    Meets l q g fun g' _ => g.Same g' := by
  refine hq.keeps (I := fun g' => g.Same g') ?_ ?_ (.refl g)
  · exact fun _ _ _ _ => trivial
  · intro g' c a hg hc
    exact hg.trans (packetless_after hc)

theorem protoRefr_packetless {proto : ProtoType} {negative h : Int} :
    (protoRefr proto negative h).Uses Call.Packetless := by
  simp [protoRefr]

theorem updateLocalAddr_packetless {h : Int} : (updateLocalAddr h).Uses Call.Packetless := by
  simp [updateLocalAddr]

theorem tcpAllocateObject_packetless {remote : Bool} :
    (tcpAllocateObject remote).Uses Call.Packetless := by
  cases remote <;> simp [tcpAllocateObject, tcpEntry, tcpEntrySteps, tcpEntryLocal, tcpUpdateOpts]

/-- The parsing of what was received. -/
theorem tcpParse_packetless {h : Int} {turns : Nat} : (tcpParse h turns).Uses Call.Packetless := by
  have hloop : ∀ turns, (tcpPraseLogicPacket h turns).Uses Call.Packetless := by
    intro turns
    induction turns with
    | zero => simp [tcpPraseLogicPacket]
    | succ turns ih => simp [tcpPraseLogicPacket, ih]
  simp [tcpParse, tcpLbAssemble, hloop]

/-- The transfer of a packet: it is posted where the result is not negative. -/
theorem asioTransfer_packets {p : IoPacket} : Meets l (asioTransfer p) g fun g' r =>
    if r < 0 then g.Same g' else { g with posted := p.packet :: g.posted }.Same g' := by
  simp only [asioTransfer, pure_eq, meets_ite, meets_done, meets_bind, meets_perform, meets_void,
    objdefrHld, ncbHld]
  refine ⟨trivial, fun ncb _ => ⟨fun _ => ?_, fun _ => ⟨trivial, fun r _ => ⟨trivial, fun _ _ =>
    ⟨trivial, fun _ _ => ?_⟩⟩⟩⟩⟩
  · rw [if_pos (by decide)]
    exact PacketRecord.packetless_after trivial
  by_cases hr : r < 0
  · simp only [if_pos hr, if_pos (show (-1 : Int) < 0 by decide)]
    refine ⟨?_, rfl, rfl, id⟩
    simp [PacketRecord.after, not_le.mpr hr]
  · simp only [if_neg hr, if_neg (show ¬ (0 : Int) < 0 by decide)]
    refine ⟨?_, rfl, rfl, id⟩
    simp [PacketRecord.after, not_lt.mp hr]

/-! Accepting. -/

/-- An accept request is posted, or it is not, whatever the result. -/
theorem asioTcpAccept_packets {p : IoPacket} : Meets l (asioTcpAccept p) g fun g' r =>
    g.Same g' ∨ 0 ≤ r ∧ { g with posted := p.packet :: g.posted }.Same g' := by
  have hsame : ∀ c a, c.Packetless → g.Same (g.after l c a) :=
    fun c a hc => PacketRecord.packetless_after hc
  simp only [asioTcpAccept, pure_eq, meets_ite, meets_done, meets_bind, meets_perform, meets_void,
    objdefrHld, nisCallEcr, ncbHld]
  refine ⟨trivial, fun ncb _ => ⟨fun _ => .inl (hsame _ _ trivial),
    fun _ => ⟨trivial, fun status _ =>
    ⟨fun _ => ⟨trivial, fun _ _ => ⟨trivial, fun _ _ => ⟨trivial, fun _ _ => .inl ?_⟩⟩⟩, fun _ =>
      ⟨trivial, fun income _ => ⟨fun _ => ⟨trivial, fun _ _ => ⟨trivial, fun _ _ => .inl ?_⟩⟩,
        fun _ => ⟨trivial, fun r _ => ⟨trivial, fun _ _ => ⟨trivial, fun _ _ => ⟨trivial, fun _ _ =>
          ⟨trivial, fun _ _ => ?_⟩⟩⟩⟩⟩⟩⟩⟩⟩⟩⟩
  · exact ⟨rfl, rfl, rfl, id⟩
  · exact ⟨rfl, rfl, rfl, id⟩
  by_cases hr : r < 0
  · refine .inl ⟨?_, rfl, rfl, id⟩
    simp [PacketRecord.after, not_le.mpr hr]
  · rw [if_neg hr]
    refine .inr ⟨le_rfl, ?_, rfl, rfl, id⟩
    simp [PacketRecord.after, not_lt.mp hr]

/-- The rounds of `tcp_syn` post their packet once, or never. Induction on the rounds. -/
theorem tcpSynRounds_packets {h k : Int} {n : Nat} : Meets l (tcpSynRounds h k n) g fun g' _ =>
    g.Same g' ∨ { g with posted := k :: g.posted }.Same g' := by
  induction n generalizing g with
  | zero =>
      exact (PacketRecord.Meets.of_packetless (by simp [tcpSynRounds])).mono fun _ _ h => .inl h
  | succ n ih =>
      refine meets_bind.mpr (meets_void.mpr ⟨trivial, fun a _ => ?_⟩)
      have h₁ := PacketRecord.packetless_after (g := g) (l := l) (a := a)
        (c := .ncb h (.read .callback)) trivial
      refine meets_bind.mpr ((PacketRecord.Meets.of_packetless tcpAllocateObject_packetless).mono
        fun g₂ r h₂ => ?_)
      have h₂ := h₁.trans h₂
      refine meets_ite.mpr ⟨fun _ => ?_, fun _ => ?_⟩
      · refine (PacketRecord.Meets.of_packetless (by simp)).mono fun _ _ h => .inl (h₂.trans h)
      refine meets_bind.mpr (asioTcpAccept_packets.mono fun g₃ r₃ hr₃ => ?_)
      refine meets_ite.mpr ⟨fun _ => ?_, fun hneg => ?_⟩
      · exact hr₃.imp h₂.trans fun h => (h₂.posting k).trans h.2
      · -- the next round, with nothing posted so far
        have h₃ := h₂.trans (hr₃.resolve_right fun h => hneg h.1)
        refine meets_bind.mpr (meets_void.mpr ⟨trivial, fun b _ => ?_⟩)
        have h₄ := h₃.trans (PacketRecord.packetless_after (l := l) (a := b)
          (c := .objclos r) trivial)
        exact ih.mono fun g₅ _ h₅ => h₅.imp h₄.trans (h₄.posting k).trans

/-- What `tcp_syn` does: nothing, or a packet more is allocated, and posted or not. -/
inductive PacketRecord.Refills (g g' : PacketRecord) : Prop where
  | nothing (h : g.Same g')
  | lost (k : Int) (h : { g with allocated := k :: g.allocated }.Same g')
  | posted (k : Int)
      (h : { g with allocated := k :: g.allocated, posted := k :: g.posted }.Same g')

theorem PacketRecord.Same.refills {g₁ g₂ : PacketRecord} (h₁ : g.Same g₁) (h₂ : g₁.Refills g₂) :
    g.Refills g₂ := by
  cases h₂ with
  | nothing h => exact .nothing (h₁.trans h)
  | lost k h => exact .lost k ((h₁.allocating k).trans h)
  | posted k h => exact .posted k (((h₁.allocating k).posting k).trans h)

theorem PacketRecord.Refills.same {g₁ g₂ : PacketRecord} (h₁ : g.Refills g₁) (h₂ : g₁.Same g₂) :
    g.Refills g₂ := by
  cases h₁ with
  | nothing h => exact .nothing (h.trans h₂)
  | lost k h => exact .lost k (h.trans h₂)
  | posted k h => exact .posted k (h.trans h₂)

/-- `tcp_syn` allocates a packet and posts it, or leaves it to nobody, or had no memory for it. -/
theorem tcpSyn_packets {h : Int} : Meets l (tcpSyn h) g fun g' _ => g.Refills g' := by
  refine meets_bind.mpr (meets_void.mpr ⟨trivial, fun a _ => ?_⟩)
  refine meets_bind.mpr (meets_perform.mpr ⟨trivial, fun k _ => ?_⟩)
  refine meets_ite.mpr ⟨fun hneg => .nothing ⟨rfl, rfl, ?_, id⟩, fun hpos => ?_⟩
  · simp [PacketRecord.after, not_le.mpr hneg]
  have halloc :
    ((g.after l (.ncb h (.read .hld)) a).after l (.allocatePacket h .tcp .syn) k).allocated
      = k :: g.allocated := by simp [PacketRecord.after, not_lt.mp hpos]
  refine tcpSynRounds_packets.mono fun g' _ hg' => ?_
  rcases hg' with h' | h'
  · exact .lost k ⟨h'.posted, h'.freed, h'.allocated.trans halloc, h'.found⟩
  · exact .posted k ⟨h'.posted, h'.freed, h'.allocated.trans halloc, h'.found⟩

/-- It makes nothing good that is short already. -/
theorem PacketRecord.Refills.short {g' : PacketRecord} (h : g.Refills g') (hg : g.Short) :
    g'.Short := by
  have hle : g.posted.length + g.freed.length ≤ g.allocated.length := hg
  cases h with
  | nothing h => exact hg.same h
  | lost k h =>
      refine Short.same ?_ h
      show g.posted.length + g.freed.length ≤ g.allocated.length + 1
      omega
  | posted k h =>
      refine Short.same ?_ h
      show g.posted.length + 1 + g.freed.length ≤ g.allocated.length + 1
      omega

/-- The receive of a link that is established: its packet is posted, or left over. -/
theorem firstRecv_packets {h : Int} (hg : g.Short) :
    Meets l (firstRecv h) g fun g' _ => g'.Short := by
  refine meets_bind.mpr (meets_void.mpr ⟨trivial, fun a _ => ?_⟩)
  refine meets_bind.mpr (meets_perform.mpr ⟨trivial, fun k _ => ?_⟩)
  have hle : g.posted.length + g.freed.length ≤ g.allocated.length := hg
  refine meets_ite.mpr ⟨fun hneg => ?_, fun hpos => ?_⟩
  · show _ ≤ _
    simpa [PacketRecord.after, not_le.mpr hneg] using hle
  refine asioTransfer_packets.mono fun g' r hr => ?_
  split at hr
  · refine PacketRecord.Short.same ?_ hr
    show _ ≤ _
    simp [PacketRecord.after, not_lt.mp hpos]
    omega
  · refine PacketRecord.Short.same ?_ hr
    show _ ≤ _
    simp [PacketRecord.after, not_lt.mp hpos]
    omega

/-- The dispatch of an accept that has completed frees nothing. -/
theorem tcpDispatchIoSyn_packets {p : IoPacket} {irp : AcceptAddrs} (hg : g.Short) :
    Meets l (tcpDispatchIoSyn p irp) g fun g' _ => g'.Short := by
  have hquiet : ∀ {g₁ : PacketRecord} {q : CallProg Unit}, g₁.Short → q.Uses Call.Packetless →
      Meets l q g₁ fun g' _ => g'.Short :=
    fun hg₁ hq => (PacketRecord.Meets.of_packetless hq).mono fun _ _ h => hg₁.same h
  have hnext : ∀ g₁ : PacketRecord, g₁.Short → Meets l (do
      let retval ← tcpSyn p.link
      if retval < 0 then objclosHld p.link
      objdefrHld p.link : CallProg Unit) g₁ fun g' _ => g'.Short := by
    intro g₁ hg₁
    refine meets_bind.mpr (tcpSyn_packets.mono fun g₂ r hr => ?_)
    exact hquiet (hr.short hg₁) (by simp)
  have hcopy : (tcpSynCopy p.link p.acceptedLink irp).Uses Call.Packetless := by
    simp [tcpSynCopy, tcpSynCopyKnown]
  refine meets_bind.mpr
    ((PacketRecord.Meets.of_packetless protoRefr_packetless).mono fun g₁ r₁ h₁ => ?_)
  refine meets_ite.mpr ⟨fun _ => hg.same h₁, fun _ => meets_bind.mpr ?_⟩
  refine (PacketRecord.Meets.of_packetless protoRefr_packetless).mono fun g₂ r₂ h₂ => ?_
  have hg₂ := (hg.same h₁).same h₂
  dsimp only
  refine meets_ite.mpr ⟨fun _ => meets_bind.mpr (meets_bind.mpr ?_), fun _ => hnext g₂ hg₂⟩
  refine (PacketRecord.Meets.of_packetless hcopy).mono fun g₃ r₃ h₃ => ?_
  have hg₃ := hg₂.same h₃
  have hend : ∀ (g₄ : PacketRecord) (r : Int), g₄.Short → Meets l (do
      if r < 0 then objclosHld p.acceptedLink
      objdefrHld p.acceptedLink : CallProg Unit) g₄ fun g' _ => g'.Short :=
    fun g₄ r hg₄ => hquiet hg₄ (by simp)
  dsimp only
  refine meets_ite.mpr ⟨fun _ => ?_, fun _ => meets_bind.mpr ?_⟩
  · simp only [pure_eq, done_bind]
    exact (hend g₃ r₃ hg₃).mono fun g₄ _ hg₄ => hnext g₄ hg₄
  · exact (firstRecv_packets hg₃).mono fun g₄ r₄ hg₄ =>
      (hend g₄ r₄ hg₄).mono fun g₅ _ hg₅ => hnext g₅ hg₅

/-! The packet of an accept that failed, and the packets of other requests. -/

theorem freepkt_packets {k : Int} : Meets l (void (.freepkt k)) g fun g' _ =>
    { g with freed := k :: g.freed }.Same g' :=
  meets_void.mpr ⟨trivial, fun _ _ => ⟨rfl, rfl, rfl, id⟩⟩

/-- What has no packet to do with comes before the packet is freed. -/
theorem PacketRecord.Meets.before_freepkt {k : Int} (hq : q.Uses Call.Packetless) :
    Meets l (q >>= fun _ => void (.freepkt k)) g fun g' _ =>
      { g with freed := k :: g.freed }.Same g' := by
  refine meets_bind.mpr ((PacketRecord.Meets.of_packetless hq).mono fun g₁ _ h₁ => ?_)
  exact freepkt_packets.mono fun g₂ _ h₂ => (h₁.freeing k).trans h₂

/-- A link that is shut down by a receive or a connect has that packet freed. -/
theorem tcpShutdownByPacket_packets {p : IoPacket} (htype : p.type = .recv ∨ p.type = .connect) :
    Meets l (tcpShutdownByPacket p) g fun g' _ =>
      { g with freed := p.packet :: g.freed }.Same g' := by
  have hfree := PacketRecord.Meets.before_freepkt (l := l) (g := g) (k := p.packet)
    (q := void (.objclos p.link)) (by simp)
  rcases htype with ht | ht <;> (unfold tcpShutdownByPacket; rw [ht]; exact hfree)

/-- The packet is freed, after that of the next accept is taken care of where it was an accept. -/
def PacketRecord.Frees (p : IoPacket) (g g' : PacketRecord) : Prop :=
  ∃ g₁ : PacketRecord, g.Refills g₁ ∧ (p.type ≠ .syn → g.Same g₁)
    ∧ { g₁ with freed := p.packet :: g₁.freed }.Same g'

/-- To free a packet and do nothing else with packets. -/
theorem PacketRecord.Frees.of_freed {p : IoPacket} {g₁ g' : PacketRecord} (h₁ : g.Same g₁)
    (h : { g₁ with freed := p.packet :: g₁.freed }.Same g') : g.Frees p g' :=
  ⟨g₁, .nothing h₁, fun _ => h₁, h⟩

/-- A failed accept frees its packet, and allocates and posts the next. -/
theorem tcpShutdownSyn_packets {p : IoPacket} (ht : p.type = .syn) :
    Meets l (tcpShutdownSyn p) g fun g' _ => g.Frees p g' := by
  have hend : ∀ g₁ : PacketRecord, g.Refills g₁ → Meets l (do
      void (.objclos p.acceptedLink)
      void (.freepkt p.packet) : CallProg Unit) g₁ fun g' _ => g.Frees p g' := by
    intro g₁ h₁
    refine (PacketRecord.Meets.before_freepkt (q := void (.objclos p.acceptedLink))
      (by simp)).mono ?_
    exact fun g₂ _ h₂ => ⟨g₁, h₁, fun hne => absurd ht hne, h₂⟩
  refine meets_bind.mpr
    ((PacketRecord.Meets.of_packetless protoRefr_packetless).mono fun g₁ r h₁ => ?_)
  dsimp only
  refine meets_ite.mpr ⟨fun _ => meets_bind.mpr (meets_bind.mpr ?_), fun _ => hend g₁ (.nothing h₁)⟩
  refine tcpSyn_packets.mono fun g₂ _ h₂ => ?_
  refine meets_bind.mpr ((PacketRecord.Meets.of_packetless (by simp)).mono fun g₃ _ h₃ => ?_)
  exact hend g₃ ((h₁.refills h₂).same h₃)

/-! ## Dispatches -/

/-- A TCP completion that failed. -/
theorem tcpDispatchIoException_packets {p : IoPacket} {status : NtStatus} {turns : Nat}
    (htype : p.type = .syn ∨ p.type = .recv ∨ p.type = .connect) :
    Meets l (tcpDispatchIoException p status turns) g fun g' _ => g.Frees p g' := by
  have hshut : ∀ g₁ : PacketRecord, Meets l (tcpShutdownByPacket p) g₁ fun g' _ =>
      g₁.Frees p g' := by
    intro g₁
    rcases htype with ht | ht
    · unfold tcpShutdownByPacket
      rw [ht]
      exact tcpShutdownSyn_packets ht
    · exact (tcpShutdownByPacket_packets ht).mono fun g₂ _ h₂ => .of_freed (.refl g₁) h₂
  have hsend : p.type ≠ .send := by
    rcases htype with ht | ht | ht <;> simp [ht]
  refine meets_bind.mpr
    ((PacketRecord.Meets.of_packetless protoRefr_packetless).mono fun g₁ r h₁ => ?_)
  dsimp only
  refine meets_ite.mpr ⟨fun _ => ?_, fun _ => ?_⟩
  · exact freepkt_packets.mono fun g₂ _ h₂ => .of_freed h₁ h₂
  rw [if_neg hsend]
  refine meets_bind.mpr ((hshut g₁).mono fun g₂ _ ⟨g₃, h₃, hsame, h₂⟩ => ?_)
  refine (PacketRecord.Meets.of_packetless (by simp)).mono fun g₄ _ h₄ => ?_
  exact ⟨g₃, h₁.refills h₃, fun hne => h₁.trans (hsame hne), h₂.trans h₄⟩

/-- Where nothing was done before, what is freed is handed on, unless the packet of the next accept
is left over. -/
theorem PacketRecord.Frees.handsOn {p : IoPacket} {g' : PacketRecord} (h : blank.Frees p g') :
    g'.HandsOnIff p.packet (p.type = .syn → g'.allocated ≠ [] → g'.posted ≠ []) := by
  obtain ⟨g₁, hfill, hsame, h'⟩ := h
  cases hfill with
  | nothing h₁ =>
      have hall := (h₁.freeing p.packet).trans h'
      exact .inl ⟨hall.handsOn.mpr (.refl [p.packet]), fun _ hne => absurd hall.allocated hne⟩
  | lost k h₁ =>
      have hall := (h₁.freeing p.packet).trans h'
      have hsyn : p.type = .syn := by
        by_contra hne
        exact absurd (h₁.allocated.symm.trans (hsame hne).allocated) (List.cons_ne_nil k [])
      refine .inr ⟨Short.same ?_ hall, fun himp => ?_⟩
      · show 0 + 1 ≤ 1
        exact le_rfl
      · exact himp hsyn (by rw [hall.allocated]; exact List.cons_ne_nil k []) hall.posted
  | posted k h₁ =>
      have hall := (h₁.freeing p.packet).trans h'
      refine .inl ⟨hall.handsOn.mpr (List.Perm.swap ..), fun _ _ => ?_⟩
      rw [hall.posted]
      exact List.cons_ne_nil k []

/-- A TCP receive that completed. -/
theorem tcpDispatchIoRecv_packets {p : IoPacket} {transfer : Int} {turns : Nat}
    (ht : p.type = .recv) :
    Meets l (tcpDispatchIoRecv p transfer turns) blank fun g' _ => g'.HandsOn p.packet := by
  -- the end, after the receive was posted again or was not
  have hend : ∀ (g₁ : PacketRecord) (r : Int),
      (if r < 0 then blank.Same g₁ else { blank with posted := [p.packet] }.Same g₁) →
      Meets l (do
        if r < 0 then do
          objclosHld p.link
          void (.freepkt p.packet)
        objdefrHld p.link : CallProg Unit) g₁ fun g' _ => g'.HandsOn p.packet := by
    intro g₁ r h₁
    have hobj : ∀ g₂ : PacketRecord, Meets l (objdefrHld p.link) g₂ fun g' _ => g₂.Same g' :=
      fun g₂ => PacketRecord.Meets.of_packetless (by simp)
    dsimp only
    refine meets_ite.mpr ⟨fun hr => meets_bind.mpr ?_, fun hr => ?_⟩
    · rw [if_pos hr] at h₁
      refine (PacketRecord.Meets.of_packetless (by simp)).mono fun g₂ _ h₂ => meets_bind.mpr ?_
      refine freepkt_packets.mono fun g₃ _ h₃ => (hobj g₃).mono fun g₄ _ h₄ => ?_
      exact handsOn_of_freed (h₁.trans h₂) (h₃.trans h₄)
    · rw [if_neg hr] at h₁
      exact (hobj g₁).mono fun g₂ _ h₂ => handsOn_of_posted (h₁.trans h₂)
  refine meets_ite.mpr ⟨fun _ => ?_, fun _ => meets_bind.mpr ?_⟩
  · exact (tcpShutdownByPacket_packets (.inl ht)).mono fun g₁ _ h₁ =>
      handsOn_of_freed (.refl blank) h₁
  refine (PacketRecord.Meets.of_packetless protoRefr_packetless).mono fun g₁ r h₁ => ?_
  refine meets_ite.mpr ⟨fun _ => ?_, fun _ => meets_bind.mpr ?_⟩
  · exact freepkt_packets.mono fun g₂ _ h₂ => handsOn_of_freed h₁ h₂
  refine (PacketRecord.Meets.of_packetless tcpParse_packetless).mono fun g₂ r₂ h₂ => ?_
  dsimp only
  refine meets_ite.mpr ⟨fun _ => meets_bind.mpr ?_, fun hr => ?_⟩
  · refine asioTransfer_packets.mono fun g₃ r₃ h₃ => hend g₃ r₃ ?_
    split at h₃
    next hr => exact (if_pos hr).mpr ((h₁.trans h₂).trans h₃)
    next hr => exact (if_neg hr).mpr (((h₁.trans h₂).posting p.packet).trans h₃)
  · exact hend g₂ r₂ ((if_pos (not_le.mp hr)).mpr (h₁.trans h₂))

/-- The packet of the connect request was freed, and that of the first receive is posted or freed.
-/
theorem tcpConnected_packets {k h : Int} (hg : { blank with freed := [k] }.Same g) :
    Meets l (tcpConnected h) g fun g' _ => g'.HandsOn k := by
  have hfailed : ∀ g₁ : PacketRecord, Meets l (connectedFailed h) g₁ fun g' _ => g₁.Same g' :=
    fun g₁ => PacketRecord.Meets.of_packetless (by simp [connectedFailed])
  refine meets_bind.mpr ((PacketRecord.Meets.of_packetless updateLocalAddr_packetless).mono
    fun g₁ _ h₁ => ?_)
  -- from the request of the packet on
  have hrest : ∀ g₂ : PacketRecord, g.Same g₂ → Meets l (do
      ncbHld h
      let packet ← perform (.allocatePacket h .tcp .recv)
      if packet < 0 then do
        nisCallEcr h
        connectedFailed h
      else do
        let retval ← asioTcpRecv (.plain packet .tcp .recv h)
        if retval < 0 then do
          nisCallEcr h
          tcpShutdownByPacket (.plain packet .tcp .recv h)
          connectedFailed h
        else do
          void (.emit (.connected h))
          nisCallEcr h
          objdefrHld h : CallProg Unit) g₂ fun g' _ => g'.HandsOn k := by
    intro g₂ h₂
    have hg₂ := hg.trans h₂
    refine meets_bind.mpr (meets_void.mpr ⟨trivial, fun a _ => ?_⟩)
    refine meets_bind.mpr (meets_perform.mpr ⟨trivial, fun n _ => ?_⟩)
    refine meets_ite.mpr ⟨fun hneg => ?_, fun hpos => meets_bind.mpr ?_⟩
    · -- no memory: nothing more was allocated
      refine (PacketRecord.Meets.of_packetless (by simp [connectedFailed])).mono fun g₃ _ h₃ => ?_
      have hsame : g₂.Same ((g₂.after l (.ncb h (.read .hld)) a).after l
          (.allocatePacket h .tcp .recv) n) := by
        refine ⟨rfl, rfl, ?_, id⟩
        simp [PacketRecord.after, not_le.mpr hneg]
      exact ((hg₂.trans hsame).trans h₃).handsOn.mpr (.refl [k])
    have halloc : { blank with freed := [k], allocated := [n] }.Same
        ((g₂.after l (.ncb h (.read .hld)) a).after l (.allocatePacket h .tcp .recv) n) := by
      refine (hg₂.allocating n).trans ⟨rfl, rfl, ?_, id⟩
      simp [PacketRecord.after, not_lt.mp hpos]
    refine asioTransfer_packets.mono fun g₃ r h₃ => ?_
    refine meets_ite.mpr ⟨fun hr => ?_, fun hr => ?_⟩
    -- not taken: `tcp_shutdown_by_packet` frees the new packet
    · have h₃ := (if_pos hr).mp h₃
      refine meets_bind.mpr ((PacketRecord.Meets.of_packetless (by simp)).mono fun g₄ _ h₄ => ?_)
      refine meets_bind.mpr ((tcpShutdownByPacket_packets (.inl rfl)).mono fun g₅ _ h₅ => ?_)
      refine (hfailed g₅).mono fun g₆ _ h₆ => ?_
      have hall := (((halloc.trans h₃).trans h₄).freeing n).trans (h₅.trans h₆)
      exact hall.handsOn.mpr (List.Perm.swap ..)
    -- taken: the system has it
    · have h₃ := (if_neg hr).mp h₃
      refine (PacketRecord.Meets.of_packetless (by simp)).mono fun g₄ _ h₄ => ?_
      have hall := (halloc.posting n).trans (h₃.trans h₄)
      exact hall.handsOn.mpr (List.Perm.swap ..)
  refine meets_bind.mpr (meets_perform.mpr ⟨trivial, fun r _ => ?_⟩)
  have h₂ := h₁.trans (PacketRecord.packetless_after (l := l) (a := r)
    (c := .ncb h (.sock .setsockopt)) trivial)
  dsimp only
  refine meets_ite.mpr ⟨fun _ => meets_bind.mpr (meets_void.mpr ⟨trivial, fun a _ => ?_⟩), fun _ =>
    hrest _ h₂⟩
  exact hrest _ (h₂.trans (PacketRecord.packetless_after (c := .ncb h .getpeername) trivial))

/-- A connect request that completed. -/
theorem tcpDispatchIoConnected_packets {p : IoPacket} :
    Meets l (tcpDispatchIoConnected p) blank fun g' _ => g'.HandsOn p.packet := by
  refine meets_bind.mpr
    ((PacketRecord.Meets.of_packetless protoRefr_packetless).mono fun g₁ r h₁ => ?_)
  refine meets_ite.mpr ⟨fun _ => ?_, fun _ => meets_bind.mpr ?_⟩
  · exact freepkt_packets.mono fun g₂ _ h₂ => handsOn_of_freed h₁ h₂
  · exact freepkt_packets.mono fun g₂ _ h₂ => tcpConnected_packets ((h₁.freeing p.packet).trans h₂)

/-- What is not a completed accept is handed on by `tcp_dispatch_io_event`, and one that failed is
unless the packet of the next is left over. -/
theorem tcpDispatchIoEvent_packets {p : IoPacket} {status : NtStatus} {transfer : Int}
    {turns : Nat} {irp : AcceptAddrs} (hproto : p.proto = .tcp)
    (htype : p.type = .syn ∨ p.type = .recv ∨ p.type = .connect) :
    Meets l (tcpDispatchIoEvent p status transfer turns irp) blank fun g' _ =>
      g'.HandsOnIff p.packet (g'.Keeps p status transfer) := by
  unfold tcpDispatchIoEvent PacketRecord.Keeps
  simp only [hproto]
  refine meets_ite.mpr ⟨fun hok => ?_, fun hfail => ?_⟩
  · rcases htype with ht | ht | ht <;> simp only [ht]
    · exact (tcpDispatchIoSyn_packets le_rfl).mono fun g' _ hg' => .inr ⟨hg', by simp [hok]⟩
    · exact (tcpDispatchIoRecv_packets ht).mono fun g' _ hg' => .inl ⟨hg', nofun⟩
    · exact tcpDispatchIoConnected_packets.mono fun g' _ hg' => .inl ⟨hg', nofun⟩
  · refine (tcpDispatchIoException_packets htype).mono fun g' _ hg' => hg'.handsOn.congr ?_
    simp only [Bool.not_eq_true] at hfail
    simp only [hfail, true_and]

/-! UDP. -/

/-- A UDP link is referenced where the record says so. -/
theorem udprefr_packets {h : Int} : Meets h (udprefr h) blank fun g' r =>
    blank.Same g' ∧ (g'.found = true ↔ 0 ≤ r) := by
  simp only [udprefr, protoRefr, pure_eq, meets_ite, meets_done, meets_bind, meets_perform,
    meets_void]
  refine ⟨fun _ => ⟨.refl blank, by decide⟩, fun _ => ⟨trivial, fun r _ =>
    ⟨fun _ => ⟨PacketRecord.packetless_after trivial, ?_⟩, fun _ => ⟨trivial, fun type _ => ?_⟩⟩⟩⟩
  · exact iff_of_false (by simp [PacketRecord.after, blank]) (by decide)
  have hsame : blank.Same ((blank.after h (.objrefr h) r).after h (.ncb h .proto) type) :=
    (PacketRecord.packetless_after (c := .objrefr h) trivial).trans
      (PacketRecord.packetless_after trivial)
  refine ⟨fun htype => ⟨hsame, ?_⟩, fun htype => ⟨trivial, fun a _ =>
    ⟨hsame.trans (PacketRecord.packetless_after trivial), ?_⟩⟩⟩
  · exact iff_of_true (by simp [PacketRecord.after, htype]) le_rfl
  · exact iff_of_false (by simp [PacketRecord.after, htype, blank]) (by decide)

/-- The packet is posted again, or it is nowhere. -/
theorem udpRepost_packets {p : IoPacket} (hg : blank.Same g) :
    Meets l (do
      let _ ← asioUdpRecv p
      objdefrHld p.link) g fun g' _ =>
        g'.HandsOnIff p.packet (g'.posted ≠ []) ∧ (g.found = true → g'.found = true) := by
  refine meets_bind.mpr (asioTransfer_packets.mono fun g₁ r h₁ => ?_)
  refine (PacketRecord.Meets.of_packetless (by simp)).mono fun g₂ _ h₂ => ?_
  split at h₁
  · have hsame := h₁.trans h₂
    have hall := hg.trans hsame
    exact ⟨.inr ⟨short_of_blank hall, fun hne => hne hall.posted⟩, hsame.found⟩
  · have hsame := h₁.trans h₂
    have hall := (hg.posting p.packet).trans hsame
    refine ⟨.inl ⟨handsOn_of_posted hall, ?_⟩, hsame.found⟩
    rw [hall.posted]
    exact List.cons_ne_nil p.packet _

/-- A UDP receive that completed. -/
theorem udpDispatchIoRecv_packets {p : IoPacket} :
    Meets p.link (udpDispatchIoRecv p) blank fun g' _ =>
      g'.HandsOnIff p.packet (g'.posted ≠ []) := by
  refine meets_bind.mpr (udprefr_packets.mono fun g₁ r ⟨h₁, _⟩ => ?_)
  refine meets_ite.mpr ⟨fun _ => ?_, fun _ => ?_⟩
  · exact .inr ⟨short_of_blank h₁, fun hne => hne h₁.posted⟩
  refine meets_bind.mpr (meets_void.mpr ⟨trivial, fun a _ => ?_⟩)
  refine (udpRepost_packets ?_).mono fun g₂ _ h₂ => h₂.1
  exact h₁.trans (PacketRecord.packetless_after (c := .emit (.receiveData p.link)) trivial)

theorem udpShutdownByPacket_packets {p : IoPacket} :
    Meets l (udpShutdownByPacket p) g fun g' _ => { g with freed := p.packet :: g.freed }.Same g' :=
  PacketRecord.Meets.before_freepkt (q := void (.objclos p.link)) (by simp)

/-- A UDP completion that failed. -/
theorem udpDispatchIoException_packets {p : IoPacket} {status : NtStatus} :
    Meets p.link (udpDispatchIoException p status) blank fun g' _ =>
      g'.HandsOnIff p.packet
        (g'.found = true ∧ (unreachable status = true → g'.posted ≠ [])) := by
  refine meets_bind.mpr (udprefr_packets.mono fun g₁ r ⟨h₁, hfound⟩ => ?_)
  dsimp only
  refine meets_ite.mpr ⟨fun hr => ?_, fun hr => ?_⟩
  · exact .inr ⟨short_of_blank h₁, fun h => not_le.mpr hr (hfound.mp h.1)⟩
  have hfound := hfound.mpr (not_lt.mp hr)
  refine meets_ite.mpr ⟨fun hun => ?_, fun hun => meets_bind.mpr ?_⟩
  · refine (udpRepost_packets h₁).mono fun g₂ _ ⟨hiff, hkept⟩ => hiff.congr ?_
    simp only [hkept hfound, hun, true_and, forall_const]
  · refine udpShutdownByPacket_packets.mono fun g₂ _ h₂ => ?_
    refine (PacketRecord.Meets.of_packetless (by simp)).mono fun g₃ _ h₃ => ?_
    have hall := h₂.trans h₃
    exact .inl ⟨handsOn_of_freed h₁ hall, hall.found hfound, fun h => absurd h hun⟩

/-- A UDP completion without bytes is freed, one with bytes is posted again or lost. -/
theorem udpDispatchIoEvent_packets {p : IoPacket} {status : NtStatus} {transfer : Int}
    (hproto : p.proto = .udp) (htype : p.type = .syn ∨ p.type = .recv ∨ p.type = .connect) :
    Meets p.link (udpDispatchIoEvent p status transfer) blank fun g' _ =>
      g'.HandsOnIff p.packet (g'.Keeps p status transfer) := by
  unfold udpDispatchIoEvent PacketRecord.Keeps
  simp only [hproto]
  refine meets_ite.mpr ⟨fun hok => ?_, fun hfail => ?_⟩
  · simp only [if_pos hok]
    refine meets_ite.mpr ⟨fun hz => ?_, fun hz => ?_⟩
    · refine udpShutdownByPacket_packets.mono fun g₁ _ h₁ => ?_
      exact .inl ⟨handsOn_of_freed (.refl blank) h₁, .inl hz⟩
    simp only [hz, false_or]
    rcases htype with ht | ht | ht <;> simp only [ht]
    · exact .inr ⟨short_of_blank (.refl blank), fun h => h rfl⟩
    · exact udpDispatchIoRecv_packets
    · exact .inr ⟨short_of_blank (.refl blank), fun h => h rfl⟩
  · simp only [if_neg hfail]
    exact udpDispatchIoException_packets

end

/-! ## What is handed on -/

/-- **A dispatch posts or frees each packet at hand once exactly when `Keeps` holds.** The live
packets then balance with the requests, and do not otherwise. -/
theorem dispatch_hands_on {p : IoPacket} {status : NtStatus} {transfer : Int} {turns : Nat}
    {irp : AcceptAddrs} {t : CallTrace} {r : Int} (hproto : p.proto = .tcp ∨ p.proto = .udp)
    (htype : p.type = .syn ∨ p.type = .recv ∨ p.type = .connect)
    (hl : (Job.completion p status transfer turns irp).prog.Leads t (.done r)) :
    let g := PacketRecord.books p.link t
    (g.HandsOn p.packet ↔ g.Keeps p status transfer)
      ∧ (g.Balanced ↔ g.Keeps p status transfer) := by
  have hevent : PacketRecord.Meets p.link (soDispatchIoEvent p status transfer turns irp)
      PacketRecord.blank fun g' _ => g'.HandsOnIff p.packet (g'.Keeps p status transfer) := by
    unfold soDispatchIoEvent
    rcases hproto with hp | hp <;> simp only [hp]
    · exact tcpDispatchIoEvent_packets hp htype
    · exact udpDispatchIoEvent_packets hp htype
  have hprog : PacketRecord.Meets p.link (Job.completion p status transfer turns irp).prog
      PacketRecord.blank fun g' _ => g'.HandsOnIff p.packet (g'.Keeps p status transfer) :=
    meets_bind.mpr (hevent.mono fun _ _ h => h)
  exact (Prog.Meets.leads hprog hl fun _ _ _ _ _ => trivial).iff

/-- The accept request of link 0 is cancelled: the packet of the next is posted, and this one freed.
-/
theorem dispatch_hands_on_cancelled : ∃ s : SysState Unit, SysReaches anyRun s
    ∧ ∃ x ∈ returning s (), x.1 = .completion (synPacket 0 0 1) cancelled 0 1 noAddrs
      ∧ (PacketRecord.books 0 x.2.1).allocated = [2] ∧ (PacketRecord.books 0 x.2.1).HandsOn 0 := by
  obtain ⟨s, hs, x, hx, hjob, halloc, hposted⟩ := sys_of_play anyRun
    (P := fun s => ∃ x ∈ returning s (), x.1 = .completion (synPacket 0 0 1) cancelled 0 1 noAddrs
      ∧ (PacketRecord.books 0 x.2.1).allocated = [2] ∧ (PacketRecord.books 0 x.2.1).posted ≠ [])
    (createTcp () 0 ++ listenTcp () 0 0 1
      ++ .start () (.completion (synPacket 0 0 1) cancelled 0 1 noAddrs) :: referTcp () ++
        referTcp ()
      ++ synRound () 2 2 ++ Move.calls () (List.replicate 6 0)) (by decide +kernel)
  obtain ⟨j, t, r⟩ := x
  obtain rfl : j = _ := hjob
  have hleads := hs.leads (fun _ => rfl) (running_of_returning hx)
  refine ⟨s, hs, _, hx, rfl, halloc, ?_⟩
  exact (dispatch_hands_on (.inl rfl) (.inl rfl) hleads).1.mpr fun _ =>
    ⟨by decide, fun _ => hposted⟩

/-- A peer is accepted on link 0, and every call succeeds: the packet of the request is left over.
-/
theorem dispatch_drops_accepted : ∃ s : SysState Unit, SysReaches anyRun s
    ∧ (∃ x ∈ returning s (), x.1 = .completion (synPacket 0 0 1) 0 0 1 noAddrs
      ∧ ¬ (PacketRecord.books 0 x.2.1).HandsOn 0)
    ∧ 0 ∈ s.world.allocated ∧ 0 ∉ s.world.freed ∧ ∀ p ∈ s.world.posted, p.packet ≠ 0 :=
  sys_of_play anyRun
    (P := fun s => (∃ x ∈ returning s (), x.1 = .completion (synPacket 0 0 1) 0 0 1 noAddrs
        ∧ ¬ (PacketRecord.books 0 x.2.1).HandsOn 0)
      ∧ 0 ∈ s.world.allocated ∧ 0 ∉ s.world.freed ∧ ∀ p ∈ s.world.posted, p.packet ≠ 0)
    (createTcp () 0 ++ listenTcp () 0 0 1
      ++ .start () (.completion (synPacket 0 0 1) 0 0 1 noAddrs) :: referTcp () ++ referTcp ()
      ++ Move.calls () (List.replicate 9 0 ++ [1] ++ List.replicate 6 0) ++ synRound () 2 2
      ++ Move.calls () [0, 0]) (by decide +kernel)

end Swnet.Sys
