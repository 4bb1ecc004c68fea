import Swnet.Sys.Slots

/-!
# Swnet — a link is announced before its data

A link is established by `tcp_connect`, by `tcp_connect2` or by an accept, and each of them posts
the first receive, reads the address of the peer and tells the user in an order of its own.

* `established_first` — the user hears of a link before its data, and the address is there when he
  does, as long as `tcp_connect` gets no receive and the peer of each `tcp_connect2` can be read.

The ledger `heralds h` follows the announcement of link `h`: what a job is to the link (`Role`), and
which of the three steps it has done. A completion of a link is handled while no other one is, so
that a receive posted by the handler of a connect request is not handled before the handler is done.
That is what `Heralded` carries along a run: a receive that is out ahead of the announcement is out
with its handler still at work, and the one job that handles received data has the announcement
behind it.
-/

namespace Swnet.Sys

open Jobs Jobs.Prog

/-! ## The record -/

/-- What a job is to link `h`. -/
inductive Role where
  | bystander
  /-- It handles a completed receive of a TCP link. -/
  | data
  /-- It handles one of another kind of link. -/
  | datagram
  /-- It handles a connect request. -/
  | connects
  /-- It handles the request that accepts the link. -/
  | accepts
  /-- It is a call of `tcp_connect`. -/
  | dials
  deriving DecidableEq

/-- What is kept on record of a job about link `h`. -/
structure HeraldRecord where
  role : Role
  /-- The job handles a completion of `h`. -/
  handles : Bool
  /-- The address its socket was connected to by the request the job handles. -/
  peer : Option SockaddrIn
  /-- The address was written to the control block. -/
  named : Bool
  /-- The job has posted a receive. -/
  posted : Bool
  /-- It has told the user. -/
  told : Bool

namespace HeraldRecord

def after (h : Int) (g : HeraldRecord) (c : Call) (a : Int) : HeraldRecord where
  role := g.role
  handles := g.handles
  peer := g.peer
  named := match c with
    | .ncb l .getpeername => g.named || decide (l = h ∧ 0 ≤ a)
    | .ncb l (.acceptAddrs _) => g.named || decide (l = h)
    | _ => g.named
  posted := match c with
    | .post p => g.posted || decide (p.proto = .tcp ∧ p.Receives h ∧ 0 ≤ a)
    | _ => g.posted
  told := match c with
    | .emit (.connected l) | .emit (.accepted _ l) => g.told || decide (l = h)
    | _ => g.told

/-- The calls a job may make. -/
def Need (h : Int) (g : HeraldRecord) : Call → Prop
  | .post p => p.proto = .tcp → p.Receives h →
      g.told = true ∨ g.role = .data ∨ g.role = .connects ∨ g.role = .dials
  | .emit (.connected l) => l = h → g.role = .connects ∧ g.named = true
  | .emit (.accepted _ l) => l = h → g.named = true
  | .emit (.receiveData l) => l = h → g.role = .data ∨ g.role = .datagram
  | .ncb l (.setRemote _) => l ≠ h
  | .ncb l (.acceptAddrs irp) => l = h → g.peer = some irp.raddr
  | .ncb l .getpeername => l = h → g.peer.isSome = true
  | _ => True

/-- The answers that can be got: `tcp_connect` gets no receive, and the handler of a connect request
none before it has read the address. -/
def Ok (h : Int) (g : HeraldRecord) : Call → Int → Prop
  | .post p, a => p.proto = .tcp → p.Receives h → 0 ≤ a →
      g.role ≠ .dials ∧ (g.role = .connects → g.named = true)
  | _, _ => True

/-- Nothing on record. -/
def blank : HeraldRecord := ⟨.bystander, false, none, false, false, false⟩

/-- What is on record when a job starts. -/
def start (h : Int) : Job → HeraldRecord
  | .user c => { blank with role := if (Job.user c).Dials = true then .dials else .bystander }
  | .completion p status _ _ irp => { blank with
      role :=
        if p.Receives h then if p.proto = .tcp then .data else .datagram
        else if p.Connects h then .connects
        else if p.Accepts h then .accepts else .bystander
      handles := decide (p.link = h)
      peer :=
        if ntSuccess status then
          if p.Connects h then some p.remoteAddr else if p.Accepts h then some irp.raddr else none
        else none }

/-- Who posts a first receive tells the user of the link. -/
def Post (_ : Job) (g : HeraldRecord) (_ : Int) : Prop :=
  g.role = .connects → g.posted = true → g.told = true

end HeraldRecord

/-- The ledger of the announcement of link `h`. -/
def heralds (h : Int) : Ledger Job Call Int Int HeraldRecord where
  idle := .blank
  init := .start h
  upd := .after h
  need := HeraldRecord.Need h
  ok := HeraldRecord.Ok h
  post := HeraldRecord.Post

namespace HeraldRecord

/-- The program stays within the bounds of the ledger. -/
abbrev Meets {α : Type} (h : Int) (p : CallProg α) (g : HeraldRecord)
    (Q : HeraldRecord → α → Prop) : Prop :=
  p.Meets (after h) (Need h) (Ok h) g Q

end HeraldRecord

/-- A call that has nothing to do with the announcement of `h`. -/
@[simp] def Call.Hushed (h : Int) : Call → Prop
  | .post p => p.proto = .tcp → ¬ p.Receives h
  | .emit n => match n with
    | .connected l | .accepted _ l | .receiveData l => l ≠ h
    | _ => True
  | .ncb l (.setRemote _) | .ncb l (.acceptAddrs _) | .ncb l .getpeername => l ≠ h
  | _ => True

/-- A call that leaves the receive of `h` alone announces nothing either. -/
theorem Call.Besides.hushed {c : Call} {h : Int} (hc : c.Besides h) : c.Hushed h := by
  cases c with
  | emit n => cases n <;> simp_all
  | ncb l x => cases x <;> simp_all
  | post p => exact fun _ => hc
  | _ => trivial

/-! ## Programs -/

section

open HeraldRecord (Meets)

variable {h : Int} {α : Type} {q : CallProg α} {g : HeraldRecord}

/-- Such a call leaves the record as it is. -/
theorem HeraldRecord.hushed_after {c : Call} {a : Int} (hc : c.Hushed h) : g.after h c a = g := by
  cases c with
  | post p =>
      have hp : ¬ (p.proto = .tcp ∧ p.Receives h ∧ 0 ≤ a) := fun hp => hc hp.1 hp.2.1
      simp [HeraldRecord.after, hp]
  | emit n => cases n <;> simp_all [HeraldRecord.after]
  | ncb l x => cases x <;> simp_all [HeraldRecord.after]
  | _ => rfl

/-- A program that has nothing to do with the announcement of `h`. -/
theorem HeraldRecord.Meets.of_hushed (hq : q.Uses (Call.Hushed h)) :
    Meets h q g fun g' _ => g' = g := by
  refine hq.keeps (I := fun g' => g' = g) ?_ ?_ rfl
  · rintro g' c - hc
    cases c with
    | post p => exact fun htcp hp => absurd hp (hc htcp)
    | emit n => cases n <;> simp_all [HeraldRecord.Need]
    | ncb l x => cases x <;> simp_all [HeraldRecord.Need]
    | _ => trivial
  · rintro g' c a rfl hc
    exact hushed_after hc

theorem HeraldRecord.Meets.of_quiet (hq : q.Uses Call.Quiet) : Meets h q g fun g' _ => g' = g :=
  .of_hushed (hq.mono fun _ hc => (hc.besides h).hushed)

/-- The transfer of a receive: it is posted where the result is not negative. -/
theorem asioTransfer_heralds {p : IoPacket} (htcp : p.proto = .tcp) (hp : p.Receives h)
    (hn : g.told = true ∨ g.role = .data ∨ g.role = .connects ∨ g.role = .dials) :
    Meets h (asioTransfer p) g fun g' r =>
      if r < 0 then g' = g
      else g' = { g with posted := true } ∧ g.role ≠ .dials
        ∧ (g.role = .connects → g.named = true) := by
  simp only [asioTransfer, pure_eq, meets_ite, meets_done, meets_bind, meets_perform, meets_void,
    objdefrHld, ncbHld]
  refine ⟨trivial, fun ncb _ => ⟨fun hneg => ?_, fun _ => ⟨fun _ _ => hn, fun r hok => ⟨trivial,
    fun _ _ => ⟨trivial, fun _ _ => ?_⟩⟩⟩⟩⟩
  · rw [if_pos (by decide)]
    rfl
  by_cases hr : r < 0
  · simp [HeraldRecord.after, hr, not_le.mpr hr]
  · obtain ⟨hdials, hnamed⟩ := hok htcp hp (not_lt.mp hr)
    simp only [if_neg hr, if_neg (show ¬ (0 : Int) < 0 by decide)]
    refine ⟨?_, hdials, hnamed⟩
    simp [HeraldRecord.after, htcp, hp, not_lt.mp hr]

theorem protoRefr_heralds {proto : ProtoType} {negative l : Int} :
    Meets h (protoRefr proto negative l) g fun g' _ => g' = g :=
  .of_quiet protoRefr_quiet

/-! A completed receive. -/

/-- The user is told of data by the handler of a receive. Induction on the turns of the loop. -/
theorem tcpPraseLogicPacket_heralds {turns : Nat} (hd : g.role = .data) :
    Meets h (tcpPraseLogicPacket h turns) g fun g' _ => g' = g := by
  induction turns with
  | zero =>
      simp only [tcpPraseLogicPacket, meets_bind, meets_void]
      exact ⟨trivial, fun _ _ => rfl⟩
  | succ turns ih =>
      simp only [tcpPraseLogicPacket, meets_bind, meets_perform, meets_ite, meets_void, pure_eq,
        meets_done]
      exact ⟨trivial, fun found _ => ⟨fun _ => rfl, fun _ => ⟨fun _ => rfl, fun _ =>
        ⟨fun _ => .inl hd, fun a _ => ih⟩⟩⟩⟩

theorem tcpParse_heralds {turns : Nat} (hd : g.role = .data) :
    Meets h (tcpParse h turns) g fun g' _ => g' = g := by
  simp only [tcpParse, tcpLbAssemble, meets_bind, meets_perform, meets_ite, meets_void, pure_eq,
    meets_done]
  refine ⟨trivial, fun marked _ => ⟨fun _ => ⟨trivial, fun filled _ => ⟨fun _ => ?_, fun _ =>
    ⟨fun _ => ?_, fun _ => ⟨fun _ => .inl hd, fun a _ => ⟨trivial, fun b _ => ?_⟩⟩⟩⟩⟩, fun _ => ?_⟩⟩
  · exact ⟨fun _ => rfl, fun h => absurd h (by decide)⟩
  · exact ⟨fun _ => rfl, fun h => absurd h (by decide)⟩
  · exact ⟨fun _ => rfl, fun _ => tcpPraseLogicPacket_heralds hd⟩
  · exact tcpPraseLogicPacket_heralds hd

/-- The dispatch of a receive, which was posted for an announced link or for one about to be
announced. -/
theorem tcpDispatchIoRecv_heralds {p : IoPacket} {transfer : Int} {turns : Nat}
    (htcp : p.proto = .tcp) (hp : p.Receives h) (hd : g.role = .data) :
    Meets h (tcpDispatchIoRecv p transfer turns) g fun g' _ => g'.role = .data := by
  obtain ⟨hrecv, rfl⟩ := hp
  refine meets_ite.mpr ⟨fun _ => ?_, fun _ => meets_bind.mpr ?_⟩
  · refine (Meets.of_quiet tcpShutdownByPacket_quiet).mono ?_
    rintro g' - rfl
    exact hd
  refine protoRefr_heralds.mono ?_
  rintro g₁ r₁ rfl
  refine meets_ite.mpr ⟨fun _ => ?_, fun _ => meets_bind.mpr ?_⟩
  · rw [meets_void]
    exact ⟨trivial, fun a _ => hd⟩
  refine (tcpParse_heralds hd).mono ?_
  rintro g₂ r₂ rfl
  -- the end of the function closes the link or not, and tells nothing
  have hend : ∀ g₃ : HeraldRecord, g₃.role = .data → ∀ r : Int, Meets p.link (do
      if r < 0 then do
        objclosHld p.link
        void (.freepkt p.packet)
      objdefrHld p.link : CallProg Unit) g₃ fun g' _ => g'.role = .data := by
    intro g₃ hd₃ r
    refine (Meets.of_quiet ?_).mono ?_
    · simp
    · rintro g' - rfl
      exact hd₃
  dsimp only
  refine meets_ite.mpr ⟨fun _ => meets_bind.mpr ?_, fun _ => ?_⟩
  · refine (asioTransfer_heralds htcp ⟨hrecv, rfl⟩ (.inr (.inl hd))).mono ?_
    intro g₃ r₃ hr₃
    refine hend g₃ ?_ r₃
    split at hr₃
    · rw [hr₃]
      exact hd
    · rw [hr₃.1]
      exact hd
  · simp only [pure_eq, done_bind]
    exact hend g₂ hd r₂

/-! Connecting. -/

/-- The end of `tcp_dispatch_io_connected`, once the address was asked for. -/
theorem connectedPost_heralds (hc : g.role = .connects) (hp : g.posted = false) :
    Meets h (do
      ncbHld h
      let packet ← perform (.allocatePacket h .tcp .recv)
      if packet < 0 then do
        nisCallEcr h
        connectedFailed h
      else do
        let retval ← asioTcpRecv (.plain packet .tcp .recv h)
        if retval < 0 then do
          nisCallEcr h
          tcpShutdownByPacket (.plain packet .tcp .recv h)
          connectedFailed h
        else do
          void (.emit (.connected h))
          nisCallEcr h
          objdefrHld h : CallProg Unit) g fun g' _ => g'.posted = true → g'.told = true := by
  -- on the ways out that fail nothing is posted
  have hfail : ∀ {q : CallProg Unit}, q.Uses Call.Quiet →
      Meets h q g fun g' _ => g'.posted = true → g'.told = true := by
    intro q hq
    refine (Meets.of_quiet hq).mono ?_
    rintro g' - rfl hposted
    rw [hp] at hposted
    cases hposted
  refine meets_bind.mpr (meets_void.mpr ⟨trivial, fun a _ => ?_⟩)
  refine meets_bind.mpr (meets_perform.mpr ⟨trivial, fun k _ => ?_⟩)
  refine meets_ite.mpr ⟨fun _ => hfail ?_, fun _ => ?_⟩
  · simp [connectedFailed]
  refine meets_bind.mpr ((asioTransfer_heralds (p := .plain k .tcp .recv h) rfl ⟨rfl, rfl⟩
    (.inr (.inr (.inl hc)))).mono fun g₁ r hr => ?_)
  refine meets_ite.mpr ⟨fun hneg => ?_, fun hpos => ?_⟩
  · rw [if_pos hneg] at hr
    rw [hr]
    exact hfail (by simp [connectedFailed, tcpShutdownByPacket])
  -- the receive is out, and the announcement comes next
  · rw [if_neg hpos] at hr
    obtain ⟨rfl, -, hnamed⟩ := hr
    refine meets_bind.mpr (meets_void.mpr ⟨fun _ => ⟨hc, hnamed hc⟩, fun b _ => ?_⟩)
    refine (Meets.of_quiet ?_).mono ?_
    · simp
    · rintro g' - rfl -
      simp [HeraldRecord.after]

/-- The dispatch of a connect posts the receive first and announces the link then; where it has
posted it has also announced. -/
theorem tcpDispatchIoConnected_heralds {p : IoPacket} (hl : p.link = h) (hc : g.role = .connects)
    (hpeer : g.peer.isSome = true) (hp : g.posted = false) :
    Meets h (tcpDispatchIoConnected p) g fun g' _ => g'.posted = true → g'.told = true := by
  subst hl
  have hfail : ∀ {q : CallProg Unit}, q.Uses Call.Quiet →
      Meets p.link q g fun g' _ => g'.posted = true → g'.told = true := by
    intro q hq
    refine (Meets.of_quiet hq).mono ?_
    rintro g' - rfl hposted
    rw [hp] at hposted
    cases hposted
  refine meets_bind.mpr (protoRefr_heralds.mono ?_)
  rintro g₁ r₁ rfl
  refine meets_ite.mpr ⟨fun _ => hfail (by simp), fun _ => ?_⟩
  refine meets_bind.mpr (meets_void.mpr ⟨trivial, fun a _ => ?_⟩)
  refine meets_bind.mpr ((Meets.of_quiet updateLocalAddr_quiet).mono ?_)
  rintro g₂ - rfl
  refine meets_bind.mpr (meets_perform.mpr ⟨trivial, fun updated _ => ?_⟩)
  dsimp only
  refine meets_ite.mpr ⟨fun _ => ?_, fun _ => connectedPost_heralds hc hp⟩
  refine meets_bind.mpr (meets_void.mpr ⟨fun _ => hpeer, fun b _ => ?_⟩)
  exact connectedPost_heralds hc hp

/-- `tcp_connect` gets no receive, and does not come to the event. -/
theorem tcpConnect_heralds {rIpstr : Bool} {addr : SockaddrIn} (hd : g.role = .dials) :
    Meets h (tcpConnect h rIpstr addr) g fun g' _ => g'.role = .dials := by
  have hquiet : ∀ {g₁ : HeraldRecord} {q : CallProg Int}, g₁.role = .dials → q.Uses Call.Quiet →
      Meets h q g₁ fun g' _ => g'.role = .dials := by
    intro g₁ q hd₁ hq
    refine (Meets.of_quiet hq).mono ?_
    rintro g' - rfl
    exact hd₁
  refine meets_ite.mpr ⟨fun _ => hd, fun _ => meets_bind.mpr ?_⟩
  refine protoRefr_heralds.mono ?_
  rintro g₁ r₁ rfl
  refine meets_ite.mpr ⟨fun _ => hd, fun _ => ?_⟩
  refine meets_bind.mpr (meets_perform.mpr ⟨trivial, fun parsed _ => ?_⟩)
  refine meets_ite.mpr ⟨fun _ => hquiet hd (by simp), fun _ => ?_⟩
  refine meets_bind.mpr (meets_perform.mpr ⟨trivial, fun connected _ => ?_⟩)
  refine meets_ite.mpr ⟨fun _ => hquiet hd (by simp), fun _ => meets_bind.mpr ?_⟩
  refine meets_bind.mpr ((Meets.of_quiet updateLocalAddr_quiet).mono ?_)
  rintro g₂ - rfl
  refine meets_bind.mpr (meets_void.mpr ⟨trivial, fun a _ => ?_⟩)
  refine meets_bind.mpr (meets_perform.mpr ⟨trivial, fun k _ => ?_⟩)
  refine meets_ite.mpr ⟨fun _ => hquiet hd (by simp), fun _ => ?_⟩
  refine meets_bind.mpr ((asioTransfer_heralds (p := .plain k .tcp .recv h) rfl ⟨rfl, rfl⟩
    (.inr (.inr (.inr hd)))).mono fun g₃ r hr => ?_)
  refine meets_ite.mpr ⟨fun hneg => ?_, fun hpos => ?_⟩
  · rw [if_pos hneg] at hr
    rw [hr]
    refine meets_bind.mpr (meets_void.mpr ⟨trivial, fun b _ => ?_⟩)
    exact hquiet hd (by simp)
  · rw [if_neg hpos] at hr
    exact absurd hd hr.2.1

/-! Accepting. -/

/-- The link is announced before its receive is posted. -/
theorem takeAccepted_heralds {l : Int} {irp : AcceptAddrs} (hr : g.role = .accepts)
    (hpeer : g.peer = some irp.raddr) :
    Meets h (takeAccepted l h irp) g fun g' _ => g'.role = .accepts := by
  have hend : ∀ g₁ : HeraldRecord, g₁.role = .accepts → ∀ r : Int, Meets h (do
      if r < 0 then objclosHld h
      objdefrHld h : CallProg Unit) g₁ fun g' _ => g'.role = .accepts := by
    intro g₁ hr₁ r
    refine (Meets.of_quiet ?_).mono ?_
    · simp
    · rintro g' - rfl
      exact hr₁
  -- `tcp_syn_copy` writes the addresses and announces the link, if it does not fail
  have hcopy : Meets h (tcpSynCopy l h irp) g fun g' r =>
      g'.role = .accepts ∧ (0 ≤ r → g'.told = true) := by
    have hknown : ∀ g₁ : HeraldRecord, g₁.role = .accepts → g₁.peer = some irp.raddr →
        Meets h (tcpSynCopyKnown l h irp) g₁ fun g' r =>
          g'.role = .accepts ∧ (0 ≤ r → g'.told = true) := by
      intro g₁ hr₁ hpeer₁
      simp [tcpSynCopyKnown, HeraldRecord.after, HeraldRecord.Need, HeraldRecord.Ok, hr₁, hpeer₁]
    simp only [tcpSynCopy, meets_bind, meets_perform, meets_ite, meets_void, pure_eq, meets_done,
      nisCallEcr, ncbHld]
    refine ⟨trivial, fun known _ => ⟨fun _ => ⟨trivial, fun status _ => ⟨fun _ => ?_, fun _ => ?_⟩⟩,
      fun _ => ?_⟩⟩
    · exact ⟨trivial, fun _ _ => ⟨hr, fun h => absurd h (by decide)⟩⟩
    · exact hknown _ hr hpeer
    · exact hknown _ hr hpeer
  refine meets_bind.mpr (hcopy.mono ?_)
  rintro g₁ r₁ ⟨hr₁, htold⟩
  dsimp only
  refine meets_ite.mpr ⟨fun hneg => ?_, fun hpos => meets_bind.mpr ?_⟩
  · simp only [pure_eq, done_bind]
    exact hend g₁ hr₁ r₁
  refine meets_bind.mpr (meets_void.mpr ⟨trivial, fun a _ => ?_⟩)
  refine meets_bind.mpr (meets_perform.mpr ⟨trivial, fun k _ => ?_⟩)
  refine meets_ite.mpr ⟨fun _ => hend _ hr₁ (-1), fun _ => ?_⟩
  -- the receive is posted behind the announcement
  refine (asioTransfer_heralds (p := .plain k .tcp .recv h) rfl ⟨rfl, rfl⟩
    (.inl (htold (not_lt.mp hpos)))).mono fun g₂ r₂ hr₂ => hend g₂ ?_ r₂
  split at hr₂
  · rw [hr₂]
    exact hr₁
  · rw [hr₂.1]
    exact hr₁

/-- The dispatch of an accept announces the link before its receive. -/
theorem tcpDispatchIoSyn_heralds {p : IoPacket} {irp : AcceptAddrs} (hp : p.acceptedLink = h)
    (hr : g.role = .accepts) (hpeer : g.peer = some irp.raddr) :
    Meets h (tcpDispatchIoSyn p irp) g fun g' _ => g'.role = .accepts := by
  subst hp
  have hnext : ∀ g₁ : HeraldRecord, g₁.role = .accepts → Meets p.acceptedLink (do
      let retval ← tcpSyn p.link
      if retval < 0 then objclosHld p.link
      objdefrHld p.link : CallProg Unit) g₁ fun g' _ => g'.role = .accepts := by
    intro g₁ hr₁
    refine (Meets.of_quiet tcpSynNext_quiet).mono ?_
    rintro g' - rfl
    exact hr₁
  refine meets_bind.mpr (protoRefr_heralds.mono ?_)
  rintro g₁ r₁ rfl
  refine meets_ite.mpr ⟨fun _ => hr, fun _ => meets_bind.mpr ?_⟩
  refine protoRefr_heralds.mono ?_
  rintro g₂ r₂ rfl
  dsimp only
  refine meets_ite.mpr ⟨fun _ => meets_bind.mpr ?_, fun _ => hnext g₂ hr⟩
  exact (takeAccepted_heralds hr hpeer).mono fun g₃ _ hr₃ => hnext g₃ hr₃

/-! Links that are not TCP links. -/

theorem asioTransfer_hushed {p : IoPacket} (hp : p.proto ≠ .tcp) :
    (asioTransfer p).Uses (Call.Hushed h) := by
  simp [asioTransfer, hp]

/-- A UDP link is not announced that way. -/
theorem udpAllocateObject_hushed {anyPort broadcast : Bool} :
    (udpAllocateObject anyPort broadcast).Uses (Call.Hushed h) :=
  udpAllocateObject_quiet.mono fun _ hc => (hc.besides h).hushed

theorem udpCreate_hushed {userCallback lIpstr anyPort broadcast : Bool} :
    (udpCreate userCallback lIpstr anyPort broadcast).Uses (Call.Hushed h) := by
  have hmake : (do
      let h ← udpAllocateObject anyPort broadcast
      if h < 0 then return -1
      else do
        let array ← perform (.other .malloc)
        let packet ← if array < 0 then pure (-1) else perform (.allocatePacket h .udp .recv)
        if packet < 0 then do
          if 0 ≤ array then void (.other .free)
          void (.objclos h)
          return -1
        else do
          let _ ← asioUdpRecv (.plain packet .udp .recv h)
          void (.other .free)
          return h : CallProg Int).Uses (Call.Hushed h) := by
    refine Uses.bind udpAllocateObject_hushed fun l => ?_
    simp [asioUdpRecv, asioTransfer, IoPacket.plain]
  cases userCallback <;> cases lIpstr
  · simp [udpCreate]
  · simp [udpCreate]
  · simpa [udpCreate] using hmake
  · refine uses_perform_bind.mpr ⟨trivial, fun parsed => ?_⟩
    exact uses_ite.mpr ⟨fun _ => uses_done, fun _ => hmake⟩

/-- A completed receive of a link that is none of `tcp.c`. -/
theorem datagram_heralds {p : IoPacket} {status : NtStatus} {transfer : Int} {turns : Nat}
    {irp : AcceptAddrs} (hp : p.Receives h) (hproto : p.proto ≠ .tcp) (hr : g.role = .datagram) :
    Meets h (soDispatchIoEvent p status transfer turns irp) g fun g' _ => g' = g := by
  obtain ⟨hrecv, rfl⟩ := hp
  have hpost : (do
      let _ ← asioUdpRecv p
      objdefrHld p.link : CallProg Unit).Uses (Call.Hushed p.link) :=
    Uses.bind (asioTransfer_hushed hproto) fun _ => by simp
  unfold soDispatchIoEvent
  split
  next hudp =>
    refine meets_ite.mpr ⟨fun _ => meets_ite.mpr ⟨fun _ => ?_, fun _ => ?_⟩, fun _ => ?_⟩
    · exact Meets.of_hushed (by simp [udpShutdownByPacket])
    · simp only [hrecv]
      refine meets_bind.mpr (protoRefr_heralds.mono ?_)
      rintro g₁ r₁ rfl
      refine meets_ite.mpr ⟨fun _ => rfl, fun _ => ?_⟩
      refine meets_bind.mpr (meets_void.mpr ⟨fun _ => .inr hr, fun a _ => ?_⟩)
      exact Meets.of_hushed hpost
    · refine Meets.of_hushed
        (Uses.bind (protoRefr_quiet.mono fun _ hc => (hc.besides _).hushed) fun _ => ?_)
      refine uses_ite.mpr ⟨fun _ => uses_done, fun _ => ?_⟩
      dsimp only
      exact uses_ite.mpr ⟨fun _ => hpost, fun _ => by simp [udpShutdownByPacket]⟩
  next htcp => exact absurd htcp hproto
  · exact Meets.of_hushed (by simp [soDispatchPipeEvent])
  · exact rfl

/-! ## Every job -/

/-- A job starts with nothing posted. -/
theorem HeraldRecord.start_posted (h : Int) (j : Job) : (start h j).posted = false := by
  cases j <;> rfl

/-- A job that ends in a role that is none of a connect request's handler. -/
theorem HeraldRecord.post_of_role {j : Job} {r : Int} (hr : g.role ≠ .connects) : Post j g r :=
  fun hc => absurd hc hr

/-- Every exported function: `tcp_connect` announces its link, the others none. -/
theorem userCall_heralds {c : UserCall} :
    Meets h c.prog (.start h (.user c)) (HeraldRecord.Post (.user c)) := by
  have hrole : (HeraldRecord.start h (.user c)).role ≠ .connects := by
    simp only [HeraldRecord.start]
    split <;> nofun
  have hhushed : c.prog.Uses (Call.Hushed h) →
      Meets h c.prog (.start h (.user c)) (HeraldRecord.Post (.user c)) := by
    intro hq
    refine (Meets.of_hushed hq).mono ?_
    rintro g' r rfl
    exact HeraldRecord.post_of_role hrole
  have hquiet : (Job.user c).Dials = false → (Job.user c).MakesUdp = false →
      Meets h c.prog (.start h (.user c)) (HeraldRecord.Post (.user c)) :=
    fun hdials hudp => hhushed ((UserCall.prog_quiet hdials hudp).mono
      fun _ hc => (hc.besides h).hushed)
  cases c with
  | udpCreate userCallback lIpstr anyPort broadcast => exact hhushed udpCreate_hushed
  | tcpConnect l rIpstr addr =>
      by_cases hl : l = h
      · subst hl
        refine (tcpConnect_heralds (by simp [HeraldRecord.start, Job.Dials])).mono ?_
        intro g' r hr
        exact HeraldRecord.post_of_role (by rw [hr]; nofun)
      · exact hhushed (tcpConnect_local.mono fun c hc => (hc.besides hl).hushed)
  | _ => exact hquiet rfl rfl

/-- Every dispatch, by what it is to link `h`. -/
theorem completion_heralds {p : IoPacket} {status : NtStatus} {transfer : Int} {turns : Nat}
    {irp : AcceptAddrs} : Meets h (soDispatchIoEvent p status transfer turns irp)
      (.start h (.completion p status transfer turns irp))
      fun g' _ => HeraldRecord.Post (.completion p status transfer turns irp) g' 0 := by
  generalize hj : Job.completion p status transfer turns irp = j
  have hhushed : ∀ {q : CallProg Unit}, q.Uses (Call.Hushed h) →
      Meets h q (.start h j) fun g' _ => HeraldRecord.Post j g' 0 := by
    intro q hq
    refine (Meets.of_hushed hq).mono ?_
    rintro g' - rfl - hposted
    rw [HeraldRecord.start_posted] at hposted
    cases hposted
  have hquiet : ∀ {q : CallProg Unit}, q.Uses Call.Quiet →
      Meets h q (.start h j) fun g' _ => HeraldRecord.Post j g' 0 :=
    fun hq => hhushed (hq.mono fun _ hc => (hc.besides h).hushed)
  -- a receive of the link: of a TCP link, or of a UDP link, which is never announced
  by_cases hr : p.Receives h
  · by_cases htcp : p.proto = .tcp
    · have hrole : (HeraldRecord.start h j).role = .data := by
        rw [← hj]
        simp [HeraldRecord.start, hr, htcp]
      simp only [soDispatchIoEvent, htcp, tcpDispatchIoEvent, hr.1]
      refine meets_ite.mpr ⟨fun _ => ?_, fun _ => hquiet tcpDispatchIoException_quiet⟩
      refine (tcpDispatchIoRecv_heralds htcp hr hrole).mono fun g' _ hr' => ?_
      exact HeraldRecord.post_of_role (by rw [hr']; simp)
    · have hrole : (HeraldRecord.start h j).role = .datagram := by
        rw [← hj]
        simp [HeraldRecord.start, hr, htcp]
      refine (datagram_heralds hr htcp hrole).mono ?_
      rintro g' - rfl
      exact HeraldRecord.post_of_role (by rw [hrole]; simp)
  -- a connect request of the link
  by_cases hc : p.Connects h
  · simp only [soDispatchIoEvent, hc.1, tcpDispatchIoEvent, hc.2.1]
    refine meets_ite.mpr ⟨fun hok => ?_, fun _ => hquiet tcpDispatchIoException_quiet⟩
    refine (tcpDispatchIoConnected_heralds hc.2.2 ?_ ?_ (HeraldRecord.start_posted h j)).mono
      fun g' _ hq _ => hq
    · rw [← hj]
      simp [HeraldRecord.start, hr, hc]
    · rw [← hj]
      simp [HeraldRecord.start, hc, hok]
  -- the request that accepts the link
  by_cases ha : p.Accepts h
  · simp only [soDispatchIoEvent, ha.1.1, tcpDispatchIoEvent, ha.1.2]
    refine meets_ite.mpr ⟨fun hok => ?_, fun _ => hquiet tcpDispatchIoException_quiet⟩
    refine (tcpDispatchIoSyn_heralds ha.2 ?_ ?_).mono fun g' _ hr' => ?_
    · rw [← hj]
      simp [HeraldRecord.start, hr, hc, ha]
    · rw [← hj]
      simp [HeraldRecord.start, hc, ha, hok]
    · exact HeraldRecord.post_of_role (by rw [hr']; simp)
  refine hhushed ?_
  -- any other completion is hushed about the link
  by_cases hsyn : p.IsSyn
  · simp only [soDispatchIoEvent, hsyn.1, tcpDispatchIoEvent, hsyn.2]
    refine uses_ite.mpr ⟨fun _ => ?_, fun _ => ?_⟩
    · exact (tcpDispatchIoSyn_besides fun hacc => ha ⟨hsyn, hacc⟩).mono fun _ hc => hc.hushed
    · exact tcpDispatchIoException_quiet.mono fun _ hc => (hc.besides h).hushed
  by_cases hl : p.link = h
  · refine (soDispatchIoEvent_quiet (fun hrecv => hr ⟨hrecv, hl⟩) hsyn ?_).mono
      fun _ hcall => (hcall.besides h).hushed
    exact fun hconn => hc ⟨hconn.1, hconn.2, hl⟩
  · exact (soDispatchIoEvent_local rfl hsyn).mono fun c hcall => (hcall.besides hl).hushed

/-- **What every job does about the announcement of a link.** -/
theorem job_heralds (h : Int) (j : Job) :
    Meets h j.prog (.start h j) (HeraldRecord.Post j) := by
  cases j with
  | user c => exact userCall_heralds
  | completion p status transfer turns irp =>
      refine meets_bind.mpr ?_
      simp only [pure_eq, meets_done]
      exact completion_heralds

end

/-! ## Addresses -/

/-- What an access writes to the address in the control block of a connected link. -/
theorem Access.apply_address {y : Access} {a : Int} {o o' : Obj} {addr : SockaddrIn}
    (hy : y.apply a o = some o') (hp : o.peer = some addr) : o'.peer = some addr
      ∧ (o'.remoteAddr = o.remoteAddr ∧ (y = .getpeername → a < 0)
            ∧ (∀ irp, y ≠ .acceptAddrs irp)
          ∨ o'.remoteAddr = addr
          ∨ (∃ irp, y = .acceptAddrs irp ∧ o'.remoteAddr = irp.raddr)
          ∨ ∃ x, y = .setRemote x) := by
  have hpeer := o.ioclose_husk.peer
  have haddr := o.ioclose_husk.remoteAddr
  cases y <;> simp only [Access.apply] at hy <;> grind

namespace World

variable {w w' : World} {c : Call} {a h : Int} {o : Obj} {addr : SockaddrIn}

/-- A socket stays connected to what it is connected to. The address in the control block is written
from it, from what an accept left, or by `tcp_connect`. -/
theorem answer_address (hw : w.answer c a = some w') (ho : w.obj h = some o)
    (hp : o.peer = some addr) : ∃ o', w'.obj h = some o' ∧ o'.peer = some addr
      ∧ (o'.remoteAddr = o.remoteAddr ∧ (c = .ncb h .getpeername → a < 0)
            ∧ (∀ irp, c ≠ .ncb h (.acceptAddrs irp))
          ∨ o'.remoteAddr = addr
          ∨ (∃ irp, c = .ncb h (.acceptAddrs irp) ∧ o'.remoteAddr = irp.raddr)
          ∨ ∃ x, c = .ncb h (.setRemote x)) := by
  by_cases hc : ∃ y, c = .ncb h y
  · obtain ⟨y, rfl⟩ := hc
    simp only [answer, ho] at hw
    cases hy : y.apply a o with
    | none => rw [hy] at hw; cases hw
    | some o' =>
        rw [hy] at hw
        cases hw
        obtain ⟨hpeer, haddr⟩ := Access.apply_address hy hp
        refine ⟨o', by rw [setObj_obj, Function.update_self], hpeer, ?_⟩
        simpa only [Call.ncb.injEq, true_and, ne_eq] using haddr
  · -- whatever else is called leaves both addresses of the link alone
    have hkeep : (c = .ncb h .getpeername → a < 0) ∧ ∀ irp, c ≠ .ncb h (.acceptAddrs irp) :=
      ⟨fun h => absurd ⟨_, h⟩ hc, fun irp h => hc ⟨_, h⟩⟩
    have hstep := answer_obj hw h
    rw [ho] at hstep
    generalize w'.obj h = x at hstep
    cases hstep with
    | same | refer | reff => exact ⟨_, rfl, hp, .inl ⟨rfl, hkeep⟩⟩
    | defr hc hs | clos hc hs =>
        exact ⟨_, rfl, hs.husk.peer.trans hp, .inl ⟨hs.husk.remoteAddr, hkeep⟩⟩
    | access hy => exact absurd ⟨_, hy⟩ hc

/-- A connection writes the peer of the link that is connected, and no other. -/
theorem connectPeer_address {k : Int} {x : SockaddrIn} (hw : w.connectPeer k x = some w') :
    (∀ o addr, w.obj h = some o → o.peer = some addr → w'.obj h = some o)
      ∧ (k = h → (∃ o, w.obj h = some o) → ∃ o, w'.obj h = some o ∧ o.peer = some x) := by
  simp only [connectPeer] at hw
  split at hw
  next hnone =>
    cases hw
    refine ⟨fun _ _ ho _ => ho, ?_⟩
    rintro rfl ⟨o, ho⟩
    rw [hnone] at ho
    cases ho
  next o ho =>
    split at hw
    next hpeer =>
      cases hw
      refine ⟨fun o' addr ho' hp => ?_, ?_⟩
      · have hk : h ≠ k := by
          rintro rfl
          rw [ho] at ho'
          cases ho'
          rw [hpeer] at hp
          cases hp
        rw [setObj_obj, Function.update_of_ne hk]
        exact ho'
      · rintro rfl -
        exact ⟨_, Function.update_self .., rfl⟩
    · cases hw

/-- A request that succeeded has connected a socket. -/
theorem startJob_address {j : Job} (addr : SockaddrIn) (hw : w.startJob j = some w') :
    (∀ o addr, w.obj h = some o → o.peer = some addr → w'.obj h = some o)
      ∧ ((HeraldRecord.start h j).peer = some addr → (∃ o, w.obj h = some o) →
        ∃ o, w'.obj h = some o ∧ o.peer = some addr) := by
  cases j with
  | user c =>
      have hsame : w' = w := by
        simp only [startJob] at hw
        grind
      subst hsame
      exact ⟨fun _ _ ho _ => ho, fun h => (by cases h)⟩
  | completion p status transfer turns irp =>
      simp only [startJob] at hw
      split at hw
      · split at hw
        next hok =>
          simp only [HeraldRecord.start, if_pos hok]
          have hother : p.type ≠ .connect → p.type ≠ .syn → (if p.Connects h then some p.remoteAddr
              else if p.Accepts h then some irp.raddr else none) = none := by
            intro hconn hsyn
            rw [if_neg fun hc => hconn hc.2.1, if_neg fun ha => hsyn ha.1.2]
          cases htype : p.type <;> simp only [succeed, htype] at hw
          -- a connect request brings the address it was made for
          case connect =>
            have ha : ¬ p.Accepts h := fun ha => by simp [ha.1.2] at htype
            obtain ⟨hkeep, hset⟩ := connectPeer_address (h := h) hw
            refine ⟨hkeep, fun hpeer ho => ?_⟩
            by_cases hc : p.Connects h
            · rw [if_pos hc] at hpeer
              cases hpeer
              exact hset hc.2.2 ho
            · rw [if_neg hc, if_neg ha] at hpeer
              cases hpeer
          -- an accept request brings the address of the peer
          case syn =>
            have hc : ¬ p.Connects h := fun hc => by simp [hc.2.1] at htype
            obtain ⟨hkeep, hset⟩ := connectPeer_address (h := h) hw
            refine ⟨hkeep, fun hpeer ho => ?_⟩
            rw [if_neg hc] at hpeer
            by_cases ha : p.Accepts h
            · rw [if_pos ha] at hpeer
              cases hpeer
              exact hset ha.2 ho
            · rw [if_neg ha] at hpeer
              cases hpeer
          all_goals
            cases hw
            rw [hother (by rw [htype]; simp) (by rw [htype]; simp)]
            exact ⟨fun _ _ ho _ => ho, by simp⟩
        next hno =>
          cases hw
          refine ⟨fun _ _ ho _ => ho, fun hpeer => ?_⟩
          simp [HeraldRecord.start, hno] at hpeer
      · cases hw

end World

/-! ## Every run -/

/-- Data of link `h` comes after an announcement. -/
def World.Heralds (w : World) (h : Int) : Prop :=
  ∀ pre post, w.notices = pre ++ .receiveData h :: post → ∃ n ∈ pre, n.Opens h = true

/-- Events may follow as long as data comes after the announcement. -/
theorem World.Heralds.append {w w' : World} {h : Int} {new : List Notice} (hw : w.Heralds h)
    (hnotices : w'.notices = w.notices ++ new)
    (hnew : .receiveData h ∈ new → ∃ n ∈ w.notices, n.Opens h = true) : w'.Heralds h := by
  intro pre post hsplit
  rw [hnotices] at hsplit
  rcases List.append_eq_append_iff.mp hsplit with ⟨mid, rfl, hmid⟩ | ⟨mid, hold, hmid⟩
  · obtain ⟨n, hn, hopens⟩ := hnew (by rw [hmid]; simp)
    exact ⟨n, List.mem_append_left _ hn, hopens⟩
  · cases mid with
    | nil =>
        obtain ⟨n, hn, hopens⟩ := hnew (by rw [← show _ :: post = new from hmid]; simp)
        rw [List.append_nil] at hold
        exact ⟨n, hold ▸ hn, hopens⟩
    | cons x mid =>
        obtain ⟨rfl, rfl⟩ := List.cons.inj hmid
        exact hw pre mid hold

section

variable {τ : Type}

/-- What holds of the announcement of link `h`. -/
structure Heralded (h : Int) (w : World) (rec : τ → HeraldRecord) : Prop where
  /-- The completions of a link are handled one at a time. -/
  busy : ∀ u, (rec u).handles = true → h ∈ w.busy
  alone : ∀ u v, (rec u).handles = true → (rec v).handles = true → u = v
  connects : ∀ u, (rec u).role = .connects → (rec u).handles = true
  told : ∀ u, (rec u).told = true → 0 < w.opened h
  /-- A receive is out before the announcement only while the handler that posted it runs. -/
  posted : ∀ p ∈ w.posted, p.proto = .tcp → p.Receives h →
    0 < w.opened h ∨ ∃ u, (rec u).role = .connects ∧ (rec u).posted = true
  data : ∀ u, (rec u).role = .data → 0 < w.opened h
  datagram : ∀ u, (rec u).role = .datagram → w.Udp h
  peer : ∀ u addr, (rec u).peer = some addr → ∃ o, w.obj h = some o ∧ o.peer = some addr
  named : ∀ u, (rec u).named = true → ∃ o, w.obj h = some o ∧ o.peer = some o.remoteAddr
  order : w.Udp h ∨ w.Heralds h

variable {w w' : World} {h : Int} {rec : τ → HeraldRecord} {c : Call} {a : Int} {u : τ}

/-- A link is announced if one of the events announces it. -/
theorem World.opened_pos : 0 < w.opened h ↔ ∃ n ∈ w.notices, n.Opens h = true := by
  simp [World.opened, List.countP_pos_iff]

theorem HeraldRecord.told_after {g : HeraldRecord} (ht : (g.after h c a).told = true) :
    g.told = true ∨ c.opens h = true := by
  cases c with
  | emit n => cases n <;> simp_all [HeraldRecord.after, Call.opens, Notice.Opens]
  | _ => exact .inl ht

theorem HeraldRecord.posted_after {g : HeraldRecord} (hp : g.posted = true) :
    (g.after h c a).posted = true := by
  cases c <;> simp_all [HeraldRecord.after]

/-- An address that is in the control block stays there, and one that is written is that of the
peer. -/
theorem Heralded.named_call (hs : Heralded h w rec) (hw : w.answer c a = some w')
    (hn : (rec u).Need h c) {o : Obj} (ho : w.obj h = some o) {addr : SockaddrIn}
    (hp : o.peer = some addr) (hnamed : o.remoteAddr = addr
      ∨ c = .ncb h .getpeername ∧ 0 ≤ a ∨ ∃ irp, c = .ncb h (.acceptAddrs irp)) :
    ∃ o', w'.obj h = some o' ∧ o'.peer = some o'.remoteAddr := by
  obtain ⟨o', ho', hp', haddr⟩ := World.answer_address hw ho hp
  refine ⟨o', ho', hp'.trans (congrArg some ?_)⟩
  rcases haddr with ⟨hsame, hget, hacc⟩ | hset | ⟨irp, rfl, hset⟩ | ⟨x, rfl⟩
  · rcases hnamed with hold | ⟨hc, ha⟩ | ⟨irp, hc⟩
    · exact (hsame.trans hold).symm
    · have hneg := hget hc
      omega
    · exact absurd hc (hacc irp)
  · exact hset.symm
  · -- what an accept left is what the socket is connected to
    obtain ⟨o₁, ho₁, hp₁⟩ := hs.peer u _ (hn rfl)
    rw [ho] at ho₁
    cases ho₁
    rw [hp] at hp₁
    cases hp₁
    exact hset.symm
  · exact absurd rfl hn

variable [DecidableEq τ]

/-- **One call keeps the order.** The events it tells are the announcement, or data by a handler
that was preceded by one, or of other links. -/
theorem Heralded.call (hs : Heralded h w rec) (hw : w.answer c a = some w')
    (hn : (rec u).Need h c) (hok : (rec u).Ok h c a)
    (htold : ∀ n, c = .emit n → n.Opens h = true → w' = w.note n)
    (hnew : ∀ l, c ≠ .emit (.created l)) :
    Heralded h w' (Function.update rec u ((rec u).after h c a)) := by
  obtain ⟨-, hopened⟩ := opened_call hw htold hnew
  have hmono : 0 < w.opened h → 0 < w'.opened h := by
    intro hpos
    split at hopened <;> omega
  -- a call does not change what the job is to the link
  have hrole : ∀ v, (Function.update rec u ((rec u).after h c a) v).role = (rec v).role :=
    forall_records (P := fun v (g : HeraldRecord) => g.role = (rec v).role) (fun _ => rfl) rfl
  have hhandles : ∀ v, (Function.update rec u ((rec u).after h c a) v).handles = (rec v).handles :=
    forall_records (P := fun v (g : HeraldRecord) => g.handles = (rec v).handles) (fun _ => rfl) rfl
  have hudp : w.Udp h → w'.Udp h := by
    intro hu
    obtain ⟨o, ho, -⟩ := id hu
    exact (World.answer_udp hw ⟨o, ho⟩).mpr hu
  constructor
  case busy =>
    intro v hv
    rw [(World.answer_frame hw).1]
    exact hs.busy v (hhandles v ▸ hv)
  case alone =>
    intro v v' hv hv'
    exact hs.alone v v' (hhandles v ▸ hv) (hhandles v' ▸ hv')
  case connects =>
    intro v hv
    rw [hhandles]
    exact hs.connects v (hrole v ▸ hv)
  -- who tells the user has announced the link with this call
  case told =>
    refine forall_records (P := fun _ (g : HeraldRecord) => g.told = true → 0 < w'.opened h)
      (fun v hv => hmono (hs.told v hv)) fun ht => ?_
    rcases HeraldRecord.told_after ht with hold | hopens
    · exact hmono (hs.told u hold)
    · rw [if_pos hopens] at hopened
      omega
  -- a new receive is from a job that has the announcement behind it, or from a connect
  -- handler, which is on record; a dialling one gets none by the guard of the run
  case posted =>
    intro p hp htcp hr
    have hkept : (∃ v, (rec v).role = .connects ∧ (rec v).posted = true) →
        ∃ v, (Function.update rec u ((rec u).after h c a) v).role = .connects
          ∧ (Function.update rec u ((rec u).after h c a) v).posted = true := by
      rintro ⟨v, hv, hposted⟩
      refine ⟨v, (hrole v).trans hv, ?_⟩
      exact forall_records (P := fun v (g : HeraldRecord) =>
        (rec v).posted = true → g.posted = true)
        (fun _ h => h) HeraldRecord.posted_after v hposted
    rcases World.answer_posted hw with ⟨q, rfl, ha, hq⟩ | ⟨hq, -⟩
    · rw [hq] at hp
      rcases List.mem_cons.mp hp with rfl | hp
      · obtain ⟨hdials, -⟩ := hok htcp hr ha
        rcases hn htcp hr with ht | hd | hc | hd
        · exact .inl (hmono (hs.told u ht))
        · exact .inl (hmono (hs.data u hd))
        · refine .inr ⟨u, (hrole u).trans hc, ?_⟩
          rw [Function.update_self]
          simp [HeraldRecord.after, htcp, hr, ha]
        · exact absurd hd hdials
      · exact (hs.posted p hp htcp hr).imp hmono hkept
    · rw [hq] at hp
      exact (hs.posted p hp htcp hr).imp hmono hkept
  case data =>
    intro v hv
    exact hmono (hs.data v (hrole v ▸ hv))
  case datagram =>
    intro v hv
    exact hudp (hs.datagram v (hrole v ▸ hv))
  case peer =>
    have hpeer : ∀ v, (Function.update rec u ((rec u).after h c a) v).peer = (rec v).peer :=
      forall_records (P := fun v (g : HeraldRecord) => g.peer = (rec v).peer) (fun _ => rfl) rfl
    intro v addr hv
    rw [hpeer] at hv
    obtain ⟨o, ho, hp⟩ := hs.peer v addr hv
    obtain ⟨o', ho', hp', -⟩ := World.answer_address hw ho hp
    exact ⟨o', ho', hp'⟩
  -- the address is written by `getpeername`, or from the accepted addresses
  case named =>
    have hold : (∃ o, w.obj h = some o ∧ o.peer = some o.remoteAddr) →
        ∃ o', w'.obj h = some o' ∧ o'.peer = some o'.remoteAddr := by
      rintro ⟨o, ho, hp⟩
      exact hs.named_call hw hn ho hp (.inl rfl)
    refine forall_records (P := fun _ (g : HeraldRecord) => g.named = true →
      ∃ o, w'.obj h = some o ∧ o.peer = some o.remoteAddr)
      (fun v hv => hold (hs.named v hv)) fun hnamed => ?_
    by_cases hwas : (rec u).named = true
    · exact hold (hs.named u hwas)
    have hset : c = .ncb h .getpeername ∧ 0 ≤ a ∨ ∃ irp, c = .ncb h (.acceptAddrs irp) := by
      cases c with
      | ncb l x => cases x <;> simp_all [HeraldRecord.after]
      | _ => exact absurd hnamed hwas
    obtain ⟨addr, haddr⟩ : ∃ addr, (rec u).peer = some addr := by
      rcases hset with ⟨rfl, -⟩ | ⟨irp, rfl⟩
      · exact Option.isSome_iff_exists.mp (hn rfl)
      · exact ⟨_, hn rfl⟩
    obtain ⟨o, ho, hp⟩ := hs.peer u addr haddr
    exact hs.named_call hw hn ho hp (.inr hset)
  -- the only new notice that can break the order is one of data
  case order =>
    rcases hs.order with hu | horder
    · exact .inl (hudp hu)
    obtain ⟨new, htells, hnotices, -⟩ := World.answer_notices hw
    by_cases hmem : .receiveData h ∈ new
    · have hc : c = .emit (.receiveData h) := by
        cases htells with
        | nothing => cases hmem
        | event hc =>
            rw [List.mem_singleton] at hmem
            rw [hc, hmem]
        | closing =>
            rw [World.closing] at hmem
            split at hmem <;> simp at hmem
      subst hc
      rcases hn rfl with hd | hd
      · exact .inr (horder.append hnotices fun _ => World.opened_pos.mp (hs.data u hd))
      · exact .inl (hudp (hs.datagram u hd))
    · exact .inr (horder.append hnotices fun h => absurd h hmem)

/-- A job starts. No other completion of the link is being handled, so that a receive that completes
was posted for a link that is announced. -/
theorem Heralded.start {j : Job} {links : τ → LinkRecord} (hc : Custody w links) (hh : 0 ≤ h)
    (hposted : ∀ p ∈ w.posted, p.Receives h →
      (∃ o, w.obj h = some o ∧ o.proto = p.proto) ∧ (p.proto = .tcp ∨ p.proto = .udp))
    (hs : Heralded h w rec) (hw : w.startJob j = some w') (hu : rec u = .blank) :
    Heralded h w' (Function.update rec u (.start h j)) := by
  have hstart := World.startJob_spec hw
  have hopened : w'.opened h = w.opened h := by rw [World.opened, hstart.notices, World.opened]
  have hudp : w.Udp h → w'.Udp h := fun hu => obj_of_start hstart (fun _ _ => id) hu
  have hidle : (rec u).handles = false ∧ (rec u).posted = false := by
    rw [hu]
    exact ⟨rfl, rfl⟩
  -- the job handles a completion of the link
  have hfree : (HeraldRecord.start h j).handles = true → h ∉ w.busy ∧ h ∈ w'.busy := by
    intro hhandles
    cases j with
    | user c => cases hhandles
    | completion p status transfer turns irp =>
        obtain rfl : p.link = h := of_decide_eq_true hhandles
        obtain ⟨-, hbusy, -, hbusy'⟩ := hstart.completion _ _ _ _ _ rfl
        exact ⟨hbusy, by rw [hbusy']; exact List.mem_cons_self⟩
  have hbusy : h ∈ w.busy → h ∈ w'.busy := by
    intro hb
    cases j with
    | user c => rw [(hstart.user c rfl).2.1]; exact hb
    | completion p status transfer turns irp =>
        rw [(hstart.completion _ _ _ _ _ rfl).2.2.2]
        exact List.mem_cons_of_mem _ hb
  -- a receive that completes was posted for a link that is announced, or the handler that posted
  -- it would still be at work on the same link
  have hreceives : ∀ p status transfer turns irp, j = .completion p status transfer turns irp →
      p.Receives h → (p.proto = .tcp → 0 < w.opened h) ∧ (p.proto ≠ .tcp → w.Udp h) := by
    intro p status transfer turns irp hj hr
    obtain ⟨hp, hlink, -, -⟩ := hstart.completion _ _ _ _ _ hj
    refine ⟨fun htcp => ?_, fun hne => ?_⟩
    · rcases hs.posted p hp htcp hr with hpos | ⟨v, hv, -⟩
      · exact hpos
      · exact absurd (hs.busy v (hs.connects v hv)) (hr.2 ▸ hlink)
    · obtain ⟨⟨o, ho, hproto⟩, hkind⟩ := hposted p hp hr
      exact ⟨o, ho, hproto.trans (hkind.resolve_left hne)⟩
  constructor
  case busy =>
    exact forall_records (P := fun _ (g : HeraldRecord) => g.handles = true → h ∈ w'.busy)
      (fun v hv => hbusy (hs.busy v hv)) fun hv => (hfree hv).2
  -- the link was not busy, so that nobody else handles a completion of it
  case alone =>
    have hnew : ∀ v, (HeraldRecord.start h j).handles = true → (rec v).handles = true → False :=
      fun v hj hv => (hfree hj).1 (hs.busy v hv)
    intro v v' hv hv'
    by_cases hvu : v = u <;> by_cases hvu' : v' = u
    · exact hvu.trans hvu'.symm
    · subst hvu
      rw [Function.update_self] at hv
      rw [Function.update_of_ne hvu'] at hv'
      exact (hnew v' hv hv').elim
    · subst hvu'
      rw [Function.update_of_ne hvu] at hv
      rw [Function.update_self] at hv'
      exact (hnew v hv' hv).elim
    · rw [Function.update_of_ne hvu] at hv
      rw [Function.update_of_ne hvu'] at hv'
      exact hs.alone v v' hv hv'
  case connects =>
    refine forall_records (P := fun _ (g : HeraldRecord) => g.role = .connects → g.handles = true)
      hs.connects fun hr => ?_
    cases j with
    | user c =>
        simp only [HeraldRecord.start] at hr
        split at hr <;> cases hr
    | completion p status transfer turns irp =>
        simp only [HeraldRecord.start] at hr ⊢
        split at hr
        · split at hr <;> cases hr
        · split at hr
          next hc => exact decide_eq_true hc.2.2
          · split at hr <;> cases hr
  case told =>
    refine forall_records (P := fun _ (g : HeraldRecord) => g.told = true → 0 < w'.opened h)
      (fun v hv => by rw [hopened]; exact hs.told v hv) fun ht => ?_
    cases j <;> cases ht
  -- the job has posted nothing, so that it is another that has
  case posted =>
    intro p hp htcp hr
    rw [hopened]
    refine (hs.posted p (posted_of_start hstart hp) htcp hr).imp_right ?_
    rintro ⟨v, hv, hpv⟩
    have hvu : v ≠ u := by
      rintro rfl
      rw [hidle.2] at hpv
      cases hpv
    exact ⟨v, by rw [Function.update_of_ne hvu]; exact ⟨hv, hpv⟩⟩
  case data =>
    refine forall_records (P := fun _ (g : HeraldRecord) => g.role = .data → 0 < w'.opened h)
      (fun v hv => by rw [hopened]; exact hs.data v hv) fun hr => ?_
    cases j with
    | user c =>
        simp only [HeraldRecord.start] at hr
        split at hr <;> cases hr
    | completion p status transfer turns irp =>
        rw [hopened]
        simp only [HeraldRecord.start] at hr
        split at hr
        next hrecv =>
          split at hr
          next htcp => exact (hreceives _ _ _ _ _ rfl hrecv).1 htcp
          · cases hr
        · split at hr
          · cases hr
          · split at hr <;> cases hr
  case datagram =>
    refine forall_records (P := fun _ (g : HeraldRecord) => g.role = .datagram → w'.Udp h)
      (fun v hv => hudp (hs.datagram v hv)) fun hr => ?_
    cases j with
    | user c =>
        simp only [HeraldRecord.start] at hr
        split at hr <;> cases hr
    | completion p status transfer turns irp =>
        simp only [HeraldRecord.start] at hr
        split at hr
        next hrecv =>
          split at hr
          · cases hr
          next hne => exact hudp ((hreceives _ _ _ _ _ rfl hrecv).2 hne)
        · split at hr
          · cases hr
          · split at hr <;> cases hr
  -- a connect or accept completion comes with the address it has connected to
  case peer =>
    refine forall_records (P := fun _ (g : HeraldRecord) => ∀ addr, g.peer = some addr →
      ∃ o, w'.obj h = some o ∧ o.peer = some addr) (fun v addr hv => ?_) fun addr hp => ?_
    · obtain ⟨o, ho, hp⟩ := hs.peer v addr hv
      exact ⟨o, (World.startJob_address (h := h) addr hw).1 o addr ho hp, hp⟩
    · refine (World.startJob_address addr hw).2 hp (hc.starting hstart hh ?_)
      cases j with
      | user c => cases hp
      | completion p status transfer turns irp =>
          simp only [HeraldRecord.start] at hp
          split at hp
          · split at hp
            next hconn => exact decide_eq_true (.inl hconn.2.2)
            · split at hp
              next hacc => exact decide_eq_true (.inr hacc)
              · cases hp
          · cases hp
  case named =>
    refine forall_records (P := fun _ (g : HeraldRecord) => g.named = true →
      ∃ o, w'.obj h = some o ∧ o.peer = some o.remoteAddr) (fun v hv => ?_) fun hn => ?_
    · obtain ⟨o, ho, hp⟩ := hs.named v hv
      exact ⟨o, (World.startJob_address (h := h) o.remoteAddr hw).1 o _ ho hp, hp⟩
    · cases j <;> cases hn
  case order =>
    refine hs.order.imp hudp fun horder => ?_
    intro pre post hsplit
    rw [hstart.notices] at hsplit
    exact horder pre post hsplit

/-- A job returns. -/
theorem Heralded.finish {j : Job} {r : Int} (hs : Heralded h w rec)
    (hp : HeraldRecord.Post j (rec u) r)
    (hj : ∀ p status transfer turns irp, j = .completion p status transfer turns irp →
      p.link = h → (rec u).handles = true) :
    Heralded h (w.finishJob j r) (Function.update rec u .blank) := by
  obtain ⟨hobj, hposted, hnotices⟩ := World.finishJob_spec w j r
  obtain ⟨new, hnew, hdata⟩ : ∃ new, (w.finishJob j r).notices = w.notices ++ new
      ∧ .receiveData h ∉ new := by
    rcases hnotices with ⟨-, -, -, hn⟩ | ⟨-, hn⟩
    · exact ⟨_, hn, by simp⟩
    · exact ⟨[], by rw [hn, List.append_nil], by simp⟩
  have hopened : 0 < w.opened h → 0 < (w.finishJob j r).opened h := by
    rw [World.opened_pos, World.opened_pos, hnew]
    rintro ⟨n, hn, hopens⟩
    exact ⟨n, List.mem_append_left _ hn, hopens⟩
  have hudp : w.Udp h → (w.finishJob j r).Udp h := by
    rintro ⟨o, ho, hk⟩
    exact ⟨o, by rw [hobj]; exact ho, hk⟩
  have hother : ∀ v, (Function.update rec u .blank v).handles = true → v ≠ u := by
    rintro v hv rfl
    rw [Function.update_self] at hv
    cases hv
  constructor
  -- the link is no longer busy with this job, and the job was alone with it
  case busy =>
    intro v hv
    have hvu := hother v hv
    rw [Function.update_of_ne hvu] at hv
    have hb := hs.busy v hv
    cases j with
    | user c =>
        cases c <;> simp only [World.finishJob] <;> first | exact hb | skip
        all_goals split <;> exact hb
    | completion p status transfer turns irp =>
        have hl : h ≠ p.link := fun hl => hvu (hs.alone v u hv (hj _ _ _ _ _ rfl hl.symm))
        exact (List.mem_erase_of_ne hl).mpr hb
  case alone =>
    intro v v' hv hv'
    have hvu := hother v hv
    have hvu' := hother v' hv'
    rw [Function.update_of_ne hvu] at hv
    rw [Function.update_of_ne hvu'] at hv'
    exact hs.alone v v' hv hv'
  case connects =>
    exact forall_records (P := fun _ (g : HeraldRecord) => g.role = .connects → g.handles = true)
      hs.connects (fun h => by cases h)
  case told =>
    exact forall_records (P := fun _ (g : HeraldRecord) => g.told = true →
      0 < (w.finishJob j r).opened h) (fun v hv => hopened (hs.told v hv)) (fun h => by cases h)
  case posted =>
    intro p hpost htcp hr
    rw [hposted] at hpost
    rcases hs.posted p hpost htcp hr with hpos | ⟨v, hv, hpv⟩
    · exact .inl (hopened hpos)
    by_cases hvu : v = u
    · -- the handler that posted it has told the user
      subst hvu
      exact .inl (hopened (hs.told v (hp hv hpv)))
    · exact .inr ⟨v, by rw [Function.update_of_ne hvu]; exact ⟨hv, hpv⟩⟩
  case data =>
    exact forall_records (P := fun _ (g : HeraldRecord) => g.role = .data →
      0 < (w.finishJob j r).opened h) (fun v hv => hopened (hs.data v hv)) (fun h => by cases h)
  case datagram =>
    exact forall_records (P := fun _ (g : HeraldRecord) => g.role = .datagram →
      (w.finishJob j r).Udp h) (fun v hv => hudp (hs.datagram v hv)) (fun h => by cases h)
  case peer =>
    rw [hobj]
    exact forall_records (P := fun _ (g : HeraldRecord) => ∀ addr, g.peer = some addr →
      ∃ o, w.obj h = some o ∧ o.peer = some addr) hs.peer (fun _ h => by cases h)
  case named =>
    rw [hobj]
    exact forall_records (P := fun _ (g : HeraldRecord) => g.named = true →
      ∃ o, w.obj h = some o ∧ o.peer = some o.remoteAddr) hs.named (fun h => by cases h)
  case order =>
    exact hs.order.imp hudp fun horder => horder.append hnew fun h => absurd h hdata

/-! ### Records of running jobs -/

section

variable {g : HeraldRecord} {t : CallTrace}

omit [DecidableEq τ] in
/-- What a job is to the link does not change. -/
theorem HeraldRecord.record_const :
    (record (after h) g t).role = g.role ∧ (record (after h) g t).handles = g.handles := by
  induction t with
  | nil => exact ⟨rfl, rfl⟩
  | cons x t ih => exact ih

omit [DecidableEq τ] in
/-- A peer that was read is on record. -/
theorem HeraldRecord.record_named {a : Int} (hx : (.ncb h .getpeername, a) ∈ t) (ha : 0 ≤ a) :
    (record (after h) g t).named = true := by
  induction t with
  | nil => cases hx
  | cons x t ih =>
      rcases List.mem_cons.mp hx with rfl | hx
      · simp [HeraldRecord.after, ha]
      · have hold := ih hx
        obtain ⟨c, b⟩ := x
        rw [record_cons]
        cases c with
        | ncb l y => cases y <;> simp [HeraldRecord.after, hold]
        | _ => exact hold

end

/-- The job handles the completion of a connect request of link `h`. -/
def Job.ConnectsLink (h : Int) : Job → Prop
  | .completion p _ _ _ _ => p.Connects h
  | .user _ => False

instance (h : Int) (j : Job) : Decidable (j.ConnectsLink h) :=
  match j with
  | .completion p _ _ _ _ => inferInstanceAs (Decidable (p.Connects h))
  | .user _ => instDecidableFalse

/-- `tcp_connect` gets no receive, and the handler of a connect request gets one only where it has
read the address of the peer. -/
def peersRead : SysGuard where
  start _ _ := True
  call _ j t c a :=
    match c with
    | .post p => p.proto = .tcp → p.type = .recv → 0 ≤ a → j.Dials = false
        ∧ (j.ConnectsLink p.link → ∃ x ∈ t, x.1 = .ncb p.link .getpeername ∧ 0 ≤ x.2)
    | _ => True

instance (w : World) (j : Job) : Decidable (peersRead.start w j) := instDecidableTrue

instance (w : World) (j : Job) (t : CallTrace) (c : Call) (a : Int) :
    Decidable (peersRead.call w j t c a) :=
  match c with
  | .post p => inferInstanceAs (Decidable (p.proto = .tcp → p.type = .recv → 0 ≤ a → j.Dials = false
      ∧ (j.ConnectsLink p.link → ∃ x ∈ t, x.1 = .ncb p.link .getpeername ∧ 0 ≤ x.2)))
  | .objallo .. | .objrefr _ | .objreff _ | .objdefr _ | .objclos _ | .ncb .. | .allocatePacket ..
  | .freepkt _ | .emit _ | .other _ | .stuck => instDecidableTrue

omit [DecidableEq τ] in
/-- The runs looked at get the answers the ledger has. -/
theorem heralds_ok {j : Job} {t : CallTrace} (hG : peersRead.call w j t c a) :
    (record (HeraldRecord.after h) (.start h j) t).Ok h c a := by
  cases c with
  | post p =>
      intro htcp hr ha
      obtain ⟨hdials, hread⟩ := hG htcp hr.1 ha
      obtain ⟨hrole, -⟩ := HeraldRecord.record_const (h := h) (g := .start h j) (t := t)
      rw [hrole]
      cases j with
      | user x =>
          rw [HeraldRecord.start, hdials]
          exact ⟨nofun, nofun⟩
      | completion q status transfer turns irp =>
          constructor
          · simp only [HeraldRecord.start]
            split
            · split <;> nofun
            · split
              · nofun
              · split <;> nofun
          · intro hc
            have hconn : q.Connects h := by
              by_contra hno
              simp only [HeraldRecord.start, if_neg hno] at hc
              split at hc <;> split at hc <;> cases hc
            obtain ⟨⟨c, b⟩, hx, rfl, hb⟩ := hread (hr.2.symm ▸ hconn)
            exact HeraldRecord.record_named (hr.2 ▸ hx) hb
  | _ => trivial

variable [Fintype τ] {s : SysState τ}

/-- In every run where the peers are read. -/
theorem sys_heralded (hh : 0 ≤ h) (hr : SysReaches peersRead s) :
    Heralded h s.world (s.records (heralds h)) ∧ s.Meets (heralds h) := by
  have hreceived : ∀ {s : SysState τ}, SysReaches peersRead s →
      Received (fun _ => False) h s.world (s.records (receives h)) ∧ s.Meets (receives h) :=
    fun hs => sys_received hh (fun _ hT => hT.elim) (fun _ hT => hT.elim) hs
  have hkept : Kept (heralds h) system peersRead (State.rest World.initial)
      (Heralded (τ := τ) h) := by
    constructor
    case env =>
      intro s e
      exact nomatch e
    case start =>
      intro s u j w hs hi hu hw _
      exact ⟨job_heralds h j, hi.start (sys_custody hs).1 hh (hreceived hs).1.posted hw
        (State.records_idle hu)⟩
    case call =>
      intro s u j t c k a w hs hi hu hw hG hn
      obtain ⟨hc, hm⟩ := sys_custody hs
      have hneed : (s.records links u).Need c := (hm u j t _ hu).1
      have hg : (s.records (receives h) u).Need h c := ((hreceived hs).2 u j t _ hu).1
      have hok : (s.records (heralds h) u).Ok h c a := by
        rw [State.records_running hu]
        exact heralds_ok hG
      refine ⟨hok, hi.call hw hn hok (hc.opened hh hw hneed hg (records_link hu)) ?_⟩
      rintro l rfl
      exact hneed
    case finish =>
      intro s u j t r hs hi hu hp
      refine hi.finish hp ?_
      rintro p status transfer turns irp rfl hl
      rw [State.records_running hu]
      exact HeraldRecord.record_const.2.trans (decide_eq_true hl)
  have h₀ : Heralded (τ := τ) h World.initial
      ((State.rest World.initial : SysState τ).records (heralds h)) :=
    ⟨nofun, nofun, nofun, nofun, nofun, nofun, nofun, nofun, nofun,
      .inr fun pre post hsplit => absurd hsplit (by simp [World.initial])⟩
  exact hr.kept hkept h₀ (State.meets_rest _)

/-- **A link is announced before its data.** In every run where `tcp_connect` gets no receive and
the peer of each `tcp_connect2` is read: when the user hears of a TCP link, its control block holds
the address of the peer. -/
theorem established_first (hr : SysReaches peersRead s) {o : Obj} (ho : s.world.obj h = some o)
    (htcp : o.proto = .tcp) : s.world.Heralds h
      ∧ ∀ u j t c, calling s u = some (j, t, c) → c.opens h = true →
        ∃ o', s.world.obj h = some o' ∧ o'.peer = some o'.remoteAddr := by
  have hh : 0 ≤ h := (sys_custody hr).1.nonneg ho
  obtain ⟨hs, hm⟩ := sys_heralded hh hr
  refine ⟨hs.order.resolve_left ?_, fun u j t c hcall hopens => ?_⟩
  · rintro ⟨o', ho', hudp⟩
    rw [ho] at ho'
    cases ho'
    rw [htcp] at hudp
    cases hudp
  · obtain ⟨k, hu⟩ := running_of_calling hcall
    have hn : (s.records (heralds h) u).Need h c := (hm u j t _ hu).1
    refine hs.named u ?_
    cases c with
    | emit n =>
        cases n with
        | connected l => exact (hn (by simpa [Call.opens, Notice.Opens] using hopens)).2
        | accepted l k => exact hn (by simpa [Call.opens, Notice.Opens] using hopens)
        | _ => cases hopens
    | _ => cases hopens

end

/-- The dispatch of the connect request of link 0 up to the event, where nothing fails. -/
def connected2 (u : Unit) : List (SysMove Unit) :=
  .start u (.completion (connectPacket 0 0) 0 0 1 noAddrs) :: referTcp u
    ++ Move.calls u [0, 0, 0, 0, 0, 1, 0, 0, 0, 0]

/-- `tcp_connect2` connects, the user hears of it with the address there, and data comes after. -/
theorem established_first_connected : ∃ s s' : SysState Unit,
    SysReaches peersRead s ∧ (∃ x ∈ calling s (), x.2.2 = .emit (.connected 0))
      ∧ (∃ o, s.world.obj 0 = some o ∧ o.peer = some o.remoteAddr)
      ∧ SysReaches peersRead s' ∧ .receiveData 0 ∈ s'.world.notices ∧ s'.world.Heralds 0 := by
  obtain ⟨s, hs, ⟨o, ho, htcp⟩, x, hx, hemit⟩ := sys_of_play peersRead
    (P := fun s => (∃ o ∈ s.world.obj 0, o.proto = .tcp)
      ∧ ∃ x ∈ calling s (), x.2.2 = .emit (.connected 0))
    (createTcp () 0 ++ connect2Tcp () 0 0 ++ connected2 ()) (by decide +kernel)
  obtain ⟨s', hs', ⟨o', ho', htcp'⟩, hdata⟩ := sys_of_play peersRead
    (P := fun s => (∃ o ∈ s.world.obj 0, o.proto = .tcp) ∧ .receiveData 0 ∈ s.world.notices)
    (createTcp () 0 ++ connect2Tcp () 0 0 ++ connected2 () ++ Move.calls () [0, 0, 0, 0]
      ++ [.finish (), .start () (.completion (.plain 1 .tcp .recv 0) 0 5 2 noAddrs)] ++ referTcp ()
      ++ Move.calls () [0, 1, 0]) (by decide +kernel)
  refine ⟨s, s', hs, ⟨x, hx, hemit⟩, ?_, hs', hdata, (established_first hs' ho' htcp').1⟩
  obtain ⟨j, t, c⟩ := x
  obtain rfl : c = _ := hemit
  exact (established_first hs ho htcp).2 () j t _ hx (by decide)

/-- A call of `tcp_connect` on link 0 has its receive posted, and data is received and handled by an
IO thread before the call comes to its event: the user gets the data first, and the address is not
there yet when he hears of the link. -/
theorem established_late : ∃ s : SysState Bool, SysReaches anyRun s
    ∧ (∃ o, s.world.obj 0 = some o ∧ o.proto = .tcp ∧ o.peer = some somePeer
      ∧ o.remoteAddr = noAddr)
    ∧ ¬ s.world.Heralds 0 ∧ ∃ x ∈ calling s false, x.2.2 = .emit (.connected 0) := by
  obtain ⟨s, hs, ⟨o, ho, hobj⟩, hdata, hfirst, hx⟩ := sys_of_play anyRun
    (P := fun s : SysState Bool => (∃ o ∈ s.world.obj 0, o.proto = .tcp ∧ o.peer = some somePeer
        ∧ o.remoteAddr = noAddr)
      ∧ .receiveData 0 ∈ s.world.notices ∧ (∀ n ∈ s.world.notices, n.Opens 0 = false)
      ∧ ∃ x ∈ calling s false, x.2.2 = .emit (.connected 0))
    (createTcp false 0 ++ .start false (.user (.tcpConnect 0 true somePeer)) :: referTcp false
      ++ Move.calls false [1, 0, 0, 0, 0, 0, 0, 0, 0]
      ++ .start true (.completion (.plain 0 .tcp .recv 0) 0 5 2 noAddrs) :: referTcp true
      ++ Move.calls true [0, 1, 0]) (by decide +kernel)
  refine ⟨s, hs, ⟨o, ho, hobj⟩, fun hheralds => ?_, hx⟩
  obtain ⟨pre, post, hsplit⟩ := List.append_of_mem hdata
  obtain ⟨n, hn, hopens⟩ := hheralds pre post hsplit
  rw [hfirst n (by rw [hsplit]; exact List.mem_append_left _ hn)] at hopens
  cases hopens

end Swnet.Sys
