import Swnet.Sys.Accepting
import Swnet.Sys.Closing

/-!
# Swnet — what each job does about the receive of a link

A link that is established has one receive posted. The ledger `receives h` follows it for link
`h`: a completed receive is `due` to be posted again, a posted one is taken off what is due, and
an announcement of the link to the user takes up the one posted for it. A connection that was made
gives `credit` for one announcement.

All that is counted is counted for the one link `h`, so that a job on another link leaves the record
as it is (`Meets.of_besides`), and so do the functions that have nothing to do with receives
(`Call.Quiet`). What is left are the ways on which a receive is posted: the dispatch of a receive,
the three ways to connect, and `udp_create`. Each of their lemmas says that the function `Settles`
what is due: the receive is posted, or the link is closed, or the record has the reason
for which the code does neither (`lost`).
-/

namespace Swnet.Sys

open Jobs Jobs.Prog

/-! ## Packets and jobs -/

/-- The packet is for a receive of link `h`. -/
def IoPacket.Receives (h : Int) (p : IoPacket) : Prop := p.type = .recv ∧ p.link = h

/-- The packet is for connecting link `h`. -/
def IoPacket.Connects (h : Int) (p : IoPacket) : Prop :=
  p.proto = .tcp ∧ p.type = .connect ∧ p.link = h

/-- The packet is for accepting on link `h`. -/
def IoPacket.Accepts (h : Int) (p : IoPacket) : Prop := p.IsSyn ∧ p.acceptedLink = h

instance (h : Int) (p : IoPacket) : Decidable (p.Receives h) := inferInstanceAs (Decidable (_ ∧ _))

instance (h : Int) (p : IoPacket) : Decidable (p.Connects h) := inferInstanceAs (Decidable (_ ∧ _))

instance (h : Int) (p : IoPacket) : Decidable (p.Accepts h) := inferInstanceAs (Decidable (_ ∧ _))

/-- A call of `tcp_create` or `udp_create`. -/
def Job.Makes : Job → Bool
  | .user (.tcpCreate ..) | .user (.udpCreate ..) => true
  | _ => false

/-- `udp_create` is one of the two calls that make a link. -/
theorem Job.makes_of_udp {j : Job} (hj : j.MakesUdp = true) : j.Makes = true := by
  unfold Job.MakesUdp at hj
  split at hj
  · rfl
  · cases hj

/-- A call of `tcp_connect`. -/
def Job.Dials : Job → Bool
  | .user (.tcpConnect ..) => true
  | _ => false

/-! ## The record -/

/-- What is kept on record of a job about link `h`. -/
structure RecvRecord where
  /-- The link the job works on. -/
  link : Option Int
  /-- The job handles a completion of `h`, or one that accepts it. -/
  handles : Bool
  /-- It handles a completed receive of `h`. -/
  data : Bool
  /-- `h` is the link of the job, the link it accepts, or one it allocated. -/
  owns : Bool
  /-- It allocated `h`. -/
  made : Bool
  /-- What it knows `h` to be. -/
  kind : Option ProtoType
  /-- The receives to be posted. -/
  due : Int
  /-- The announcements that may be made. -/
  credit : Int
  /-- It closed `h` or found it closed. -/
  shut : Bool
  /-- The system did not take a receive. -/
  refused : Bool
  /-- A TCP receive could not be posted. -/
  lost : Bool
  /-- The last call looked for a large block. -/
  marked : Bool
  /-- The stream was rejected. -/
  rejected : Bool

namespace RecvRecord

def after (h : Int) (g : RecvRecord) (c : Call) (a : Int) : RecvRecord where
  link := g.link
  handles := g.handles
  data := g.data
  owns := match c with
    | .objallo .. => g.owns || decide (a = h)
    | _ => g.owns
  made := match c with
    | .objallo .. => g.made || decide (a = h)
    | _ => g.made
  kind := match c with
    | .objallo proto _ => if a = h then g.kind.or (some proto) else g.kind
    | .ncb l .proto =>
      if l = h ∧ g.owns = true ∧ a = ProtoType.tcp.code then g.kind.or (some .tcp)
      else if l = h ∧ g.owns = true ∧ a = ProtoType.udp.code then g.kind.or (some .udp)
      else g.kind
    | _ => g.kind
  due := match c with
    | .post p => if p.Receives h ∧ 0 ≤ a then g.due - 1 else g.due
    | .emit (.connected l) | .emit (.accepted _ l) => if l = h then g.due + 1 else g.due
    | _ => g.due
  credit := match c with
    | .ncb l (.connect _) => if l = h ∧ 0 ≤ a then g.credit + 1 else g.credit
    | .emit (.connected l) | .emit (.accepted _ l) => if l = h then g.credit - 1 else g.credit
    | _ => g.credit
  shut := match c with
    | .objclos l | .objreff l => g.shut || (g.owns && decide (l = h))
    | .objrefr l => g.shut || (g.owns && decide (l = h ∧ a < 0))
    | _ => g.shut
  refused := match c with
    | .post p => g.refused || decide (p.Receives h ∧ a < 0)
    | _ => g.refused
  lost := match c with
    | .post p => g.lost || decide (p.proto = .tcp ∧ p.Receives h ∧ a < 0)
    | .allocatePacket l .tcp .recv => g.lost || decide (l = h ∧ a < 0)
    | _ => g.lost
  marked := match c with
    | .ncb l (.read .largeBlock) => decide (l = h)
    | _ => false
  rejected := match c with
    | .ncb l (.read .tcpTst) => g.rejected || decide (l = h ∧ a < 0)
    | .ncb l (.read .largeBlock) => g.rejected || (g.marked && decide (l = h ∧ a < 0))
    | _ => g.rejected

/-- The job may post a receive: it handles the link, has made it, or has connected it. -/
def Entitled (h : Int) (g : RecvRecord) (proto : ProtoType) : Prop :=
  g.handles = true ∨ proto = .udp ∧ g.made = true
    ∨ proto = .tcp ∧ g.link = some h ∧ 0 < g.due + g.credit

/-- The calls a job may make. -/
def Need (h : Int) (g : RecvRecord) : Call → Prop
  | .post p => p.Receives h → g.owns = true ∧ g.kind = some p.proto
      ∧ (p.proto = .tcp ∨ p.proto = .udp) ∧ g.Entitled h p.proto
  | .emit (.connected l) => l = h → 1 ≤ g.credit ∧ g.link = some h ∧ g.kind = some .tcp
      ∧ (g.handles = true ∨ g.due < 0)
  | .emit (.accepted _ l) => l = h → 1 ≤ g.credit ∧ g.kind = some .tcp ∧ g.handles = true
  | .emit (.receiveData l) => l = h → g.data = true
  | .ncb l (.connect _) => l = h → g.owns = true
  | .allocatePacket l .tcp .recv => l = h → g.handles = true ∨ g.link = some h
  | _ => True

/-- The answers that can be got: a link is what it is known to be. -/
def Ok (h : Int) (g : RecvRecord) : Call → Int → Prop
  | .ncb l .proto, a => l = h → ∀ k, g.kind = some k → a = k.code
  | _, _ => True

/-- Nothing on record. -/
def blank : RecvRecord where
  link := none
  handles := false
  data := false
  owns := false
  made := false
  kind := none
  due := 0
  credit := 0
  shut := false
  refused := false
  lost := false
  marked := false
  rejected := false

/-- What is on record when a job starts. -/
def start (h : Int) : Job → RecvRecord
  | .user c => { blank with link := c.link, owns := decide (c.link = some h) }
  | .completion p status _ _ _ => { blank with
      link := some p.link
      handles := decide (p.link = h ∨ p.Accepts h)
      data := decide (p.Receives h)
      owns := decide (p.link = h ∨ p.Accepts h)
      kind := if p.Receives h then some p.proto else if p.Accepts h then some .tcp else none
      due := if p.Receives h then 1 else 0
      credit := if ntSuccess status ∧ (p.Connects h ∨ p.Accepts h) then 1 else 0 }

/-- What a job can end in. -/
structure Post (h : Int) (j : Job) (g : RecvRecord) (r : Int) : Prop where
  /-- Nothing is due any more, but for a link that is announced by being returned. -/
  due : g.due = (if j.MakesUdp = true ∧ r = h then -1 else 0) ∨ g.shut = true
    ∨ g.kind = some .udp ∧ g.refused = true
  made : j.Makes = true → r = h → g.made = true
  lost : j.Dials = false → g.kind ≠ some .udp → g.lost = true → g.shut = true
  rejected : g.data = true → g.kind = some .tcp → g.rejected = true → g.shut = true

end RecvRecord

/-- The ledger of the receive of link `h`. -/
def receives (h : Int) : Ledger Job Call Int Int RecvRecord where
  idle := .blank
  init := .start h
  upd := .after h
  need := RecvRecord.Need h
  ok := RecvRecord.Ok h
  post := RecvRecord.Post h

/-! ## What only grows -/

namespace RecvRecord

/-- The program stays within the bounds of the ledger. -/
abbrev Meets {α : Type} (h : Int) (p : CallProg α) (g : RecvRecord) (Q : RecvRecord → α → Prop) :
    Prop :=
  p.Meets (after h) (Need h) (Ok h) g Q

/-- What calls leave on record for good. -/
structure Grows (g g' : RecvRecord) : Prop where
  link : g'.link = g.link
  handles : g'.handles = g.handles
  data : g'.data = g.data
  owns : g.owns = true → g'.owns = true
  made : g.made = true → g'.made = true
  kind : ∀ k, g.kind = some k → g'.kind = some k
  shut : g.shut = true → g'.shut = true
  refused : g.refused = true → g'.refused = true
  lost : g.lost = true → g'.lost = true
  rejected : g.rejected = true → g'.rejected = true

theorem Grows.refl (g : RecvRecord) : g.Grows g :=
  ⟨rfl, rfl, rfl, id, id, fun _ => id, id, id, id, id⟩

/-- What is on record for good stays there call after call. -/
theorem Grows.trans {g₁ g₂ g₃ : RecvRecord} (h₁ : g₁.Grows g₂) (h₂ : g₂.Grows g₃) :
    g₁.Grows g₃ where
  link := h₂.link.trans h₁.link
  handles := h₂.handles.trans h₁.handles
  data := h₂.data.trans h₁.data
  owns := h₂.owns ∘ h₁.owns
  made := h₂.made ∘ h₁.made
  kind k hk := h₂.kind k (h₁.kind k hk)
  shut := h₂.shut ∘ h₁.shut
  refused := h₂.refused ∘ h₁.refused
  lost := h₂.lost ∘ h₁.lost
  rejected := h₂.rejected ∘ h₁.rejected

section

variable {h : Int} {α : Type} {p : CallProg α} {g : RecvRecord} {Q : RecvRecord → α → Prop}

/-- One call takes nothing of it off the record. -/
theorem grows_after (h : Int) (g : RecvRecord) (c : Call) (a : Int) : g.Grows (g.after h c a) := by
  constructor <;> simp only [after] <;> grind

theorem Meets.grows (hp : Meets h p g Q) : Meets h p g fun g' r => g.Grows g' ∧ Q g' r :=
  Prog.Meets.along Grows.refl (fun _ _ _ => Grows.trans) (grows_after h) hp

theorem grows_record (h : Int) (j : Job) (t : CallTrace) :
    (start h j).Grows (record (after h) (start h j) t) := by
  induction t with
  | nil => exact .refl _
  | cons x t ih => exact ih.trans (grows_after h _ _ _)

/-- What is as before but for what only grows. -/
structure Idles (g g' : RecvRecord) : Prop extends Grows g g' where
  due : g'.due = g.due
  credit : g'.credit = g.credit
  lost_eq : g'.lost = g.lost
  refused_eq : g'.refused = g.refused

theorem Idles.refl (g : RecvRecord) : g.Idles g := ⟨.refl g, rfl, rfl, rfl, rfl⟩

theorem Idles.trans {g₁ g₂ g₃ : RecvRecord} (h₁ : g₁.Idles g₂) (h₂ : g₂.Idles g₃) :
    g₁.Idles g₃ :=
  ⟨h₁.toGrows.trans h₂.toGrows, h₂.due.trans h₁.due, h₂.credit.trans h₁.credit,
    h₂.lost_eq.trans h₁.lost_eq, h₂.refused_eq.trans h₁.refused_eq⟩

end

end RecvRecord

/-! ## Calls that have to do with no receive -/

/-- The type of a packet that brings no link. -/
@[simp] theorem plain_type {k l : Int} {proto : ProtoType} {type : PktType} :
    (IoPacket.plain k proto type l).type = type := rfl

/-- A call that posts no receive, connects and addresses nothing, and tells the user of no link or
data. -/
@[simp] def Call.Quiet : Call → Prop
  | .post p => p.type ≠ .recv
  | .emit n => match n with
    | .connected _ | .accepted .. | .receiveData _ => False
    | _ => True
  | .ncb _ (.connect _) | .ncb _ (.setRemote _) | .ncb _ (.acceptAddrs _)
  | .ncb _ .getpeername => False
  | .allocatePacket _ _ type => type ≠ .recv
  | _ => True

/-- A call that leaves the receive of `h` alone. -/
@[simp] def Call.Besides (h : Int) : Call → Prop
  | .post p => ¬ p.Receives h
  | .emit n => match n with
    | .connected l | .accepted _ l | .receiveData l => l ≠ h
    | _ => True
  | .ncb l (.connect _) | .ncb l (.setRemote _) | .ncb l (.acceptAddrs _) | .ncb l .getpeername =>
    l ≠ h
  | .allocatePacket l _ type => l ≠ h ∨ type ≠ .recv
  | _ => True

/-- A call that has nothing to do with receives has nothing to do with those of `h`. -/
theorem Call.Quiet.besides {c : Call} (hc : c.Quiet) (h : Int) : c.Besides h := by
  cases c with
  | emit n => cases n <;> simp_all
  | ncb l x => cases x <;> simp_all
  | _ => simp_all [IoPacket.Receives]

/-- A call that stays on another link. -/
theorem Call.Local.besides {c : Call} {l h : Int} (hc : c.Local l) (hl : l ≠ h) : c.Besides h := by
  cases c with
  | emit n =>
      rcases hc with rfl | rfl | rfl
      · exact hl
      · exact hl
      · trivial
  | ncb k x => cases x <;> simp_all
  | _ => simp_all [IoPacket.Receives]

namespace RecvRecord

section

variable {h : Int} {α : Type} {p : CallProg α} {g : RecvRecord}

theorem besides_after {c : Call} {a : Int} (hc : c.Besides h) : g.Idles (g.after h c a) := by
  refine ⟨grows_after h g c a, ?_, ?_, ?_, ?_⟩ <;>
    simp only [after] <;> grind [Call.Besides]

theorem quiet_after {c : Call} {a : Int} (hc : c.Quiet) : g.Idles (g.after h c a) :=
  besides_after (hc.besides h)

/-- A program that leaves the receive of `h` alone. -/
theorem Meets.of_besides (hp : p.Uses (Call.Besides h)) : Meets h p g fun g' _ => g.Idles g' := by
  refine hp.keeps (I := fun g' => g.Idles g') ?_ ?_ (.refl g)
  · intro g' c _ hc
    cases c with
    | emit n => cases n <;> simp_all [Need]
    | ncb l x => cases x <;> simp_all [Need]
    | allocatePacket l proto type => cases proto <;> cases type <;> simp_all [Need]
    | _ => simp_all [Need]
  · intro g' c a hg' hc
    exact hg'.trans (besides_after hc)

/-- A program of quiet calls leaves the receive of every link alone. -/
theorem Meets.of_quiet (hp : p.Uses Call.Quiet) : Meets h p g fun g' _ => g.Idles g' :=
  .of_besides (hp.mono fun _ hc => hc.besides h)

end

end RecvRecord

section

variable {l : Int}

theorem protoRefr_quiet {proto : ProtoType} {negative : Int} :
    (protoRefr proto negative l).Uses Call.Quiet := by
  simp [protoRefr]

/-- An exported function of the common shape, around a quiet body. -/
theorem withLink_quiet {refr body : CallProg Int} {failed : Int → Int} {defr : CallProg Unit}
    (hrefr : refr.Uses Call.Quiet) (hbody : body.Uses Call.Quiet) (hdefr : defr.Uses Call.Quiet) :
    (withLink refr failed body defr).Uses Call.Quiet := by
  refine Uses.bind hrefr fun _ => ?_
  simp only [pure_eq, uses_ite, uses_done, implies_true, true_and]
  intro _
  refine Uses.bind hbody fun _ => ?_
  exact Uses.bind hdefr fun _ => uses_done

/-- A request that is not a receive. -/
theorem asioTransfer_quiet {p : IoPacket} (hp : p.type ≠ .recv) :
    (asioTransfer p).Uses Call.Quiet := by
  simp [asioTransfer, hp]

theorem updateLocalAddr_quiet : (updateLocalAddr l).Uses Call.Quiet := by
  simp [updateLocalAddr]

/-! Making a link, and accepting. -/

/-- A link that is made has no receive yet. -/
theorem tcpAllocateObject_quiet {remote : Bool} : (tcpAllocateObject remote).Uses Call.Quiet := by
  cases remote <;> simp [tcpAllocateObject, tcpEntry, tcpEntrySteps, tcpEntryLocal, tcpUpdateOpts]

/-- Nor has a UDP link, before `udp_create` goes on. -/
theorem udpAllocateObject_quiet {anyPort broadcast : Bool} :
    (udpAllocateObject anyPort broadcast).Uses Call.Quiet := by
  cases anyPort <;> cases broadcast <;>
    simp [udpAllocateObject, udpEntry, udpEntryOpts, udpUpdateOpts]

theorem tcpCreate_quiet {userCallback lIpstr : Bool} :
    (tcpCreate userCallback lIpstr).Uses Call.Quiet := by
  cases userCallback <;> cases lIpstr <;> simp [tcpCreate, tcpAllocateObject_quiet]

/-- Accept requests are no receives. Induction on the rounds. -/
theorem tcpSynRounds_quiet {k : Int} {n : Nat} : (tcpSynRounds l k n).Uses Call.Quiet := by
  induction n with
  | zero => simp [tcpSynRounds]
  | succ n ih =>
      simp only [tcpSynRounds, uses_void_bind, Call.Quiet, true_and]
      refine Uses.bind tcpAllocateObject_quiet fun _ => ?_
      simp [asioTcpAccept, ih]

theorem tcpSyn_quiet : (tcpSyn l).Uses Call.Quiet := by
  simp [tcpSyn, tcpSynRounds_quiet]

/-- `tcp_listen`. Induction on the turns of its loop. -/
theorem tcpListen_quiet {block : Int} : (tcpListen l block).Uses Call.Quiet := by
  have hrounds : ∀ n, (tcpListenRounds l n).Uses Call.Quiet := by
    intro n
    induction n with
    | zero => exact tcpSyn_quiet
    | succ n ih =>
        refine Uses.bind tcpSyn_quiet fun _ => ?_
        simp [ih]
  refine Uses.bind protoRefr_quiet fun _ => ?_
  simp only [objdefrHld, ncbHld, pure_eq, uses_ite, uses_done, uses_perform_bind, Call.Quiet,
    done_bind, bind_bind, uses_void_bind, implies_true, true_and]
  refine fun _ _ _ => ?_
  exact Uses.bind (hrounds _) fun _ => by simp

/-- A link that is shut down posts no receive; the `kSyn` case posts an accept. -/
theorem tcpShutdownByPacket_quiet {p : IoPacket} : (tcpShutdownByPacket p).Uses Call.Quiet := by
  unfold tcpShutdownByPacket
  split
  case h_4 =>
    refine Uses.bind protoRefr_quiet fun _ => ?_
    simp only [objdefrHld, ncbHld, bind_bind, uses_ite, uses_void_bind, uses_void, Call.Quiet,
      implies_true, and_true]
    exact fun _ => Uses.bind tcpSyn_quiet fun _ => by simp
  all_goals simp

/-! Sending. -/

theorem tcpTryWriteNext_quiet {turns : Nat} : (tcpTryWriteNext turns l).Uses Call.Quiet := by
  have hloop : ∀ turns, (tcpWritePendingLoop l turns).Uses Call.Quiet := by
    intro turns
    induction turns with
    | zero => simp [tcpWritePendingLoop]
    | succ turns ih => simp [tcpWritePendingLoop, ih]
  refine Uses.bind (hloop turns) fun first => ?_
  cases first with
  | false => simp
  | true =>
      simp only [if_true, uses_perform_bind, uses_void_bind, Call.Quiet, true_and]
      intro next
      refine Uses.bind (asioTransfer_quiet (by simp)) fun _ => ?_
      simp only [pure_eq, uses_ite, uses_done, implies_true, and_true]
      exact fun _ => Uses.bind tcpShutdownByPacket_quiet fun _ => uses_done

theorem tcpTryWrite_quiet {turns : Nat} {packet : Option Int} :
    (tcpTryWrite turns l packet).Uses Call.Quiet := by
  cases packet <;> simp [tcpTryWrite, tcpTryWriteNext_quiet]

theorem tcpWrite_quiet {turns : Nat} {origin serializer : Bool} {cb : Int} :
    (tcpWrite turns l origin cb serializer).Uses Call.Quiet := by
  have hpacket : ∀ builder, (tcpWritePacket l builder serializer).Uses Call.Quiet := by
    intro builder
    cases builder <;> cases serializer <;> simp [tcpWritePacket]
  simp only [tcpWrite, Int.reduceNeg, pure_eq, objdefrHld, ncbHld, bind_bind, done_bind, ne_eq,
    uses_ite, uses_done, implies_true, true_and]
  intro _
  refine Uses.bind protoRefr_quiet fun _ => ?_
  simp only [Int.reduceNeg, uses_ite, uses_done, implies_true, uses_perform_bind, Call.Quiet,
    uses_void_bind, true_and]
  intro _ _ _ builder
  refine ⟨fun _ => ?_, fun _ _ => ?_⟩ <;>
  · refine Uses.bind (hpacket _) fun packet => ?_
    simp only [Int.reduceNeg, uses_ite, uses_void_bind, Call.Quiet, uses_done, implies_true,
      true_and]
    exact fun _ => Uses.bind tcpTryWrite_quiet fun _ => by simp

theorem tcpDispatchIoSend_quiet {p : IoPacket} {transfer : Int} {turns : Nat} :
    (tcpDispatchIoSend p transfer turns).Uses Call.Quiet := by
  simp only [tcpDispatchIoSend, uses_ite]
  refine ⟨fun _ => tcpShutdownByPacket_quiet, fun _ => ?_⟩
  refine Uses.bind protoRefr_quiet fun _ => ?_
  simp only [uses_ite, uses_void, Call.Quiet, implies_true, uses_void_bind, true_and]
  exact fun _ => Uses.bind tcpTryWrite_quiet fun _ => by simp

/-- A failed completion is never posted again on a TCP link. -/
theorem tcpDispatchIoException_quiet {p : IoPacket} {status : NtStatus} {turns : Nat} :
    (tcpDispatchIoException p status turns).Uses Call.Quiet := by
  have hsend : (tcpExceptionSend p status turns).Uses Call.Quiet := by
    simp only [tcpExceptionSend, pure_eq, uses_ite, uses_void_bind, Call.Quiet, true_and]
    refine ⟨fun _ => tcpShutdownByPacket_quiet, fun _ => ?_⟩
    exact Uses.bind tcpTryWrite_quiet fun _ => by simp
  refine Uses.bind protoRefr_quiet fun _ => ?_
  simp only [objdefrHld, ncbHld, uses_ite, uses_void, Call.Quiet, implies_true, true_and]
  refine fun _ => ⟨fun _ => ?_, fun _ => ?_⟩
  · exact Uses.bind hsend fun _ => by simp
  · exact Uses.bind tcpShutdownByPacket_quiet fun _ => by simp

/-- `tcp_connect2` posts the connect request only: the receive comes with its completion. -/
theorem tcpConnect2_quiet {rIpstr : Bool} {addr : SockaddrIn} :
    (tcpConnect2 l rIpstr addr).Uses Call.Quiet := by
  simp only [tcpConnect2, pure_eq, uses_ite, uses_done, implies_true, true_and]
  intro _
  refine Uses.bind protoRefr_quiet fun _ => ?_
  simp [tcpConnect2Post, asioTcpConnect]

/-! UDP, and the other exported calls. -/

theorem udpWrite_quiet {turns : Nat} {valid serializer : Bool} :
    (udpWrite turns l valid serializer).Uses Call.Quiet := by
  have hloop : ∀ turns, (udpTxSinglePacket l turns).Uses Call.Quiet := by
    intro turns
    induction turns with
    | zero => simp [udpTxSinglePacket]
    | succ turns ih => simp [udpTxSinglePacket, ih]
  simp only [udpWrite, pure_eq, uses_ite, uses_done, implies_true, true_and]
  intro _
  refine withLink_quiet (by simp) ?_ (by simp)
  simp only [Int.reduceNeg, done_bind, uses_perform_bind, Call.Quiet, uses_ite, uses_done,
    implies_true, uses_void_bind, true_and]
  intro _ _ _ _
  exact Uses.bind (hloop turns) fun _ => by simp

theorem udpInitializeGrp_quiet {grp : Bool} {count : Nat} :
    (udpInitializeGrp l grp count).Uses Call.Quiet := by
  have hitems : ∀ count, (initializeItems count).Uses Call.Quiet := by
    intro count
    induction count with
    | zero => simp [initializeItems]
    | succ count ih => simp [initializeItems, ih]
  simp only [udpInitializeGrp, pure_eq, uses_ite, uses_done, implies_true, true_and]
  intro _
  refine withLink_quiet protoRefr_quiet ?_ (by simp)
  simp only [Int.reduceNeg, uses_perform_bind, Call.Quiet, uses_ite, uses_done, implies_true,
    true_and]
  intro _ _
  exact Uses.bind (hitems count) fun _ => by simp

theorem tcpSockopt_quiet {c : SockCall} {ptrs : Bool} : (tcpSockopt c l ptrs).Uses Call.Quiet := by
  simp only [tcpSockopt, pure_eq, uses_ite, uses_done, implies_true, true_and]
  exact fun _ => withLink_quiet protoRefr_quiet (by simp) (by simp)

theorem udpSockopt_quiet {c : SockCall} {ptrs : Bool} : (udpSockopt c l ptrs).Uses Call.Quiet := by
  simp only [udpSockopt, pure_eq, uses_ite, uses_done, implies_true, true_and]
  exact fun _ => withLink_quiet protoRefr_quiet (by simp) (by simp)

theorem nisCntl_quiet {cmd : NiCmd} : (nisCntl l cmd).Uses Call.Quiet := by
  have hset : ∀ tst cb, (tcpSettstR l tst cb).Uses Call.Quiet := by
    intro tst cb
    simp only [tcpSettstR, pure_eq, uses_ite, uses_done, implies_true, true_and]
    exact fun _ _ => withLink_quiet protoRefr_quiet (by simp) (by simp)
  have hget : ∀ tst, (tcpGettstR l tst).Uses Call.Quiet := by
    intro tst
    simp only [tcpGettstR, pure_eq, uses_ite, uses_done, implies_true, true_and]
    exact fun _ => withLink_quiet protoRefr_quiet (by simp) (by simp)
  simp only [nisCntl, pure_eq, uses_perform_bind, uses_ite, uses_done, implies_true, true_and]
  refine ⟨by simp, fun _ _ => ?_⟩
  cases cmd with
  | settst tst cb => exact Uses.bind (hset tst cb) fun _ => by simp
  | gettst tst => exact Uses.bind (hget tst) fun _ => by simp
  | _ => simp

/-- Of the exported calls, `tcp_connect` and `udp_create` alone have to do with receives. -/
theorem UserCall.prog_quiet {c : UserCall} (hdials : (Job.user c).Dials = false)
    (hudp : (Job.user c).MakesUdp = false) : c.prog.Uses Call.Quiet := by
  cases c <;> simp only [UserCall.prog]
  case tcpCreate => exact tcpCreate_quiet
  case tcpDestroy => simp [Sys.tcpDestroy]
  case tcpListen => exact tcpListen_quiet
  case tcpConnect => cases hdials
  case udpCreate => cases hudp
  case tcpConnect2 => exact tcpConnect2_quiet
  case tcpWrite => exact tcpWrite_quiet
  case udpDestroy => simp [Sys.udpDestroy, Sys.tcpDestroy]
  case tcpAwaken => simp [Sys.tcpAwaken, awaken]
  case udpAwaken => simp [Sys.udpAwaken, awaken]
  case udpWrite => exact udpWrite_quiet
  case udpInitializeGrp => exact udpInitializeGrp_quiet
  case tcpSettst =>
    simp only [Sys.tcpSettst, pure_eq, uses_ite, uses_done, implies_true, true_and]
    exact fun _ => withLink_quiet protoRefr_quiet (by simp) (by simp)
  case tcpGettst => exact withLink_quiet protoRefr_quiet (by simp) (by simp)
  case tcpGetaddr =>
    simp only [Sys.tcpGetaddr, pure_eq, uses_ite, uses_done, implies_true, true_and]
    refine fun _ => withLink_quiet protoRefr_quiet ?_ (by simp)
    split <;> simp
  case tcpSetopt => exact tcpSockopt_quiet
  case tcpGetopt => exact tcpSockopt_quiet
  case tcpSetattr => exact withLink_quiet protoRefr_quiet (by simp) (by simp)
  case tcpGetattr => exact withLink_quiet protoRefr_quiet (by simp) (by simp)
  case udpGetaddr =>
    simp only [Sys.udpGetaddr, pure_eq, uses_ite, uses_done, implies_true, true_and]
    exact fun _ => withLink_quiet protoRefr_quiet (by simp) (by simp)
  case udpSetopt => exact udpSockopt_quiet
  case udpGetopt => exact udpSockopt_quiet
  case udpRaiseGrp =>
    refine withLink_quiet protoRefr_quiet ?_ (by simp)
    simp [syioVConnect, updateLocalAddr]
  case udpDetachGrp => exact withLink_quiet protoRefr_quiet (by simp) (by simp)
  case udpWriteGrp lnk grp count =>
    simp only [Sys.udpWriteGrp, pure_eq, uses_ite, uses_done, implies_true, true_and]
    refine fun _ => withLink_quiet protoRefr_quiet ?_ (by simp)
    have hsend : (syioGrpSend lnk).Uses Call.Quiet := withLink_quiet (by simp) (by simp) (by simp)
    simp only [Int.reduceNeg, done_bind, uses_perform_bind, Call.Quiet, uses_ite, uses_done,
      implies_true, uses_void_bind, true_and]
    exact fun _ _ => ⟨by simp, fun _ _ _ _ => Uses.bind hsend fun _ => by simp⟩
  case udpJoingrp =>
    simp only [Sys.udpJoingrp, pure_eq, uses_ite, uses_done, implies_true, true_and]
    exact fun _ => withLink_quiet (by simp) (by simp) (by simp)
  case udpDropgrp =>
    simp only [Sys.udpDropgrp, pure_eq, uses_ite, uses_done, implies_true, true_and]
    exact fun _ => withLink_quiet (by simp) (by simp) (by simp)
  case nisSetctx => exact withLink_quiet (by simp) (by simp) (by simp)
  case nisGetctx =>
    simp only [Sys.nisGetctx, pure_eq, uses_ite, uses_done, implies_true, true_and]
    exact fun _ => withLink_quiet (by simp) (by simp) (by simp)
  case nisRefctx => exact withLink_quiet (by simp) (by simp) (by simp)
  case nisCtxsize => exact withLink_quiet (by simp) (by simp) (by simp)
  case nisSetmask => exact withLink_quiet (by simp) (by simp) (by simp)
  case nisGetmask => exact withLink_quiet (by simp) (by simp) (by simp)
  case nisCntl lnk cmd => exact nisCntl_quiet

end

/-! ## Programs that post a receive -/

section

open RecvRecord (Meets)

variable {h : Int} {g : RecvRecord}

/-- A reference to link `h` tells which protocol it has, or that it is closed. -/
theorem protoRefr_receives {proto : ProtoType} {negative : Int} (hh : 0 ≤ h) (ho : g.owns = true)
    (hproto : proto = .tcp ∨ proto = .udp) : Meets h (protoRefr proto negative h) g fun g' r =>
      g.Idles g' ∧ g'.rejected = g.rejected
        ∧ (0 ≤ r → g'.kind = some proto ∧ g'.marked = false)
        ∧ (r < 0 → g.kind = some proto → g'.shut = true) := by
  simp only [protoRefr, if_neg (not_lt.mpr hh), pure_eq, meets_ite, meets_done, meets_bind,
    meets_perform, meets_void]
  refine ⟨trivial, fun ncb _ => ⟨fun hneg => ?_, fun hpos => ⟨trivial, fun type htype => ?_⟩⟩⟩
  · exact ⟨RecvRecord.quiet_after trivial, rfl, by simp [eNOENT],
      fun _ _ => by simp [RecvRecord.after, ho, hneg]⟩
  have hidles :=
    (RecvRecord.quiet_after (h := h) (g := g) (c := .objrefr h) (a := ncb) trivial).trans
    (RecvRecord.quiet_after (h := h) (c := .ncb h .proto) (a := type) trivial)
  refine ⟨fun heq => ⟨hidles, rfl, fun _ => ⟨?_, rfl⟩, fun h => by omega⟩,
    fun hne => ⟨trivial, fun _ _ => ?_⟩⟩
  · -- what was known of the link is what the answer says
    cases hk : g.kind with
    | none => rcases hproto with rfl | rfl <;> simp [RecvRecord.after, ho, hk, heq, ProtoType.code]
    | some k =>
        have hcode : type = k.code := htype rfl k hk
        have hsame : k = proto := ProtoType.code_inj (hcode.symm.trans heq)
        subst hsame
        exact hidles.kind k hk
  · refine ⟨hidles.trans (RecvRecord.quiet_after trivial), rfl, by simp [ePROTOTYPE],
      fun _ hk => ?_⟩
    exact absurd (htype rfl proto hk) hne

/-- A receive is posted by a job that is entitled to: one that is due is made good. Where the system
refuses it, that is on record. -/
theorem asioTransfer_receives {p : IoPacket} (hp : p.Receives h) (ho : g.owns = true)
    (hk : g.kind = some p.proto) (hproto : p.proto = .tcp ∨ p.proto = .udp)
    (he : g.Entitled h p.proto) : Meets h (asioTransfer p) g fun g' r =>
      g.Grows g' ∧ g'.credit = g.credit
      ∧ g'.rejected = g.rejected ∧ (0 ≤ r ∨ p.proto ≠ .tcp → g'.lost = g.lost)
      ∧ if r < 0 then g'.due = g.due ∧ (g'.shut = true ∨ g'.refused = true)
        else g'.due = g.due - 1 := by
  have hlink := hp.2
  refine Meets.mono (Meets.grows (Q := fun g' r => g'.credit = g.credit
    ∧ g'.rejected = g.rejected ∧ (0 ≤ r ∨ p.proto ≠ .tcp → g'.lost = g.lost)
    ∧ if r < 0 then g'.due = g.due ∧ (g'.shut = true ∨ g'.refused = true)
      else g'.due = g.due - 1) ?_) fun g' r hq => hq
  simp only [asioTransfer, pure_eq, meets_ite, meets_done, meets_bind, meets_perform, meets_void,
    objdefrHld, ncbHld]
  refine ⟨trivial,
    fun ncb _ => ⟨fun hneg => ?_, fun hpos => ⟨fun _ => ⟨ho, hk, hproto, he⟩, fun r _ =>
    ⟨trivial, fun _ _ => ⟨trivial, fun _ _ => ?_⟩⟩⟩⟩⟩
  · simp [RecvRecord.after, hlink, ho, hneg]
  · by_cases hr : r < 0
    · simp [RecvRecord.after, hp, hr, not_le.mpr hr]
      exact fun hne heq => absurd heq hne
    · simp [RecvRecord.after, hp, hr, not_lt.mp hr]

/-- The parsing loop reads the template only while the bytes are of the completion at hand; a
template that rejects them is on record. Induction on the turns. -/
theorem tcpPraseLogicPacket_receives {turns : Nat} (hd : g.data = true) :
    Meets h (tcpPraseLogicPacket h turns) g fun g' r =>
      g.Idles g' ∧ (g.rejected = false → 0 ≤ r → g'.rejected = false) := by
  induction turns generalizing g with
  | zero =>
      simp only [tcpPraseLogicPacket, meets_bind, meets_void]
      exact ⟨trivial, fun a _ => ⟨RecvRecord.quiet_after trivial, fun hr _ => hr⟩⟩
  | succ turns ih =>
      simp only [tcpPraseLogicPacket, meets_bind, meets_perform, meets_ite, meets_void, pure_eq,
        meets_done]
      have hread : ∀ a, g.Idles (g.after h (.ncb h (.read .tcpTst)) a) :=
        fun a => RecvRecord.quiet_after trivial
      refine ⟨trivial, fun found _ => ⟨fun hneg => ⟨hread found, fun _ h => by omega⟩, fun hpos =>
        ⟨fun hzero => ⟨hread found, fun hr _ => by simp [RecvRecord.after, hr, hpos]⟩, fun _ =>
          ⟨fun _ => hd, fun a _ => ?_⟩⟩⟩⟩
      refine (ih (g := (g.after h (.ncb h (.read .tcpTst)) found).after h
        (.emit (.receiveData h)) a)
        hd).mono ?_
      rintro g' r ⟨hidles, hrej⟩
      refine ⟨((hread found).trans ⟨RecvRecord.grows_after h _ _ _, rfl, rfl, rfl, rfl⟩).trans
        hidles, fun hr => hrej ?_⟩
      simp [RecvRecord.after, hr, hpos]

/-- So does the parsing as a whole, with the step on a pending block before it. -/
theorem tcpParse_receives {turns : Nat} (hd : g.data = true) (hm : g.marked = false) :
    Meets h (tcpParse h turns) g fun g' r =>
      g.Idles g' ∧ (g.rejected = false → 0 ≤ r → g'.rejected = false) := by
  have hread : ∀ g : RecvRecord, ∀ a, g.Idles (g.after h (.ncb h (.read .largeBlock)) a) :=
    fun g a => RecvRecord.quiet_after trivial
  simp only [tcpParse, tcpLbAssemble, meets_bind, meets_perform, meets_ite, meets_void, pure_eq,
    meets_done]
  refine ⟨trivial, fun marked _ => ⟨fun _ => ⟨trivial, fun filled _ => ⟨fun hneg => ?_, fun hpos =>
    ⟨fun hzero => ?_, fun _ => ⟨fun _ => hd, fun a _ => ⟨trivial, fun b _ => ?_⟩⟩⟩⟩⟩, fun _ => ?_⟩⟩
  · refine ⟨fun _ => ⟨(hread g marked).trans (hread _ filled), by simp⟩,
      fun h => absurd h (by decide)⟩
  · refine ⟨fun _ => ⟨(hread g marked).trans (hread _ filled), fun hr _ => ?_⟩,
      fun h => absurd h (by decide)⟩
    simp [RecvRecord.after, hr, hm, hzero]
  · have hidles : g.Idles ((((g.after h (.ncb h (.read .largeBlock)) marked).after h
        (.ncb h (.read .largeBlock)) filled).after h (.emit (.receiveData h)) a).after h
          (.ncb h (.write .largeBlock)) b) :=
      (((hread g marked).trans (hread _ filled)).trans
        ⟨RecvRecord.grows_after h _ _ _, rfl, rfl, rfl, rfl⟩).trans (RecvRecord.quiet_after trivial)
    have hrej : g.rejected = false → ((((g.after h (.ncb h (.read .largeBlock)) marked).after h
        (.ncb h (.read .largeBlock)) filled).after h (.emit (.receiveData h)) a).after h
          (.ncb h (.write .largeBlock)) b).rejected = false := by
      intro hr
      simp [RecvRecord.after, hr, hm, hpos]
    refine ⟨fun _ => ⟨hidles, fun hr _ => hrej hr⟩, fun _ => ?_⟩
    refine (tcpPraseLogicPacket_receives (hidles.data.trans hd)).mono ?_
    rintro g' r ⟨hidles', hrej'⟩
    exact ⟨hidles.trans hidles', fun hr => hrej' (hrej hr)⟩
  · refine (tcpPraseLogicPacket_receives (g := g.after h (.ncb h (.read .largeBlock)) marked)
      hd).mono ?_
    rintro g' r ⟨hidles, hrej⟩
    refine ⟨(hread g marked).trans hidles, fun hr => hrej ?_⟩
    simp [RecvRecord.after, hr, hm]

/-- The link of a packet that is shut down is closed. -/
theorem tcpShutdownByPacket_receives {p : IoPacket} (hl : p.link = h)
    (htype : p.type = .recv ∨ p.type = .send ∨ p.type = .connect) (ho : g.owns = true) :
    Meets h (tcpShutdownByPacket p) g fun g' _ => g.Idles g' ∧ g'.shut = true := by
  have hshut : Meets h (do void (.objclos p.link); void (.freepkt p.packet)) g
      fun g' _ => g.Idles g' ∧ g'.shut = true := by
    simp only [meets_bind, meets_void]
    refine ⟨trivial, fun a _ => ⟨trivial, fun b _ => ⟨?_, ?_⟩⟩⟩
    · exact (RecvRecord.quiet_after (c := .objclos p.link) trivial).trans
        (RecvRecord.quiet_after (c := .freepkt p.packet) trivial)
    · simp [RecvRecord.after, hl, ho]
  rcases htype with hr | hs | hc
  · simpa only [tcpShutdownByPacket, hr] using hshut
  · simpa only [tcpShutdownByPacket, hs] using hshut
  · simpa only [tcpShutdownByPacket, hc] using hshut

/-- The dispatch of a completed TCP receive posts it again, or closes the link. -/
theorem tcpDispatchIoRecv_receives {p : IoPacket} {transfer : Int} {turns : Nat} (hh : 0 ≤ h)
    (hp : p.Receives h) (htcp : p.proto = .tcp) (ho : g.owns = true) (hhd : g.handles = true)
    (hd : g.data = true) (hk : g.kind = some .tcp) (hdue : g.due = 1) (hlost : g.lost = false)
    (hrej : g.rejected = false) : Meets h (tcpDispatchIoRecv p transfer turns) g fun g' _ =>
      g'.shut = true ∨ g'.due = 0 ∧ g'.lost = false ∧ g'.rejected = false := by
  obtain ⟨hrecv, rfl⟩ := hp
  refine meets_ite.mpr ⟨fun _ => ?_, fun _ => meets_bind.mpr ?_⟩
  · refine (tcpShutdownByPacket_receives rfl (.inl hrecv) ho).mono ?_
    exact fun g' _ hq => .inl hq.2
  refine (protoRefr_receives hh ho (.inl rfl)).mono ?_
  rintro g₁ r₁ ⟨hidles₁, hrej₁, hgranted, hrefused⟩
  refine meets_ite.mpr ⟨fun hneg => ?_, fun hpos => meets_bind.mpr ?_⟩
  · rw [meets_void]
    exact ⟨trivial, fun a _ => .inl (hrefused hneg hk)⟩
  obtain ⟨hk₁, hm₁⟩ := hgranted (by omega)
  refine (tcpParse_receives (hidles₁.data.trans hd) hm₁).mono ?_
  rintro g₂ r₂ ⟨hidles₂, hrej₂⟩
  have hidles := hidles₁.trans hidles₂
  have hclose : ∀ g₃ : RecvRecord, g₃.owns = true →
      Meets p.link (do objclosHld p.link; void (.freepkt p.packet); objdefrHld p.link) g₃
        fun g' _ => g'.shut = true ∨ g'.due = 0 ∧ g'.lost = false ∧ g'.rejected = false := by
    intro g₃ ho₃
    simp [RecvRecord.after, RecvRecord.Need, ho₃]
  dsimp only
  refine meets_ite.mpr ⟨fun hr₂ => meets_bind.mpr ?_, fun hr₂ => ?_⟩
  · refine (asioTransfer_receives ⟨hrecv, rfl⟩ (hidles.owns ho)
      (by rw [htcp]; exact hidles₂.kind _ hk₁)
      (.inl htcp) (.inl (hidles.handles.trans hhd))).mono ?_
    rintro g₃ r₃ ⟨hgr₃, -, hrej₃, hlost₃, hr₃⟩
    refine meets_ite.mpr ⟨fun _ => hclose g₃ (hgr₃.owns (hidles.owns ho)), fun hpos₃ => ?_⟩
    have hpos₃' : 0 ≤ r₃ := by omega
    rw [if_neg hpos₃, hidles.due, hdue] at hr₃
    have hrej₃' : g₃.rejected = false := by rw [hrej₃, hrej₂ (by rw [hrej₁, hrej]) hr₂]
    have hlost₃' : g₃.lost = false := by rw [hlost₃ (.inl hpos₃'), hidles.lost_eq, hlost]
    simp [RecvRecord.after, RecvRecord.Need, hr₃, hrej₃', hlost₃']
  · simp only [pure_eq, done_bind]
    rw [if_pos (by omega)]
    exact hclose g₂ (hidles.owns ho)

/-- What a job that establishes link `h` leaves: the link is closed, or the receive posted goes with
its announcement, and none was lost. -/
def RecvRecord.Settles (g g' : RecvRecord) : Prop :=
  g'.shut = true ∨ g'.due = g.due ∧ g'.lost = g.lost

/-- `tcp_dispatch_io_connected` closes a link it could not get a receive for. -/
theorem connectedFailed_receives (ho : g.owns = true) :
    Meets h (connectedFailed h) g fun g' _ => g.Idles g' ∧ g'.shut = true := by
  simp only [connectedFailed, objdefrHld, objclosHld, ncbHld, meets_bind, meets_void]
  refine ⟨trivial,
    fun a _ => ⟨trivial, fun b _ => ⟨trivial, fun c _ => ⟨trivial, fun d _ => ⟨?_, ?_⟩⟩⟩⟩⟩
  · exact (((RecvRecord.quiet_after (c := .ncb h (.read .hld)) trivial).trans
      (RecvRecord.quiet_after (c := .objdefr h) trivial)).trans
      (RecvRecord.quiet_after (c := .ncb h (.read .hld)) trivial)).trans
      (RecvRecord.quiet_after (c := .objclos h) trivial)
  · simp [RecvRecord.after, ho]

/-- A job is about to announce link `h`. -/
structure RecvRecord.Establishes (h : Int) (g : RecvRecord) : Prop where
  owns : g.owns = true
  kind : g.kind = some .tcp
  link : g.link = some h
  credit : 1 ≤ g.credit
  standing : g.handles = true ∨ g.due = 0

theorem RecvRecord.Establishes.entitled (hg : g.Establishes h) : g.Entitled h .tcp := by
  have hcredit := hg.credit
  rcases hg.standing with hh | hdue
  · exact .inl hh
  · exact .inr (.inr ⟨rfl, hg.link, by omega⟩)

/-- When the receive is posted, the link may be announced. -/
theorem RecvRecord.Establishes.posted {g' : RecvRecord} (hg : g.Establishes h)
    (hh : g'.handles = g.handles) (hdue : g'.due = g.due - 1) : g'.handles = true ∨ g'.due < 0 := by
  rcases hg.standing with hs | hs
  · exact .inl (hh.trans hs)
  · exact .inr (by omega)

theorem RecvRecord.Establishes.idles {g' : RecvRecord} (hg : g.Establishes h) (hi : g.Idles g') :
    g'.Establishes h where
  owns := hi.owns hg.owns
  kind := hi.kind _ hg.kind
  link := hi.link.trans hg.link
  credit := hi.credit.symm ▸ hg.credit
  standing := hg.standing.imp hi.handles.trans hi.due.trans

/-- The packet of the receive is allocated first; nothing is counted for that. -/
theorem packet_after (l : Int) (proto : ProtoType) (type : PktType) {k : Int} (hk : 0 ≤ k) :
    g.Idles (g.after h (.allocatePacket l proto type) k) := by
  refine ⟨RecvRecord.grows_after h g _ _, rfl, rfl, ?_, rfl⟩
  simp only [RecvRecord.after]
  grind

/-- **A connect that completed** settles the link: its first receive is posted and it is announced,
or it is closed. -/
theorem tcpConnected_receives (hg : g.Establishes h) :
    Meets h (tcpConnected h) g fun g' _ => g.Settles g' := by
  -- from the request of the packet on; the calls before it only read
  have hrest : ∀ g₁ : RecvRecord, g.Idles g₁ → Meets h (do
      ncbHld h
      let packet ← perform (.allocatePacket h .tcp .recv)
      if packet < 0 then do
        nisCallEcr h
        connectedFailed h
      else do
        let retval ← asioTcpRecv (.plain packet .tcp .recv h)
        if retval < 0 then do
          nisCallEcr h
          tcpShutdownByPacket (.plain packet .tcp .recv h)
          connectedFailed h
        else do
          void (.emit (.connected h))
          nisCallEcr h
          objdefrHld h : CallProg Unit) g₁ fun g' _ => g.Settles g' := by
    intro g₁ hi₁
    refine meets_bind.mpr (meets_void.mpr ⟨trivial, fun a _ => ?_⟩)
    have hi₂ :=
      hi₁.trans (RecvRecord.quiet_after (h := h) (c := .ncb h (.read .hld)) (a := a) trivial)
    refine meets_bind.mpr
      (meets_perform.mpr ⟨fun _ => .inr (hi₂.link.trans hg.link), fun k _ => ?_⟩)
    refine meets_ite.mpr ⟨fun _ => ?_, fun hpos => ?_⟩
    -- no memory for the packet: the link is shut, and nothing is due
    · refine meets_bind.mpr (meets_void.mpr ⟨trivial, fun b _ => ?_⟩)
      refine (connectedFailed_receives ?_).mono fun g' _ hq => .inl hq.2
      exact (RecvRecord.grows_after h _ _ _).owns ((RecvRecord.grows_after h _ _ _).owns
        (hi₂.owns hg.owns))
    have hi₃ := hi₂.trans (packet_after (h := h) h .tcp .recv (not_lt.mp hpos))
    have hg₃ := hg.idles hi₃
    refine meets_bind.mpr ((asioTransfer_receives (p := .plain k .tcp .recv h) ⟨rfl, rfl⟩ hg₃.owns
      hg₃.kind (.inl rfl) hg₃.entitled).mono ?_)
    rintro g₄ r ⟨hgr₄, hcredit₄, -, hlost₄, hr⟩
    have ho₄ := hgr₄.owns hg₃.owns
    refine meets_ite.mpr ⟨fun hneg => ?_, fun hpos₄ => ?_⟩
    -- nor when the receive was not taken
    · refine meets_bind.mpr (meets_void.mpr ⟨trivial, fun b _ => ?_⟩)
      refine meets_bind.mpr ((tcpShutdownByPacket_receives (h := h)
        (p := .plain k .tcp .recv h) rfl (.inl rfl)
          ((RecvRecord.grows_after h _ _ _).owns ho₄)).mono ?_)
      rintro g₅ - ⟨hi₅, -⟩
      exact (connectedFailed_receives (hi₅.owns ((RecvRecord.grows_after h _ _ _).owns ho₄))).mono
        fun g' _ hq => .inl hq.2
    -- it was: the one receive stands for the announcement that follows
    · rw [if_neg hpos₄] at hr
      have hstanding := hg₃.posted hgr₄.handles hr
      rw [hi₃.due] at hr
      have hcredit : 1 ≤ g₄.credit := hcredit₄.symm ▸ hg₃.credit
      have hlink : g₄.link = some h := hgr₄.link.trans hg₃.link
      have hlost : g₄.lost = g.lost := (hlost₄ (.inl (not_lt.mp hpos₄))).trans hi₃.lost_eq
      have hless : g₄.handles = true ∨ g.due < 1 := hstanding.imp_right fun hneg => by omega
      simp [RecvRecord.after, RecvRecord.Need, RecvRecord.Settles, hr, hcredit, hlink, hlost,
        hgr₄.kind _ hg₃.kind, hless]
  refine meets_bind.mpr ((Meets.of_quiet updateLocalAddr_quiet).mono fun g₁ _ hi₁ => ?_)
  refine meets_bind.mpr (meets_perform.mpr ⟨trivial, fun updated _ => ?_⟩)
  have hi₂ := hi₁.trans (RecvRecord.quiet_after (h := h) (c := .ncb h (.sock .setsockopt))
    (a := updated) trivial)
  dsimp only
  refine meets_ite.mpr ⟨fun _ => ?_, fun _ => hrest _ hi₂⟩
  refine meets_bind.mpr (meets_void.mpr ⟨trivial, fun b _ => hrest _ (hi₂.trans ?_)⟩)
  exact ⟨RecvRecord.grows_after h _ _ _, rfl, rfl, rfl, rfl⟩

/-- `tcp_connect` announces the link when its receive is posted. -/
theorem tcpConnectDone_receives {addr : SockaddrIn} (hg : g.Establishes h) :
    Meets h (tcpConnectDone h addr) g fun g' _ => g'.due = g.due := by
  refine meets_bind.mpr ((Meets.of_quiet updateLocalAddr_quiet).mono fun g₁ _ hi₁ => ?_)
  refine meets_bind.mpr (meets_void.mpr ⟨trivial, fun a _ => ?_⟩)
  have hi₂ :=
    hi₁.trans (RecvRecord.quiet_after (h := h) (c := .ncb h (.read .hld)) (a := a) trivial)
  refine meets_bind.mpr (meets_perform.mpr ⟨fun _ => .inr (hi₂.link.trans hg.link), fun k _ => ?_⟩)
  refine meets_ite.mpr ⟨fun _ => hi₂.due, fun hpos => ?_⟩
  have hi₃ := hi₂.trans (packet_after (h := h) h .tcp .recv (not_lt.mp hpos))
  have hg₃ := hg.idles hi₃
  refine meets_bind.mpr ((asioTransfer_receives (p := .plain k .tcp .recv h) ⟨rfl, rfl⟩ hg₃.owns
    hg₃.kind (.inl rfl) hg₃.entitled).mono ?_)
  rintro g₄ r ⟨hgr₄, hcredit₄, -, -, hr⟩
  refine meets_ite.mpr ⟨fun hneg => ?_, fun hpos₄ => ?_⟩
  · rw [if_pos hneg, hi₃.due] at hr
    simp [RecvRecord.after, RecvRecord.Need, hr.1]
  · rw [if_neg hpos₄] at hr
    have hstanding := hg₃.posted hgr₄.handles hr
    rw [hi₃.due] at hr
    have hcredit : 1 ≤ g₄.credit := hcredit₄.symm ▸ hg₃.credit
    have hlink : g₄.link = some h := hgr₄.link.trans hg₃.link
    have hless : g₄.handles = true ∨ g.due < 1 := hstanding.imp_right fun hneg => by omega
    simp [RecvRecord.after, RecvRecord.Need, hr, hcredit, hlink, hgr₄.kind _ hg₃.kind, hless]

/-- **`tcp_connect`** posts the first receive of the link, and takes it up by announcing the link,
or the record has that it was lost. -/
theorem tcpConnect_receives {rIpstr : Bool} {addr : SockaddrIn} (hh : 0 ≤ h) (ho : g.owns = true)
    (hl : g.link = some h) (hc : 0 ≤ g.credit) (hdue : g.due = 0) :
    Meets h (tcpConnect h rIpstr addr) g fun g' _ => g'.due = g.due := by
  refine meets_ite.mpr ⟨fun _ => rfl, fun _ => meets_bind.mpr ?_⟩
  refine (protoRefr_receives hh ho (.inl rfl)).mono ?_
  rintro g₁ r₁ ⟨hi₁, -, hgranted, -⟩
  refine meets_ite.mpr ⟨fun _ => hi₁.due, fun hpos => ?_⟩
  obtain ⟨hk₁, -⟩ := hgranted (not_lt.mp hpos)
  refine meets_bind.mpr (meets_perform.mpr ⟨trivial, fun parsed _ => ?_⟩)
  refine meets_ite.mpr ⟨fun _ => ?_, fun _ => ?_⟩
  · simp [RecvRecord.after, RecvRecord.Need, hi₁.due]
  refine meets_bind.mpr (meets_perform.mpr ⟨fun _ => hi₁.owns ho, fun connected _ => ?_⟩)
  refine meets_ite.mpr ⟨fun _ => ?_, fun hconn => meets_bind.mpr ?_⟩
  · simp [RecvRecord.after, RecvRecord.Need, hi₁.due]
  refine (tcpConnectDone_receives ?_).mono ?_
  · refine ⟨hi₁.owns ho, ?_, hi₁.link.trans hl, ?_, .inr (hi₁.due.trans hdue)⟩
    · simpa [RecvRecord.after] using hk₁
    · have hcredit := hi₁.credit
      simp [RecvRecord.after, not_lt.mp hconn]
      omega
  · intro g₂ r₂ hdue
    have hsame : g₂.due = g.due := hdue.trans hi₁.due
    simp [RecvRecord.after, RecvRecord.Need, hsame]

/-! Accepting on link `h`. -/

/-- `tcp_syn_copy` announces an accepted link before it has a receive: one is due from then on. -/
theorem tcpSynCopyKnown_receives {l : Int} {irp : AcceptAddrs} (hk : g.kind = some .tcp)
    (hc : 1 ≤ g.credit) (hhd : g.handles = true) : Meets h (tcpSynCopyKnown l h irp) g fun g' r =>
      g'.lost = g.lost ∧
      if r < 0 then g'.due = g.due else g'.due = g.due + 1 := by
  simp [tcpSynCopyKnown, RecvRecord.after, RecvRecord.Need, RecvRecord.Ok, hk, hc, hhd]

theorem tcpSynCopy_receives {l : Int} {irp : AcceptAddrs} (hk : g.kind = some .tcp)
    (hc : 1 ≤ g.credit) (hhd : g.handles = true) : Meets h (tcpSynCopy l h irp) g fun g' r =>
      g.Grows g' ∧ g'.lost = g.lost ∧
      if r < 0 then g'.due = g.due else g'.due = g.due + 1 := by
  refine Meets.grows ?_
  simp only [tcpSynCopy, meets_bind, meets_perform, meets_ite, meets_void, pure_eq, meets_done,
    nisCallEcr, ncbHld]
  refine ⟨trivial,
    fun known _ => ⟨fun _ => ⟨trivial, fun status _ => ⟨fun hneg => ?_, fun _ => ?_⟩⟩,
    fun _ => ?_⟩⟩
  · simp [RecvRecord.after, RecvRecord.Need]
  · exact tcpSynCopyKnown_receives (by simpa [RecvRecord.after] using hk) hc hhd
  · exact tcpSynCopyKnown_receives hk hc hhd

/-- An accepted link gets its receive after its announcement, or is closed. -/
theorem takeAccepted_receives {l : Int} {irp : AcceptAddrs} (ho : g.owns = true)
    (hk : g.kind = some .tcp) (hc : 1 ≤ g.credit) (hhd : g.handles = true) :
    Meets h (takeAccepted l h irp) g fun g' _ => g.Settles g' := by
  have hclose : ∀ g₁ : RecvRecord, g₁.owns = true →
      Meets h (do objclosHld h; objdefrHld h) g₁ fun g' _ => g.Settles g' := by
    intro g₁ ho₁
    simp [RecvRecord.after, RecvRecord.Need, RecvRecord.Settles, ho₁]
  refine meets_bind.mpr ((tcpSynCopy_receives hk hc hhd).mono ?_)
  rintro g₁ r₁ ⟨hgr₁, hlost₁, hr₁⟩
  dsimp only
  refine meets_ite.mpr ⟨fun hneg => ?_, fun hpos => meets_bind.mpr ?_⟩
  · simp only [pure_eq, done_bind]
    rw [if_pos hneg]
    exact hclose g₁ (hgr₁.owns ho)
  rw [if_neg hpos] at hr₁
  refine meets_bind.mpr (meets_void.mpr ⟨trivial, fun a _ => ?_⟩)
  have hi₂ := RecvRecord.quiet_after (h := h) (g := g₁) (c := .ncb h (.read .hld)) (a := a) trivial
  have hhd₂ := hi₂.handles.trans (hgr₁.handles.trans hhd)
  refine meets_bind.mpr (meets_perform.mpr ⟨fun _ => .inl hhd₂, fun k _ => ?_⟩)
  refine meets_ite.mpr ⟨fun hneg => ?_, fun hpos₂ => ?_⟩
  · rw [pure_eq, meets_done, if_pos (by decide)]
    exact hclose _ ((RecvRecord.grows_after h _ _ _).owns (hi₂.owns (hgr₁.owns ho)))
  have hi₃ := hi₂.trans (packet_after (h := h) h .tcp .recv (not_lt.mp hpos₂))
  refine (asioTransfer_receives (p := .plain k .tcp .recv h) ⟨rfl, rfl⟩ (hi₃.owns (hgr₁.owns ho))
    (hi₃.kind _ (hgr₁.kind _ hk)) (.inl rfl)
    (.inl (hi₃.handles.trans (hgr₁.handles.trans hhd)))).mono ?_
  rintro g₄ r₄ ⟨hgr₄, -, -, hlost₄, hr₄⟩
  refine meets_ite.mpr ⟨fun _ => hclose g₄ (hgr₄.owns (hi₃.owns (hgr₁.owns ho))), fun hpos₄ => ?_⟩
  rw [if_neg hpos₄, hi₃.due, hr₁] at hr₄
  have hlost : g₄.lost = g.lost :=
    (hlost₄ (.inl (not_lt.mp hpos₄))).trans (hi₃.lost_eq.trans hlost₁)
  simp [RecvRecord.after, RecvRecord.Need, RecvRecord.Settles, hr₄, hlost]

/-- What follows the block on the accepted link leaves its receive alone. -/
theorem tcpSynNext_quiet {l : Int} : (do
    let retval ← tcpSyn l
    if retval < 0 then objclosHld l
    objdefrHld l : CallProg Unit).Uses Call.Quiet := by
  refine Uses.bind tcpSyn_quiet fun _ => ?_
  simp

/-- **An accept that completed** settles the accepted link, whatever becomes of the listener. -/
theorem tcpDispatchIoSyn_receives {p : IoPacket} {irp : AcceptAddrs} (hh : 0 ≤ h)
    (hp : p.acceptedLink = h) (ho : g.owns = true) (hk : g.kind = some .tcp) (hc : 1 ≤ g.credit)
    (hhd : g.handles = true) : Meets h (tcpDispatchIoSyn p irp) g fun g' _ => g.Settles g' := by
  subst hp
  refine meets_bind.mpr ((Meets.of_quiet protoRefr_quiet).mono fun g₁ r₁ hi₁ => ?_)
  refine meets_ite.mpr ⟨fun _ => .inr ⟨hi₁.due, hi₁.lost_eq⟩, fun _ => meets_bind.mpr ?_⟩
  refine (protoRefr_receives hh (hi₁.owns ho) (.inl rfl)).mono ?_
  rintro g₂ r₂ ⟨hi₂, -⟩
  have hi := hi₁.trans hi₂
  dsimp only
  refine meets_ite.mpr ⟨fun _ => meets_bind.mpr ?_, fun _ => ?_⟩
  · refine (takeAccepted_receives (hi.owns ho) (hi.kind _ hk) (hi.credit.symm ▸ hc)
      (hi.handles.trans hhd)).mono ?_
    intro g₃ _ hsettles
    refine (Meets.of_quiet tcpSynNext_quiet).mono fun g₄ _ hi₄ => ?_
    rcases hsettles with hshut | ⟨hdue, hlost⟩
    · exact .inl (hi₄.shut hshut)
    · exact .inr ⟨hi₄.due.trans (hdue.trans hi.due), hi₄.lost_eq.trans (hlost.trans hi.lost_eq)⟩
  · refine (Meets.of_quiet tcpSynNext_quiet).mono fun g₄ _ hi₄ => ?_
    exact .inr ⟨hi₄.due.trans hi.due, hi₄.lost_eq.trans hi.lost_eq⟩

/-- The dispatch of an accept completion leaves the receive of every other link alone. -/
theorem tcpDispatchIoSyn_besides {p : IoPacket} {irp : AcceptAddrs} (hp : p.acceptedLink ≠ h) :
    (tcpDispatchIoSyn p irp).Uses (Call.Besides h) := by
  have hquiet : ∀ {α : Type} {q : CallProg α}, q.Uses Call.Quiet → q.Uses (Call.Besides h) :=
    fun hq => hq.mono fun _ hc => hc.besides h
  have hcopy : (tcpSynCopy p.link p.acceptedLink irp).Uses (Call.Besides h) := by
    simp [tcpSynCopy, tcpSynCopyKnown, hp]
  have hrecv : (firstRecv p.acceptedLink).Uses (Call.Besides h) := by
    simp [firstRecv, asioTcpRecv, asioTransfer, IoPacket.Receives, hp]
  have hnext := hquiet (tcpSynNext_quiet (l := p.link))
  refine Uses.bind (hquiet protoRefr_quiet) fun _ => ?_
  refine uses_ite.mpr ⟨fun _ => uses_done, fun _ => ?_⟩
  refine Uses.bind (hquiet protoRefr_quiet) fun _ => ?_
  dsimp only
  refine uses_ite.mpr ⟨fun _ => Uses.bind ?_ fun _ => hnext, fun _ => hnext⟩
  refine Uses.bind hcopy fun _ => ?_
  dsimp only
  refine uses_ite.mpr ⟨fun _ => by simp, fun _ => Uses.bind hrecv fun _ => by simp⟩

/-! UDP links. -/

/-- The receive of a UDP link is posted again, the link is closed, or the system refused it. -/
theorem udpDispatchIoEvent_receives {p : IoPacket} {status : NtStatus} {transfer : Int} (hh : 0 ≤ h)
    (hp : p.Receives h) (hudp : p.proto = .udp) (ho : g.owns = true) (hhd : g.handles = true)
    (hd : g.data = true) (hk : g.kind = some .udp) (hdue : g.due = 1) :
    Meets h (udpDispatchIoEvent p status transfer) g fun g' _ =>
      g'.shut = true ∨ g'.due = 0 ∨ g'.refused = true := by
  obtain ⟨hrecv, rfl⟩ := hp
  -- the end of both handlers
  have hpost : ∀ g₁ : RecvRecord, g.Idles g₁ → Meets p.link (do
      let _ ← asioUdpRecv p
      objdefrHld p.link) g₁ fun g' _ => g'.shut = true ∨ g'.due = 0 ∨ g'.refused = true := by
    intro g₁ hi₁
    refine meets_bind.mpr ((asioTransfer_receives ⟨hrecv, rfl⟩ (hi₁.owns ho)
      (by rw [hudp]; exact hi₁.kind _ hk) (.inr hudp) (.inl (hi₁.handles.trans hhd))).mono ?_)
    rintro g₂ r ⟨-, -, -, -, hr⟩
    rw [hi₁.due, hdue] at hr
    split at hr
    · rcases hr.2 with hshut | hrefused
      · simp [RecvRecord.after, RecvRecord.Need, hshut]
      · simp [RecvRecord.after, RecvRecord.Need, hrefused]
    · simp [RecvRecord.after, RecvRecord.Need, hr]
  have hclose : ∀ g₁ : RecvRecord, g₁.owns = true → Meets p.link (udpShutdownByPacket p) g₁
      fun g' _ => g'.shut = true := by
    intro g₁ ho₁
    simp [udpShutdownByPacket, RecvRecord.after, RecvRecord.Need, ho₁]
  refine meets_ite.mpr ⟨fun _ => meets_ite.mpr ⟨fun _ => ?_, fun _ => ?_⟩, fun _ => ?_⟩
  · exact (hclose g ho).mono fun g' _ h => .inl h
  · simp only [hrecv]
    refine meets_bind.mpr ((protoRefr_receives hh ho (.inr rfl)).mono ?_)
    rintro g₁ r₁ ⟨hi₁, -, -, hrefused⟩
    refine meets_ite.mpr ⟨fun hneg => .inl (hrefused hneg hk), fun _ => ?_⟩
    refine meets_bind.mpr (meets_void.mpr ⟨fun _ => hi₁.data.trans hd, fun a _ => ?_⟩)
    exact hpost _ (hi₁.trans ⟨RecvRecord.grows_after _ _ _ _, rfl, rfl, rfl, rfl⟩)
  · refine meets_bind.mpr ((protoRefr_receives hh ho (.inr rfl)).mono ?_)
    rintro g₁ r₁ ⟨hi₁, -, -, hrefused⟩
    refine meets_ite.mpr ⟨fun hneg => .inl (hrefused hneg hk), fun _ => ?_⟩
    dsimp only
    refine meets_ite.mpr ⟨fun _ => hpost g₁ hi₁, fun _ => meets_bind.mpr ?_⟩
    refine (hclose g₁ (hi₁.owns ho)).mono fun g₂ _ hshut => ?_
    simp [RecvRecord.after, RecvRecord.Need, hshut]

/-! Making link `h`. -/

/-- An object that is allocated as link `h`, and returned, is known to have been. -/
theorem allocated_receives {proto : ProtoType} {remote : Bool} {entry : Int → CallProg Int}
    (hh : 0 ≤ h) (hentry : ∀ k, (entry k).Uses Call.Quiet) : Meets h (do
      let k ← perform (.objallo proto remote)
      if k < 0 then return -1
      else do
        let ncb ← perform (.objrefr k)
        let retval ← if ncb < 0 then pure (-1) else entry k
        void (.objdefr k)
        if retval < 0 then do
          void (.objclos k)
          return -1
        else return k) g fun g' r => g.Idles g'
          ∧ (r = h → g'.made = true ∧ g'.owns = true ∧ (g.kind = none → g'.kind = some proto)) := by
  refine meets_bind.mpr (meets_perform.mpr ⟨trivial, fun k _ => ?_⟩)
  have hi : g.Idles (g.after h (.objallo proto remote) k) := RecvRecord.quiet_after trivial
  refine meets_ite.mpr ⟨fun _ => ⟨hi, fun hr => by omega⟩, fun _ => ?_⟩
  -- what the job has allocated is its own, and of the kind it asked for
  have hmade : k = h → (g.after h (.objallo proto remote) k).made = true
      ∧ (g.after h (.objallo proto remote) k).owns = true
      ∧ (g.kind = none → (g.after h (.objallo proto remote) k).kind = some proto) := by
    rintro rfl
    refine ⟨by simp [RecvRecord.after], by simp [RecvRecord.after], fun hk => ?_⟩
    simp [RecvRecord.after, hk]
  -- the link is returned, or closed after a failure
  have hend : ∀ (g₁ : RecvRecord) (retval : Int), (g.after h (.objallo proto remote) k).Idles g₁ →
      Meets h (do
        void (.objdefr k)
        if retval < 0 then do
          void (.objclos k)
          return -1
        else return k : CallProg Int) g₁ fun g' r => g.Idles g'
          ∧ (r = h → g'.made = true ∧ g'.owns = true ∧ (g.kind = none → g'.kind = some proto)) := by
    intro g₁ retval hi₁
    refine meets_bind.mpr (meets_void.mpr ⟨trivial, fun a _ => ?_⟩)
    have hi₂ := hi₁.trans (RecvRecord.quiet_after (h := h) (c := .objdefr k) (a := a) trivial)
    refine meets_ite.mpr ⟨fun _ => ?_, fun _ => ⟨hi.trans hi₂, fun hr => ?_⟩⟩
    · refine meets_bind.mpr (meets_void.mpr ⟨trivial, fun b _ => ⟨?_, fun hr => by omega⟩⟩)
      exact (hi.trans hi₂).trans (RecvRecord.quiet_after trivial)
    · obtain ⟨hm, ho, hk⟩ := hmade hr
      exact ⟨hi₂.made hm, hi₂.owns ho, fun hnone => hi₂.kind _ (hk hnone)⟩
  refine meets_bind.mpr (meets_perform.mpr ⟨trivial, fun ncb _ => ?_⟩)
  have hi₁ := RecvRecord.quiet_after (h := h) (g := g.after h (.objallo proto remote) k)
    (c := .objrefr k) (a := ncb) trivial
  dsimp only
  refine meets_ite.mpr ⟨fun _ => hend _ _ hi₁, fun _ => meets_bind.mpr ?_⟩
  exact (Meets.of_quiet (hentry k)).mono fun g₂ r hi₂ => hend g₂ r (hi₁.trans hi₂)

/-- A link that `tcp_create` returns was made by it. -/
theorem tcpCreate_receives {userCallback lIpstr : Bool} (hh : 0 ≤ h) :
    Meets h (tcpCreate userCallback lIpstr) g fun g' r =>
      g.Idles g' ∧ (r = h → g'.made = true) := by
  have hallocate : ∀ g₁ : RecvRecord, g.Idles g₁ → Meets h (tcpAllocateObject false) g₁
      fun g' r => g.Idles g' ∧ (r = h → g'.made = true) := by
    intro g₁ hi₁
    refine (allocated_receives hh fun k => ?_).mono fun g' r hq =>
      ⟨hi₁.trans hq.1, fun hr => (hq.2 hr).1⟩
    simp [tcpEntry, tcpEntrySteps, tcpEntryLocal, tcpUpdateOpts]
  have hfail : (-1 : Int) ≠ h := by omega
  cases userCallback <;> cases lIpstr
  · simpa [tcpCreate, hfail] using RecvRecord.Idles.refl g
  · simpa [tcpCreate, hfail] using RecvRecord.Idles.refl g
  · simpa [tcpCreate] using hallocate g (.refl g)
  · refine meets_bind.mpr (meets_perform.mpr ⟨trivial, fun a _ => ?_⟩)
    have hi := RecvRecord.quiet_after (h := h) (g := g) (c := .other .inetPton) (a := a) trivial
    exact meets_ite.mpr ⟨fun _ => ⟨hi, fun hr => absurd hr hfail⟩, fun _ => hallocate _ hi⟩

/-- A link that `udp_create` returned has its receive posted, unless the system refused it. -/
structure RecvRecord.CreatesUdp (h : Int) (g : RecvRecord) (r : Int) : Prop where
  due : g.due = (if r = h then -1 else 0) ∨ g.shut = true ∨ g.kind = some .udp ∧ g.refused = true
  made : r = h → g.made = true
  lost : g.lost = false

/-- A call of `udp_create` that returns another number has done nothing to `h`. -/
theorem RecvRecord.Idles.createsUdp {g' : RecvRecord} {r : Int} (hi : g.Idles g')
    (hdue : g.due = 0) (hlost : g.lost = false) (hr : r ≠ h) : g'.CreatesUdp h r where
  due := .inl (by rw [if_neg hr, hi.due, hdue])
  made h := absurd h hr
  lost := hi.lost_eq.trans hlost

/-- The first receive of a new link is posted, or the system refuses it. -/
theorem udpCreatePost_receives {l k : Int} (hdue : g.due = 0) (hlost : g.lost = false)
    (hnew : l = h → g.made = true ∧ g.owns = true ∧ g.kind = some .udp) :
    Meets h (do
      let _ ← asioUdpRecv (.plain k .udp .recv l)
      void (.other .free)
      return l : CallProg Int) g fun g' r => g'.CreatesUdp h r := by
  by_cases hl : l = h
  · subst hl
    obtain ⟨hm, ho, hk⟩ := hnew rfl
    refine meets_bind.mpr ((asioTransfer_receives (p := .plain k .udp .recv l) ⟨rfl, rfl⟩
      ho hk (.inr rfl) (.inr (.inl ⟨rfl, hm⟩))).mono ?_)
    rintro g₁ r ⟨hgr, -, -, hlost₁, hr⟩
    refine meets_bind.mpr (meets_void.mpr ⟨trivial, fun a _ => ?_⟩)
    have hi := RecvRecord.quiet_after (h := l) (g := g₁) (c := .other .free) (a := a) trivial
    refine ⟨?_, fun _ => hi.made (hgr.made hm), ?_⟩
    · rw [if_pos rfl, hi.due]
      rw [hdue] at hr
      split at hr
      · rcases hr.2 with hshut | hrefused
        · exact .inr (.inl (hi.shut hshut))
        · exact .inr (.inr ⟨hi.kind _ (hgr.kind _ hk), hi.refused_eq.trans hrefused⟩)
      · exact .inl hr
    · rw [hi.lost_eq, hlost₁ (.inr (by simp [IoPacket.plain])), hlost]
  · refine meets_bind.mpr ((Meets.of_besides ?_).mono fun g₁ r hi₁ => ?_)
    · simp [asioUdpRecv, asioTransfer, IoPacket.Receives, hl]
    refine meets_bind.mpr (meets_void.mpr ⟨trivial, fun a _ => ?_⟩)
    have hi := hi₁.trans (RecvRecord.quiet_after (h := h) (c := .other .free) (a := a) trivial)
    exact hi.createsUdp hdue hlost hl

/-- **`udp_create`** posts one receive for the link it makes; where the system refuses it, that is
on record as lost. -/
theorem udpCreate_receives {userCallback lIpstr anyPort broadcast : Bool} (hh : 0 ≤ h)
    (hk : g.kind = none) (hdue : g.due = 0) (hlost : g.lost = false) :
    Meets h (udpCreate userCallback lIpstr anyPort broadcast) g fun g' r => g'.CreatesUdp h r := by
  have hfail : (-1 : Int) ≠ h := by omega
  have hidle : ∀ {g' : RecvRecord}, g.Idles g' → g'.CreatesUdp h (-1) :=
    fun hi => hi.createsUdp hdue hlost hfail
  have hudp : ∀ {g' : RecvRecord} {l k : Int},
      g'.Idles (g'.after h (.allocatePacket l .udp .recv) k) :=
    fun {g' l k} => ⟨RecvRecord.grows_after h g' _ _, rfl, rfl, rfl, rfl⟩
  have hmake : ∀ g₁ : RecvRecord, g.Idles g₁ → g₁.kind = none → Meets h (do
      let h ← udpAllocateObject anyPort broadcast
      if h < 0 then return -1
      else do
        let array ← perform (.other .malloc)
        let packet ← if array < 0 then pure (-1) else perform (.allocatePacket h .udp .recv)
        if packet < 0 then do
          if 0 ≤ array then void (.other .free)
          void (.objclos h)
          return -1
        else do
          let _ ← asioUdpRecv (.plain packet .udp .recv h)
          void (.other .free)
          return h : CallProg Int) g₁ fun g' r => g'.CreatesUdp h r := by
    intro g₁ hi₁ hk₁
    refine meets_bind.mpr ((allocated_receives hh fun k => ?_).mono ?_)
    · cases anyPort <;> cases broadcast <;> simp [udpEntry, udpEntryOpts, udpUpdateOpts]
    rintro g₂ l ⟨hi₂, hmade⟩
    replace hi₂ := hi₁.trans hi₂
    refine meets_ite.mpr ⟨fun _ => hidle hi₂, fun _ => ?_⟩
    -- where the packet cannot be allocated, nothing is posted
    have hclos : ∀ g₃ : RecvRecord, g.Idles g₃ → Meets h (do
        void (.objclos l)
        return -1 : CallProg Int) g₃ fun g' r => g'.CreatesUdp h r := by
      intro g₃ hi₃
      refine meets_bind.mpr (meets_void.mpr ⟨trivial, fun a _ => hidle (hi₃.trans ?_)⟩)
      exact RecvRecord.quiet_after trivial
    have hclose : ∀ (g₃ : RecvRecord) (array : Int), g.Idles g₃ → Meets h (do
        if 0 ≤ array then void (.other .free)
        void (.objclos l)
        return -1 : CallProg Int) g₃ fun g' r => g'.CreatesUdp h r := by
      intro g₃ array hi₃
      dsimp only
      refine meets_ite.mpr ⟨fun _ => ?_, fun _ => hclos g₃ hi₃⟩
      refine meets_bind.mpr (meets_void.mpr ⟨trivial, fun a _ => hclos _ (hi₃.trans ?_)⟩)
      exact RecvRecord.quiet_after trivial
    refine meets_bind.mpr (meets_perform.mpr ⟨trivial, fun array _ => ?_⟩)
    have hi₃ := RecvRecord.quiet_after (h := h) (g := g₂) (c := .other .malloc) (a := array) trivial
    dsimp only
    refine meets_ite.mpr ⟨fun _ => ?_, fun _ => ?_⟩
    · rw [pure_eq, done_bind, if_pos (by decide)]
      exact hclose _ array (hi₂.trans hi₃)
    refine meets_bind.mpr (meets_perform.mpr ⟨trivial, fun k _ => ?_⟩)
    have hi₄ := hi₃.trans (hudp (l := l) (k := k))
    have hi := hi₂.trans hi₄
    refine meets_ite.mpr ⟨fun _ => hclose _ array hi, fun _ => ?_⟩
    refine udpCreatePost_receives (hi.due.trans hdue) (hi.lost_eq.trans hlost) fun hl => ?_
    obtain ⟨hm, ho, hkind⟩ := hmade hl
    exact ⟨hi₄.made hm, hi₄.owns ho, hi₄.kind _ (hkind hk₁)⟩
  cases userCallback <;> cases lIpstr
  · simpa [udpCreate] using hidle (.refl g)
  · simpa [udpCreate] using hidle (.refl g)
  · simpa [udpCreate] using hmake g (.refl g) hk
  · refine meets_bind.mpr (meets_perform.mpr ⟨trivial, fun a _ => ?_⟩)
    have hi := RecvRecord.quiet_after (h := h) (g := g) (c := .other .inetPton) (a := a) trivial
    refine meets_ite.mpr ⟨fun _ => hidle hi, fun _ => hmake _ hi ?_⟩
    simpa [RecvRecord.after] using hk

/-! ## Every job -/

/-- A job starts with nothing lost. -/
theorem RecvRecord.start_lost (h : Int) (j : Job) : (start h j).lost = false := by
  cases j <;> rfl

/-- A job that handles no completed receive of `h` and settles it ends as it should. -/
theorem RecvRecord.Settles.post {j : Job} {g' : RecvRecord} {r : Int}
    (hs : (RecvRecord.start h j).Settles g') (hdue : (RecvRecord.start h j).due = 0)
    (hmakes : j.Makes = false) (hdata : g'.data = false) : RecvRecord.Post h j g' r where
  due := by
    have hudp : ¬ (j.MakesUdp = true ∧ r = h) := by
      rintro ⟨hudp, -⟩
      rw [Job.makes_of_udp hudp] at hmakes
      cases hmakes
    rw [if_neg hudp]
    rcases hs with hshut | ⟨hd, -⟩
    · exact .inr (.inl hshut)
    · exact .inl (hd.trans hdue)
  made hm := by
    rw [hmakes] at hm
    cases hm
  lost _ _ hlost := by
    rcases hs with hshut | ⟨-, hl⟩
    · exact hshut
    · rw [hl, RecvRecord.start_lost] at hlost
      cases hlost
  rejected hd := by
    rw [hdata] at hd
    cases hd

/-- A job that leaves the receive alone owes nothing at its end. -/
theorem RecvRecord.Idles.post {j : Job} {g' : RecvRecord} {r : Int}
    (hi : (RecvRecord.start h j).Idles g') (hdue : (RecvRecord.start h j).due = 0)
    (hmakes : j.Makes = false) (hdata : (RecvRecord.start h j).data = false) :
    RecvRecord.Post h j g' r :=
  RecvRecord.Settles.post (.inr ⟨hi.due, hi.lost_eq⟩) hdue hmakes (hi.data.trans hdata)

/-- Every exported function, by cases: the three that post receives, those that make links, and all
others. -/
theorem userCall_receives {c : UserCall} (hh : 0 ≤ h) :
    Meets h c.prog (.start h (.user c)) (RecvRecord.Post h (.user c)) := by
  have hquiet : ∀ hdials : (Job.user c).Dials = false, (Job.user c).Makes = false →
      (Job.user c).MakesUdp = false →
      Meets h c.prog (.start h (.user c)) (RecvRecord.Post h (.user c)) :=
    fun hdials hmakes hudp => (Meets.of_quiet (UserCall.prog_quiet hdials hudp)).mono
      fun g' r hi => hi.post rfl hmakes rfl
  cases c with
  -- the calls that make a link or dial; no other has to do with receives
  | tcpCreate userCallback lIpstr =>
      refine (tcpCreate_receives hh).mono ?_
      rintro g' r ⟨hi, hmade⟩
      refine ⟨?_, fun _ => hmade, ?_, ?_⟩
      · rw [if_neg (by simp [Job.MakesUdp])]
        exact .inl hi.due
      · intro _ _ hlost
        rw [hi.lost_eq] at hlost
        cases hlost
      · intro hd
        rw [hi.data] at hd
        cases hd
  | udpCreate userCallback lIpstr anyPort broadcast =>
      refine ((udpCreate_receives hh rfl rfl rfl).grows).mono ?_
      rintro g' r ⟨hgr, hdue, hmade, hlost⟩
      refine ⟨by simpa [Job.MakesUdp] using hdue, fun _ => hmade, ?_, ?_⟩
      · intro _ _ hl
        rw [hlost] at hl
        cases hl
      · intro hd
        rw [hgr.data] at hd
        cases hd
  | tcpConnect l rIpstr addr =>
      have hdue : Meets h (tcpConnect l rIpstr addr) (.start h (.user (.tcpConnect l rIpstr addr)))
          fun g' _ => g'.due = 0 := by
        by_cases hl : l = h
        · subst hl
          exact tcpConnect_receives hh (by simp [RecvRecord.start, UserCall.link]) rfl le_rfl rfl
        · exact (Meets.of_besides (tcpConnect_local.mono fun c hc => hc.besides hl)).mono
            fun g' _ hi => hi.due
      refine hdue.grows.mono ?_
      rintro g' r ⟨hgr, hdue⟩
      refine ⟨.inl ?_, (fun h => by cases h), (fun h => by cases h), fun hd => ?_⟩
      · simpa [Job.MakesUdp] using hdue
      · rw [hgr.data] at hd
        cases hd
  | _ => exact hquiet rfl rfl rfl

/-- The dispatch of a completed receive of `h`. -/
theorem recvCompletion_receives {p : IoPacket} {status : NtStatus} {transfer : Int} {turns : Nat}
    {irp : AcceptAddrs} (hh : 0 ≤ h) (hp : p.Receives h)
    (hproto : p.proto = .tcp ∨ p.proto = .udp) :
    Meets h (soDispatchIoEvent p status transfer turns irp)
      (.start h (.completion p status transfer turns irp))
      fun g' _ => RecvRecord.Post h (.completion p status transfer turns irp) g' 0 := by
  obtain ⟨hrecv, rfl⟩ := hp
  have hstart : RecvRecord.start p.link (.completion p status transfer turns irp)
      = { RecvRecord.blank with
          link := some p.link
          handles := true
          data := true
          owns := true
          kind := some p.proto
          due := 1 } := by
    have hsyn : ¬ p.Accepts p.link :=
      fun h => by simp [IoPacket.Accepts, IoPacket.IsSyn, hrecv] at h
    simp [RecvRecord.start, IoPacket.Receives, IoPacket.Connects, hrecv, hsyn, RecvRecord.blank]
  rw [hstart]
  rcases hproto with htcp | hudp
  · have hpost : ∀ g' : RecvRecord, (g'.shut = true ∨ g'.due = 0 ∧ g'.lost = false
        ∧ g'.rejected = false) → RecvRecord.Post p.link
          (.completion p status transfer turns irp) g' 0 := by
      rintro g' (hshut | ⟨hdue, hlost, hrej⟩)
      · exact ⟨.inr (.inl hshut), (fun h => by cases h), fun _ _ _ => hshut, fun _ _ _ => hshut⟩
      · exact ⟨.inl hdue, (fun h => by cases h), fun _ _ hl => by simp [hlost] at hl,
          fun _ _ hr => by simp [hrej] at hr⟩
    simp only [soDispatchIoEvent, htcp, tcpDispatchIoEvent, hrecv]
    refine meets_ite.mpr ⟨fun _ => ?_, fun _ => meets_bind.mpr ?_⟩
    · exact (tcpDispatchIoRecv_receives hh ⟨hrecv, rfl⟩ htcp rfl rfl rfl rfl rfl rfl rfl).mono
        fun g' _ => hpost g'
    -- a receive that failed closes the link
    refine (protoRefr_receives hh rfl (.inl rfl)).mono ?_
    rintro g₁ r₁ ⟨hi₁, -, -, hrefused⟩
    refine meets_ite.mpr ⟨fun hneg => ?_, fun _ => ?_⟩
    · exact meets_void.mpr ⟨trivial, fun a _ => hpost _ (.inl (hrefused hneg rfl))⟩
    · simp only [hrecv, reduceCtorEq, if_false]
      refine meets_bind.mpr ((tcpShutdownByPacket_receives rfl (.inl hrecv) (hi₁.owns rfl)).mono ?_)
      rintro g₂ - ⟨-, hshut⟩
      refine meets_bind.mpr (meets_void.mpr ⟨trivial, fun a _ => ?_⟩)
      exact meets_void.mpr ⟨trivial, fun b _ => hpost _ (.inl hshut)⟩
  · simp only [soDispatchIoEvent, hudp]
    refine (udpDispatchIoEvent_receives hh ⟨hrecv, rfl⟩ hudp rfl rfl rfl rfl rfl).grows.mono ?_
    rintro g' - ⟨hgr, hdone⟩
    have hkind : g'.kind = some .udp := hgr.kind _ rfl
    refine ⟨?_, (fun h => by cases h), fun _ hne => absurd hkind hne, fun _ htcp => ?_⟩
    · rcases hdone with hshut | hdue | hrefused
      · exact .inr (.inl hshut)
      · exact .inl hdue
      · exact .inr (.inr ⟨hkind, hrefused⟩)
    · rw [hkind] at htcp
      cases htcp

/-- The dispatch of a connect, from the reference on. -/
theorem tcpDispatchIoConnected_receives {p : IoPacket} (hh : 0 ≤ h) (hp : p.link = h)
    (ho : g.owns = true) (hhd : g.handles = true) (hl : g.link = some h) (hc : 1 ≤ g.credit) :
    Meets h (tcpDispatchIoConnected p) g fun g' _ => g.Settles g' := by
  subst hp
  refine meets_bind.mpr ((protoRefr_receives hh ho (.inl rfl)).mono ?_)
  rintro g₁ r₁ ⟨hi₁, -, hgranted, -⟩
  have hfree : ∀ a, g.Idles (g₁.after p.link (.freepkt p.packet) a) :=
    fun a => hi₁.trans (RecvRecord.quiet_after trivial)
  refine meets_ite.mpr ⟨fun _ => ?_, fun hpos => ?_⟩
  · refine meets_void.mpr ⟨trivial, fun a _ => ?_⟩
    exact .inr ⟨(hfree a).due, (hfree a).lost_eq⟩
  refine meets_bind.mpr (meets_void.mpr ⟨trivial, fun a _ => ?_⟩)
  have hi := hfree a
  refine (tcpConnected_receives ?_).mono ?_
  · exact ⟨hi.owns ho, (hgranted (not_lt.mp hpos)).1, hi.link.trans hl, hi.credit.symm ▸ hc,
      .inl (hi.handles.trans hhd)⟩
  · rintro g₂ - (hshut | ⟨hdue, hlost⟩)
    · exact .inl hshut
    · exact .inr ⟨hdue.trans hi.due, hlost.trans hi.lost_eq⟩

/-- A completion that is no receive, no accept and no connect posts no receive. -/
theorem soDispatchIoEvent_quiet {p : IoPacket} {status : NtStatus} {transfer : Int} {turns : Nat}
    {irp : AcceptAddrs} (hrecv : p.type ≠ .recv) (hsyn : ¬ p.IsSyn)
    (hconn : ¬ (p.proto = .tcp ∧ p.type = .connect)) :
    (soDispatchIoEvent p status transfer turns irp).Uses Call.Quiet := by
  unfold soDispatchIoEvent
  split
  next hudp =>
    have hpost : (do
        let _ ← asioUdpRecv p
        objdefrHld p.link).Uses Call.Quiet := Uses.bind (asioTransfer_quiet hrecv) fun _ => by simp
    refine uses_ite.mpr
      ⟨fun _ => uses_ite.mpr ⟨fun _ => by simp [udpShutdownByPacket], fun _ => ?_⟩,
      fun _ => ?_⟩
    · split
      next h => exact absurd h hrecv
      · simp
      · simp
    · refine Uses.bind protoRefr_quiet fun _ => ?_
      refine uses_ite.mpr ⟨fun _ => uses_done, fun _ => ?_⟩
      dsimp only
      exact uses_ite.mpr ⟨fun _ => hpost, fun _ => by simp [udpShutdownByPacket]⟩
  next htcp =>
    refine uses_ite.mpr ⟨fun _ => ?_, fun _ => tcpDispatchIoException_quiet⟩
    split
    next h => exact absurd ⟨htcp, h⟩ hsyn
    next h => exact absurd h hrecv
    · exact tcpDispatchIoSend_quiet
    next h => exact absurd ⟨htcp, h⟩ hconn
    · simp
  · simp [soDispatchPipeEvent]
  · simp

/-- The dispatch of another completion. -/
theorem otherCompletion_receives {p : IoPacket} {status : NtStatus} {transfer : Int} {turns : Nat}
    {irp : AcceptAddrs} (hh : 0 ≤ h) (hp : ¬ p.Receives h) :
    Meets h (soDispatchIoEvent p status transfer turns irp)
      (.start h (.completion p status transfer turns irp))
      fun g' _ => RecvRecord.Post h (.completion p status transfer turns irp) g' 0 := by
  generalize hj : Job.completion p status transfer turns irp = j
  have hdue : (RecvRecord.start h j).due = 0 := by
    rw [← hj]
    simp [RecvRecord.start, hp]
  have hdata : (RecvRecord.start h j).data = false := by
    rw [← hj]
    exact decide_eq_false hp
  have hmakes : j.Makes = false := by
    rw [← hj]
    rfl
  have hidle : ∀ {q : CallProg Unit}, q.Uses (Call.Besides h) →
      Meets h q (.start h j) fun g' _ => RecvRecord.Post h j g' 0 :=
    fun hq => (Meets.of_besides hq).mono fun g' _ hi => hi.post hdue hmakes hdata
  have hquiet : ∀ {q : CallProg Unit}, q.Uses Call.Quiet → q.Uses (Call.Besides h) :=
    fun hq => hq.mono fun _ hc => hc.besides h
  have hsettles : ∀ {q : CallProg Unit},
      Meets h q (.start h j) (fun g' _ => (RecvRecord.start h j).Settles g') →
      Meets h q (.start h j) fun g' _ => RecvRecord.Post h j g' 0 :=
    fun hq => hq.grows.mono fun g' _ hs => hs.2.post hdue hmakes (hs.1.data.trans hdata)
  -- the accept and the connect of the link post its first receive
  by_cases ha : p.Accepts h
  · simp only [soDispatchIoEvent, ha.1.1, tcpDispatchIoEvent, ha.1.2]
    refine meets_ite.mpr ⟨fun hok => hsettles ?_, fun _ =>
      hidle (hquiet tcpDispatchIoException_quiet)⟩
    refine tcpDispatchIoSyn_receives hh ha.2 ?_ ?_ ?_ ?_ <;> rw [← hj]
    · simp [RecvRecord.start, ha]
    · simp [RecvRecord.start, hp, ha]
    · simp [RecvRecord.start, ha, hok]
    · simp [RecvRecord.start, ha]
  by_cases hc : p.Connects h
  · simp only [soDispatchIoEvent, hc.1, tcpDispatchIoEvent, hc.2.1]
    refine meets_ite.mpr ⟨fun hok => hsettles ?_, fun _ =>
      hidle (hquiet tcpDispatchIoException_quiet)⟩
    refine tcpDispatchIoConnected_receives hh hc.2.2 ?_ ?_ ?_ ?_ <;> rw [← hj]
    · simp [RecvRecord.start, hc.2.2]
    · simp [RecvRecord.start, hc.2.2]
    · simp [RecvRecord.start, hc.2.2]
    · simp [RecvRecord.start, hc, hok]
  refine hidle ?_
  -- another accept request is besides the link, and so is what is about another one
  by_cases hsyn : p.IsSyn
  · simp only [soDispatchIoEvent, hsyn.1, tcpDispatchIoEvent, hsyn.2]
    refine uses_ite.mpr ⟨fun _ => ?_, fun _ => hquiet tcpDispatchIoException_quiet⟩
    exact tcpDispatchIoSyn_besides fun hacc => ha ⟨hsyn, hacc⟩
  by_cases hl : p.link = h
  · refine hquiet (soDispatchIoEvent_quiet (fun hrecv => hp ⟨hrecv, hl⟩) hsyn ?_)
    exact fun hconn => hc ⟨hconn.1, hconn.2, hl⟩
  · exact (soDispatchIoEvent_local rfl hsyn).mono fun c hcall => hcall.besides hl

/-- **What every job does about the receive of a link.** A receive that has completed is one of
`tcp.c` or `udp.c`. -/
theorem job_receives {j : Job} (hh : 0 ≤ h) (hj : ∀ p status transfer turns irp,
    j = .completion p status transfer turns irp → p.Receives h → p.proto = .tcp ∨ p.proto = .udp) :
    Meets h j.prog (.start h j) (RecvRecord.Post h j) := by
  cases j with
  | user c => exact userCall_receives hh
  | completion p status transfer turns irp =>
      refine meets_bind.mpr ?_
      simp only [pure_eq, meets_done]
      by_cases hr : p.Receives h
      · exact recvCompletion_receives hh hr (hj p status transfer turns irp rfl hr)
      exact otherCompletion_receives hh hr

end

end Swnet.Sys
