import Swnet.Lib.Replay
import Swnet.Recv.Stream
import Swnet.Settst
import Swnet.Sys.Disposal

/-!
# Swnet — the receive path of `Recv` in the system

`Recv` embeds what `tcp_dispatch_io_recv` does to the bytes of one link, `Sys` the calls it makes
while everything else goes on. The two embed the same function: whatever the first does, the second
can do, packet for packet (`recvStep_simulated`), and so for every run of completions
(`recvRun_simulated`).

What carries over is small: how many packets a step of the first delivers, whether it goes on, and
whether the link is open after it (`Delivers`). With that the calls of the second are written down
as a list with their answers, function by function (the `_runs` lemmas: the function makes these
calls; the `_answers` lemmas: the system can answer them so, and this is what it looks like then),
and `Jobs.reaches_of_runs` makes a run of the list. Only this direction is shown: the system has
runs that no bytes lead to.
-/

namespace Swnet.Sys

open CMem Jobs Jobs.Prog

/-! ## What the receive path delivers -/

/-- What the user is told by an event. -/
def Notice.ofEvent : Event → Notice
  | .receiveData link .. => .receiveData link
  | .pipeData link .. => .pipeData link
  | .accepted link acceptLink => .accepted link acceptLink
  | .connected link => .connected link
  | .preClose link => .preClose link
  | .closed link => .closed link

/-- `n` packets on link `l`, as the user hears of them. -/
def packetsOn (l : Int) (callback : Bool) (n : Nat) : List Notice :=
  if callback then List.replicate n (.receiveData l) else []

@[simp] theorem packetsOn_zero {l : Int} {callback : Bool} : packetsOn l callback 0 = [] := by
  cases callback <;> rfl

/-- Packets are heard of one after the other. -/
theorem packetsOn_add (l : Int) (callback : Bool) (n m : Nat) :
    packetsOn l callback (n + m) = packetsOn l callback n ++ packetsOn l callback m := by
  cases callback with
  | false => rfl
  | true => exact (List.replicate_append_replicate).symm

/-- `n` packets were delivered on the way from `s` to `s'`. The link is the same one, and as open
as before. -/
structure Delivers (s s' : RecvLink) (n : Nat) : Prop where
  hld : s'.ncb.hld = s.ncb.hld
  callback : s'.ncb.nisCallback = s.ncb.nisCallback
  closed : s'.closed = s.closed
  events : ∃ new, s'.events = s.events ++ new
    ∧ new.map Notice.ofEvent = packetsOn s.ncb.hld s.ncb.nisCallback n

section

variable {A : Linkattr} {ndebug : Bool} {malloc : Option (Nat → Byte)} {s s₁ s₂ s' : RecvLink}
  {n m : Nat}

/-- A step that raises no event delivers nothing. -/
theorem Delivers.quiet (hhld : s'.ncb.hld = s.ncb.hld)
    (hcallback : s'.ncb.nisCallback = s.ncb.nisCallback) (hclosed : s'.closed = s.closed)
    (hevents : s'.events = s.events) : Delivers s s' 0 where
  hld := hhld
  callback := hcallback
  closed := hclosed
  events := ⟨[], by simp [hevents]⟩

theorem Delivers.refl (s : RecvLink) : Delivers s s 0 := .quiet rfl rfl rfl rfl

theorem Delivers.trans (h₁ : Delivers s s₁ n) (h₂ : Delivers s₁ s₂ m) : Delivers s s₂ (n + m) := by
  obtain ⟨new₁, hevents₁, hnew₁⟩ := h₁.events
  obtain ⟨new₂, hevents₂, hnew₂⟩ := h₂.events
  rw [h₁.hld, h₁.callback] at hnew₂
  refine ⟨h₂.hld.trans h₁.hld, h₂.callback.trans h₁.callback, h₂.closed.trans h₁.closed,
    new₁ ++ new₂, ?_, ?_⟩
  · rw [hevents₂, hevents₁, List.append_assoc]
  · rw [List.map_append, hnew₁, hnew₂, packetsOn_add]

/-- What is done to the packet afterwards delivers nothing. -/
theorem Delivers.packet (h : Delivers s s' n) (packet : Packet) :
    Delivers s { s' with packet } n := ⟨h.hld, h.callback, h.closed, h.events⟩

/-- One event: a packet is there, and is delivered where a callback is installed. -/
theorem ncbPostRecvdata_delivers {size off : Int} {b : Block Byte} :
    Yields (fun es => Delivers s (s.raise es) 1) (ncbPostRecvdata s.ncb size b off) := by
  unfold ncbPostRecvdata
  cases hcb : s.ncb.nisCallback with
  | false => exact ⟨rfl, rfl, rfl, [], rfl, by rw [hcb]; rfl⟩
  | true => exact Yields.bind_any fun bytes _ => ⟨rfl, rfl, rfl, _, rfl, by rw [hcb]; rfl⟩

/-- A complete packet is one event. -/
theorem tcpPraseEvent_delivers {size off : Int} {b : Block Byte} :
    Yields (fun es => Delivers s (s.raise es) 1) (tcpPraseEvent A s.ncb size b off) := by
  unfold tcpPraseEvent
  split <;> exact ncbPostRecvdata_delivers

/-! ## Large blocks -/

theorem ncbMarkLb_keeps {ncb : Ncb} {cb cur off : Int} {b : Block Byte} :
    Yields (fun r => r.2.hld = ncb.hld ∧ r.2.nisCallback = ncb.nisCallback)
      (ncbMarkLb ncb cb cur b off malloc) := by
  unfold ncbMarkLb
  split
  · exact ⟨rfl, rfl⟩
  · dsimp only
    split
    · exact ⟨rfl, rfl⟩
    · split
      · exact ⟨rfl, rfl⟩
      · exact Yields.bind_any fun _ _ => ⟨rfl, rfl⟩

theorem ncbUnmarkLb_keeps {ncb : Ncb} :
    Yields (fun ncb' => ncb'.hld = ncb.hld ∧ ncb'.nisCallback = ncb.nisCallback)
      (ncbUnmarkLb ndebug ncb) := by
  unfold ncbUnmarkLb
  split
  · exact ⟨rfl, rfl⟩
  · exact Yields.bind_any fun _ _ => ⟨rfl, rfl⟩

/-! ## The parsing loop -/

/-- What a turn of the loop delivers: nothing when it leaves, one packet when it goes on. -/
def PraseTurn.Delivers (s : RecvLink) : PraseTurn → Prop
  | .leave (.ret retval s') => (retval = -1 ∨ retval = 0) ∧ Sys.Delivers s s' 0
  | .leave (.brk s' _ _) => Sys.Delivers s s' 0
  | .turn s' _ _ => Sys.Delivers s s' 1

/-- **One turn of the parsing loop** delivers one packet and goes on, or leaves the loop with none
delivered. -/
theorem praseTurn_delivers {u off : Int} :
    Yields (PraseTurn.Delivers s) (praseTurn A malloc s u off) := by
  unfold praseTurn
  dsimp only
  split
  · exact Delivers.refl s
  refine Yields.bind_any fun ori _ => Yields.bind_any fun parser _ =>
    Yields.bind_any fun header _ => ?_
  split
  · exact ⟨.inl rfl, .refl s⟩
  split
  · exact ⟨.inl rfl, .refl s⟩
  split
  · refine ncbMarkLb_keeps.bind fun marked hkeeps => ?_
    have hquiet : ∀ marks, Delivers s { s with ncb := marked.2, marks } 0 := fun marks =>
      .quiet hkeeps.1 hkeeps.2 rfl rfl
    split
    · exact ⟨.inl rfl, hquiet _⟩
    · exact ⟨.inr rfl, (hquiet _).packet _⟩
  split
  · exact Delivers.refl s
  · exact tcpPraseEvent_delivers.bind fun es hes => hes

/-- How the loop is left. -/
def PraseExit.Delivers (s : RecvLink) (n : Nat) : PraseExit → Prop
  | .ret retval s' => (retval = -1 ∨ retval = 0) ∧ Sys.Delivers s s' n
  | .brk s' _ _ => Sys.Delivers s s' n

/-- **A packet a turn.** -/
theorem tcpPraseLoop_delivers (fuel : Nat) : ∀ (s : RecvLink) (u off : Int),
    Yields (fun e => ∃ n, PraseExit.Delivers s n e) (tcpPraseLoop A malloc fuel s u off) := by
  induction fuel with
  | zero => exact fun _ _ _ => trivial
  | succ fuel ih =>
      intro s u off
      rw [tcpPraseLoop_succ]
      refine praseTurn_delivers.bind fun r hr => ?_
      cases r with
      | leave e =>
          refine ⟨0, ?_⟩
          cases e with
          | ret retval s' => exact hr
          | brk s' u' off' => exact hr
      | turn s₁ u₁ off₁ =>
          refine Yields.mono (ih s₁ u₁ off₁) fun e he => ?_
          obtain ⟨n, hn⟩ := he
          refine ⟨1 + n, ?_⟩
          cases e with
          | ret retval s' => exact ⟨hn.1, Delivers.trans hr hn.2⟩
          | brk s' u' off' => exact Delivers.trans hr hn

/-- Without a template what arrived is one packet; with one, the packets of the turns add up. -/
theorem tcpPraseLogicPacket_delivers :
    Yields (fun r => (r.1 = -1 ∨ r.1 = 0) ∧ ∃ n, Delivers s r.2 n)
      (Swnet.tcpPraseLogicPacket A malloc s) := by
  unfold Swnet.tcpPraseLogicPacket
  split
  · exact ⟨.inl rfl, 0, .refl s⟩
  refine Yields.bind_any fun ori _ => ?_
  split
  · exact ncbPostRecvdata_delivers.bind fun es hes => ⟨.inr rfl, 1, hes.packet _⟩
  refine (tcpPraseLoop_delivers _ s _ 0).bind fun e he => ?_
  obtain ⟨n, hn⟩ := he
  cases e with
  | ret retval s' => exact ⟨hn.1, n, hn.2⟩
  | brk s' u off => exact Yields.bind_any fun _ _ => ⟨.inr rfl, n, Delivers.packet hn _⟩

/-- The parsing as the dispatch calls it, with the receive set up again. -/
theorem tcpRecvPrase_delivers :
    Yields (fun r => (r.1 = -1 ∨ r.1 = 0) ∧ ∃ n, Delivers s r.2 n) (tcpRecvPrase A malloc s) := by
  unfold tcpRecvPrase
  refine tcpPraseLogicPacket_delivers.bind fun r hr => ?_
  obtain ⟨hret, n, hn⟩ := hr
  dsimp only
  split
  · exact ⟨hret, n, hn⟩
  · exact ⟨hret, n, hn.packet _⟩

/-- A large block is delivered once it is full. -/
theorem tcpLbAssemble_delivers :
    Yields (fun r => (r.1 = -1 ∨ r.1 = 0) ∧ Delivers s r.2 0 ∨ 0 ≤ r.1 ∧ Delivers s r.2 1)
      (Swnet.tcpLbAssemble ndebug s) := by
  unfold Swnet.tcpLbAssemble
  dsimp only
  split
  · exact .inl ⟨.inl rfl, .refl s⟩
  split
  · exact .inl ⟨.inl rfl, .refl s⟩
  refine Yields.bind_any fun ori _ => Yields.bind_any fun lb _ => Yields.bind_any fun header _ => ?_
  split
  · exact .inl ⟨.inl rfl, .refl s⟩
  split
  · refine Yields.bind_any fun _ _ => Yields.bind_any fun lb' _ => ?_
    exact .inl ⟨.inr rfl, .quiet rfl rfl rfl rfl⟩
  next hfull =>
    refine Yields.bind_any fun _ _ => Yields.bind_any fun lb' _ => ?_
    refine ncbPostRecvdata_delivers.bind fun es hes => ?_
    refine ncbUnmarkLb_keeps.bind fun ncb hkeeps => ?_
    have hone : Delivers s { s.raise es with ncb } 1 :=
      ⟨hkeeps.1.trans hes.hld, hkeeps.2.trans hes.callback, hes.closed, hes.events⟩
    split
    · exact Yields.bind_any fun _ _ => .inr ⟨by dsimp only; omega, hone.packet _⟩
    · exact .inr ⟨by dsimp only; omega, hone⟩

end

/-! ## The calls of the parsing -/

/-- The packets delivered on link `l` by these calls. -/
def deliveries (l : Int) (calls : List (Call × Int)) : Nat :=
  calls.countP fun x => decide (x.1 = .emit (.receiveData l))

@[simp] theorem deliveries_nil {l : Int} : deliveries l [] = 0 := rfl

/-- A call delivers a packet if it tells the user of one. -/
@[simp] theorem deliveries_cons {l a : Int} {c : Call} {calls : List (Call × Int)} :
    deliveries l ((c, a) :: calls)
      = deliveries l calls + if c = .emit (.receiveData l) then 1 else 0 := by
  simp [deliveries, List.countP_cons]

/-- The deliveries of two lists add up. -/
@[simp] theorem deliveries_append {l : Int} {calls calls' : List (Call × Int)} :
    deliveries l (calls ++ calls') = deliveries l calls + deliveries l calls' :=
  List.countP_append

/-- The calls of `tcpParse` on link `l`. -/
def Call.Parsing (l : Int) : Call → Prop
  | .ncb h (.read _) | .ncb h (.write _) => h = l
  | .emit n => n = .receiveData l
  | _ => False

/-- `n` turns that find a packet, and one that does not. -/
def praseCalls (l retval : Int) : Nat → List (Call × Int)
  | 0 => [(.ncb l (.read .tcpTst), retval)]
  | n + 1 => (.ncb l (.read .tcpTst), 1) :: (.emit (.receiveData l), 0) :: praseCalls l retval n

section

variable {l retval : Int}

/-- The calls of `n` turns deliver `n` packets. Induction on `n`. -/
theorem praseCalls_deliveries (n : Nat) : deliveries l (praseCalls l retval n) = n := by
  induction n with
  | zero => simp [praseCalls]
  | succ n ih => simp [praseCalls, ih]

/-- All of them are calls of the parsing. -/
theorem praseCalls_parsing (n : Nat) : ∀ x ∈ praseCalls l retval n, Call.Parsing l x.1 := by
  induction n with
  | zero => simp [praseCalls, Call.Parsing]
  | succ n ih => simpa [praseCalls, Call.Parsing] using ih

/-- Answered so, the loop makes these calls, given turns enough. Induction on the packets. -/
theorem tcpPraseLogicPacket_runs (hret : retval = -1 ∨ retval = 0) (n : Nat) :
    ∀ turns, n < turns → (tcpPraseLogicPacket l turns).Runs (praseCalls l retval n) retval := by
  induction n with
  | zero =>
      intro turns hturns
      obtain ⟨turns, rfl⟩ := Nat.exists_eq_succ_of_ne_zero (by omega : turns ≠ 0)
      rcases hret with rfl | rfl <;> exact ⟨rfl, rfl⟩
  | succ n ih =>
      intro turns hturns
      obtain ⟨turns, rfl⟩ := Nat.exists_eq_succ_of_ne_zero (by omega : turns ≠ 0)
      exact ⟨rfl, rfl, ih turns (by omega)⟩

/-- `tcpParse` can deliver `n` packets and return `retval`. -/
def Parses (l : Int) (n : Nat) (retval : Int) : Prop :=
  ∃ calls, (∀ x ∈ calls, Call.Parsing l x.1) ∧ deliveries l calls = n
    ∧ ∀ turns, n < turns → (tcpParse l turns).Runs calls retval

/-- A link without a large block: the loop is all there is. -/
theorem parses_plain (hret : retval = -1 ∨ retval = 0) (n : Nat) : Parses l n retval := by
  refine ⟨(.ncb l (.read .largeBlock), 0) :: praseCalls l retval n, ?_, ?_, fun turns hturns => ?_⟩
  · simpa [Call.Parsing] using praseCalls_parsing n
  · simp [praseCalls_deliveries]
  · exact ⟨rfl, tcpPraseLogicPacket_runs hret n turns hturns⟩

/-- The large block is not full, or there is something wrong with it. -/
theorem parses_partial (hret : retval = -1 ∨ retval = 0) : Parses l 0 retval := by
  refine ⟨[(.ncb l (.read .largeBlock), 1), (.ncb l (.read .largeBlock), retval)], ?_, ?_, ?_⟩
  · simp [Call.Parsing]
  · simp
  · rcases hret with rfl | rfl <;> exact fun _ _ => ⟨rfl, rfl, rfl⟩

/-- The large block is full, and nothing comes after it. -/
theorem parses_full : Parses l 1 0 := by
  refine ⟨[(.ncb l (.read .largeBlock), 1), (.ncb l (.read .largeBlock), 1),
    (.emit (.receiveData l), 0), (.ncb l (.write .largeBlock), 0)], ?_, ?_, ?_⟩
  · simp [Call.Parsing]
  · simp
  · exact fun _ _ => ⟨rfl, rfl, rfl, rfl, rfl⟩

/-- The large block is full, and what comes after it is parsed. -/
theorem parses_rest (hret : retval = -1 ∨ retval = 0) (n : Nat) : Parses l (1 + n) retval := by
  refine ⟨[(.ncb l (.read .largeBlock), 1), (.ncb l (.read .largeBlock), 2),
    (.emit (.receiveData l), 0), (.ncb l (.write .largeBlock), 0)] ++ praseCalls l retval n, ?_, ?_,
    ?_⟩
  · simpa [Call.Parsing] using praseCalls_parsing n
  · simp [praseCalls_deliveries, Nat.add_comm]
  · exact fun turns hturns => ⟨rfl, rfl, rfl, rfl, tcpPraseLogicPacket_runs hret n turns (by omega)⟩

end

/-- **The parsing of one level is that of the other.** -/
theorem tcpRecvBody_parses {A : Linkattr} {ndebug : Bool} {malloc : Option (Nat → Byte)}
    {s : RecvLink} :
    Yields (fun r => ∃ n, Delivers s r.2 n ∧ Parses s.ncb.hld n r.1)
      (tcpRecvBody A ndebug malloc s) := by
  unfold tcpRecvBody
  split
  · refine tcpLbAssemble_delivers.bind fun r hr => ?_
    dsimp only
    split
    next hle =>
      rcases hr with ⟨hret, hquiet⟩ | ⟨hpos, hone⟩
      · exact ⟨0, hquiet, parses_partial hret⟩
      · obtain hzero : r.1 = 0 := by omega
        refine ⟨1, hone, ?_⟩
        rw [hzero]
        exact parses_full
    next hgt =>
      have hone := hr.resolve_left fun h => hgt (by omega)
      refine tcpRecvPrase_delivers.mono fun r' hr' => ?_
      obtain ⟨hret, n, hn⟩ := hr'
      exact ⟨1 + n, hone.2.trans hn, parses_rest hret n⟩
  · refine tcpRecvPrase_delivers.mono fun r hr => ?_
    obtain ⟨hret, n, hn⟩ := hr
    exact ⟨n, hn, parses_plain hret n⟩

/-! ## What the calls do to the world -/

section

variable {w w' : World} {l k : Int} {o : Obj} {p : IoPacket} {calls : List (Call × Int)}

/-- The answers of the system are those of its world. -/
@[simp] theorem system_answer (w : World) (c : Call) (a : Int) :
    system.answer w c a = w.answer c a := rfl

/-- An object is put back as it was. -/
theorem setObj_self (ho : w.obj l = some o) : w.setObj l o = w := by
  rw [World.setObj, ← ho, Function.update_eq_self]

/-- Of two objects put in one place the second stays. -/
theorem setObj_setObj (w : World) (l : Int) (o o₁ : Obj) :
    (w.setObj l o).setObj l o₁ = w.setObj l o₁ := by
  rw [World.setObj, World.setObj_obj, Function.update_idem]
  rfl

/-- An access is answered by the object it is about. -/
theorem answer_ncb {x : Access} {a : Int} {o' : Obj} (ho : w.obj l = some o)
    (happly : x.apply a o = some o') : w.answer (.ncb l x) a = some (w.setObj l o') := by
  simp only [World.answer, ho, happly, Option.map_some]

/-- `n` packets more were delivered on a link. -/
def World.hear (w : World) (l : Int) (callback : Bool) (n : Nat) : World :=
  { w with notices := w.notices ++ packetsOn l callback n }

/-- The user hears of a packet if the callback is set. -/
theorem tell_hear (ho : w.obj l = some o) : w.tell l (.receiveData l) = w.hear l o.callback 1 := by
  simp only [World.tell, ho]
  cases o.callback with
  | false => simp [World.hear, packetsOn]
  | true => rfl

/-- The parsing leaves everything but what the user heard alone. -/
theorem answers_parsing (hcalls : ∀ x ∈ calls, Call.Parsing l x.1) (ho : w.obj l = some o) :
    system.answers w calls = some (w.hear l o.callback (deliveries l calls)) := by
  induction calls generalizing w with
  | nil => simp [World.hear]
  | cons c calls ih =>
      obtain ⟨c, a⟩ := c
      have hc := hcalls (c, a) List.mem_cons_self
      have hrest := fun x hx => hcalls x (List.mem_cons_of_mem _ hx)
      rw [answers_cons]
      cases c with
      | ncb h x =>
          have hh : h = l := by cases x <;> first | exact hc | exact hc.elim
          have happly : x.apply a o = some o := by cases x <;> first | rfl | exact hc.elim
          subst hh
          rw [system_answer, answer_ncb ho happly, Option.bind_some, setObj_self ho, ih hrest ho,
            deliveries_cons, if_neg (by simp), Nat.add_zero]
      | emit n =>
          obtain rfl : n = .receiveData l := hc
          rw [system_answer, World.answer, Option.bind_some, Notice.link, tell_hear ho,
            ih hrest (show (w.hear l o.callback 1).obj l = some o from ho), deliveries_cons,
            if_pos rfl, Nat.add_comm, World.hear, World.hear, World.hear, packetsOn_add]
          simp
      | _ => exact hc.elim

/-! ## The end of the dispatch -/

theorem settle_open (ho : w.obj l = some o) (hopen : o.closed = false) : w.settle l = w := by
  simp only [World.settle, ho, hopen, Bool.false_eq_true, false_and, if_false]

theorem settle_referenced (ho : w.obj l = some o) (hrefs : o.refs ≠ 0) : w.settle l = w := by
  simp only [World.settle, ho, hrefs, false_and, and_false, if_false]

/-- The link, with one reference more. -/
def World.held (w : World) (l : Int) (o : Obj) : World := w.setObj l { o with refs := o.refs + 1 }

/-- A held object has one reference more. -/
theorem held_obj (w : World) (l : Int) (o : Obj) :
    (w.held l o).obj l = some { o with refs := o.refs + 1 } := Function.update_self ..

/-- The link is closed, and unloaded when nobody holds it. -/
def World.close (w : World) (l : Int) (o : Obj) : World :=
  (w.setObj l { o with closed := true }).settle l

theorem answer_objrefr (ho : w.obj l = some o) (hopen : o.closed = false) :
    w.answer (.objrefr l) 0 = some (w.held l o) := by
  have hgranted : o.Referable := .inl hopen
  simp only [World.answer, ho, lt_irrefl, if_false, hgranted, if_true]
  rfl

theorem answer_objdefr (ho : w.obj l = some o) (hopen : o.closed = false) :
    (w.held l o).answer (.objdefr l) 0 = some w := by
  have hobj : ((w.held l o).setObj l o).obj l = some o := Function.update_self ..
  simp only [World.answer, held_obj, Nat.add_sub_cancel]
  rw [settle_open hobj hopen, World.held, setObj_setObj, setObj_self ho]

/-- A link that is closed while it is referenced goes when the reference does. -/
theorem answer_objclos_held (w : World) (l : Int) (o : Obj) :
    (w.held l o).answer (.objclos l) 0 = some (w.held l { o with closed := true }) := by
  simp only [World.answer, held_obj]
  rw [settle_referenced (Function.update_self ..) (Nat.succ_ne_zero o.refs), World.held,
    setObj_setObj]
  rfl

/-- The last reference to a closed object releases what it has. -/
theorem answer_objdefr_closed (w : World) (l : Int) (o : Obj) :
    (w.held l { o with closed := true }).answer (.objdefr l) 0 = some (w.close l o) := by
  simp only [World.answer, held_obj, Nat.add_sub_cancel]
  rw [World.held, setObj_setObj]
  rfl

/-- `objdefr(ncb->hld)`, for the last time in a function. -/
def defrCalls (l : Int) : List (Call × Int) := [(.ncb l (.read .hld), 0), (.objdefr l, 0)]

def refrCalls (l : Int) : List (Call × Int) :=
  [(.objrefr l, 0), (.ncb l .proto, ProtoType.tcp.code)]

/-- A request that the system takes, or does not. -/
def transferCalls (p : IoPacket) (a : Int) : List (Call × Int) :=
  [(.objrefr p.link, 0), (.post p, a)] ++ defrCalls p.link

/-- The link is closed, and its receive packet is freed. -/
def closeCalls (p : IoPacket) : List (Call × Int) :=
  [(.ncb p.link (.read .hld), 0), (.objclos p.link, 0), (.freepkt p.packet, 0)]

/-- `objdefr(ncb->hld)` on an open link. -/
theorem answers_defr (ho : w.obj l = some o) (hopen : o.closed = false) :
    system.answers (w.held l o) (defrCalls l) = some w := by
  rw [defrCalls, answers_cons, system_answer, answer_ncb (held_obj w l o) rfl, Option.bind_some,
    setObj_self (held_obj w l o), answers_cons, system_answer, answer_objdefr ho hopen]
  rfl

theorem answers_refr (ho : w.obj l = some o) (hopen : o.closed = false) (htcp : o.proto = .tcp) :
    system.answers w (refrCalls l) = some (w.held l o) := by
  have hproto : (Access.proto).apply ProtoType.tcp.code { o with refs := o.refs + 1 }
      = some { o with refs := o.refs + 1 } := if_pos (by rw [htcp])
  rw [refrCalls, answers_cons, system_answer, answer_objrefr ho hopen, Option.bind_some,
    answers_cons, system_answer, answer_ncb (held_obj w l o) hproto, Option.bind_some,
    setObj_self (held_obj w l o)]
  rfl

/-- A request: either the system takes it and has it, or all is as before. -/
theorem answers_transfer {a : Int} (ho : w.obj p.link = some o) (hopen : o.closed = false) :
    system.answers w (transferCalls p a)
      = some (if a < 0 then w else { w with posted := p :: w.posted }) := by
  have hpost : system.answers (w.held p.link o) [(.post p, a)]
      = some ((if a < 0 then w else { w with posted := p :: w.posted }).held p.link o) := by
    simp only [answers_cons, system_answer, World.answer, Option.bind_some, answers_nil]
    split <;> rfl
  rw [transferCalls, List.cons_append, answers_cons, system_answer, answer_objrefr ho hopen,
    Option.bind_some, answers_append hpost]
  refine answers_defr ?_ hopen
  split <;> exact ho

/-- The link is closed inside of the reference of the dispatch, its packet freed, and the reference
released. -/
theorem answers_close (w : World) (p : IoPacket) (o : Obj) :
    system.answers (w.held p.link o) (closeCalls p ++ defrCalls p.link)
      = some (({ w with freed := p.packet :: w.freed } : World).close p.link o) := by
  have hfree : system.answers (w.held p.link o) (closeCalls p)
      = some (({ w with freed := p.packet :: w.freed } : World).held p.link
        { o with closed := true }) := by
    rw [closeCalls, answers_cons, system_answer, answer_ncb (held_obj ..) rfl, Option.bind_some,
      setObj_self (held_obj ..), answers_cons, system_answer, answer_objclos_held]
    rfl
  rw [answers_append hfree, defrCalls, answers_cons, system_answer, answer_ncb (held_obj ..) rfl,
    Option.bind_some, setObj_self (held_obj ..), answers_cons, system_answer, answer_objdefr_closed]
  rfl

/-! ## The calls of the dispatch -/

theorem tcprefr_runs (hl : 0 ≤ l) : (tcprefr l).Runs (refrCalls l) 0 := by
  unfold tcprefr protoRefr
  rw [if_neg (not_lt.mpr hl)]
  exact ⟨rfl, rfl, rfl⟩

theorem asioTcpRecv_runs {a : Int} (ha : a = -1 ∨ a = 0) :
    (asioTcpRecv p).Runs (transferCalls p a) a := by
  rcases ha with rfl | rfl <;> exact ⟨rfl, rfl, rfl, rfl, rfl⟩

/-- The dispatch once the bytes are parsed. -/
def recvTail (p : IoPacket) (retval : Int) : CallProg Unit := do
  let retval ← if 0 ≤ retval then asioTcpRecv p else pure retval
  if retval < 0 then do
    objclosHld p.link
    void (.freepkt p.packet)
  objdefrHld p.link

/-- The dispatch makes the calls of the reference, of the parsing and of its tail, in this order. -/
theorem tcpDispatchIoRecv_runs {transfer retval : Int} {turns : Nat} {calls' : List (Call × Int)}
    (ht : 0 < transfer) (hl : 0 ≤ p.link) (hparse : (tcpParse p.link turns).Runs calls retval)
    (htail : (recvTail p retval).Runs calls' ()) :
    (tcpDispatchIoRecv p transfer turns).Runs (refrCalls p.link ++ (calls ++ calls')) () := by
  unfold tcpDispatchIoRecv
  rw [if_neg (not_le.mpr ht)]
  refine (tcprefr_runs hl).bind ?_
  rw [if_neg (by decide)]
  exact hparse.bind htail

/-- The packet is posted again. -/
theorem recvTail_posted {retval : Int} (hret : 0 ≤ retval) :
    (recvTail p retval).Runs (transferCalls p 0 ++ defrCalls p.link) () := by
  unfold recvTail
  rw [if_pos hret]
  exact (asioTcpRecv_runs (.inr rfl)).bind ⟨rfl, rfl, rfl⟩

/-- It cannot be posted again. -/
theorem recvTail_refused {retval : Int} (hret : 0 ≤ retval) :
    (recvTail p retval).Runs (transferCalls p (-1) ++ (closeCalls p ++ defrCalls p.link)) () := by
  unfold recvTail
  rw [if_pos hret]
  exact (asioTcpRecv_runs (.inl rfl)).bind ⟨rfl, rfl, rfl, rfl, rfl, rfl⟩

/-- The parsing has failed. -/
theorem recvTail_failed {retval : Int} (hret : retval < 0) :
    (recvTail p retval).Runs (closeCalls p ++ defrCalls p.link) () := by
  unfold recvTail
  rw [if_neg (not_le.mpr hret), pure_eq, done_bind]
  dsimp only
  rw [if_pos hret]
  exact ⟨rfl, rfl, rfl, rfl, rfl, rfl⟩

/-- How a dispatch ends: the packet is posted again, or it is freed and the link is closed. -/
def World.settled (w : World) (p : IoPacket) (o : Obj) (again : Bool) : World :=
  if again then { w with posted := p :: w.posted }
  else ({ w with freed := p.packet :: w.freed } : World).close p.link o

/-- **What a dispatch can do.** -/
theorem tcpDispatchIoRecv_answers {transfer retval : Int} {n : Nat} (post : Bool)
    (ht : 0 < transfer)
    (hl : 0 ≤ p.link) (hparse : Parses p.link n retval) (ho : w.obj p.link = some o)
    (hopen : o.closed = false) (htcp : o.proto = .tcp) :
    ∃ calls, (tcpDispatchIoRecv p transfer (n + 1)).Runs calls ()
      ∧ system.answers w calls
        = some ((w.hear p.link o.callback n).settled p o (decide (0 ≤ retval) && post)) := by
  obtain ⟨calls, hkinds, rfl, hruns⟩ := hparse
  have hheard : system.answers (w.held p.link o) calls
      = some ((w.hear p.link o.callback (deliveries p.link calls)).held p.link o) :=
    (answers_parsing hkinds (held_obj w p.link o)).trans rfl
  -- the reference, and then the parsing, which tells the user of so many packets
  have hstart : ∀ calls', system.answers w (refrCalls p.link ++ (calls ++ calls'))
      = system.answers ((w.hear p.link o.callback (deliveries p.link calls)).held p.link o)
        calls' :=
    fun calls' => by rw [answers_append (answers_refr ho hopen htcp), answers_append hheard]
  have hruns := hruns _ (Nat.lt_succ_self _)
  have hobj : (w.hear p.link o.callback (deliveries p.link calls)).obj p.link = some o := ho
  generalize w.hear p.link o.callback (deliveries p.link calls) = v at hstart hobj ⊢
  -- parsed: the packet is posted again, if the system takes it
  by_cases hret : 0 ≤ retval
  · rw [decide_eq_true hret, Bool.true_and]
    cases post with
    | true =>
        refine ⟨_, tcpDispatchIoRecv_runs ht hl hruns (recvTail_posted hret), ?_⟩
        have hpost : system.answers (v.held p.link o) (transferCalls p 0)
            = some (({ v with posted := p :: v.posted } : World).held p.link o) :=
          (answers_transfer (held_obj v p.link o) hopen).trans rfl
        rw [hstart, answers_append hpost]
        exact answers_defr hobj hopen
    | false =>
        refine ⟨_, tcpDispatchIoRecv_runs ht hl hruns (recvTail_refused hret), ?_⟩
        rw [hstart, answers_append (answers_transfer (held_obj v p.link o) hopen)]
        exact answers_close v p o
  -- not parsed: the link is closed and the packet freed
  · rw [decide_eq_false hret, Bool.false_and]
    refine ⟨_, tcpDispatchIoRecv_runs ht hl hruns (recvTail_failed (not_le.mp hret)), ?_⟩
    rw [hstart]
    exact answers_close v p o

end

/-! ## One level simulates the other -/

/-- What closing a link does to the world. -/
structure World.Shuts (w : World) (l : Int) (o : Obj) (w' : World) : Prop where
  obj : ∃ o', w'.obj l = some o' ∧ o'.proto = o.proto ∧ o'.callback = o.callback ∧ o'.closed = true
  posted : w'.posted = w.posted
  busy : w'.busy = w.busy
  freed : ∀ k ∈ w.freed, k ∈ w'.freed
  notices : ∃ closing, w'.notices = w.notices ++ closing
    ∧ closing.Sublist [.preClose l, .closed l]

/-- To close a link shuts it, whatever else it releases. -/
theorem World.close_shuts (w : World) (l : Int) (o : Obj) : w.Shuts l o (w.close l o) := by
  have hself : (w.setObj l { o with closed := true }).obj l = some { o with closed := true } :=
    Function.update_self ..
  obtain ⟨o', hobj, hhusk, -, -⟩ := World.settle_obj_self hself
  constructor
  case obj => exact ⟨o', hobj, hhusk.kin.proto, hhusk.callback, hhusk.closed⟩
  case posted => exact World.settle_posted _ l
  case busy => exact World.settle_busy _ l
  case freed =>
    intro k hk
    rcases World.settle_queue (w.setObj l { o with closed := true }) l with ⟨-, hfreed⟩
      | ⟨-, hfreed⟩
    · exact hfreed.symm ▸ hk
    · exact hfreed.symm ▸ List.mem_append_right _ hk
  case notices =>
    obtain ⟨⟨hnotices, -⟩ | ⟨-, -, -, hnotices, -⟩, -⟩ := World.settle_notices hself
    · exact ⟨[], hnotices.trans (List.append_nil _).symm, List.nil_sublist _⟩
    · refine ⟨_, hnotices, ?_⟩
      unfold World.closing
      split
      · exact List.Sublist.refl _
      · exact List.nil_sublist _

/-- The receive packet `k` of a link, as the handlers see it. -/
def recvReq (s : RecvLink) (k : Int) : IoPacket := .plain k .tcp .recv s.ncb.hld

/-- The link and its receive packet `k` are what the system has of them: its completions can be
dispatched, and the packet is outstanding until the link is closed, and freed then. -/
structure Mirrors (s : RecvLink) (k : Int) (w : World) : Prop where
  hld : 0 ≤ s.ncb.hld
  obj : ∃ o, w.obj s.ncb.hld = some o ∧ o.proto = .tcp ∧ o.callback = s.ncb.nisCallback
    ∧ o.closed = s.closed
  free : s.ncb.hld ∉ w.busy
  posted : s.closed = false → recvReq s k ∈ w.posted
  freed : s.closed = true → k ∈ w.freed

/-- From `w` to `w'` the user was told of the events from `s` to `s'`, and then, where the link was
closed, perhaps that it is. -/
structure Told (s s' : RecvLink) (w w' : World) : Prop where
  told : ∃ new closing, s'.events = s.events ++ new
    ∧ w'.notices = w.notices ++ new.map Notice.ofEvent ++ closing
    ∧ closing.Sublist [.preClose s.ncb.hld, .closed s.ncb.hld]
    ∧ (s'.closed = false → closing = [])

section

variable {A : Linkattr} {ndebug : Bool} {s s' : RecvLink} {k : Int} {x : RecvCompletion}

/-- What the dispatch yields on a packet that is filled, the step does. -/
theorem recvStep_yields {P : RecvLink → Prop}
    (h : ∀ packet : Packet, packet.sizeForTranslation = x.data.length →
      Yields P (Swnet.tcpDispatchIoRecv A ndebug x.outcome { s with posted := false, packet })) :
    Yields P (recvStep A ndebug s x) := by
  unfold recvStep RecvLink.complete
  rw [bind_assoc]
  refine Yields.bind_any fun ori _ => ?_
  rw [bind_assoc]
  refine Yields.bind_any fun ori' _ => ?_
  rw [pure_bind]
  exact h _ rfl

/-- How a step ends that has received something. -/
theorem recvStep_delivers (hrefr : x.outcome.refr = true) (hdata : x.data ≠ []) :
    Yields (fun s' => ∃ n retval s₁, Parses s.ncb.hld n retval ∧ Delivers s s₁ n
        ∧ s' = if decide (0 ≤ retval) && x.outcome.post then
          { s₁ with posted := true } else s₁.close)
      (recvStep A ndebug s x) := by
  refine recvStep_yields fun packet hpacket => ?_
  have hlen := List.length_pos_iff.mpr hdata
  have hsome : ¬ packet.sizeForTranslation ≤ 0 := by omega
  unfold Swnet.tcpDispatchIoRecv
  rw [if_neg hsome, hrefr, if_neg (by decide)]
  refine tcpRecvBody_parses.bind fun r hr => ?_
  obtain ⟨n, hn, hparse⟩ := hr
  have hn' : Delivers s r.2 n := ⟨hn.hld, hn.callback, hn.closed, hn.events⟩
  dsimp only
  split
  next hgood =>
    refine ⟨n, r.1, r.2, hparse, hn', ?_⟩
    rw [decide_eq_true hgood.1, hgood.2]
    rfl
  next hbad =>
    refine ⟨n, r.1, r.2, hparse, hn', ?_⟩
    rw [if_neg fun h => hbad ?_]
    simpa using h

/-- A receive of no bytes closes the link. -/
theorem recvStep_empty (hdata : x.data = []) :
    Yields (fun s' => ∃ s₁, Delivers s s₁ 0 ∧ s' = s₁.close) (recvStep A ndebug s x) := by
  refine recvStep_yields fun packet hpacket => ?_
  unfold Swnet.tcpDispatchIoRecv
  rw [if_pos (by simp [hpacket, hdata])]
  exact ⟨{ s with posted := false, packet }, .quiet rfl rfl rfl rfl, rfl⟩

/-- A completed receive of a TCP link leads to that dispatch. -/
theorem completion_runs {p : IoPacket} {transfer : Int} {turns : Nat} {calls : List (Call × Int)}
    (htcp : p.proto = .tcp) (hrecv : p.type = .recv)
    (h : (tcpDispatchIoRecv p transfer turns).Runs calls ()) :
    (Job.prog (.completion p 0 transfer turns noAddrs)).Runs calls 0 := by
  have hdispatch : soDispatchIoEvent p 0 transfer turns noAddrs
      = tcpDispatchIoRecv p transfer turns := by
    rw [soDispatchIoEvent, htcp]
    dsimp only
    rw [tcpDispatchIoEvent, hrecv]
    exact if_pos (by decide)
  have hdone : (pure 0 : CallProg Int).Runs [] 0 := rfl
  rw [← List.append_nil calls, Job.prog, hdispatch]
  exact h.bind hdone

variable {w v w' : World} {o : Obj} {n : Nat} {s₁ : RecvLink}

/-- The packet was posted again. -/
theorem mirrors_again (hm : Mirrors s k w) (hopen : s.closed = false)
    (hcb : o.callback = s.ncb.nisCallback) (hn : Delivers s s₁ n) (hobj : v.obj = w.obj)
    (hposted : recvReq s k ∈ v.posted) (hbusy : v.busy = s.ncb.hld :: w.busy)
    (hnotices : v.notices = w.notices ++ packetsOn s.ncb.hld o.callback n) :
    Mirrors { s₁ with posted := true } k { v with busy := v.busy.erase s.ncb.hld }
      ∧ Told s { s₁ with posted := true } w { v with busy := v.busy.erase s.ncb.hld } := by
  obtain ⟨new, hevents, hnew⟩ := hn.events
  have hfree : v.busy.erase s.ncb.hld = w.busy := by
    rw [hbusy, List.erase_cons_head]
  constructor
  · constructor
    case hld => exact hn.hld ▸ hm.hld
    case obj =>
      obtain ⟨o', ho', htcp, hcallback, hclosed⟩ := hm.obj
      refine ⟨o', ?_, htcp, hcallback.trans hn.callback.symm, hclosed.trans hn.closed.symm⟩
      show v.obj s₁.ncb.hld = some o'
      rw [hobj, hn.hld]
      exact ho'
    case free =>
      show s₁.ncb.hld ∉ v.busy.erase s.ncb.hld
      rw [hfree, hn.hld]
      exact hm.free
    case posted =>
      intro _
      show IoPacket.plain k .tcp .recv s₁.ncb.hld ∈ v.posted
      rw [hn.hld]
      exact hposted
    case freed =>
      intro hclosed
      rw [show s₁.closed = false from hn.closed.trans hopen] at hclosed
      cases hclosed
  · refine ⟨new, [], hevents, ?_, List.nil_sublist _, fun _ => rfl⟩
    show v.notices = _
    rw [hnotices, hnew, hcb, List.append_nil]

/-- The link was closed. -/
theorem mirrors_closed (hm : Mirrors s k w) (hcb : o.callback = s.ncb.nisCallback)
    (htcp : o.proto = .tcp) (hn : Delivers s s₁ n) (hbusy : v.busy = s.ncb.hld :: w.busy)
    (hnotices : v.notices = w.notices ++ packetsOn s.ncb.hld o.callback n)
    (hshut : v.Shuts s.ncb.hld o w') (hk : k ∈ w'.freed) :
    Mirrors s₁.close k { w' with busy := w'.busy.erase s.ncb.hld }
      ∧ Told s s₁.close w { w' with busy := w'.busy.erase s.ncb.hld } := by
  obtain ⟨new, hevents, hnew⟩ := hn.events
  have hfree : w'.busy.erase s.ncb.hld = w.busy := by
    rw [hshut.busy, hbusy, List.erase_cons_head]
  constructor
  · constructor
    case hld => exact hn.hld ▸ hm.hld
    case obj =>
      obtain ⟨o', ho', hproto, hcallback, hclosed⟩ := hshut.obj
      refine ⟨o', ?_, hproto.trans htcp, ?_, hclosed⟩
      · exact hn.hld ▸ ho'
      · exact (hcallback.trans hcb).trans hn.callback.symm
    case free =>
      show s₁.ncb.hld ∉ w'.busy.erase s.ncb.hld
      rw [hfree, hn.hld]
      exact hm.free
    case posted => exact fun h => absurd h (show ¬ true = false by decide)
    case freed => exact fun _ => hk
  · obtain ⟨closing, hw', hclosing⟩ := hshut.notices
    refine ⟨new, closing, hevents, ?_, hclosing, fun h => absurd h (show ¬ true = false by decide)⟩
    show w'.notices = _
    rw [hw', hnotices, hnew, hcb]

variable {τ : Type} [DecidableEq τ] {S : SysState τ} {u : τ}

/-- A completion that is dispatched at once. -/
theorem reaches_of_completion {transfer : Int} {turns : Nat} {calls : List (Call × Int)}
    (hm : Mirrors s k S.world) (hopen : s.closed = false) (hu : S.thread u = .idle)
    (hruns : (Job.prog (.completion (recvReq s k) 0 transfer turns noAddrs)).Runs calls 0)
    (hw : system.answers { S.world with
      posted := S.world.posted.erase (recvReq s k), busy := s.ncb.hld :: S.world.busy
    } calls = some w') :
    Reaches system anyRun S
      { S with world := { w' with busy := w'.busy.erase s.ncb.hld } } := by
  have hstart : system.start S.world (.completion (recvReq s k) 0 transfer turns noAddrs)
      = some { S.world with
          posted := S.world.posted.erase (recvReq s k), busy := s.ncb.hld :: S.world.busy } :=
    (if_pos ⟨hm.posted hopen, hm.free⟩).trans rfl
  exact reaches_of_runs .refl hu hstart trivial (fun _ _ _ _ => trivial) hruns hw

/-- **A step of the link is a dispatch of the system.** -/
theorem recvStep_simulated (hm : Mirrors s k S.world) (hopen : s.closed = false)
    (hu : S.thread u = .idle) (hrefr : x.outcome.refr = true)
    (hstep : recvStep A ndebug s x = .ok s') :
    ∃ w', Reaches system anyRun S { S with world := w' } ∧ Mirrors s' k w'
      ∧ s'.ncb.hld = s.ncb.hld ∧ Told s s' S.world w' := by
  obtain ⟨o, ho, htcp, hcb, hclosed⟩ := hm.obj
  let w₁ : World := { S.world with
    posted := S.world.posted.erase (recvReq s k), busy := s.ncb.hld :: S.world.busy }
  have ho₁ : w₁.obj (recvReq s k).link = some o := ho
  -- the peer has closed: `tcp_shutdown_by_packet` closes the link
  by_cases hdata : x.data = []
  · obtain ⟨s₁, hn, rfl⟩ := (recvStep_empty hdata).of_ok hstep
    have hruns : (tcpDispatchIoRecv (recvReq s k) 0 0).Runs
        [(.objclos s.ncb.hld, 0), (.freepkt k, 0)] () := ⟨rfl, rfl, rfl⟩
    have hw : system.answers w₁ [(.objclos s.ncb.hld, 0), (.freepkt k, 0)]
        = some { w₁.close s.ncb.hld o with freed := k :: (w₁.close s.ncb.hld o).freed } := by
      simp only [answers_cons, system_answer, World.answer, show w₁.obj s.ncb.hld = some o from ho]
      rfl
    have hclose := w₁.close_shuts s.ncb.hld o
    have hshut : w₁.Shuts s.ncb.hld o
        { w₁.close s.ncb.hld o with freed := k :: (w₁.close s.ncb.hld o).freed } :=
      ⟨hclose.obj, hclose.posted, hclose.busy, fun k' hk' => List.mem_cons_of_mem _
        (hclose.freed k' hk'), hclose.notices⟩
    have hdone := mirrors_closed (n := 0) hm hcb htcp hn rfl
      (by rw [packetsOn_zero, List.append_nil]) hshut List.mem_cons_self
    exact ⟨_, reaches_of_completion hm hopen hu (completion_runs rfl rfl hruns) hw, hdone.1, hn.hld,
      hdone.2⟩
  -- data: the dispatch runs, and posts the receive again or closes
  · obtain ⟨n, retval, s₁, hparse, hn, hs'⟩ := (recvStep_delivers hrefr hdata).of_ok hstep
    have hlen : (0 : Int) < x.data.length := Int.natCast_pos.mpr (List.length_pos_iff.mpr hdata)
    obtain ⟨calls, hruns, hw⟩ := tcpDispatchIoRecv_answers (p := recvReq s k) x.outcome.post hlen
      hm.hld hparse ho₁ (hclosed.trans hopen) htcp
    have hreach := reaches_of_completion hm hopen hu (completion_runs rfl rfl hruns) hw
    refine ⟨_, hreach, ?_⟩
    subst hs'
    cases hgood : decide (0 ≤ retval) && x.outcome.post with
    | true =>
        obtain ⟨hmirrors, htold⟩ := mirrors_again
          (v := { w₁.hear s.ncb.hld o.callback n with posted := recvReq s k :: w₁.posted })
          hm hopen hcb hn rfl List.mem_cons_self rfl rfl
        exact ⟨hmirrors, hn.hld, htold⟩
    | false =>
        have hshut := World.close_shuts
          { w₁.hear s.ncb.hld o.callback n with freed := k :: w₁.freed } s.ncb.hld o
        obtain ⟨hmirrors, htold⟩ := mirrors_closed hm hcb htcp hn rfl rfl hshut
          (hshut.freed k List.mem_cons_self)
        exact ⟨hmirrors, hn.hld, htold⟩

theorem Told.refl (s : RecvLink) (w : World) : Told s s w w :=
  ⟨[], [], (List.append_nil _).symm, by simp, List.nil_sublist _, fun _ => rfl⟩

/-- Told of one step after the other, as long as the link is open between them. -/
theorem Told.trans {w₁ w₂ : World} {s₁ s₂ : RecvLink} (h₁ : Told s s₁ w w₁) (h₂ : Told s₁ s₂ w₁ w₂)
    (hopen : s₁.closed = false) (hhld : s₁.ncb.hld = s.ncb.hld) : Told s s₂ w w₂ := by
  obtain ⟨new₁, closing₁, hevents₁, hnotices₁, -, hnone⟩ := h₁.told
  obtain ⟨new₂, closing₂, hevents₂, hnotices₂, hclosing₂, hquiet⟩ := h₂.told
  rw [hhld] at hclosing₂
  refine ⟨new₁ ++ new₂, closing₂, ?_, ?_, hclosing₂, hquiet⟩
  · rw [hevents₂, hevents₁, List.append_assoc]
  · rw [hnotices₂, hnotices₁, hnone hopen, List.append_nil, List.map_append]
    simp only [List.append_assoc]

/-- **A run of completions of the link is a run of the system.** The user is told of the same
events, in the same order; the receive packet is outstanding until the link is closed, and then it
is freed. -/
theorem recvRun_simulated {xs : List RecvCompletion} (hm : Mirrors s k S.world)
    (hu : S.thread u = .idle) (hrefr : ∀ x ∈ xs, x.outcome.refr = true)
    (hrun : recvRun A ndebug s xs = .ok s') :
    ∃ w', Reaches system anyRun S { S with world := w' } ∧ Mirrors s' k w'
      ∧ Told s s' S.world w' := by
  induction xs generalizing s S with
  | nil =>
      cases hrun
      exact ⟨S.world, .refl, hm, .refl _ _⟩
  | cons x xs ih =>
      rw [recvRun] at hrun
      split at hrun
      · cases hrun
        exact ⟨S.world, .refl, hm, .refl _ _⟩
      next hopen =>
        have hopen := Bool.eq_false_iff.mpr hopen
        cases hstep : recvStep A ndebug s x with
        | error e =>
            rw [hstep] at hrun
            cases hrun
        | ok s₁ =>
            rw [hstep, ok_bind] at hrun
            obtain ⟨w₁, hreach₁, hm₁, hhld, htold₁⟩ :=
              recvStep_simulated hm hopen hu (hrefr x List.mem_cons_self) hstep
            cases hclosed : s₁.closed with
            | false =>
                obtain ⟨w₂, hreach₂, hm₂, htold₂⟩ := ih (S := { S with world := w₁ }) hm₁ hu
                  (fun y hy => hrefr y (List.mem_cons_of_mem _ hy)) hrun
                exact ⟨w₂, hreach₁.trans hreach₂, hm₂, htold₁.trans htold₂ hclosed hhld⟩
            -- a closed link dispatches no more, here as there
            | true =>
                rw [recvRun_of_closed A ndebug hclosed] at hrun
                cases hrun
                exact ⟨w₁, hreach₁, hm₁, htold₁⟩

/-- A connected link without a template. -/
def connectedLink : RecvLink := .start 0 true 0 ⟨0, none, none⟩ fun _ => 0

/-- Link 0 is created and connected, and its first receive is posted with packet 0. Two bytes
arrive, and then the peer closes the connection. -/
theorem recvRun_simulated_closed : ∃ (s : RecvLink) (S : SysState Unit) (w' : World),
    SysReaches anyRun S ∧ Mirrors connectedLink 0 S.world
      ∧ Reaches system anyRun S { S with world := w' } ∧ Mirrors s 0 w'
      ∧ Told connectedLink s S.world w' ∧ s.closed = true := by
  obtain ⟨S, hS, hidle, ⟨o, ho, hobj⟩, hfree, hposted⟩ := sys_of_play anyRun
    (P := fun S => idling S () = true
      ∧ (∃ o ∈ S.world.obj 0, o.proto = .tcp ∧ o.callback = true ∧ o.closed = false)
      ∧ 0 ∉ S.world.busy ∧ recvReq connectedLink 0 ∈ S.world.posted)
    (createTcp () 0 ++ .start () (.user (.tcpConnect 0 true somePeer)) :: referTcp ()
      ++ Move.calls () (1 :: List.replicate 12 0) ++ [.finish ()])
    (by decide +kernel)
  have hm : Mirrors connectedLink 0 S.world :=
    ⟨le_rfl, ⟨o, ho, hobj⟩, hfree, fun _ => hposted,
      fun h => absurd h (show ¬ false = true by decide)⟩
  have hrun : recvRun ⟨1, 2, 4⟩ true connectedLink
      [⟨[7, 8], ⟨true, none, true⟩⟩, ⟨[], ⟨true, none, true⟩⟩] = .ok _ := rfl
  obtain ⟨w', hreach, hm', htold⟩ := recvRun_simulated hm (idle_of_idling hidle) (by simp) hrun
  exact ⟨_, S, w', hS, hm, hreach, hm', htold, rfl⟩

end

end Swnet.Sys
