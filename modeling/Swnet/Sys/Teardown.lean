import Swnet.Sys.Counting

/-!
# Swnet — construction and teardown of TCP links

`tcp_entry` creates the socket, then the locker, then the list head of the sender queue, one
right after the other; where it fails, `tcp_unload` runs on what there is. `Stage` follows the
construction within a job, `Built` says what of an object is set up at each stage, and
`teardown_iff` when the unload routine works on a whole object.

A job can only build what it has just allocated, and once the socket is there nothing can go wrong
before the list head is: `Stage.Need` allows no other call in between. So an object is in one of
three states in every state of a run: no job is building it and it is whole or bare, or the one job
that allocated it is at one of the stages (`AllBuilt`, kept by every call). The unload routine
cannot run in between, as the stages make no call that releases or closes.
-/

namespace Swnet.Sys

open Jobs Jobs.Prog

/-! ## Construction -/

/-- How far the object a job has just allocated is built. -/
inductive Stage where
  | quiet
  | allocated (h : Int) (proto : ProtoType)
  | socket (h : Int)
  | locker (h : Int)

namespace Stage

/-- The stage after a call that was answered with `a`. -/
def after : Stage → Call → Int → Stage
  | _, .objallo proto _, a => if a < 0 then .quiet else .allocated a proto
  | .allocated h proto, .objrefr _, _ => .allocated h proto
  | .allocated h proto, .ncb _ .setCallback, _ => .allocated h proto
  | .allocated h proto, .ncb _ (.write _), _ => .allocated h proto
  | .allocated h proto, .ncb _ .soCreate, a =>
    if proto = .tcp ∧ 0 ≤ a then .socket h else .quiet
  | .socket h, .ncb _ .initLocker, _ => .locker h
  | _, _, _ => .quiet

/-- Between the socket and the list head, a job makes no other call. -/
def Need : Stage → Call → Prop
  | g, .ncb h .soCreate => ∃ proto, g = .allocated h proto
  | g, .ncb h .initLocker => g = .socket h
  | g, .ncb h .initListHead => g = .locker h
  | .socket _, _ | .locker _, _ => False
  | _, _ => True

-- the socket of a TCP link is not left without its locker
example (h : Int) : ¬ ((allocated h .tcp).after (.ncb h .soCreate) 0).Need (.objdefr h) := by
  simp [after, Need]

/-- Nothing is half built. -/
def Whole (g : Stage) : Prop := (∀ h, g ≠ .socket h) ∧ ∀ h, g ≠ .locker h

/-- The object that is being built. -/
def object : Stage → Option Int
  | .quiet => none
  | .allocated h _ | .socket h | .locker h => some h

end Stage

/-- The ledger of construction. -/
def stages : Ledger Job Call Int Int Stage where
  idle := .quiet
  init _ := .quiet
  upd := .after
  need := Stage.Need
  ok _ _ _ := True
  post _ g _ := g.Whole

/-- A call that builds nothing. -/
@[simp] def Call.Ordinary : Call → Prop
  | .objallo .. | .ncb _ .soCreate | .ncb _ .initLocker | .ncb _ .initListHead => False
  | _ => True

section

variable {α β : Type} {g : Stage} {h : Int}

/-- Whatever a program builds, it builds whole. -/
abbrev BuildsWhole (p : CallProg α) : Prop :=
  ∀ g : Stage, g.Whole → p.Meets Stage.after Stage.Need (fun _ _ _ => True) g fun g' _ => g'.Whole

theorem Stage.whole_quiet : Stage.quiet.Whole := ⟨nofun, nofun⟩

theorem Stage.ordinary_need {c : Call} (hg : g.Whole) (hc : c.Ordinary) : g.Need c := by
  cases c with
  | ncb l x => cases x <;> simp_all [Stage.Need] <;> grind [Stage.Whole]
  | objallo => exact absurd hc id
  | _ => cases g <;> simp_all [Stage.Need] <;> grind [Stage.Whole]

theorem Stage.ordinary_after {c : Call} {a : Int} (hg : g.Whole) (hc : c.Ordinary) :
    (g.after c a).Whole := by
  cases c with
  | ncb l x => cases x <;> cases g <;> simp_all [Stage.after, Stage.Whole]
  | objallo => exact absurd hc id
  | _ => cases g <;> simp_all [Stage.after, Stage.Whole]

/-- A program of ordinary calls builds nothing. By induction on it. -/
theorem BuildsWhole.of_ordinary {p : CallProg α} (hp : p.Uses Call.Ordinary) : BuildsWhole p :=
  fun _ hg => hp.keeps (fun _ _ => Stage.ordinary_need) (fun _ _ _ => Stage.ordinary_after) hg

/-- A program that stays on one link makes none. -/
theorem BuildsWhole.of_local {p : CallProg α} {l : Int} (hp : p.Uses (Call.Local l)) :
    BuildsWhole p := by
  refine .of_ordinary (hp.mono fun c hc => ?_)
  cases c with
  | objallo => exact hc
  | ncb k x => cases x <;> first | exact trivial | exact hc.2
  | _ => exact trivial

/-- What is built in parts is whole after each of them. -/
theorem BuildsWhole.bind {p : CallProg α} {f : α → CallProg β} (hp : BuildsWhole p)
    (hf : ∀ r, BuildsWhole (f r)) : BuildsWhole (p >>= f) :=
  fun g hg => meets_bind.mpr ((hp g hg).mono fun g' r hg' => hf r g' hg')

/-- Both branches have to build whole objects. -/
theorem BuildsWhole.ite {c : Prop} [Decidable c] {p q : CallProg α} (hp : BuildsWhole p)
    (hq : BuildsWhole q) : BuildsWhole (if c then p else q) :=
  fun g hg => meets_ite.mpr ⟨fun _ => hp g hg, fun _ => hq g hg⟩

/-! ## Making links -/

/-- Starting with an object that was just allocated. -/
abbrev BuildsFrom (h : Int) (proto : ProtoType) (p : CallProg α) : Prop :=
  p.Meets Stage.after Stage.Need (fun _ _ _ => True) (.allocated h proto) fun g' _ => g'.Whole

/-- An object without a socket is not half built. -/
theorem Stage.whole_allocated {proto : ProtoType} : (Stage.allocated h proto).Whole :=
  ⟨nofun, nofun⟩

/-- The steps of `tcp_entry`: the socket is followed by the locker, and that by the list head. A
socket that could not be created leaves the object bare. -/
theorem tcpEntrySteps_whole {remote : Bool} : BuildsFrom h .tcp (tcpEntrySteps h remote) := by
  refine meets_bind.mpr (meets_perform.mpr ⟨⟨.tcp, rfl⟩, fun sockfd _ => ?_⟩)
  refine meets_ite.mpr ⟨fun hneg => ?_, fun hpos => ?_⟩
  · simpa [Stage.after, show ¬ 0 ≤ sockfd by omega] using Stage.whole_quiet
  · have hstage : (Stage.allocated h .tcp).after (.ncb h .soCreate) sockfd = .socket h := by
      simp [Stage.after]
      omega
    rw [hstage]
    refine meets_bind.mpr (meets_void.mpr ⟨rfl, fun _ _ => ?_⟩)
    refine meets_bind.mpr (meets_void.mpr ⟨rfl, fun _ _ => ?_⟩)
    refine BuildsWhole.of_ordinary ?_ _ Stage.whole_quiet
    cases remote <;> simp [tcpEntryLocal, tcpUpdateOpts]

/-- `tcp_entry`, with the callback and the handle set before. -/
theorem tcpEntry_whole {remote : Bool} : BuildsFrom h .tcp (tcpEntry h remote) := by
  refine meets_bind.mpr (meets_void.mpr ⟨trivial, fun _ _ => ?_⟩)
  refine meets_bind.mpr (meets_void.mpr ⟨trivial, fun _ _ => ?_⟩)
  refine meets_bind.mpr (tcpEntrySteps_whole.mono fun g r hg => ?_)
  exact BuildsWhole.of_ordinary (by simp) g hg

/-- A UDP link has neither locker nor list. -/
theorem udpEntry_whole {anyPort broadcast : Bool} :
    BuildsFrom h .udp (udpEntry h anyPort broadcast) := by
  refine meets_bind.mpr (meets_void.mpr ⟨trivial, fun _ _ => ?_⟩)
  refine meets_bind.mpr (meets_perform.mpr ⟨⟨.udp, rfl⟩, fun sockfd _ => ?_⟩)
  refine BuildsWhole.of_ordinary ?_ _ ?_
  · simp [udpEntryOpts, udpUpdateOpts]
  · simpa [Stage.after] using Stage.whole_quiet

/-- Allocating an object, and building it while a reference is held. -/
theorem allocated_whole {proto : ProtoType} {remote : Bool} {entry : Int → CallProg Int}
    (hentry : ∀ h, BuildsFrom h proto (entry h)) : BuildsWhole (do
      let h ← perform (.objallo proto remote)
      if h < 0 then return -1
      else do
        let ncb ← perform (.objrefr h)
        let retval ← if ncb < 0 then pure (-1) else entry h
        void (.objdefr h)
        if retval < 0 then do
          void (.objclos h)
          return -1
        else return h) := by
  intro g hg
  have hneed : g.Need (.objallo proto remote) := by
    cases g with
    | quiet | allocated => trivial
    | socket h => exact absurd rfl (hg.1 h)
    | locker h => exact absurd rfl (hg.2 h)
  have hend : ∀ (h r : Int), BuildsWhole (do
      void (.objdefr h)
      if r < 0 then do
        void (.objclos h)
        return -1
      else return h : CallProg Int) := fun h r => .of_ordinary (by simp)
  refine meets_bind.mpr (meets_perform.mpr ⟨hneed, fun h _ => ?_⟩)
  have hstage : g.after (.objallo proto remote) h
      = if h < 0 then .quiet else .allocated h proto := by
    cases g <;> rfl
  refine meets_ite.mpr ⟨fun hneg => ?_, fun hpos => ?_⟩
  · rw [hstage, if_pos hneg]
    exact Stage.whole_quiet
  rw [hstage, if_neg hpos]
  refine meets_bind.mpr (meets_perform.mpr ⟨trivial, fun ncb _ => ?_⟩)
  dsimp only
  refine meets_ite.mpr ⟨fun _ => ?_, fun _ => ?_⟩
  · exact hend h (-1) _ Stage.whole_allocated
  · exact meets_bind.mpr ((hentry h).mono fun g' r hg' => hend h r g' hg')

/-- `tcp_allocate_object`, whether `tcp_entry` goes through or not. -/
theorem tcpAllocateObject_whole {remote : Bool} : BuildsWhole (tcpAllocateObject remote) :=
  allocated_whole fun _ => tcpEntry_whole

theorem udpAllocateObject_whole {anyPort broadcast : Bool} :
    BuildsWhole (udpAllocateObject anyPort broadcast) :=
  allocated_whole fun _ => udpEntry_whole

theorem tcpCreate_whole {userCallback lIpstr : Bool} :
    BuildsWhole (tcpCreate userCallback lIpstr) := by
  have hmake :
      ∀ parsed : Int, BuildsWhole (if parsed ≤ 0 then pure (-1) else tcpAllocateObject false) :=
    fun parsed => .ite (.of_ordinary (by simp)) tcpAllocateObject_whole
  refine .ite (.of_ordinary (by simp)) (.ite (.bind ?_ hmake) (hmake 1))
  exact .of_ordinary (by simp)

theorem udpCreate_whole {userCallback lIpstr anyPort broadcast : Bool} :
    BuildsWhole (udpCreate userCallback lIpstr anyPort broadcast) := by
  refine .ite (.of_ordinary (by simp)) ?_
  dsimp only
  refine .ite (.bind (.of_ordinary (by simp)) fun parsed => ?_) ?_
  all_goals
    simp only [pure_eq, done_bind]
    refine .ite (.of_ordinary (by simp)) (.bind udpAllocateObject_whole fun h => ?_)
    exact .of_ordinary (by simp [asioUdpRecv, asioTransfer])

/-! ## Accepting -/

/-- The rounds of `tcp_syn`: one object after the other. Induction on the rounds. -/
theorem tcpSynRounds_whole {l k : Int} {n : Nat} : BuildsWhole (tcpSynRounds l k n) := by
  induction n with
  | zero => exact .of_ordinary (by simp [tcpSynRounds])
  | succ n ih =>
      refine .bind (.of_ordinary (by simp)) fun _ => .bind tcpAllocateObject_whole fun h => ?_
      refine .ite (.of_ordinary (by simp)) (.bind ?_ fun r => ?_)
      · exact .of_ordinary (by simp [asioTcpAccept])
      · exact .ite (.of_ordinary (by simp)) (.bind (.of_ordinary (by simp)) fun _ => ih)

theorem tcpSyn_whole {l : Int} : BuildsWhole (tcpSyn l) := by
  refine .bind (.of_ordinary (by simp)) fun _ => .bind (.of_ordinary (by simp)) fun k => ?_
  exact .ite (.of_ordinary (by simp)) tcpSynRounds_whole

theorem tcprefr_whole {l : Int} : BuildsWhole (tcprefr l) := .of_local protoRefr_local

/-- The dispatch of an accept makes the link for the next one. -/
theorem tcpDispatchIoSyn_whole {p : IoPacket} {irp : AcceptAddrs} :
    BuildsWhole (tcpDispatchIoSyn p irp) := by
  refine .bind tcprefr_whole fun r => .ite (.of_ordinary (by simp)) ?_
  refine .bind tcprefr_whole fun r₂ => ?_
  have hagain : BuildsWhole (do
      let retval ← tcpSyn p.link
      if retval < 0 then objclosHld p.link
      objdefrHld p.link : CallProg Unit) :=
    .bind tcpSyn_whole fun r₃ => .of_ordinary (by simp)
  refine .ite (.bind ?_ fun _ => hagain) hagain
  exact .of_ordinary (by
    simp [takeAccepted, tcpSynCopy, tcpSynCopyKnown, firstRecv, asioTcpRecv, asioTransfer])

theorem tcpShutdownSyn_whole {p : IoPacket} : BuildsWhole (tcpShutdownSyn p) := by
  refine .bind tcprefr_whole fun r => ?_
  refine .ite (.bind tcpSyn_whole fun _ => ?_) ?_ <;> exact .of_ordinary (by simp)

/-- `tcp_listen` makes a link for each of its requests. -/
theorem tcpListen_whole {lnk block : Int} : BuildsWhole (tcpListen lnk block) := by
  have hrounds : ∀ n, BuildsWhole (tcpListenRounds lnk n) := by
    intro n
    induction n with
    | zero => exact tcpSyn_whole
    | succ n ih => exact .bind tcpSyn_whole fun r => .ite (.of_ordinary (by simp)) ih
  refine .bind tcprefr_whole fun r => .ite (.of_ordinary (by simp)) ?_
  have hend : ∀ retval : Int, BuildsWhole (do
      objdefrHld lnk
      return retval : CallProg Int) := fun retval => .of_ordinary (by simp)
  refine .bind (.of_ordinary (by simp)) fun retval => ?_
  exact .ite (hend retval) (.bind (hrounds _) hend)

/-! ## Every job -/

theorem soDispatchSyn_whole {p : IoPacket} (hp : p.IsSyn) {status : NtStatus} {transfer : Int}
    {turns : Nat} {irp : AcceptAddrs} :
    BuildsWhole (soDispatchIoEvent p status transfer turns irp) := by
  obtain ⟨htcp, hsyn⟩ := hp
  simp only [soDispatchIoEvent, htcp, tcpDispatchIoEvent, tcpDispatchIoException, hsyn,
    reduceCtorEq, if_false, tcpShutdownByPacket]
  refine .ite tcpDispatchIoSyn_whole (.bind tcprefr_whole fun r => ?_)
  refine .ite (.of_ordinary (by simp)) ?_
  exact .bind tcpShutdownSyn_whole fun _ => .of_ordinary (by simp)

/-- **No job leaves an object half built.** -/
theorem job_whole (j : Job) : BuildsWhole j.prog := by
  cases j with
  | completion p status transfer turns irp =>
      refine .bind ?_ fun _ => .of_ordinary (by simp)
      by_cases hp : p.IsSyn
      · exact soDispatchSyn_whole hp
      · exact .of_local (soDispatchIoEvent_local rfl hp)
  | user c =>
      cases hl : c.link with
      | none =>
          cases c with
          | tcpCreate => exact tcpCreate_whole
          | udpCreate => exact udpCreate_whole
          | _ => cases hl
      | some l =>
          by_cases hc : ∃ block, c = .tcpListen l block
          · obtain ⟨block, rfl⟩ := hc
            exact tcpListen_whole
          · exact .of_local (UserCall.prog_local hl fun block h => hc ⟨block, h⟩)

end

/-! ## What is set up -/

namespace Obj

/-- `tcp_entry` has set up nothing. -/
def Bare (o : Obj) : Prop := o.socketsMade = 0 ∧ o.lockerInits = 0 ∧ o.cacheHead = none

/-- `tcp_entry` has set up all. -/
def Whole (o : Obj) : Prop := o.socketsMade = 1 ∧ o.lockerInits = 1 ∧ o.cacheHead ≠ none

/-- Every socket that was made is open, or was closed once. -/
def Sockets (o : Obj) : Prop := o.socketsClosed + (if o.socketOpen then 1 else 0) = o.socketsMade

/-- The same is set up. -/
structure SameParts (o o' : Obj) : Prop where
  made : o'.socketsMade = o.socketsMade
  locker : o'.lockerInits = o.lockerInits
  head : o'.cacheHead = none ↔ o.cacheHead = none
  sockets : o.Sockets → o'.Sockets

variable {o o₁ o₂ : Obj}

theorem SameParts.refl (o : Obj) : o.SameParts o := ⟨rfl, rfl, Iff.rfl, id⟩

theorem SameParts.trans (h₁ : o.SameParts o₁) (h₂ : o₁.SameParts o₂) : o.SameParts o₂ where
  made := h₂.made.trans h₁.made
  locker := h₂.locker.trans h₁.locker
  head := h₂.head.trans h₁.head
  sockets := h₂.sockets ∘ h₁.sockets

theorem ioclose_parts (o : Obj) : o.SameParts o.ioclose := by
  unfold ioclose
  split
  next hopen => exact ⟨rfl, rfl, Iff.rfl, fun h => by simpa [Sockets, hopen] using h⟩
  · exact .refl o

theorem tcpUnload_parts (o : Obj) : o.SameParts o.tcpUnload.1 := by
  refine (ioclose_parts o).trans ?_
  unfold tcpUnload
  dsimp only
  split
  next hlocker hhead =>
    rw [drain_eq]
    exact ⟨rfl, rfl, by simp [hhead], id⟩
  · exact ⟨rfl, rfl, Iff.rfl, id⟩

theorem ioclose_socketOpen (o : Obj) : o.ioclose.socketOpen = false := by
  unfold ioclose
  split
  · rfl
  next hopen => exact Bool.eq_false_iff.mpr hopen

theorem ioclose_sender (o : Obj) :
    o.ioclose.lockerInits = o.lockerInits ∧ o.ioclose.cacheHead = o.cacheHead := by
  unfold ioclose
  split <;> exact ⟨rfl, rfl⟩

theorem tcpUnload_socketOpen (o : Obj) : o.tcpUnload.1.socketOpen = false := by
  unfold tcpUnload
  dsimp only
  split
  · rw [drain_eq]
    exact o.ioclose_socketOpen
  · exact o.ioclose_socketOpen

/-- On a locker that was set up once and a list head that was set up, the drain loop runs. -/
theorem tcpUnload_queue {queue : List Int} (hlocker : o.lockerInits = 1)
    (hhead : o.cacheHead = some queue) : o.tcpUnload.2 = queue
      ∧ o.tcpUnload.1.cacheHead = some [] ∧ o.tcpUnload.1.drained = queue := by
  obtain ⟨hl, hh⟩ := o.ioclose_sender
  simp only [tcpUnload, hl, hlocker, hh, hhead, drain_eq, and_self]

/-- The unload routine of a TCP link is `tcp_unload`. -/
theorem unload_tcp (htcp : o.proto = .tcp) :
    o.unload = ({ o with unloaded := true } : Obj).tcpUnload := by
  simp only [unload, htcp]

theorem unload_parts (o : Obj) : o.SameParts o.unload.1 := by
  have hmark : o.SameParts { o with unloaded := true } := ⟨rfl, rfl, Iff.rfl, id⟩
  unfold unload
  dsimp only
  split
  · exact hmark.trans (tcpUnload_parts _)
  · exact hmark.trans (ioclose_parts _)

end Obj

/-- An access that sets up a part. -/
def Access.Builds : Access → Prop
  | .soCreate | .initLocker | .initListHead => True
  | _ => False

/-- An access builds nothing but where it is there to build. -/
theorem Access.apply_parts {x : Access} {a : Int} {o o' : Obj} (h : x.apply a o = some o')
    (hx : ¬ x.Builds) : o.SameParts o' := by
  have hclose := o.ioclose_parts
  cases x <;> simp only [Access.Builds, not_true_eq_false] at hx <;>
    simp only [Access.apply] at h <;> grind [Obj.SameParts, Obj.Sockets, Option.map_eq_none_iff]

/-- A call does the same to the parts of an object, unless it sets one up. -/
theorem ObjStep.parts {c : Call} {a k : Int} {o o' : Obj} (h : ObjStep c a k (some o) (some o')) :
    o.SameParts o' ∨ ∃ x, c = .ncb k x ∧ x.Builds ∧ x.apply a o = some o' := by
  have hset : ∀ {o₁ : Obj}, o₁.Settled o' → o.SameParts o₁ → o.SameParts o' := by
    intro o₁ hs h₁
    rcases hs.cases with rfl | ⟨-, -, -, rfl⟩
    · exact h₁
    · exact h₁.trans (Obj.unload_parts o₁)
  cases h with
  | same => exact .inl (.refl o)
  | refer => exact .inl ⟨rfl, rfl, Iff.rfl, id⟩
  | reff => exact .inl ⟨rfl, rfl, Iff.rfl, id⟩
  | defr hc hs => exact .inl (hset hs ⟨rfl, rfl, Iff.rfl, id⟩)
  | clos hc hs => exact .inl (hset hs ⟨rfl, rfl, Iff.rfl, id⟩)
  | @access _ _ x hc hx =>
      by_cases hb : x.Builds
      · exact .inr ⟨x, hc, hb, hx⟩
      · exact .inl (Access.apply_parts hx hb)

namespace Stage

variable {g : Stage} {c : Call} {a h : Int}

/-- The object of a stage was allocated just now, or is the one of the stage before. -/
theorem object_after (hg : (g.after c a).object = some h) :
    (∃ proto remote, c = .objallo proto remote ∧ 0 ≤ a ∧ a = h)
      ∨ g.object = some h ∧ ((∃ l, c = .objrefr l) ∨ ∃ l x, c = .ncb l x) := by
  cases c with
  | objallo proto remote => cases g <;> simp only [after] at hg <;> grind [object]
  | ncb l x => cases g <;> cases x <;> simp only [after] at hg <;> grind [object]
  | _ => cases g <;> simp only [after] at hg <;> grind [object]

/-- An object that is being built is in hand. -/
theorem object_held {j : Job} {t : CallTrace} (hg : (record after .quiet t).object = some h) :
    h ∈ (record LinkRecord.after (.start j) t).held := by
  induction t with
  | nil => cases hg
  | cons x t ih =>
      obtain ⟨c, a⟩ := x
      rcases object_after hg with ⟨proto, remote, rfl, ha, rfl⟩ | ⟨hold, ⟨l, rfl⟩ | ⟨l, x, rfl⟩⟩
      · simp [LinkRecord.after, show ¬ a < 0 by omega]
      · exact ih hold
      · exact ih hold

theorem need_socket (hn : (Stage.socket h).Need c) : c = .ncb h .initLocker := by
  cases c with
  | ncb l x => cases x <;> simp_all [Need]
  | _ => simp [Need] at hn

theorem need_locker (hn : (Stage.locker h).Need c) : c = .ncb h .initListHead := by
  cases c with
  | ncb l x => cases x <;> simp_all [Need]
  | _ => simp [Need] at hn

/-- A job has created a socket with its last call. -/
theorem socket_after (hg : g.after c a = .socket h) :
    g = .allocated h .tcp ∧ 0 ≤ a ∧ ∃ l, c = .ncb l .soCreate := by
  cases c with
  | objallo proto remote =>
      have hnew : (if a < 0 then Stage.quiet else .allocated a proto) = .socket h := by
        cases g <;> exact hg
      split at hnew <;> cases hnew
  | ncb l x => cases g <;> cases x <;> simp only [after] at hg <;> grind
  | _ => cases g <;> simp only [after] at hg <;> cases hg

/-- It has initialised the locker with its last call. -/
theorem locker_after (hg : g.after c a = .locker h) :
    g = .socket h ∧ ∃ l, c = .ncb l .initLocker := by
  cases c with
  | objallo proto remote =>
      have hnew : (if a < 0 then Stage.quiet else .allocated a proto) = .locker h := by
        cases g <;> exact hg
      split at hnew <;> cases hnew
  | ncb l x => cases g <;> cases x <;> simp only [after] at hg <;> grind
  | _ => cases g <;> simp only [after] at hg <;> cases hg

/-- It has allocated the object just now, or before. -/
theorem allocated_after {proto : ProtoType} (hg : g.after c a = .allocated h proto) :
    (∃ remote, c = .objallo proto remote ∧ 0 ≤ a ∧ a = h) ∨ g = .allocated h proto := by
  cases c with
  | objallo proto' remote =>
      have hnew : (if a < 0 then Stage.quiet else .allocated a proto') = .allocated h proto := by
        cases g <;> exact hg
      split at hnew
      · cases hnew
      · cases hnew
        exact .inl ⟨remote, rfl, by omega, rfl⟩
  | ncb l x => cases g <;> cases x <;> simp only [after] at hg <;> grind
  | _ => cases g <;> simp only [after] at hg <;> grind

/-- It is on record as what it was allocated as. -/
theorem allocated_made {j : Job} {t : CallTrace} {proto : ProtoType}
    (hg : record after .quiet t = .allocated h proto) :
    ∃ remote, (h, proto, remote) ∈ (record LinkRecord.after (.start j) t).made := by
  induction t with
  | nil => cases hg
  | cons x t ih =>
      obtain ⟨c, a⟩ := x
      rcases allocated_after hg with ⟨remote, rfl, ha, rfl⟩ | hold
      · exact ⟨remote, by simp [LinkRecord.after, show ¬ a < 0 by omega]⟩
      · obtain ⟨remote, hm⟩ := ih hold
        exact ⟨remote, (LinkRecord.grows_after _ c a).made hm⟩

end Stage

/-! ## In every run -/

section

variable {τ : Type} {rec : τ → Stage} {u : τ} {c : Call} {a h : Int} {o o' : Obj}

/-- What of an object is set up, where the jobs are at the stages `rec`. -/
structure Built (rec : τ → Stage) (h : Int) (o : Obj) : Prop where
  sockets : o.Sockets
  parts : (o.Bare ∧ ∀ u, rec u ≠ .socket h ∧ rec u ≠ .locker h)
    ∨ ((∃ u, rec u = .socket h) ∧ o.socketsMade = 1 ∧ o.lockerInits = 0 ∧ o.cacheHead = none)
    ∨ ((∃ u, rec u = .locker h) ∧ o.socketsMade = 1 ∧ o.lockerInits = 1 ∧ o.cacheHead = none)
    ∨ (o.Whole ∧ ∀ u, (rec u).object ≠ some h)

variable [DecidableEq τ]

/-- A call that sets up no part of the object. -/
theorem Built.other (hb : Built rec h o) (hp : o.SameParts o') (hn : (rec u).Need c)
    (hc : ∀ x, c = .ncb h x → ¬ x.Builds)
    (hnew : ∀ proto remote, c = .objallo proto remote → 0 ≤ a → a ≠ h) :
    Built (Function.update rec u ((rec u).after c a)) h o' := by
  have hsock : rec u ≠ .socket h := by
    intro hu
    rw [hu] at hn
    exact hc _ (Stage.need_socket hn) trivial
  have hlock : rec u ≠ .locker h := by
    intro hu
    rw [hu] at hn
    exact hc _ (Stage.need_locker hn) trivial
  have hsock' : (rec u).after c a ≠ .socket h := by
    intro hg
    obtain ⟨hu, -, l, rfl⟩ := Stage.socket_after hg
    obtain ⟨proto, hl⟩ := hn
    rw [hu] at hl
    cases hl
    exact hc _ rfl trivial
  have hlock' : (rec u).after c a ≠ .locker h := fun hg => hsock (Stage.locker_after hg).1
  have hother : ∀ {v g}, rec v = g → rec u ≠ g →
      Function.update rec u ((rec u).after c a) v = g := by
    intro v g hv hg
    rw [Function.update_of_ne]
    · exact hv
    · rintro rfl
      exact hg hv
  obtain ⟨hmade, hlocker, hhead, hsockets⟩ := hp
  refine ⟨hsockets hb.sockets, ?_⟩
  rcases hb.parts with ⟨⟨h₁, h₂, h₃⟩, hq⟩ | ⟨⟨v, hv⟩, h₁, h₂, h₃⟩ | ⟨⟨v, hv⟩, h₁, h₂, h₃⟩
    | ⟨⟨h₁, h₂, h₃⟩, hq⟩
  · refine .inl ⟨⟨hmade.trans h₁, hlocker.trans h₂, hhead.mpr h₃⟩, fun v => ?_⟩
    by_cases hv : v = u
    · subst hv
      rw [Function.update_self]
      exact ⟨hsock', hlock'⟩
    · rw [Function.update_of_ne hv]
      exact hq v
  · exact .inr (.inl ⟨⟨v, hother hv hsock⟩, hmade.trans h₁, hlocker.trans h₂, hhead.mpr h₃⟩)
  · exact .inr (.inr (.inl ⟨⟨v, hother hv hlock⟩, hmade.trans h₁, hlocker.trans h₂, hhead.mpr h₃⟩))
  · refine .inr (.inr (.inr ⟨⟨hmade.trans h₁, hlocker.trans h₂, mt hhead.mp h₃⟩, fun v => ?_⟩))
    by_cases hv : v = u
    · subst hv
      rw [Function.update_self]
      intro hobj
      rcases Stage.object_after hobj with ⟨proto, remote, hcall, ha, heq⟩ | ⟨hobj, -⟩
      · exact hnew proto remote hcall ha heq
      · exact hq v hobj
    · rw [Function.update_of_ne hv]
      exact hq v

/-- A call that sets up a part of it, by the one job that builds it. -/
theorem Built.build (hb : Built rec h o) {x : Access} (hx : x.Builds) (ho : x.apply a o = some o')
    (hn : (rec u).Need (.ncb h x))
    (hone : ∀ v, (rec v).object = some h → v = u)
    (htcp : ∀ proto, rec u = .allocated h proto → proto = .tcp) :
    Built (Function.update rec u ((rec u).after (.ncb h x) a)) h o' := by
  -- no other job is at work on it
  have hnone : ∀ v, v ≠ u → (rec v).object ≠ some h := fun v hv hobj => hv (hone v hobj)
  have hself : ∀ g, ∃ v, Function.update rec u g v = g := fun g => ⟨u, Function.update_self ..⟩
  have hcase : ∀ {g : Stage}, (∃ v, rec v = g) → g.object = some h → rec u = g := by
    rintro g ⟨v, hv⟩ hobj
    rw [← hone v (by rw [hv]; exact hobj)]
    exact hv
  cases x with
  | soCreate =>
      obtain ⟨proto, hu⟩ := hn
      obtain rfl := htcp proto hu
      simp only [Access.apply, Option.some.injEq] at ho
      -- nothing is set up yet
      have hbare : o.Bare := by
        rcases hb.parts with h | ⟨hv, -⟩ | ⟨hv, -⟩ | ⟨-, hq⟩
        · exact h.1
        · exact absurd (hu.symm.trans (hcase hv rfl)) (by simp)
        · exact absurd (hu.symm.trans (hcase hv rfl)) (by simp)
        · exact absurd (by rw [hu]; rfl) (hq u)
      obtain ⟨h₁, h₂, h₃⟩ := hbare
      have hsockets := hb.sockets
      simp only [Obj.Sockets, h₁] at hsockets
      by_cases ha : a < 0
      · rw [if_pos ha] at ho
        subst ho
        refine ⟨hb.sockets, .inl ⟨⟨h₁, h₂, h₃⟩, fun v => ?_⟩⟩
        by_cases hv : v = u
        · subst hv
          rw [Function.update_self, hu]
          simp [Stage.after, show ¬ 0 ≤ a by omega]
        · rw [Function.update_of_ne hv]
          exact ⟨fun h => hnone v hv (by rw [h]; rfl), fun h => hnone v hv (by rw [h]; rfl)⟩
      · rw [if_neg ha] at ho
        subst ho
        have hstage : (rec u).after (.ncb h .soCreate) a = .socket h := by
          rw [hu]
          simp [Stage.after, show 0 ≤ a by omega]
        rw [hstage]
        refine ⟨?_, .inr (.inl ⟨hself _, by simp [h₁], h₂, h₃⟩)⟩
        simp only [Obj.Sockets, if_true, h₁]
        omega
  | initLocker =>
      replace hn : rec u = .socket h := hn
      simp only [Access.apply, Option.some.injEq] at ho
      subst ho
      have hstage : (rec u).after (.ncb h .initLocker) a = .locker h := by rw [hn]; rfl
      rw [hstage]
      have hparts : o.socketsMade = 1 ∧ o.lockerInits = 0 ∧ o.cacheHead = none := by
        rcases hb.parts with ⟨-, hq⟩ | ⟨-, h⟩ | ⟨hv, -⟩ | ⟨-, hq⟩
        · exact absurd hn (hq u).1
        · exact h
        · exact absurd (hn.symm.trans (hcase hv rfl)) (by simp)
        · exact absurd (by rw [hn]; rfl) (hq u)
      obtain ⟨h₁, h₂, h₃⟩ := hparts
      exact ⟨hb.sockets, .inr (.inr (.inl ⟨hself _, h₁, by simp [h₂], h₃⟩))⟩
  | initListHead =>
      replace hn : rec u = .locker h := hn
      simp only [Access.apply, Option.some.injEq] at ho
      subst ho
      have hstage : (rec u).after (.ncb h .initListHead) a = .quiet := by rw [hn]; rfl
      rw [hstage]
      have hparts : o.socketsMade = 1 ∧ o.lockerInits = 1 ∧ o.cacheHead = none := by
        rcases hb.parts with ⟨-, hq⟩ | ⟨hv, -⟩ | ⟨-, h⟩ | ⟨-, hq⟩
        · exact absurd hn (hq u).2
        · exact absurd (hn.symm.trans (hcase hv rfl)) (by simp)
        · exact h
        · exact absurd (by rw [hn]; rfl) (hq u)
      obtain ⟨h₁, h₂, -⟩ := hparts
      refine ⟨hb.sockets, .inr (.inr (.inr ⟨⟨h₁, h₂, by simp⟩, fun v => ?_⟩))⟩
      by_cases hv : v = u
      · subst hv
        rw [Function.update_self]
        exact fun h => by cases h
      · rw [Function.update_of_ne hv]
        exact hnone v hv
  | _ => exact absurd hx id

variable {G : SysGuard} {s : SysState τ} {w w' : World}

/-- Every TCP object of a world is built as far as its maker says. -/
def AllBuilt (w : World) (rec : τ → Stage) : Prop :=
  ∀ h o, w.obj h = some o → o.proto = .tcp → Built rec h o

omit [DecidableEq τ] in
/-- A job that starts builds nothing yet. -/
theorem AllBuilt.start (hb : AllBuilt w rec) {j : Job} (hw : w.startJob j = some w') :
    AllBuilt w' rec := by
  intro h o' ho' htcp
  rcases (World.startJob_spec hw).same h with ⟨-, hnone⟩ | ⟨o, peer, ho, hpeer⟩
  · rw [hnone] at ho'
    cases ho'
  · rw [hpeer] at ho'
    cases ho'
    obtain ⟨hsockets, hparts⟩ := hb h o ho htcp
    exact ⟨hsockets, hparts⟩

/-- A call builds at most one object, which its job has in hand and no other has. -/
theorem AllBuilt.call {held : τ → LinkRecord} (hb : AllBuilt w rec) (hc : Custody w held)
    (hheld : ∀ v h, (rec v).object = some h → h ∈ (held v).held)
    (hmade : ∀ v h proto, rec v = .allocated h proto →
      ∃ remote, (h, proto, remote) ∈ (held v).made)
    (hw : w.answer c a = some w') (hn : (rec u).Need c) :
    AllBuilt w' (Function.update rec u ((rec u).after c a)) := by
  intro h o' ho' htcp
  cases ho : w.obj h with
  | none =>
      -- a new object
      obtain ⟨proto, remote, hcall, ha, hah, rfl⟩ := World.answer_made hw ho ho'
      have hout : ∀ v, (rec v).object ≠ some h := by
        intro v hv
        obtain ⟨o, ho₁, -⟩ := hc.held_open v h (hheld v h hv)
        rw [ho] at ho₁
        cases ho₁
      refine ⟨rfl, .inl ⟨⟨rfl, rfl, rfl⟩, fun v => ?_⟩⟩
      by_cases hv : v = u
      · subst hv
        rw [Function.update_self]
        constructor
        · intro hg
          obtain ⟨-, -, l, hl⟩ := Stage.socket_after hg
          rw [hcall] at hl
          cases hl
        · intro hg
          obtain ⟨-, l, hl⟩ := Stage.locker_after hg
          rw [hcall] at hl
          cases hl
      · rw [Function.update_of_ne hv]
        exact ⟨fun h => hout v (by rw [h]; rfl), fun h => hout v (by rw [h]; rfl)⟩
  | some o =>
      have hstep := World.answer_obj hw h
      rw [ho, ho'] at hstep
      obtain ⟨o₁, ho₁, hkeep⟩ := World.answer_keeps hw ho
      rw [ho'] at ho₁
      cases ho₁
      have htcp₀ : o.proto = .tcp := hkeep.kin.proto.symm.trans htcp
      by_cases hbuild : ∃ x, c = .ncb h x ∧ x.Builds ∧ x.apply a o = some o'
      · obtain ⟨x, rfl, hx, hax⟩ := hbuild
        refine (hb h o ho htcp₀).build hx hax hn (fun v hv => ?_) fun proto hproto => ?_
        · -- the job that makes the call builds the object
          have hu' : (rec u).object = some h := by
            cases x with
            | soCreate =>
                obtain ⟨proto, hg⟩ := hn
                rw [hg]
                rfl
            | initLocker =>
                rw [show rec u = .socket h from hn]
                rfl
            | initListHead =>
                rw [show rec u = .locker h from hn]
                rfl
            | _ => exact absurd hx id
          exact hc.held_apart (hheld v h hv) (hheld u h hu')
        · obtain ⟨remote, hm⟩ := hmade u h proto hproto
          obtain ⟨o₂, ho₂, hp, -⟩ := hc.made u _ _ _ hm
          rw [ho] at ho₂
          cases ho₂
          exact hp.symm.trans htcp₀
      · have hparts := hstep.parts.resolve_right hbuild
        refine (hb h o ho htcp₀).other hparts hn (fun x hx hxb => hbuild ?_) ?_
        · subst hx
          simp only [World.answer, ho] at hw
          obtain ⟨o₂, ho₂, rfl⟩ := Option.map_eq_some_iff.mp hw
          rw [World.setObj_obj, Function.update_self] at ho'
          cases ho'
          exact ⟨x, rfl, hxb, ho₂⟩
        · rintro proto remote rfl ha rfl
          have hnone := (World.answer_allo ha hw).1
          rw [ho] at hnone
          cases hnone

/-- A job that returns leaves no object half built. -/
theorem AllBuilt.finish (hb : AllBuilt w rec) (hp : (rec u).Whole) {j : Job} {r : Int} :
    AllBuilt (w.finishJob j r) (Function.update rec u .quiet) := by
  intro h o ho htcp
  have hobj := (World.finishJob_spec w j r).1
  obtain ⟨hsockets, hparts⟩ := hb h o (by rw [← hobj]; exact ho) htcp
  have hother : ∀ {v g}, rec v = g → rec u ≠ g → Function.update rec u .quiet v = g := by
    intro v g hv hg
    rw [Function.update_of_ne]
    · exact hv
    · rintro rfl
      exact hg hv
  have hquiet : ∀ {P : Stage → Prop}, (∀ v, P (rec v)) → P .quiet →
      ∀ v, P (Function.update rec u .quiet v) := by
    intro P hall hq v
    by_cases hv : v = u
    · subst hv
      rw [Function.update_self]
      exact hq
    · rw [Function.update_of_ne hv]
      exact hall v
  refine ⟨hsockets, ?_⟩
  rcases hparts with ⟨hbare, hq⟩ | ⟨⟨v, hv⟩, h₁⟩ | ⟨⟨v, hv⟩, h₁⟩ | ⟨hwhole, hq⟩
  · exact .inl ⟨hbare, hquiet (P := fun g => g ≠ .socket h ∧ g ≠ .locker h) hq ⟨by simp, by simp⟩⟩
  · exact .inr (.inl ⟨⟨v, hother hv (hp.1 h)⟩, h₁⟩)
  · exact .inr (.inr (.inl ⟨⟨v, hother hv (hp.2 h)⟩, h₁⟩))
  · exact .inr
      (.inr (.inr ⟨hwhole, hquiet (P := fun g => g.object ≠ some h) hq (fun h => by cases h)⟩))

omit [DecidableEq τ] in
/-- An object at a stage of its construction is in hand of its maker. -/
theorem stage_held {v : τ} (hv : ((s.records stages) v).object = some h) :
    h ∈ ((s.records links) v).held := by
  simp only [State.records] at hv ⊢
  cases hs : s.thread v with
  | idle =>
      rw [hs] at hv
      cases hv
  | running j t p =>
      rw [hs] at hv
      exact Stage.object_held hv

omit [DecidableEq τ] in
/-- The object being built is on the ledger of links as made by the job. -/
theorem stage_made {v : τ} {proto : ProtoType} (hv : (s.records stages) v = .allocated h proto) :
    ∃ remote, (h, proto, remote) ∈ ((s.records links) v).made := by
  simp only [State.records] at hv ⊢
  cases hs : s.thread v with
  | idle =>
      rw [hs] at hv
      cases hv
  | running j t p =>
      rw [hs] at hv
      exact Stage.allocated_made hv

/-- **In every run** each object is at the stage its builder has reached, and nothing is half built
but by a job at work on it. Induction on the run. -/
theorem sys_built (hr : SysReaches G s) :
    AllBuilt s.world (s.records stages) ∧ s.Meets stages := by
  have hkept : Kept stages system G (State.rest World.initial) (AllBuilt (τ := τ)) := by
    constructor
    case env =>
      intro s e
      exact e.elim
    case start =>
      intro s u j w hs hb hu hw hG
      have hsame : Function.update (s.records stages) u (stages.init j) = s.records stages := by
        have hquiet : s.records stages u = stages.init j := State.records_idle hu
        rw [← hquiet, Function.update_eq_self]
      rw [hsame]
      exact ⟨job_whole j _ Stage.whole_quiet, hb.start hw⟩
    case call =>
      intro s u j t c k a w hs hb hu hw hG hn
      obtain ⟨hc, -⟩ := sys_custody hs
      exact ⟨trivial, hb.call hc (fun v h => stage_held) (fun v h proto => stage_made) hw hn⟩
    case finish =>
      intro s u j t r hs hb hu hp
      exact hb.finish hp
  refine hr.kept hkept ?_ (State.meets_rest _)
  intro h o ho
  cases ho

/-! ## Teardown -/

/-- `tcp_unload`, between `w` and `w'`, worked on an object that was whole: it used a locker that
was initialised once and a list that was set up, freed the packets that were queued, and closed
the socket that was created. -/
structure TornDown (w w' : World) (h : Int) (o : Obj) : Prop where
  locker : o.lockerInits = 1
  queue : ∃ queue o', o.cacheHead = some queue ∧ w'.obj h = some o'
    ∧ o'.cacheHead = some [] ∧ o'.drained = queue ∧ w'.freed = queue ++ w.freed

/-- **Teardown.** Whenever the unload routine of a TCP link runs, it closes the socket once if it
was created and not at all otherwise; and it works on a whole object if and only if `so_create`
had given it its socket. -/
theorem teardown_iff (hr : SysReaches G s) {u : τ} {j : Job} {t : CallTrace}
    (hu : calling s u = some (j, t, c)) {w : World} (hw : s.world.answer c a = some w)
    (ho : s.world.obj h = some o) (htcp : o.proto = .tcp) (hload : o.unloaded = false)
    (hgone : w.gone h = true) :
    (∃ o', w.obj h = some o' ∧ o'.socketOpen = false ∧ o'.socketsClosed = o.socketsMade
      ∧ o.socketsMade ≤ 1)
    ∧ (TornDown s.world w h o ↔ o.socketsMade = 1) := by
  obtain ⟨k, hk⟩ := running_of_calling hu
  obtain ⟨o₁, h₁, hclosed, hrefs, hobj, hfreed⟩ := World.answer_gone hw ho hload hgone
  obtain ⟨hc, hlinks⟩ := sys_custody hr
  obtain ⟨hbuilt, hstages⟩ := sys_built hr
  -- the call closes it or releases a reference
  obtain ⟨hto, htcp₁, hhead, hlocker, hmade⟩ : o.SameParts o₁ ∧ o₁.proto = .tcp
      ∧ o₁.cacheHead = o.cacheHead ∧ o₁.lockerInits = o.lockerInits
      ∧ o₁.socketsMade = o.socketsMade := by
    rcases h₁ with rfl | rfl <;> exact ⟨⟨rfl, rfl, Iff.rfl, id⟩, htcp, rfl, rfl, rfl⟩
  have hheld : ∀ v, h ∈ (s.records links v).held → v = u ∧ c = .objclos h := by
    intro v hv
    obtain ⟨o₂, ho₂, hopen⟩ := hc.held_open v h hv
    rw [ho] at ho₂
    cases ho₂
    have hcl : c.closes = some h := by
      by_contra hne
      obtain ⟨o', ho', hkeep⟩ := World.answer_keeps hw ho
      rw [hobj] at ho'
      cases ho'
      have heq := hkeep.opened hne
      rw [(Obj.unload_husk o₁).closed, hclosed, hopen] at heq
      cases heq
    rcases closes_cases (hlinks u j t _ hk).1 hcl with hs | ⟨hcall, hu'⟩
    · exact absurd hs (hc.not_shared hv)
    · exact ⟨hc.held_apart hv hu', hcall⟩
  -- nobody is at work on it
  have hwhole : o.Bare ∨ o.Whole := by
    have hneed := (hstages u j t _ hk).1
    rcases (hbuilt h o ho htcp).parts with ⟨h, -⟩ | ⟨⟨v, hv⟩, -⟩ | ⟨⟨v, hv⟩, -⟩ | ⟨h, -⟩
    · exact .inl h
    · obtain ⟨rfl, hcall⟩ := hheld v (stage_held (by rw [hv]; rfl))
      rw [hv] at hneed
      cases hcall.symm.trans (Stage.need_socket hneed)
    · obtain ⟨rfl, hcall⟩ := hheld v (stage_held (by rw [hv]; rfl))
      rw [hv] at hneed
      cases hcall.symm.trans (Stage.need_locker hneed)
    · exact .inr h
  have hunload := Obj.unload_tcp htcp₁
  refine ⟨⟨_, hobj, ?_, ?_, ?_⟩, ?_⟩
  · rw [hunload]
    exact Obj.tcpUnload_socketOpen _
  · have hsockets := (Obj.unload_parts o₁).sockets (hto.sockets (hbuilt h o ho htcp).sockets)
    have hopen : o₁.unload.1.socketOpen = false := by
      rw [hunload]
      exact Obj.tcpUnload_socketOpen _
    rw [Obj.Sockets, hopen, (Obj.unload_parts o₁).made, hmade] at hsockets
    simpa using hsockets
  · rcases hwhole with ⟨h₁, -⟩ | ⟨h₁, -⟩ <;> omega
  · constructor
    · rintro ⟨hone, -⟩
      rcases hwhole with ⟨-, h₂, -⟩ | ⟨h₁, -⟩
      · rw [hone] at h₂
        cases h₂
      · exact h₁
    · intro hone
      obtain ⟨-, h₂, h₃⟩ := hwhole.resolve_left fun h => absurd (hone.symm.trans h.1) (by decide)
      obtain ⟨queue, hq⟩ := Option.ne_none_iff_exists'.mp h₃
      obtain ⟨hfree, hempty, hdrained⟩ := Obj.tcpUnload_queue (o := { o₁ with unloaded := true })
        (hlocker.trans h₂) (hhead.trans hq)
      rw [← hunload] at hfree hempty hdrained
      exact ⟨h₂, queue, _, hq, hobj, hempty, hdrained, by rw [hfreed, hfree]⟩

end

/-- A call of `tcp_write` on link 0 with packet `k`, one of `n` queued, while one is outstanding. -/
def queuedWrite (k n : Int) : List (SysMove Unit) :=
  .start () (.user (.tcpWrite 1 0 true 5 false)) :: referTcp ()
    ++ Move.calls () ([n - 1, 0, 0, 0, k, 0, n, 0, 2, 1] ++ List.replicate 3 0) ++ [.finish ()]

/-- A link is created and written to three times, and destroyed while the first packet is with the
system: the two that are queued are freed. -/
theorem teardown_destroyed : ∃ (s : SysState Unit) (w : World) (o : Obj), SysReaches anyRun s
    ∧ s.world.obj 0 = some o ∧ o.cacheHead = some [8, 9] ∧ TornDown s.world w 0 o := by
  obtain ⟨s, hs, ⟨j, t, c⟩, hu, w, hw, o, ho, htcp, hload, hgone, hmade, hqueue⟩ :=
    sys_of_play anyRun
    (P := fun s => ∃ x ∈ calling s (), ∃ w ∈ s.world.answer x.2.2 0, ∃ o ∈ s.world.obj 0,
      o.proto = .tcp ∧ o.unloaded = false ∧ w.gone 0 = true ∧ o.socketsMade = 1
        ∧ o.cacheHead = some [8, 9])
    (createTcp () 0
      ++ .start () (.user (.tcpWrite 1 0 true 5 false)) :: referTcp ()
      ++ Move.calls () ([0, 0, 0, 0, 7, 0, 1, 0, 1, 7] ++ List.replicate 8 0) ++ [.finish ()]
      ++ queuedWrite 8 1 ++ queuedWrite 9 2
      ++ .start () (.user (.tcpDestroy 0)) :: Move.calls () [0, 0, 0])
    (by decide +kernel)
  exact ⟨s, w, o, hs, ho, hqueue, (teardown_iff hs hu hw ho htcp hload hgone).2.mpr hmade⟩

/-- `so_create` fails in `tcp_create`: the unload routine runs with a locker that was never
initialised and a list head that is all zero. -/
theorem teardown_bare : ∃ s : SysState Unit, SysReaches anyRun s ∧
    ∃ j t c w o, calling s () = some (j, t, c) ∧ s.world.answer c 0 = some w
      ∧ s.world.obj 0 = some o ∧ o.proto = .tcp ∧ o.unloaded = false ∧ w.gone 0 = true
      ∧ o.lockerInits = 0 ∧ o.cacheHead = none ∧ ¬ TornDown s.world w 0 o := by
  obtain ⟨s, hs, ⟨j, t, c⟩, hu, w, hw, o, ho, htcp, hload, hgone, hlocker, hhead⟩ :=
    sys_of_play anyRun
    (P := fun s => ∃ x ∈ calling s (), ∃ w ∈ s.world.answer x.2.2 0, ∃ o ∈ s.world.obj 0,
      o.proto = .tcp ∧ o.unloaded = false ∧ w.gone 0 = true ∧ o.lockerInits = 0
        ∧ o.cacheHead = none)
    (.start () (.user (.tcpCreate true false)) :: Move.calls () [0, 0, 0, 0, -1, 0, 0])
    (by decide +kernel)
  refine ⟨s, hs, j, t, c, w, o, hu, hw, ho, htcp, hload, hgone, hlocker, hhead, fun htorn => ?_⟩
  rw [htorn.locker] at hlocker
  cases hlocker

end Swnet.Sys
