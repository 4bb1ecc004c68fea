import Swnet.Sys.Teardown

/-!
# Swnet — what is set up before others get to know it

`tcp_entry` may fail half way, and the object it leaves then has no locker and no list head. It
must not get out: `tcp_create` returns a link, `tcp_syn` hands one to the system, and the dispatch
of an accept completion gives one to the user, only after `tcp_entry` has gone through.

* `founded` — the ledger of the links whose list head is set up;
* `job_founds` — no job gives away a link that is not on it;
* `published_whole` — a TCP link the user was given, or that waits in an accept request, has its
  socket, its locker and its list head.

A link comes on the ledger with the last call of `tcp_entry` that sets something up, and is never
taken off. The invariant `Published` says that what others know of is headed, and an object that is
headed was built whole (`sys_built`), since the list head comes last.
-/

namespace Swnet.Sys

open Jobs Jobs.Prog

/-! ## The record -/

namespace Founded

/-- The record after a call: the list head is what `tcp_entry` sets up last. -/
def after (g : List Int) (c : Call) (_ : Int) : List Int :=
  match c with
  | .ncb h .initListHead => h :: g
  | _ => g

/-- A link that others get to know of is on record. -/
@[simp] def Need (g : List Int) : Call → Prop
  | .post p => p.IsSyn → p.acceptedLink ∈ g
  | .emit n => ∀ h ∈ n.gives, h ∈ g
  | _ => True

/-- The link of an accept request was set up before the request was made. -/
def start : Job → List Int
  | .completion p _ _ _ _ => if p.IsSyn then [p.acceptedLink] else []
  | .user _ => []

def Post (j : Job) (g : List Int) (r : Int) : Prop :=
  match j with
  | .user (.tcpCreate ..) => 0 ≤ r → r ∈ g
  | _ => True

end Founded

/-- The ledger of links that are set up. -/
def founded : Ledger Job Call Int Int (List Int) where
  idle := []
  init := Founded.start
  upd := Founded.after
  need := Founded.Need
  ok _ _ _ := True
  post := Founded.Post

/-- A call that lets nobody know of a new link. -/
@[simp] def Call.Discreet : Call → Prop
  | .post p => ¬ p.IsSyn
  | .emit n => n.gives = []
  | _ => True

section

variable {g : List Int} {l k h : Int} {α β : Type}

abbrev Founds (p : CallProg α) (g : List Int) (Q : List Int → α → Prop) : Prop :=
  p.Meets Founded.after Founded.Need (fun _ _ _ => True) g Q

/-- Whatever is on record stays there. -/
abbrev Adds (p : CallProg α) (g : List Int) : Prop := Founds p g fun g' _ => g ⊆ g'

/-- What stays on record through each part stays through both. -/
theorem Adds.bind {p : CallProg α} {f : α → CallProg β} (hp : Adds p g)
    (hf : ∀ r g', g ⊆ g' → Adds (f r) g') : Adds (p >>= f) g := by
  refine meets_bind.mpr (hp.mono fun g₁ r h₁ => ?_)
  exact (hf r g₁ h₁).mono fun g₂ _ h₂ => List.Subset.trans h₁ h₂

/-- A call takes nothing off the record. -/
theorem Founded.subset_after (g : List Int) (c : Call) (a : Int) : g ⊆ after g c a := by
  cases c with
  | ncb h x => cases x <;> simp [after]
  | _ => exact List.Subset.refl g

/-- A program that lets nobody know of a new link may do what it likes. By induction on it. -/
theorem discreet_adds {p : CallProg α} (hp : p.Uses Call.Discreet) : Adds p g := by
  refine hp.keeps (I := fun g' => g ⊆ g') ?_ ?_ (List.Subset.refl g)
  · intro g' c _ hc
    cases c with
    | post p => exact fun hsyn => absurd hsyn hc
    | emit n =>
        intro h hh
        rw [show n.gives = [] from hc] at hh
        cases hh
    | _ => trivial
  · intro g' c a hg hc
    exact List.Subset.trans hg (Founded.subset_after g' c a)

/-- A program that stays on one link gives none away. -/
theorem local_adds {p : CallProg α} (hp : p.Uses (Call.Local l)) : Adds p g := by
  refine discreet_adds (hp.mono fun c hc => ?_)
  cases c with
  | post p => exact hc.2
  | emit n => rcases hc with rfl | rfl | rfl <;> rfl
  | _ => trivial

theorem tcprefr_adds : Adds (tcprefr l) g := local_adds protoRefr_local

/-! ## Making links -/

/-- The steps of `tcp_entry` set up the list head if they go through. -/
theorem tcpEntrySteps_founds {remote : Bool} :
    Founds (tcpEntrySteps h remote) g fun g' r => g ⊆ g' ∧ (0 ≤ r → h ∈ g') := by
  refine meets_bind.mpr (meets_perform.mpr ⟨trivial, fun sockfd _ => ?_⟩)
  refine meets_ite.mpr ⟨fun _ => ⟨List.Subset.refl g, fun hr => absurd hr (by decide)⟩, fun _ => ?_⟩
  refine meets_bind.mpr (meets_void.mpr ⟨trivial, fun _ _ => ?_⟩)
  refine meets_bind.mpr (meets_void.mpr ⟨trivial, fun _ _ => ?_⟩)
  have hrest : Adds (do
      void (.ncb h .initSizes)
      if remote then return 0 else tcpEntryLocal h : CallProg Int) (h :: g) :=
    discreet_adds (by cases remote <;> simp [tcpEntryLocal, tcpUpdateOpts])
  refine hrest.mono fun g' r hg => ⟨fun x hx => hg (List.mem_cons_of_mem h hx), fun _ => ?_⟩
  exact hg List.mem_cons_self

/-- A link it returns is set up. -/
theorem tcpAllocateObject_founds {remote : Bool} :
    Founds (tcpAllocateObject remote) g fun g' r => g ⊆ g' ∧ (0 ≤ r → r ∈ g') := by
  have hend : ∀ (h r : Int) (g' : List Int), g ⊆ g' → (0 ≤ r → h ∈ g') → Founds (do
      void (.objdefr h)
      if r < 0 then do
        void (.objclos h)
        return -1
      else return h : CallProg Int) g' fun g' r => g ⊆ g' ∧ (0 ≤ r → r ∈ g') := by
    intro h r g' hg hr
    refine meets_bind.mpr (meets_void.mpr ⟨trivial, fun _ _ => ?_⟩)
    refine meets_ite.mpr ⟨fun _ => ?_, fun hpos => ⟨hg, fun _ => hr (by omega)⟩⟩
    exact meets_bind.mpr (meets_void.mpr ⟨trivial, fun _ _ =>
      ⟨hg, fun hr => absurd hr (by decide)⟩⟩)
  refine meets_bind.mpr (meets_perform.mpr ⟨trivial, fun h _ => ?_⟩)
  refine meets_ite.mpr ⟨fun _ => ⟨List.Subset.refl g, fun hr => absurd hr (by decide)⟩, fun _ => ?_⟩
  refine meets_bind.mpr (meets_perform.mpr ⟨trivial, fun ncb _ => ?_⟩)
  dsimp only
  refine meets_ite.mpr ⟨fun _ => hend h (-1) _ (List.Subset.refl g) fun hr =>
    absurd hr (by decide), fun _ => ?_⟩
  refine meets_bind.mpr (meets_bind.mpr (meets_void.mpr ⟨trivial, fun _ _ => ?_⟩))
  refine meets_bind.mpr (meets_void.mpr ⟨trivial, fun _ _ => ?_⟩)
  refine meets_bind.mpr (tcpEntrySteps_founds.mono fun g' r hg => ?_)
  refine meets_ite.mpr ⟨fun _ => ?_, fun _ => hend h 0 g' hg.1 fun _ => hg.2 (by omega)⟩
  exact meets_bind.mpr (meets_void.mpr ⟨trivial, fun _ _ => hend h (-1) g' hg.1 fun hr =>
    absurd hr (by decide)⟩)

/-- A link that `tcp_create` returns is on record. -/
theorem tcpCreate_founds {userCallback lIpstr : Bool} :
    Founds (tcpCreate userCallback lIpstr) g fun g' r => 0 ≤ r → r ∈ g' := by
  have hmake : ∀ parsed : Int, Founds (if parsed ≤ 0 then pure (-1) else tcpAllocateObject false) g
      fun g' r => 0 ≤ r → r ∈ g' := fun parsed =>
    meets_ite.mpr ⟨fun _ hr => absurd hr (by decide), fun _ =>
      tcpAllocateObject_founds.mono fun _ _ hg => hg.2⟩
  refine meets_ite.mpr ⟨fun _ hr => absurd hr (by decide), fun _ => ?_⟩
  dsimp only
  refine meets_ite.mpr ⟨fun _ => ?_, fun _ => hmake 1⟩
  exact meets_bind.mpr (meets_perform.mpr ⟨trivial, fun parsed _ => hmake parsed⟩)

/-! ## Accepting -/

/-- Only what is set up is handed to the system. -/
theorem tcpSynRounds_adds {n : Nat} : Adds (tcpSynRounds l k n) g := by
  induction n generalizing g with
  | zero => exact discreet_adds (by simp [tcpSynRounds])
  | succ n ih =>
      refine Adds.bind (discreet_adds (by simp)) fun _ g₁ h₁ => ?_
      refine meets_bind.mpr (tcpAllocateObject_founds.mono fun g₂ h h₂ => ?_)
      refine meets_ite.mpr ⟨fun _ => ?_, fun hpos => ?_⟩
      · exact (discreet_adds (by simp)).mono fun g₃ _ h₃ => List.Subset.trans h₂.1 h₃
      have haccept : Adds (asioTcpAccept ⟨k, .tcp, .syn, l, h, noAddr⟩) g₂ := by
        have hmem : h ∈ g₂ := h₂.2 (by omega)
        simp [asioTcpAccept, Founded.after, hmem]
      refine (Adds.bind haccept fun r g₃ _ => ?_).mono fun g₄ _ h₄ => List.Subset.trans h₂.1 h₄
      refine meets_ite.mpr ⟨fun _ => List.Subset.refl g₃, fun _ => ?_⟩
      exact Adds.bind (discreet_adds (by simp)) fun _ g₄ _ => ih

/-- `tcp_syn` makes a request for a link that `tcp_allocate_object` returned, which is on record. -/
theorem tcpSyn_adds : Adds (tcpSyn l) g := by
  refine Adds.bind (discreet_adds (by simp)) fun _ g₁ _ => ?_
  refine Adds.bind (discreet_adds (by simp)) fun k g₂ _ => ?_
  exact meets_ite.mpr ⟨fun _ => List.Subset.refl g₂, fun _ => tcpSynRounds_adds⟩

/-- The loop of `tcp_listen`, by induction on its turns. -/
theorem tcpListenRounds_adds {n : Nat} : Adds (tcpListenRounds l n) g := by
  induction n generalizing g with
  | zero => exact tcpSyn_adds
  | succ n ih =>
      refine Adds.bind tcpSyn_adds fun r g₁ _ => ?_
      exact meets_ite.mpr ⟨fun _ => List.Subset.refl g₁, fun _ => ih⟩

theorem tcpListen_adds {block : Int} : Adds (tcpListen l block) g := by
  refine Adds.bind tcprefr_adds fun r g₁ _ => ?_
  refine meets_ite.mpr ⟨fun _ => List.Subset.refl g₁, fun _ => ?_⟩
  have hend : ∀ (retval : Int) (g₂ : List Int), Adds (do
      objdefrHld l
      return retval : CallProg Int) g₂ := fun retval g₂ => discreet_adds (by simp)
  refine Adds.bind (discreet_adds (by simp)) fun a g₂ _ => ?_
  dsimp only
  refine meets_ite.mpr ⟨fun _ => hend a g₂, fun _ => ?_⟩
  exact Adds.bind tcpListenRounds_adds fun r₁ g₃ _ => hend r₁ g₃

/-- The user is told of the accepted link, which came with the request. -/
theorem tcpSynCopy_adds {irp : AcceptAddrs} (hh : h ∈ g) : Adds (tcpSynCopy l h irp) g := by
  simp [tcpSynCopy, tcpSynCopyKnown, Founded.after, Notice.gives, hh]

/-- The link that the dispatch of an accept announces is on record from the start. -/
theorem tcpDispatchIoSyn_adds {p : IoPacket} {irp : AcceptAddrs} (hp : p.acceptedLink ∈ g) :
    Adds (tcpDispatchIoSyn p irp) g := by
  have hagain : ∀ g₁, Adds (do
      let retval ← tcpSyn p.link
      if retval < 0 then objclosHld p.link
      objdefrHld p.link : CallProg Unit) g₁ := fun g₁ =>
    Adds.bind tcpSyn_adds fun r g₂ _ => discreet_adds (by simp)
  refine Adds.bind tcprefr_adds fun r g₁ h₁ => ?_
  refine meets_ite.mpr ⟨fun _ => List.Subset.refl g₁, fun _ => ?_⟩
  refine Adds.bind tcprefr_adds fun r₂ g₂ h₂ => ?_
  dsimp only
  refine meets_ite.mpr ⟨fun _ => ?_, fun _ => hagain g₂⟩
  have htake : Adds (takeAccepted p.link p.acceptedLink irp) g₂ := by
    refine Adds.bind (tcpSynCopy_adds (h₂ (h₁ hp))) fun r g₃ _ => ?_
    exact discreet_adds (by simp [firstRecv, asioTcpRecv, asioTransfer])
  exact Adds.bind htake fun _ g₃ _ => hagain g₃

/-- An accept that failed announces nothing. -/
theorem tcpShutdownSyn_adds {p : IoPacket} : Adds (tcpShutdownSyn p) g := by
  refine Adds.bind tcprefr_adds fun r g₁ _ => ?_
  dsimp only
  refine meets_ite.mpr ⟨fun _ => ?_, fun _ => discreet_adds (by simp)⟩
  exact Adds.bind tcpSyn_adds fun r₁ g₂ _ => discreet_adds (by simp)

/-! ## Every job -/

/-- `udp_create` returns a UDP link, which is none of those on record. -/
theorem udpCreate_discreet {userCallback lIpstr anyPort broadcast : Bool} :
    (udpCreate userCallback lIpstr anyPort broadcast).Uses Call.Discreet := by
  cases userCallback <;> cases lIpstr <;> cases anyPort <;> cases broadcast <;>
    simp [udpCreate, udpAllocateObject, udpEntry, udpEntryOpts, udpUpdateOpts, asioUdpRecv,
      asioTransfer]

/-- The dispatch of an accept, successful or not. -/
theorem soDispatchSyn_adds {p : IoPacket} (hp : p.IsSyn) {status : NtStatus} {transfer : Int}
    {turns : Nat} {irp : AcceptAddrs} :
    Adds (soDispatchIoEvent p status transfer turns irp) [p.acceptedLink] := by
  obtain ⟨htcp, hsyn⟩ := hp
  simp only [soDispatchIoEvent, htcp, tcpDispatchIoEvent, tcpDispatchIoException, hsyn,
    reduceCtorEq, if_false, tcpShutdownByPacket]
  refine meets_ite.mpr ⟨fun _ => tcpDispatchIoSyn_adds (List.mem_singleton_self _), fun _ => ?_⟩
  refine Adds.bind tcprefr_adds fun r g₁ _ => ?_
  refine meets_ite.mpr ⟨fun _ => discreet_adds (by simp), fun _ => ?_⟩
  exact Adds.bind tcpShutdownSyn_adds fun _ g₂ _ => discreet_adds (by simp)

/-- **No job gives away a link that is not set up.** -/
theorem job_founds (j : Job) : Founds j.prog (Founded.start j) (Founded.Post j) := by
  cases j with
  | completion p status transfer turns irp =>
      refine (Adds.bind (f := fun _ => pure 0) ?_ fun _ g₁ _ => List.Subset.refl g₁).mono
        fun _ _ _ => trivial
      by_cases hp : p.IsSyn
      · rw [Founded.start, if_pos hp]
        exact soDispatchSyn_adds hp
      · exact local_adds (soDispatchIoEvent_local rfl hp)
  | user c =>
      cases hl : c.link with
      | none =>
          cases c with
          | tcpCreate => exact tcpCreate_founds
          | udpCreate =>
              refine (discreet_adds ?_).mono fun _ _ _ => trivial
              exact udpCreate_discreet
          | _ => cases hl
      | some l =>
          have hpost : ∀ r g, Founded.Post (.user c) g r := by
            intro r g
            cases c <;> trivial
          by_cases hc : ∃ block, c = .tcpListen l block
          · obtain ⟨block, rfl⟩ := hc
            exact tcpListen_adds.mono fun _ _ _ => trivial
          · exact (local_adds (UserCall.prog_local hl fun block h => hc ⟨block, h⟩)).mono
              fun g r _ => hpost r g

end

/-! ## In every run -/

namespace World

/-- The list head of a link is set up, if it is a TCP link. -/
def Headed (w : World) (h : Int) : Prop :=
  ∃ o, w.obj h = some o ∧ (o.proto = .tcp → o.cacheHead ≠ none)

variable {w w' : World} {c : Call} {a h : Int}

theorem Headed.call (hh : w.Headed h) (hw : w.answer c a = some w') : w'.Headed h := by
  obtain ⟨o, ho, hhead⟩ := hh
  obtain ⟨o', ho', hkeep⟩ := answer_keeps hw ho
  refine ⟨o', ho', fun htcp hnone => ?_⟩
  replace hhead := hhead (hkeep.kin.proto.symm.trans htcp)
  have hstep := answer_obj hw h
  rw [ho, ho'] at hstep
  rcases hstep.parts with hparts | ⟨x, -, hx, hax⟩
  · exact hhead (hparts.head.mp hnone)
  · cases x with
    | soCreate =>
        cases hax
        split at hnone <;> exact hhead hnone
    | initLocker =>
        cases hax
        exact hhead hnone
    | initListHead =>
        cases hax
        cases hnone
    | _ => exact hx

theorem Headed.start {j : Job} (hh : w.Headed h) (hw : w.startJob j = some w') : w'.Headed h := by
  obtain ⟨o, ho, hhead⟩ := hh
  rcases (startJob_spec hw).same h with ⟨hnone, -⟩ | ⟨o₁, peer, ho₁, ho'⟩
  · rw [ho] at hnone
    cases hnone
  · rw [ho] at ho₁
    cases ho₁
    exact ⟨_, ho', hhead⟩

end World

section

variable {τ : Type} [DecidableEq τ]

/-- What others know of is set up: the links on record of the jobs, those in accept requests,
and those the user was given. -/
structure Published (w : World) (rec : τ → List Int) : Prop where
  jobs : ∀ u, ∀ h ∈ rec u, w.Headed h
  posted : ∀ p ∈ w.posted, p.IsSyn → w.Headed p.acceptedLink
  known : ∀ h ∈ w.known, w.Headed h

namespace Published

variable {w w' : World} {rec : τ → List Int} {c : Call} {a : Int} {u : τ}

/-- **One call** lets others know of a link only if it is on record. -/
theorem call (hp : Published w rec) (hw : w.answer c a = some w') (hn : Founded.Need (rec u) c)
    (hhead : ∀ h, c = .ncb h .initListHead → w'.Headed h) :
    Published w' (Function.update rec u (Founded.after (rec u) c a)) := by
  constructor
  case jobs =>
    intro v h hh
    by_cases hv : v = u
    · subst hv
      rw [Function.update_self] at hh
      have hcase : c = .ncb h .initListHead ∨ h ∈ rec v := by
        cases c with
        | ncb l x =>
            cases x with
            | initListHead => exact (List.mem_cons.mp hh).imp_left fun heq => by rw [heq]
            | _ => exact .inr hh
        | _ => exact .inr hh
      exact hcase.elim (hhead h) fun hold => (hp.jobs v h hold).call hw
    · rw [Function.update_of_ne hv] at hh
      exact (hp.jobs v h hh).call hw
  case posted =>
    intro p hposted hsyn
    rcases World.answer_posted hw with ⟨q, rfl, -, hadd⟩ | ⟨hsame, -⟩
    · rw [hadd] at hposted
      rcases List.mem_cons.mp hposted with rfl | hold
      · exact (hp.jobs u _ (hn hsyn)).call hw
      · exact (hp.posted p hold hsyn).call hw
    · rw [hsame] at hposted
      exact (hp.posted p hposted hsyn).call hw
  case known =>
    intro h hh
    obtain ⟨new, htells, -, hknown⟩ := World.answer_notices hw
    rw [hknown] at hh
    rcases List.mem_append.mp hh with hnew | hold
    · -- what the user is told of closing gives no link
      cases htells with
      | nothing => cases hnew
      | @event n _ hc =>
          subst hc
          rw [List.flatMap_singleton] at hnew
          exact (hp.jobs u h (hn h hnew)).call hw
      | closing =>
          exfalso
          revert hnew
          unfold World.closing
          split <;> simp [Notice.gives]
    · exact (hp.known h hold).call hw

end Published

variable {G : SysGuard} {s : SysState τ} {h : Int} {o : Obj}

/-- **In every run.** Induction on it, with the ledger that says what each job has set up. -/
theorem sys_published (hr : SysReaches G s) :
    Published s.world (s.records founded) ∧ s.Meets founded := by
  have hkept : Kept founded system G (State.rest World.initial) (Published (τ := τ)) := by
    constructor
    case env =>
      intro s e
      exact e.elim
    case start =>
      intro s u j w hs hp hu hw hG
      replace hw : s.world.startJob j = some w := hw
      have hstart := World.startJob_spec hw
      refine ⟨job_founds j, ?_⟩
      constructor
      -- the handler of an accept has the link of its request on record
      case jobs =>
        intro v h hh
        by_cases hv : v = u
        · subst hv
          rw [Function.update_self] at hh
          cases j with
          | user c => cases hh
          | completion p status transfer turns irp =>
              obtain ⟨hposted, -⟩ := hstart.completion _ _ _ _ _ rfl
              rw [show founded.init (.completion p status transfer turns irp)
                = if p.IsSyn then [p.acceptedLink] else [] from rfl] at hh
              split at hh
              next hsyn =>
                rw [List.mem_singleton.mp hh]
                exact (hp.posted p hposted hsyn).start hw
              · cases hh
        · rw [Function.update_of_ne hv] at hh
          exact (hp.jobs v h hh).start hw
      case posted =>
        intro p hposted hsyn
        refine (hp.posted p ?_ hsyn).start hw
        cases j with
        | user c =>
            rw [(hstart.user c rfl).1] at hposted
            exact hposted
        | completion q status transfer turns irp =>
            obtain ⟨-, -, herase, -⟩ := hstart.completion _ _ _ _ _ rfl
            rw [herase] at hposted
            exact List.mem_of_mem_erase hposted
      case known =>
        intro h hh
        rw [hstart.known] at hh
        exact (hp.known h hh).start hw
    case call =>
      intro s u j t c k a w hs hp hu hw hG hn
      refine ⟨trivial, hp.call hw hn ?_⟩
      rintro h rfl
      -- the link is in hand of the job that builds it
      obtain ⟨-, hstages⟩ := sys_built hs
      have hstage : s.records stages u = .locker h := (hstages u j t _ hu).1
      obtain ⟨o, ho, -⟩ := (sys_custody hs).1.held_open u h (stage_held (by rw [hstage]; rfl))
      have hanswer : s.world.answer (.ncb h .initListHead) a = some w := hw
      simp only [World.answer, ho, Access.apply, Option.map_some, Option.some.injEq] at hanswer
      subst hanswer
      exact ⟨_, Function.update_self .., fun _ hnone => by cases hnone⟩
    case finish =>
      intro s u j t r hs hp hu hpost
      obtain ⟨hobj, hposted, hknown⟩ := World.finishJob_spec s.world j r
      -- the end of a job changes no object; what it returns becomes known
      have hheaded : ∀ {h}, s.world.Headed h → (s.world.finishJob j r).Headed h := by
        rintro h ⟨o, ho, hhead⟩
        exact ⟨o, by rw [hobj]; exact ho, hhead⟩
      constructor
      case jobs =>
        intro v h hh
        by_cases hv : v = u
        · subst hv
          rw [Function.update_self] at hh
          cases hh
        · rw [Function.update_of_ne hv] at hh
          exact hheaded (hp.jobs v h hh)
      case posted =>
        intro p hq hsyn
        rw [show (system.finish s.world j r).posted = s.world.posted from hposted] at hq
        exact hheaded (hp.posted p hq hsyn)
      case known =>
        intro h hh
        rcases hknown with ⟨hj, hpos, hnew, -⟩ | ⟨hsame, -⟩
        · rw [show (system.finish s.world j r).known = r :: s.world.known from hnew] at hh
          rcases List.mem_cons.mp hh with rfl | hold
          · refine hheaded ?_
            rcases hj with ⟨b, l, rfl⟩ | ⟨b, l, p, d, rfl⟩
            · exact hp.jobs u h (hpost hpos)
            · -- a link made by `udp_create` needs no list
              obtain ⟨hcust, hlinks⟩ := sys_custody hs
              have hmade : LinkRecord.Post (.user (.udpCreate b l p d)) (s.records links u) h :=
                hlinks u _ t _ hu
              simp only [LinkRecord.Post, if_neg (show ¬ h < 0 by omega)] at hmade
              obtain ⟨o, ho, hproto, -⟩ := hcust.made u _ _ _ hmade.2.2
              exact ⟨o, ho, fun htcp => by rw [hproto] at htcp; cases htcp⟩
          · exact hheaded (hp.known h hold)
        · rw [show (system.finish s.world j r).known = s.world.known from hsame] at hh
          exact hheaded (hp.known h hh)
  refine hr.kept hkept ⟨?_, ?_, ?_⟩ (State.meets_rest _)
  · intro u h hh
    cases hh
  · intro p hp
    cases hp
  · intro h hh
    cases hh

/-- A TCP link with a list head has all its parts. -/
theorem headed_whole (hr : SysReaches G s) (hh : s.world.Headed h) (ho : s.world.obj h = some o)
    (htcp : o.proto = .tcp) : o.Whole := by
  obtain ⟨o₁, ho₁, hhead⟩ := hh
  rw [ho] at ho₁
  cases ho₁
  replace hhead := hhead htcp
  rcases ((sys_built hr).1 h o ho htcp).parts with ⟨⟨-, -, hnone⟩, -⟩ | ⟨-, -, -, hnone⟩
    | ⟨-, -, -, hnone⟩ | ⟨hwhole, -⟩
  · exact absurd hnone hhead
  · exact absurd hnone hhead
  · exact absurd hnone hhead
  · exact hwhole

/-- A link somebody other than its maker may know of. -/
def World.Public (w : World) (h : Int) : Prop :=
  h ∈ w.known ∨ ∃ p ∈ w.posted, p.IsSyn ∧ p.acceptedLink = h

/-- A link that others know of is whole. -/
theorem public_whole (hr : SysReaches G s) (hpub : s.world.Public h) (ho : s.world.obj h = some o)
    (htcp : o.proto = .tcp) : o.Whole := by
  obtain ⟨hp, -⟩ := sys_published hr
  refine headed_whole hr ?_ ho htcp
  rcases hpub with hknown | ⟨p, hposted, hsyn, rfl⟩
  · exact hp.known h hknown
  · exact hp.posted p hposted hsyn

omit [DecidableEq τ] in
/-- A whole object is torn down as one. -/
theorem whole_tornDown {c : Call} {a : Int} {w : World} (hw : s.world.answer c a = some w)
    (ho : s.world.obj h = some o) (htcp : o.proto = .tcp) (hload : o.unloaded = false)
    (hgone : w.gone h = true) (hwhole : o.Whole) : TornDown s.world w h o := by
  obtain ⟨-, hlocker, hhead⟩ := hwhole
  obtain ⟨queue, hqueue⟩ := Option.ne_none_iff_exists'.mp hhead
  obtain ⟨o₁, h₁, -, -, hobj, hfreed⟩ := World.answer_gone hw ho hload hgone
  -- the call closes it or releases a reference
  obtain ⟨htcp₁, hlocker₁, hhead₁⟩ : o₁.proto = .tcp ∧ o₁.lockerInits = 1
      ∧ o₁.cacheHead = some queue := by
    rcases h₁ with rfl | rfl <;> exact ⟨htcp, hlocker, hqueue⟩
  obtain ⟨hfree, hempty, hdrained⟩ :=
    Obj.tcpUnload_queue (o := { o₁ with unloaded := true }) hlocker₁ hhead₁
  rw [← Obj.unload_tcp htcp₁] at hfree hempty hdrained
  exact ⟨hlocker, queue, _, hqueue, hobj, hempty, hdrained, by rw [hfreed, hfree]⟩

/-- **No link gets out half made.** A TCP link that the user was given, or that the system has in
an accept request, has its socket, its locker and its list head, each made once. When it is torn
down, that is what `tcp_unload` finds. -/
theorem published_whole (hr : SysReaches G s) (hpub : s.world.Public h)
    (ho : s.world.obj h = some o) (htcp : o.proto = .tcp) :
    (o.socketsMade = 1 ∧ o.lockerInits = 1 ∧ o.cacheHead ≠ none)
      ∧ ∀ u j t c a w, calling s u = some (j, t, c) → s.world.answer c a = some w →
        o.unloaded = false → w.gone h = true → TornDown s.world w h o := by
  have hwhole := public_whole hr hpub ho htcp
  refine ⟨hwhole, fun u j t c a w hu hw hload hgone => ?_⟩
  exact whole_tornDown hw ho htcp hload hgone hwhole

end

/-- A link that `tcp_create` has returned. -/
theorem published_whole_created : ∃ (s : SysState Unit) (o : Obj), SysReaches anyRun s
    ∧ s.world.obj 0 = some o ∧ o.socketsMade = 1 ∧ o.lockerInits = 1 ∧ o.cacheHead ≠ none := by
  obtain ⟨s, hs, o, ho, htcp, hknown⟩ := sys_of_play anyRun
    (P := fun s => ∃ o ∈ s.world.obj 0, o.proto = .tcp ∧ 0 ∈ s.world.known)
    (createTcp () 0) (by decide +kernel)
  exact ⟨s, o, hs, ho, (published_whole hs (.inl hknown) ho htcp).1⟩

end Swnet.Sys
