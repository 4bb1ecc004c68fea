import Swnet.Sys.Latches
import Swnet.Sys.Published

/-!
# Swnet — the locks of the senders

* `sys_latched` — a lock is held exactly while one thread is inside;
* `inside_ready` — the link whose lock a thread is inside of has all its parts, and stays;
* `queue_frame` — the others leave its queue alone;
* `sender_section` — all this of every run;
* `never_deadlocked` — a thread at work waits for nothing but a lock, and whoever is inside can
  go on.

The ledger of `Latches` says of each job where it stands towards the lock, and `Latched` ties that
to the locks themselves: one is held if one job is inside of it, and by that job alone. What is
known of references and of what is published makes the link whole while it is held, and with that
every call but the entry can be answered (`World.answerable`).

Where the queue is full, the code calls `nis_call_ecr` inside of the section, which hands a message
to a function of the user if one was installed. What the user does in it is left out here: that it
waits for something else, or calls back into the library, is not part of the model.
-/

namespace Swnet.Sys

open Jobs Jobs.Prog

/-! ## One call -/

/-- A job is inside because it enters with this call, or was and does not leave. -/
theorem Latch.in_after {g : Latch} {c : Call} {a h : Int} (hn : g.Need c) :
    (g.after c a).In h ↔ c = .ncb h .enterSender ∨ g.In h ∧ c ≠ .ncb h .leaveSender := by
  cases c with
  | ncb l x => cases x <;> simp_all [Latch.after, Latch.In]
  | _ => simp [Latch.after]

/-- What is done inside. -/
@[simp] def Access.Inner : Access → Prop
  | .read _ | .incListSize | .decListSize | .incPending | .decPending | .addTail _ | .listEmpty
  | .popFront | .leaveSender => True
  | _ => False

/-- Inside, only the block of the link is accessed. -/
theorem Latch.need_inside {g : Latch} {c : Call} {h : Int} (hn : g.Need c) (hin : g.In h) :
    c = .stuck ∨ ∃ x, c = .ncb h x ∧ x.Inner := by
  obtain ⟨hlink, hinside⟩ := hin
  cases c with
  | stuck => exact .inl rfl
  | ncb l x => cases x <;> simp_all [Latch.In]
  | _ => exact absurd (hinside.symm.trans hn) (by decide)

/-- Only entering and leaving change who is inside. -/
theorem Access.apply_locked {x : Access} {a : Int} {o o' : Obj} (h : x.apply a o = some o') :
    x = .enterSender ∧ o.locked = false ∧ o'.locked = true
      ∨ x = .leaveSender ∧ o'.locked = false
      ∨ x ≠ .enterSender ∧ x ≠ .leaveSender ∧ o'.locked = o.locked := by
  cases x <;> simp only [Access.apply] at h <;> grind [Obj.ioclose]

/-- The unload routine does not touch the lock. -/
theorem Obj.unload_locked (o : Obj) : o.unload.1.locked = o.locked := by
  have hclose : ∀ o : Obj, o.ioclose.locked = o.locked := by
    intro o
    unfold ioclose
    split <;> rfl
  unfold unload
  dsimp only
  split
  · unfold tcpUnload
    dsimp only
    split
    · rw [drain_eq]
      exact hclose _
    · exact hclose _
  · exact hclose _

namespace World

variable {w w' : World} {c : Call} {a h : Int}

/-- **What a call does to a lock**: it takes a free one, it leaves it, or it does nothing to it. -/
theorem answer_locked (hw : w.answer c a = some w') {o' : Obj} (ho' : w'.obj h = some o') :
    w.obj h = none ∧ o'.locked = false
      ∨ ∃ o, w.obj h = some o ∧
        (c = .ncb h .enterSender ∧ o.locked = false ∧ o'.locked = true
          ∨ c = .ncb h .leaveSender ∧ o'.locked = false
          ∨ c ≠ .ncb h .enterSender ∧ c ≠ .ncb h .leaveSender ∧ o'.locked = o.locked) := by
  by_cases hx : ∃ x, c = .ncb h x
  · obtain ⟨x, rfl⟩ := hx
    cases ho : w.obj h with
    | none =>
        simp only [answer, ho, Option.some.injEq] at hw
        subst hw
        rw [ho] at ho'
        cases ho'
    | some o =>
        simp only [answer, ho] at hw
        obtain ⟨o₁, h₁, rfl⟩ := Option.map_eq_some_iff.mp hw
        rw [setObj_obj, Function.update_self] at ho'
        cases ho'
        refine .inr ⟨o, rfl, ?_⟩
        simpa using Access.apply_locked h₁
  -- any other call leaves the lock as it is, and so does the unload routine
  · have hother : ∀ x, c ≠ .ncb h x := fun x hc => hx ⟨x, hc⟩
    have hstep := answer_obj hw h
    rw [ho'] at hstep
    generalize hobj : w.obj h = x at hstep
    have hset : ∀ {o₁ : Obj}, o₁.Settled o' → o'.locked = o₁.locked := by
      intro o₁ hs
      rcases hs.cases with rfl | ⟨-, -, -, rfl⟩
      · rfl
      · exact o₁.unload_locked
    cases hstep with
    | same => exact .inr ⟨o', rfl, .inr (.inr ⟨hother _, hother _, rfl⟩)⟩
    | allo => exact .inl ⟨rfl, rfl⟩
    | refer => exact .inr ⟨_, rfl, .inr (.inr ⟨hother _, hother _, rfl⟩)⟩
    | reff => exact .inr ⟨_, rfl, .inr (.inr ⟨hother _, hother _, rfl⟩)⟩
    | defr hc hs => exact .inr ⟨_, rfl, .inr (.inr ⟨hother _, hother _, (hset hs).trans rfl⟩)⟩
    | clos hc hs => exact .inr ⟨_, rfl, .inr (.inr ⟨hother _, hother _, (hset hs).trans rfl⟩)⟩
    | access hc => exact absurd hc (hother _)

/-- A call that does not depend on what others do can be answered. -/
theorem answerable (hstuck : c ≠ .stuck)
    (henter : ∀ h, c ≠ .ncb h .enterSender)
    (hpop : ∀ h, c = .ncb h .popFront → ∃ o k queue, w.obj h = some o
      ∧ o.cacheHead = some (k :: queue)) : ∃ a w', w.answer c a = some w' := by
  -- a call that may fail can be answered with a failure, any other with what it yields
  cases c with
  | objallo => exact ⟨-1, w, by simp [answer]⟩
  | objrefr h =>
      cases ho : w.obj h with
      | none => exact ⟨-1, w, by simp [answer, ho]⟩
      | some o =>
          by_cases hc : o.closed = true
          · exact ⟨-1, w, by simp [answer, ho, hc]⟩
          · exact ⟨0, _, by simp [answer, ho, Obj.Referable, hc]; rfl⟩
  | objreff h =>
      cases ho : w.obj h with
      | none => exact ⟨-1, w, by simp [answer, ho]⟩
      | some o =>
          by_cases hc : o.closed = true
          · exact ⟨-1, w, by simp [answer, ho, hc]⟩
          · exact ⟨0, _, by simp [answer, ho, hc]; rfl⟩
  | objdefr h => cases ho : w.obj h <;> exact ⟨0, _, by simp [answer, ho]; rfl⟩
  | objclos h => cases ho : w.obj h <;> exact ⟨0, _, by simp [answer, ho]; rfl⟩
  | allocatePacket => exact ⟨-1, w, by simp [answer]⟩
  | freepkt => exact ⟨0, _, rfl⟩
  | post => exact ⟨0, _, rfl⟩
  | emit => exact ⟨0, _, rfl⟩
  | other => exact ⟨0, _, rfl⟩
  | stuck => exact absurd rfl hstuck
  | ncb h x =>
      cases ho : w.obj h with
      | none => exact ⟨0, w, by simp [answer, ho]⟩
      | some o =>
          suffices happly : ∃ a o', x.apply a o = some o' by
            obtain ⟨a, o', hx⟩ := happly
            exact ⟨a, w.setObj h o', by simp [answer, ho, hx]⟩
          cases x with
          | proto => exact ⟨o.proto.code, o, by simp [Access.apply]⟩
          | connect | getpeername | soCreate => exact ⟨-1, o, by simp [Access.apply]⟩
          | enterSender => exact absurd rfl (henter h)
          | readListSize => exact ⟨o.listSize, o, by simp [Access.apply]⟩
          | incListSize => exact ⟨o.listSize + 1, _, by simp [Access.apply]; rfl⟩
          | decListSize => exact ⟨o.listSize - 1, _, by simp [Access.apply]; rfl⟩
          | incPending => exact ⟨o.writePending + 1, _, by simp [Access.apply]; rfl⟩
          | decPending => exact ⟨o.writePending - 1, _, by simp [Access.apply]; rfl⟩
          | listEmpty =>
              by_cases hempty : o.cacheHead = some []
              · exact ⟨1, o, by simp [Access.apply, hempty]⟩
              · exact ⟨0, o, by simp [Access.apply, hempty]⟩
          | popFront =>
              obtain ⟨o₁, k, queue, ho₁, hqueue⟩ := hpop h rfl
              rw [ho] at ho₁
              cases ho₁
              exact ⟨k, _, by simp [Access.apply, hqueue]; rfl⟩
          | _ => exact ⟨0, _, rfl⟩

end World

/-! ## Who is inside -/

section

variable {τ : Type} [DecidableEq τ]

/-- A lock is held exactly while a thread is inside, and there is one at most. -/
structure Latched (w : World) (rec : τ → Latch) : Prop where
  there : ∀ {u h}, (rec u).In h → ∃ o, w.obj h = some o
  alone : ∀ {u v h}, (rec u).In h → (rec v).In h → u = v
  locked : ∀ {h o}, w.obj h = some o → (o.locked = true ↔ ∃ u, (rec u).In h)

namespace Latched

variable {w w' : World} {rec : τ → Latch} {c : Call} {a : Int} {u : τ}

/-- **One call keeps records and locks in step.** -/
theorem call (hl : Latched w rec) (hw : w.answer c a = some w') (hn : (rec u).Need c)
    (henter : ∀ h, c = .ncb h .enterSender → ∃ o, w.obj h = some o) :
    Latched w' (Function.update rec u ((rec u).after c a)) := by
  have hin : ∀ v h, (Function.update rec u ((rec u).after c a) v).In h
      ↔ v = u ∧ c = .ncb h .enterSender ∨ (rec v).In h ∧ ¬ (v = u ∧ c = .ncb h .leaveSender) := by
    intro v h
    by_cases hv : v = u
    · subst hv
      rw [Function.update_self, Latch.in_after hn]
      simp
    · rw [Function.update_of_ne hv]
      simp [hv]
  have hthere : ∀ {v h}, (Function.update rec u ((rec u).after c a) v).In h →
      ∃ o, w.obj h = some o := by
    intro v h hv
    rcases (hin v h).mp hv with ⟨-, hc⟩ | ⟨hold, -⟩
    · exact henter h hc
    · exact hl.there hold
  -- it is not entered while somebody is inside
  have hfree : ∀ {v h}, c = .ncb h .enterSender → ¬ (rec v).In h := by
    rintro v h rfl hv
    obtain ⟨o, ho⟩ := hl.there hv
    have hlocked := (hl.locked ho).mpr ⟨v, hv⟩
    simp only [World.answer, ho, Access.apply, hlocked, if_true, Option.map_none,
      reduceCtorEq] at hw
  constructor
  case there =>
    intro v h hv
    obtain ⟨o, ho⟩ := hthere hv
    obtain ⟨o', ho', -⟩ := World.answer_keeps hw ho
    exact ⟨o', ho'⟩
  case alone =>
    intro v₁ v₂ h h₁ h₂
    rcases (hin v₁ h).mp h₁ with ⟨hv₁, hc⟩ | ⟨h₁, -⟩ <;>
      rcases (hin v₂ h).mp h₂ with ⟨hv₂, hc₂⟩ | ⟨h₂, -⟩
    · exact hv₁.trans hv₂.symm
    · exact absurd h₂ (hfree hc)
    · exact absurd h₁ (hfree hc₂)
    · exact hl.alone h₁ h₂
  case locked =>
    intro h o' ho'
    rcases World.answer_locked hw ho' with ⟨hnone, hopen⟩ | ⟨o, ho, hcase⟩
    · rw [hopen]
      refine ⟨fun hf => (by cases hf), ?_⟩
      rintro ⟨v, hv⟩
      obtain ⟨o, ho⟩ := hthere hv
      rw [hnone] at ho
      cases ho
    rcases hcase with ⟨hc, -, hlocked⟩ | ⟨hc, hopen⟩ | ⟨henters, hleaves, hsame⟩
    · rw [hlocked]
      exact ⟨fun _ => ⟨u, (hin u h).mpr (.inl ⟨rfl, hc⟩)⟩, fun _ => rfl⟩
    · rw [hopen]
      refine ⟨fun hf => (by cases hf), ?_⟩
      rintro ⟨v, hv⟩
      rcases (hin v h).mp hv with ⟨-, hc₂⟩ | ⟨hold, hne⟩
      · rw [hc] at hc₂
        cases hc₂
      · -- the thread that leaves was inside
        subst hc
        exact absurd ⟨hl.alone hold hn, rfl⟩ hne
    · rw [hsame, hl.locked ho]
      simp [hin, henters, hleaves]

/-- Nobody enters by starting or ending a job. -/
theorem update_out {l : Option Int} (hl : Latched w rec) (hu : (rec u).inside = false)
    (hobj : ∀ h, w.obj h = none ∧ w'.obj h = none
      ∨ ∃ o o', w.obj h = some o ∧ w'.obj h = some o' ∧ o'.locked = o.locked) :
    Latched w' (Function.update rec u (.out l)) := by
  have hin : ∀ v h, (Function.update rec u (.out l) v).In h ↔ (rec v).In h := by
    intro v h
    by_cases hv : v = u
    · subst hv
      simp [Latch.In, Latch.out, hu]
    · rw [Function.update_of_ne hv]
  constructor
  case there =>
    intro v h hv
    obtain ⟨o, ho⟩ := hl.there ((hin v h).mp hv)
    rcases hobj h with ⟨hnone, -⟩ | ⟨-, o', -, ho', -⟩
    · rw [ho] at hnone
      cases hnone
    · exact ⟨o', ho'⟩
  case alone =>
    intro v₁ v₂ h h₁ h₂
    exact hl.alone ((hin v₁ h).mp h₁) ((hin v₂ h).mp h₂)
  case locked =>
    intro h o₁ ho₁
    rcases hobj h with ⟨-, hnone⟩ | ⟨o, o', ho, ho', hsame⟩
    · rw [ho₁] at hnone
      cases hnone
    · rw [ho₁] at ho'
      cases ho'
      rw [hsame, hl.locked ho]
      simp [hin]

end Latched

variable [Fintype τ] {G : SysGuard} {s : SysState τ} {u v : τ} {h : Int}

/-- A thread about to enter holds the link. -/
theorem entering_held (hr : SysReaches G s) {j : Job} {t : CallTrace} {k : Int → CallProg Int}
    (hu : s.thread u = .running j t (.call (.ncb h .enterSender) k)) :
    h ∈ (s.records references u).held := by
  have hneed : (s.records references u).Need (.ncb h .enterSender) :=
    ((sys_counted hr).2 u j t _ hu).1
  refine hneed.resolve_right ?_
  rintro ⟨hconn, -⟩
  rw [State.records_running hu] at hconn
  have hapart := connects_apart ((RefRecord.connects_record j t).symm.trans hconn)
  have hrest := (Uses.leads hapart (hr.leads (fun _ => rfl) hu)).1
  exact (uses_call.mp hrest).1

/-- **In every run.** Induction on it. -/
theorem sys_latched (hr : SysReaches G s) :
    Latched s.world (s.records latches) ∧ s.Meets latches := by
  have hkept : Kept latches system G (State.rest World.initial) (Latched (τ := τ)) := by
    constructor
    case env =>
      intro s e
      exact e.elim
    case start =>
      intro s u j w hs hl hu hw hG
      refine ⟨job_latches j, hl.update_out (by rw [State.records_idle hu]; rfl) fun h => ?_⟩
      rcases (World.startJob_spec hw).same h with hnone | ⟨o, peer, ho, ho'⟩
      · exact .inl hnone
      · exact .inr ⟨o, _, ho, ho', rfl⟩
    case call =>
      intro s u j t c k a w hs hl hu hw hG hn
      refine ⟨trivial, hl.call hw hn ?_⟩
      -- who enters has a reference, so that the link is there
      rintro h rfl
      obtain ⟨⟨leaked, hcount, -⟩, -⟩ := sys_counted hs
      obtain ⟨o, ho, -⟩ := hcount.alive (entering_held hs hu)
      exact ⟨o, ho⟩
    case finish =>
      intro s u j t r hs hl hu hp
      refine hl.update_out hp fun h => ?_
      rw [show (system.finish s.world j r).obj = s.world.obj from
        (World.finishJob_spec s.world j r).1]
      cases s.world.obj h with
      | none => exact .inl ⟨rfl, rfl⟩
      | some o => exact .inr ⟨o, o, rfl, rfl, rfl⟩
  refine hr.kept hkept ⟨?_, ?_, ?_⟩ (State.meets_rest _)
  · intro v h hv
    cases hv.2
  · intro v₁ v₂ h hv
    cases hv.2
  · intro h o ho
    cases ho

/-- A TCP link with all its parts, which is not unloaded. -/
structure Ready (o : Obj) : Prop where
  tcp : o.proto = .tcp
  whole : o.Whole
  refs : 0 < o.refs
  loaded : o.unloaded = false

/-- A link that a job holds, and knows to be the TCP link it works on. -/
theorem held_ready (hr : SysReaches G s) (hheld : h ∈ (s.records references u).held)
    (hlink : (s.records links u).link = some h) (htcp : h ∈ (s.records links u).tcp) :
    ∃ o, s.world.obj h = some o ∧ Ready o := by
  obtain ⟨⟨leaked, hcount, -⟩, -⟩ := sys_counted hr
  obtain ⟨hcust, -⟩ := sys_custody hr
  obtain ⟨o, ho, hpos⟩ := hcount.alive hheld
  obtain ⟨o₁, ho₁, hproto⟩ := hcust.tcp u h htcp
  rw [ho] at ho₁
  cases ho₁
  obtain ⟨o₁, ho₁, -, hknown⟩ := hcust.shared h (hcust.nonneg ho) (.inr (.inr ⟨u, .inl hlink⟩))
  rw [ho] at ho₁
  cases ho₁
  have hwhole := public_whole hr (.inl (hknown hproto)) ho hproto
  refine ⟨o, ho, hproto, hwhole, hpos, Bool.eq_false_iff.mpr fun hload => ?_⟩
  obtain ⟨-, hrefs⟩ := (sys_tidy hr h o ho).mp hload
  omega

omit [Fintype τ] in
/-- Every job keeps to the ledger of senders. -/
theorem sys_senders (hr : SysReaches G s) : s.Meets senders := by
  have hkept : Kept senders system G (State.rest World.initial)
      fun _ (_ : τ → LinkRecord) => True :=
    ⟨fun _ _ _ => trivial, fun {_ _ j _} _ _ _ _ _ => ⟨job_checks j, trivial⟩,
      fun _ _ _ _ _ _ => ⟨trivial, trivial⟩, fun _ _ _ _ => trivial⟩
  exact (hr.kept hkept trivial (State.meets_rest _)).2

/-- The link a job works on does not change. -/
theorem Latch.link_record (l : Option Int) (t : CallTrace) :
    (record Latch.after (.out l) t).link = l := by
  induction t with
  | nil => rfl
  | cons x t ih =>
      obtain ⟨c, a⟩ := x
      rw [record_cons]
      cases c with
      | ncb h x => cases x <;> exact ih
      | _ => exact ih

omit [DecidableEq τ] [Fintype τ] in
/-- The link of the latch is the link of the job. -/
theorem latch_link (hl : (s.records latches u).link = some h) :
    (s.records links u).link = some h := by
  cases hu : s.thread u with
  | idle =>
      rw [State.records_idle hu] at hl
      cases hl
  | running j t p =>
      rw [State.records_running hu] at hl ⊢
      rw [show (record links.upd (links.init j) t).link = (LinkRecord.start j).link from
        (LinkRecord.grows_record j t).link, start_link, ← Latch.link_record j.link t]
      exact hl

/-- A lock that is entered was set up, and will not be torn down meanwhile. -/
theorem entering_ready (hr : SysReaches G s) {j : Job} {t : CallTrace} {k : Int → CallProg Int}
    (hu : s.thread u = .running j t (.call (.ncb h .enterSender) k)) :
    ∃ o, s.world.obj h = some o ∧ Ready o := by
  have hneed : (s.records latches u).Need (.ncb h .enterSender) := ((sys_latched hr).2 u j t _ hu).1
  exact held_ready hr (entering_held hr hu) (latch_link hneed.1) (sys_senders hr u j t _ hu).1

/-- A thread inside holds the link, and has seen that it is a TCP link. -/
theorem inside_held (hr : SysReaches G s) (hin : (s.records latches u).In h) :
    h ∈ (s.records references u).held ∧ h ∈ (s.records links u).tcp := by
  cases hu : s.thread u with
  | idle =>
      rw [State.records_idle hu] at hin
      cases hin.2
  | running j t p =>
      simp only [State.records_running hu] at hin ⊢
      suffices hall : ∀ h, (record Latch.after (.out j.link) t).In h →
          h ∈ (record RefRecord.after (.start j) t).held
            ∧ h ∈ (record LinkRecord.after (.start j) t).tcp from hall h hin
      refine hr.tracing (P := fun j t => ∀ h, (record Latch.after (.out j.link) t).In h →
        h ∈ (record RefRecord.after (.start j) t).held
          ∧ h ∈ (record LinkRecord.after (.start j) t).tcp) (fun _ => rfl) ?_ ?_ hu
      · intro j h hin
        cases hin.2
      · intro s u j t c k a w hs hu hw hP h hin
        have hneed : (s.records latches u).Need c := ((sys_latched hs).2 u j t _ hu).1
        have hcheck : (s.records senders u).NeedTcp c := (sys_senders hs u j t _ hu).1
        have henter := fun h (hc : c = .ncb h .enterSender) => entering_held hs (hc ▸ hu)
        simp only [State.records_running hu] at hneed hcheck henter
        have hgrows := (LinkRecord.grows_after (record LinkRecord.after (.start j) t) c a).tcp
        rcases (Latch.in_after hneed).mp hin with rfl | ⟨hin, -⟩
        · exact ⟨henter h rfl, hgrows hcheck⟩
        -- nothing is released inside
        obtain ⟨hheld, htcp⟩ := hP h hin
        refine ⟨?_, hgrows htcp⟩
        cases c with
        | objrefr l => cases hin.2.symm.trans hneed
        | objreff l => cases hin.2.symm.trans hneed
        | objdefr l => cases hin.2.symm.trans hneed
        | _ => exact hheld

/-- Nor is it while a thread is inside. -/
theorem inside_ready (hr : SysReaches G s) (hin : (s.records latches u).In h) :
    ∃ o, s.world.obj h = some o ∧ Ready o ∧ o.locked = true := by
  obtain ⟨hheld, htcp⟩ := inside_held hr hin
  obtain ⟨o, ho, hready⟩ := held_ready hr hheld (latch_link hin.1) htcp
  exact ⟨o, ho, hready, ((sys_latched hr).1.locked ho).mpr ⟨u, hin⟩⟩

/-! ## The queue -/

/-- The calls of the others are not on the queue, and do not set it up again. -/
theorem queue_apart (hr : SysReaches G s) (hin : (s.records latches u).In h) {v : τ} (hne : v ≠ u)
    {j : Job} {t : CallTrace} {x : Access} {k : Int → CallProg Int}
    (hv : s.thread v = .running j t (.call (.ncb h x) k)) :
    (∀ k, x ≠ .addTail k) ∧ x ≠ .popFront ∧ x ≠ .initListHead := by
  obtain ⟨hlatched, hlatches⟩ := sys_latched hr
  have hneed : (s.records latches v).Need (.ncb h x) := (hlatches v j t _ hv).1
  refine ⟨?_, ?_, ?_⟩
  · rintro k rfl
    exact hne (hlatched.alone hneed hin)
  · rintro rfl
    exact hne (hlatched.alone hneed.1 hin)
  · -- the list was set up before others got to know the link
    rintro rfl
    have hstage : s.records stages v = .locker h := ((sys_built hr).2 v j t _ hv).1
    have hheld := stage_held (s := s) (h := h) (v := v) (by rw [hstage]; rfl)
    exact (sys_custody hr).1.not_shared hheld (.inr (.inr ⟨u, .inl (latch_link hin.1)⟩))

/-- A link that is not unloaded keeps its queue. -/
theorem Obj.Settled.queue {o₁ o₂ : Obj} (hs : o₁.Settled o₂) (hload : o₂.unloaded = false) :
    o₂.cacheHead = o₁.cacheHead := by
  rcases hs.cases with rfl | ⟨-, -, -, rfl⟩
  · rfl
  · rw [o₁.unload_unloaded] at hload
    cases hload

/-- **The queue is the thread's own.** While a thread is inside, the steps of the others leave the
queue alone. -/
theorem queue_frame (hr : SysReaches G s) {s' : SysState τ} (hstep : Step system G s s')
    (hsame : s'.thread u = s.thread u) (hin : (s.records latches u).In h) :
    s'.world.queue h = s.world.queue h := by
  have hin' : (s'.records latches u).In h := by
    rw [State.records, hsame]
    exact hin
  obtain ⟨o', ho', hready, -⟩ := inside_ready (hr.step hstep) hin'
  obtain ⟨o, ho, -⟩ := inside_ready hr hin
  cases hstep with
  | env e => exact e.elim
  -- a start may connect the socket, and touches no queue
  | start v j hv hw hG =>
      rcases (World.startJob_spec hw).same h with ⟨hnone, -⟩ | ⟨o₁, peer, ho₁, hobj⟩
      · rw [ho] at hnone
        cases hnone
      · rw [World.queue_some ho₁, World.queue_some hobj]
  | finish v j t r hv =>
      refine World.queue_of_obj ?_
      rw [show (system.finish s.world j r).obj = s.world.obj from
        (World.finishJob_spec s.world j r).1]
  | @call w v j t c k a hv hw hG =>
      have hne : v ≠ u := by
        rintro rfl
        rw [hv] at hsame
        simp at hsame
      have hobj : ObjStep c a h (some o) (some o') := by
        have hobj := World.answer_obj hw h
        rw [ho, show w.obj h = some o' from ho'] at hobj
        exact hobj
      rw [World.queue_some ho,
        show World.queue w h = o'.cacheHead.getD [] from World.queue_some ho']
      cases hobj with
      | same => rfl
      | refer => rfl
      | reff => rfl
      -- the unload would empty it, but the link is referenced from inside
      | defr hc hs => rw [hs.queue hready.loaded]
      | clos hc hs => rw [hs.queue hready.loaded]
      -- only those inside work on the queue, and there is one of them
      | @access _ _ x hc hx =>
          subst hc
          obtain ⟨hadd, hpop, hinit⟩ := queue_apart hr hin hne hv
          have hqueues := Access.apply_queues hx
          generalize o.cacheHead.getD [] = q, o'.cacheHead.getD [] = q' at hqueues
          cases hqueues with
          | same => rfl
          | lost _ heq => exact absurd heq hinit
          | added _ heq => exact absurd heq (hadd _)
          | dropped heq => exact absurd heq (hadd _)
          | taken _ heq => exact absurd heq hpop

/-- What a thread knows of the queue stays so by its own calls. -/
theorem Latch.filled_after {g : Latch} {x : Access} {a : Int} {o o' : Obj}
    (hx : x.apply a o = some o') (hhead : o.cacheHead ≠ none) (hinner : x.Inner)
    (hbefore : g.filled = true → o.cacheHead.getD [] ≠ [])
    (hfilled : (g.after (.ncb h x) a).filled = true) : o'.cacheHead.getD [] ≠ [] := by
  obtain ⟨queue, hqueue⟩ := Option.ne_none_iff_exists'.mp hhead
  cases x with
  | addTail k =>
      cases hx
      simp [hqueue]
  | popFront => cases hfilled
  | leaveSender => cases hfilled
  | listEmpty =>
      simp only [Access.apply] at hx
      split at hx
      next hiff =>
        cases hx
        rcases Bool.or_eq_true_iff.mp hfilled with hold | hzero
        · exact hbefore hold
        · -- it found the queue not empty
          rw [hqueue]
          rintro rfl
          exact (hiff.mpr hqueue) (of_decide_eq_true hzero)
      · cases hx
  | read | incListSize | decListSize | incPending | decPending =>
      have hne := hbefore hfilled
      have hqueues := Access.apply_queues hx
      generalize o.cacheHead.getD [] = q, o'.cacheHead.getD [] = q' at hqueues hne
      cases hqueues with
      | same => exact hne
      | lost _ heq => cases heq
      | added _ heq => cases heq
      | dropped heq => cases heq
      | taken _ heq => cases heq
  | _ => cases hinner

/-- What a thread knows of the queue is so. -/
theorem sys_filled (hr : SysReaches G s) : ∀ u h, (s.records latches u).In h →
    (s.records latches u).filled = true → s.world.queue h ≠ [] := by
  -- the others do not change that
  have hother : ∀ {s s' : SysState τ} {u : τ} {h : Int}, SysReaches G s → Step system G s s' →
      s'.thread u = s.thread u → (s.records latches u).In h → s.world.queue h ≠ [] →
      s'.world.queue h ≠ [] := by
    intro s s' u h hs hstep hsame hin hne
    rw [queue_frame hs hstep hsame hin]
    exact hne
  have hkept : Kept latches system G (State.rest World.initial) fun w (rec : τ → Latch) =>
      ∀ u h, (rec u).In h → (rec u).filled = true → w.queue h ≠ [] := by
    constructor
    case env =>
      intro s e
      exact e.elim
    case start =>
      intro s v j w hs hf hv hw hG
      refine ⟨job_latches j, fun u h hin hfilled => ?_⟩
      by_cases huv : u = v
      · subst huv
        rw [Function.update_self] at hin
        cases hin.2
      · rw [Function.update_of_ne huv] at hin hfilled
        exact hother hs (.start v j hv hw hG) (Function.update_of_ne huv ..) hin
          (hf u h hin hfilled)
    case call =>
      intro s v j t c k a w hs hf hv hw hG hn
      refine ⟨trivial, fun u h hin hfilled => ?_⟩
      by_cases huv : u = v
      · subst huv
        rw [Function.update_self] at hin hfilled
        rcases (Latch.in_after hn).mp hin with rfl | ⟨hold, hstays⟩
        · cases hfilled
        obtain ⟨o, ho, hready, -⟩ := inside_ready hs hold
        rcases Latch.need_inside hn hold with rfl | ⟨x, rfl, hinner⟩
        · cases hw
        have hanswer : s.world.answer (.ncb h x) a = some w := hw
        simp only [World.answer, ho] at hanswer
        obtain ⟨o', hx, rfl⟩ := Option.map_eq_some_iff.mp hanswer
        rw [World.queue_some (o := o') (by simp)]
        refine Latch.filled_after hx hready.whole.2.2 hinner (fun hbefore => ?_) hfilled
        have hne := hf u h hold hbefore
        rwa [World.queue_some ho] at hne
      · rw [Function.update_of_ne huv] at hin hfilled
        exact hother hs (.call v j t c k a hv hw hG) (Function.update_of_ne huv ..) hin
          (hf u h hin hfilled)
    case finish =>
      intro s v j t r hs hf hv hp u h hin hfilled
      by_cases huv : u = v
      · subst huv
        rw [Function.update_self] at hin
        cases hin.2
      · rw [Function.update_of_ne huv] at hin hfilled
        exact hother hs (.finish v j t r hv) (Function.update_of_ne huv ..) hin
          (hf u h hin hfilled)
  refine (hr.kept hkept ?_ (State.meets_rest _)).1
  intro u h hin
  cases hin.2

/-- The packet a thread knows of is the first of the queue. -/
theorem filled_head (hr : SysReaches G s) (hin : (s.records latches u).In h)
    (hfilled : (s.records latches u).filled = true) :
    ∃ o k queue, s.world.obj h = some o ∧ o.cacheHead = some (k :: queue) := by
  obtain ⟨o, ho, hready, -⟩ := inside_ready hr hin
  obtain ⟨queue, hqueue⟩ := Option.ne_none_iff_exists'.mp hready.whole.2.2
  have hne := sys_filled hr u h hin hfilled
  rw [World.queue_some ho, hqueue] at hne
  obtain ⟨k, rest, hrest⟩ := List.exists_cons_of_ne_nil hne
  exact ⟨o, k, rest, ho, by rw [hqueue, show queue = k :: rest from hrest]⟩

/-- A thread inside is about to make a call on the block of the link, which can be answered. -/
theorem inside_calls (hr : SysReaches G s) (hin : (s.records latches u).In h) :
    ∃ j t c, calling s u = some (j, t, c)
      ∧ (c = .stuck ∨ ∃ x a w, c = .ncb h x ∧ x.Inner ∧ s.world.answer c a = some w) := by
  obtain ⟨-, hlatches⟩ := sys_latched hr
  cases hu : s.thread u with
  | idle =>
      rw [State.records_idle hu] at hin
      cases hin.2
  | running j t p =>
      have hmeets := hlatches u j t p hu
      cases p with
      | done r => exact absurd (hin.2.symm.trans hmeets) (by decide)
      | call c k =>
          refine ⟨j, t, c, by rw [calling, hu], ?_⟩
          refine (Latch.need_inside hmeets.1 hin).imp_right ?_
          rintro ⟨x, rfl, hx⟩
          obtain ⟨a, w, hw⟩ : ∃ a w, s.world.answer (.ncb h x) a = some w := by
            refine World.answerable (by simp) ?_ ?_
            · rintro l ⟨⟩
              exact hx
            · rintro l ⟨⟩
              exact filled_head hr hin hmeets.1.2
          exact ⟨x, a, w, rfl, hx, hw⟩

/-- A thread that enters a lock can, or another one is inside. -/
theorem entering_cases (hr : SysReaches G s) {j : Job} {t : CallTrace} {k : Int → CallProg Int}
    (hu : s.thread u = .running j t (.call (.ncb h .enterSender) k)) :
    (∃ a w, s.world.answer (.ncb h .enterSender) a = some w)
      ∨ ∃ v, v ≠ u ∧ (s.records latches v).In h := by
  obtain ⟨hlatched, hlatches⟩ := sys_latched hr
  have hneed : (s.records latches u).Need (.ncb h .enterSender) := (hlatches u j t _ hu).1
  obtain ⟨o, ho, -⟩ := entering_ready hr hu
  cases hlocked : o.locked with
  | false =>
      refine .inl ⟨0, s.world.setObj h { o with locked := true }, ?_⟩
      simp [World.answer, ho, Access.apply, hlocked]
  | true =>
      obtain ⟨v, hv⟩ := (hlatched.locked ho).mp hlocked
      refine .inr ⟨v, ?_, hv⟩
      rintro rfl
      exact absurd (hv.2.symm.trans hneed.2) (by decide)

/-! ## In every run -/

/-- A thread is inside the lock of link `h`. -/
def Inside (s : SysState τ) (u : τ) (h : Int) : Prop := (s.records latches u).In h

/-- What is done to the queue. -/
def Access.OnQueue : Access → Prop
  | .addTail _ | .listEmpty | .popFront => True
  | _ => False

/-- The locks of the senders are used as they should. A thread that is `stuck` has used up the
turns of a loop. -/
structure SenderSections (G : SysGuard) (s : SysState τ) : Prop where
  /-- One thread at a time is inside, and exactly then the lock is held. -/
  alone : ∀ u v h, Inside s u h → Inside s v h → u = v
  taken : ∀ h o, s.world.obj h = some o → (o.locked = true ↔ ∃ u, Inside s u h)
  /-- The lock that is entered was set up, and is not torn down while a thread is inside. -/
  entered : ∀ u j t h, calling s u = some (j, t, .ncb h .enterSender) →
    ∃ o, s.world.obj h = some o ∧ Ready o
  ready : ∀ u h, Inside s u h → ∃ o, s.world.obj h = some o ∧ Ready o
  /-- A thread inside is about to make a call on the block of the link, which can be answered. -/
  goesOn : ∀ u h, Inside s u h → ∃ j t c, calling s u = some (j, t, c)
    ∧ (c = .stuck ∨ ∃ x a w, c = .ncb h x ∧ x.Inner ∧ s.world.answer c a = some w)
  /-- The queue is worked on inside only, by that thread only, and a packet is there to be taken
  out. -/
  worked : ∀ u j t h x, calling s u = some (j, t, .ncb h x) → x.OnQueue → Inside s u h
  own : ∀ s' u h, Step system G s s' → s'.thread u = s.thread u → Inside s u h →
    s'.world.queue h = s.world.queue h
  popped : ∀ u j t h, calling s u = some (j, t, .ncb h .popFront) → s.world.queue h ≠ []

/-- **The lock of the sender.** Whatever the threads and the system do. -/
theorem sender_section (hr : SysReaches G s) : SenderSections G s := by
  obtain ⟨hlatched, hlatches⟩ := sys_latched hr
  constructor
  case alone =>
    intro u v h hu hv
    exact hlatched.alone hu hv
  case taken =>
    intro h o ho
    exact hlatched.locked ho
  case entered =>
    intro u j t h hu
    obtain ⟨k, hk⟩ := running_of_calling hu
    exact entering_ready hr hk
  case ready =>
    intro u h hin
    obtain ⟨o, ho, hready, -⟩ := inside_ready hr hin
    exact ⟨o, ho, hready⟩
  case goesOn =>
    intro u h hin
    exact inside_calls hr hin
  case worked =>
    intro u j t h x hu hx
    obtain ⟨k, hk⟩ := running_of_calling hu
    have hneed : (s.records latches u).Need (.ncb h x) := (hlatches u j t _ hk).1
    cases x with
    | addTail => exact hneed
    | listEmpty => exact hneed
    | popFront => exact hneed.1
    | _ => cases hx
  case own =>
    intro s' u h hstep hsame hin
    exact queue_frame hr hstep hsame hin
  case popped =>
    intro u j t h hu
    obtain ⟨k, hk⟩ := running_of_calling hu
    have hneed : (s.records latches u).Need (.ncb h .popFront) := (hlatches u j t _ hk).1
    exact sys_filled hr u h hneed.1 hneed.2

/-! ## No deadlock -/

/-- A thread that is at work can take its next step. -/
def Advances (s : SysState τ) (u : τ) : Prop :=
  ∃ s', Step system anyRun s s' ∧ s'.thread u ≠ s.thread u

omit [Fintype τ] in
theorem advances_of_answer {j : Job} {t : CallTrace} {c : Call} (hu : calling s u = some (j, t, c))
    {a : Int} {w : World} (hw : s.world.answer c a = some w) : Advances s u := by
  obtain ⟨k, hk⟩ := running_of_calling hu
  refine ⟨_, .call u j t c k a hk hw trivial, ?_⟩
  dsimp only
  rw [Function.update_self, hk]
  simp

omit [Fintype τ] in
theorem advances_of_return {j : Job} {t : CallTrace} {r : Int}
    (hu : s.thread u = .running j t (.done r)) : Advances s u := by
  refine ⟨_, .finish u j t r hu, ?_⟩
  dsimp only
  rw [Function.update_self, hu]
  simp

/-- **No deadlock.** A thread that is at work can take its next step, or it waits to enter the lock
of a link, and the thread that is inside can; unless one is `stuck`. -/
theorem never_deadlocked (hr : SysReaches anyRun s)
    (hstuck : ∀ v j t, calling s v ≠ some (j, t, .stuck)) (hu : s.thread u ≠ .idle) :
    Advances s u ∨ ∃ j t h v, calling s u = some (j, t, .ncb h .enterSender) ∧ v ≠ u
      ∧ Inside s v h ∧ Advances s v := by
  -- who is inside can go on: it waits for nothing
  have hinside : ∀ {v h}, Inside s v h → Advances s v := by
    intro v h hv
    obtain ⟨j, t, c, hcall, rfl | ⟨x, a, w, -, -, hw⟩⟩ := inside_calls hr hv
    · exact absurd hcall (hstuck v j t)
    · exact advances_of_answer hcall hw
  cases hth : s.thread u with
  | idle => exact absurd hth hu
  | running j t p =>
      cases p with
      | done r => exact .inl (advances_of_return hth)
      | call c k =>
          have hcall : calling s u = some (j, t, c) := by rw [calling, hth]
          by_cases henter : ∃ h, c = .ncb h .enterSender
          · obtain ⟨h, rfl⟩ := henter
            -- the lock is free, or another thread is inside
            rcases entering_cases hr hth with ⟨a, w, hw⟩ | ⟨v, hne, hv⟩
            · exact .inl (advances_of_answer hcall hw)
            · exact .inr ⟨j, t, h, v, hcall, hne, hv, hinside hv⟩
          · -- every other call can be answered
            obtain ⟨a, w, hw⟩ : ∃ a w, s.world.answer c a = some w := by
              refine World.answerable ?_ (fun h hc => henter ⟨h, hc⟩) ?_
              · rintro rfl
                exact hstuck u j t hcall
              · rintro h rfl
                have hneed : (s.records latches u).Need (.ncb h .popFront) :=
                  ((sys_latched hr).2 u j t _ hth).1
                exact filled_head hr hneed.1 hneed.2
            exact .inl (advances_of_answer hcall hw)

end

/-- Two calls of `tcp_write` on a link that was created: the first is about to take its packet
out of the queue, the second about to enter. -/
def twoWrites : List (SysMove Bool) :=
  createTcp true 0
    ++ .start true (.user (.tcpWrite 1 0 true 5 false)) :: referTcp true
    ++ Move.calls true [0, 0, 0, 0, 7, 0, 1, 0, 1]
    ++ .start false (.user (.tcpWrite 1 0 true 5 false)) :: referTcp false
    ++ Move.calls false [1, 0, 0, 0, 8]

/-- One thread is inside, about to take a packet out, and another is about to enter. -/
theorem sender_section_popping : ∃ s : SysState Bool, SenderSections anyRun s
    ∧ (∃ j t, calling s true = some (j, t, .ncb 0 .popFront))
    ∧ ∃ j t, calling s false = some (j, t, .ncb 0 .enterSender) := by
  obtain ⟨s, hs, ⟨⟨j, t, c⟩, hu, hpop⟩, ⟨j₂, t₂, c₂⟩, hv, henter⟩ := sys_of_play anyRun
    (P := fun s => (∃ x ∈ calling s true, x.2.2 = .ncb 0 .popFront)
      ∧ ∃ x ∈ calling s false, x.2.2 = .ncb 0 .enterSender)
    twoWrites (by decide +kernel)
  obtain rfl : c = .ncb 0 .popFront := hpop
  obtain rfl : c₂ = .ncb 0 .enterSender := henter
  exact ⟨s, sender_section hs, ⟨j, t, hu⟩, j₂, t₂, hv⟩

/-- The second waits for the first. -/
theorem never_deadlocked_waiting : ∃ s : SysState Bool,
    (∃ o, s.world.obj 0 = some o ∧ o.locked = true)
      ∧ (Advances s false ∨ ∃ j t h v, calling s false = some (j, t, .ncb h .enterSender)
        ∧ v ≠ false ∧ Inside s v h ∧ Advances s v) := by
  obtain ⟨s, hs, hidle, ⟨o, ho, hlocked⟩, hstuck⟩ := sys_of_play anyRun
    (P := fun s => idling s false = false ∧ (∃ o ∈ s.world.obj 0, o.locked = true)
      ∧ ∀ v : Bool, ∀ x ∈ calling s v, x.2.2 ≠ .stuck)
    twoWrites (by decide +kernel)
  refine ⟨s, ⟨o, ho, hlocked⟩, never_deadlocked hs ?_ ?_⟩
  · intro v j t hv
    exact hstuck v _ hv rfl
  · intro hth
    rw [idling, hth] at hidle
    cases hidle

end Swnet.Sys
