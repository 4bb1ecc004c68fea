import Swnet.Sys.Ownership

/-!
# Swnet — accepted links and accept requests

What becomes of the links that `tcp_syn` makes, and of the accept requests of a listener.

* `accepted_link_settled` — as long as the listener can be referenced when an accept request has
  completed, its link is announced or closed;
* `accept_slots` — as long as a listener that is not closed gets its next accept packet after a
  request failed, it has as many accept requests outstanding as `tcp_listen` made.

Each has an invariant over the world and the ledger of the links, kept by a call, by the start of a
job and by its end. `Settled` says where a link that was made to accept on can be: closed,
announced, in a request, or in the hands of a job, and the handler of its request takes it from the
third place to the first or second. `Slotted` counts: the requests outstanding and those the jobs
are still to make (`owes`) add up to the slots of the listener, so that a call which posts one
moves a unit from one side to the other. A closed listener, or one on which `tcp_listen` failed
half way, is out of the count.
-/

namespace Swnet.Sys

open Jobs Jobs.Prog

/-- The dispatch of the completion of an accept request. -/
def Job.Accepts : Job → Bool
  | .completion p _ _ _ _ => p.IsSyn
  | .user _ => false

namespace World

variable {w w' : World} {c : Call} {a h : Int}

/-- The object of a handle is closed. -/
def Shut (w : World) (h : Int) : Prop := ∃ o, w.obj h = some o ∧ o.closed = true

instance : Decidable (w.Shut h) := inferInstanceAs (Decidable (∃ o ∈ w.obj h, o.closed = true))

theorem Shut.call (hs : w.Shut h) (hw : w.answer c a = some w') : w'.Shut h := by
  obtain ⟨o, ho, hclosed⟩ := hs
  obtain ⟨o', ho', hk⟩ := answer_keeps hw ho
  exact ⟨o', ho', hk.closed hclosed⟩

theorem Shut.start {j : Job} (hs : w.Shut h) (hw : w.startJob j = some w') : w'.Shut h := by
  obtain ⟨o, ho, hclosed⟩ := hs
  rcases (startJob_spec hw).same h with ⟨hnone, -⟩ | ⟨o₁, peer, ho₁, ho'⟩
  · rw [ho] at hnone
    cases hnone
  · rw [ho] at ho₁
    cases ho₁
    exact ⟨_, ho', hclosed⟩

theorem Shut.finish {j : Job} {r : Int} (hs : w.Shut h) : (w.finishJob j r).Shut h := by
  rw [Shut, (finishJob_spec w j r).1]
  exact hs

/-- What a call closes is closed, when it is there. -/
theorem answer_shut (hw : w.answer c a = some w') {o : Obj} (ho : w.obj h = some o)
    (hc : c = .objclos h ∨ c = .objreff h ∨ c = .objrefr h ∧ a < 0) : w'.Shut h := by
  rcases hc with rfl | rfl | ⟨rfl, ha⟩
  · simp only [answer, ho, Option.some.injEq] at hw
    subst hw
    obtain ⟨o', ho', hs⟩ := settle_step w h { o with closed := true }
    exact ⟨o', ho', hs.husk.closed⟩
  · by_cases ha : a < 0
    · exact Shut.call ⟨o, ho, answer_refused (.inr rfl) ha hw o ho⟩ hw
    · simp only [answer, ho, if_neg ha] at hw
      split at hw
      · cases hw
      · cases hw
        exact ⟨_, Function.update_self .., rfl⟩
  · exact Shut.call ⟨o, ho, answer_refused (.inl rfl) ha hw o ho⟩ hw

end World

/-! ## Accepted links -/

section

variable {τ : Type} {w w' : World} {rec : τ → LinkRecord}

/-- Every link made to accept on is closed, or was announced, or is in a request or in hand. -/
def Settled (w : World) (rec : τ → LinkRecord) : Prop :=
  ∀ h o, w.obj h = some o → o.remote = true →
    o.closed = true ∨ (∃ l, .accepted l h ∈ w.notices)
      ∨ (∃ p ∈ w.posted, p.IsSyn ∧ p.acceptedLink = h) ∨ ∃ u, h ∈ (rec u).held

variable [DecidableEq τ] {c : Call} {a : Int} {u : τ}

/-- **One call keeps every accepted link settled**: the one it takes out of hand it closes,
announces, or hands to the system again. -/
theorem Settled.call (hs : Settled w rec) (hc : Custody w rec) (hw : w.answer c a = some w')
    (hn : (rec u).Need c) : Settled w' (Function.update rec u ((rec u).after c a)) := by
  have hinHand : ∀ {h : Int}, h ∈ ((rec u).after c a).held →
      ∃ v, h ∈ (Function.update rec u ((rec u).after c a) v).held := by
    intro h hh
    exact ⟨u, by rw [Function.update_self]; exact hh⟩
  intro h o' ho' hremote
  cases ho : w.obj h with
  -- the link was made with this call, and is in the hand of the job
  | none =>
      obtain ⟨proto, remote, rfl, ha, rfl, -⟩ := World.answer_made hw ho ho'
      exact .inr (.inr (.inr (hinHand (by simp [LinkRecord.after, show ¬ a < 0 by omega]))))
  | some o =>
      -- it was there before: what had become of it is so still, unless it was in this hand
      obtain ⟨o₁, ho₁, hk⟩ := World.answer_keeps hw ho
      rw [ho'] at ho₁
      cases ho₁
      obtain ⟨new, -, hnotices, -⟩ := World.answer_notices hw
      rcases hs h o ho (hk.kin.remote.symm.trans hremote) with hclosed | ⟨l, hl⟩
        | ⟨p, hp, hsyn, hpa⟩ | ⟨v, hv⟩
      · exact .inl (hk.closed hclosed)
      · exact .inr (.inl ⟨l, by rw [hnotices]; exact List.mem_append_left _ hl⟩)
      · refine .inr (.inr (.inl ⟨p, ?_, hsyn, hpa⟩))
        rcases World.answer_posted hw with ⟨q, -, -, hq⟩ | ⟨hq, -⟩ <;> rw [hq]
        · exact List.mem_cons_of_mem _ hp
        · exact hp
      · by_cases hvu : v = u
        · subst hvu
          by_cases hh : h ∈ ((rec v).after c a).held
          · exact .inr (.inr (.inr (hinHand hh)))
          -- it left the hand of its job
          cases c with
          | objclos k =>
              have hk' : h = k := by
                by_contra hne
                exact hh ((List.mem_erase_of_ne hne).mpr hv)
              subst hk'
              obtain ⟨o₂, ho₂, hclosed⟩ := World.answer_shut hw ho (.inl rfl)
              rw [ho'] at ho₂
              cases ho₂
              exact .inl hclosed
          | post p =>
              by_cases ha : a < 0
              · exact absurd (by simpa [LinkRecord.after, ha] using hv) hh
              by_cases hsyn : p.IsSyn
              · have hpa : h = p.acceptedLink := by
                  by_contra hne
                  refine hh ?_
                  simpa [LinkRecord.after, ha, hsyn] using (List.mem_erase_of_ne hne).mpr hv
                refine .inr (.inr (.inl ⟨p, ?_, hsyn, hpa.symm⟩))
                simp only [World.answer, if_neg ha, Option.some.injEq] at hw
                subst hw
                exact List.mem_cons_self
              · -- only a UDP link is given away so
                have hpl : h = p.link := by
                  by_contra hne
                  refine hh ?_
                  simpa [LinkRecord.after, ha, hsyn] using (List.mem_erase_of_ne hne).mpr hv
                subst hpl
                simp only [LinkRecord.Need, if_neg hsyn] at hn
                have hshared := hc.not_shared hv
                have hrest :=
                  (hn.resolve_left fun h => hshared (.inr (.inr ⟨v, .inl h⟩))).resolve_left
                  fun h => hshared (.inr (.inr ⟨v, .inr h⟩))
                obtain ⟨o₂, ho₂, -, hlocal⟩ := hc.made v _ _ _ hrest.2.2
                rw [ho] at ho₂
                cases ho₂
                rw [hk.kin.remote, hlocal] at hremote
                cases hremote
          | emit n =>
              cases n with
              | accepted l k =>
                  have hk' : h = k := by
                    by_contra hne
                    exact hh ((List.mem_erase_of_ne hne).mpr hv)
                  subst hk'
                  rw [hc.announced hw hn]
                  exact .inr (.inl ⟨l, by simp [World.note]⟩)
              | _ => exact absurd hv hh
          | objallo proto remote =>
              refine absurd ?_ hh
              simp only [LinkRecord.after]
              split
              · exact hv
              · exact List.mem_cons_of_mem _ hv
          | _ => exact absurd hv hh
        · exact .inr (.inr (.inr ⟨v, by rw [Function.update_of_ne hvu]; exact hv⟩))

/-- **So does the start of a job**: the dispatch of an accept takes the link of its request in
hand. -/
theorem Settled.start {j : Job} (hs : Settled w rec) (hw : w.startJob j = some w')
    (hu : rec u = .blank) : Settled w' (Function.update rec u (.start j)) := by
  have hstart := World.startJob_spec hw
  intro h o' ho' hremote
  rcases hstart.same h with ⟨-, hnone⟩ | ⟨o, peer, ho, hpeer⟩
  · rw [hnone] at ho'
    cases ho'
  rw [hpeer] at ho'
  cases ho'
  rcases hs h o ho hremote with hclosed | ⟨l, hl⟩ | ⟨p, hp, hsyn, hpa⟩ | ⟨v, hv⟩
  · exact .inl hclosed
  · exact .inr (.inl ⟨l, by rw [hstart.notices]; exact hl⟩)
  · cases j with
    | user c =>
        refine .inr (.inr (.inl ⟨p, ?_, hsyn, hpa⟩))
        rw [(hstart.user c rfl).1]
        exact hp
    | completion q status transfer turns irp =>
        obtain ⟨-, -, hposted, -⟩ := hstart.completion _ _ _ _ _ rfl
        by_cases hq : p = q
        · -- the job that dispatches its request has it in hand
          subst hq
          refine .inr (.inr (.inr ⟨u, ?_⟩))
          rw [Function.update_self, LinkRecord.start, if_pos hsyn]
          exact List.mem_singleton.mpr hpa.symm
        · refine .inr (.inr (.inl ⟨p, ?_, hsyn, hpa⟩))
          rw [hposted]
          exact (List.mem_erase_of_ne hq).mpr hp
  · refine .inr (.inr (.inr ⟨v, ?_⟩))
    rw [Function.update_of_ne]
    · exact hv
    · rintro rfl
      rw [hu] at hv
      cases hv

/-- A job that returns has nothing in hand but a link it made itself, unless it turned back. -/
theorem Settled.finish {j : Job} {r : Int} (hs : Settled w rec) (hc : Custody w rec)
    (hp : LinkRecord.Post j (rec u) r) (hturned : j.Accepts = true → (rec u).turned = false) :
    Settled (w.finishJob j r) (Function.update rec u .blank) := by
  obtain ⟨hobj, hposted, hcase⟩ := World.finishJob_spec w j r
  have hnotices : ∀ n ∈ w.notices, n ∈ (w.finishJob j r).notices := by
    intro n hn
    rcases hcase with ⟨-, -, -, h⟩ | ⟨-, h⟩ <;> rw [h]
    · exact List.mem_append_left _ hn
    · exact hn
  intro h o ho hremote
  rw [hobj] at ho
  rcases hs h o ho hremote with hclosed | ⟨l, hl⟩ | hpend | ⟨v, hv⟩
  · exact .inl hclosed
  · exact .inr (.inl ⟨l, hnotices _ hl⟩)
  · rw [hposted]
    exact .inr (.inr (.inl hpend))
  · by_cases hvu : v = u
    · subst hvu
      -- a link that a job made by `create` is no link to accept on
      have hlocal : ∀ {proto : ProtoType}, (h, proto, false) ∈ (rec v).made → False := by
        intro proto hm
        obtain ⟨o₁, ho₁, -, hrem⟩ := hc.made v _ _ _ hm
        rw [ho] at ho₁
        cases ho₁
        rw [hremote] at hrem
        cases hrem
      cases j with
      | completion p status transfer turns irp =>
          -- the dispatch of an accept has nothing in hand, as it has not turned back
          by_cases hsyn : p.IsSyn
          · simp only [LinkRecord.Post, if_pos hsyn] at hp
            rw [hturned (by simpa [Job.Accepts] using hsyn)] at hp
            have hempty := hp.1.resolve_right (by simp)
            rw [hempty] at hv
            cases hv
          · simp only [LinkRecord.Post, if_neg hsyn] at hp
            rw [hp.1] at hv
            cases hv
      | user c =>
          cases c with
          -- a `create` call has at most the link that it returns in hand
          | tcpCreate b l =>
              simp only [LinkRecord.Post] at hp
              split at hp
              · rw [hp] at hv
                cases hv
              · obtain ⟨hheld, -, hm⟩ := hp
                rw [hheld, List.mem_singleton] at hv
                subst hv
                exact absurd hm hlocal
          | udpCreate b l p c =>
              simp only [LinkRecord.Post] at hp
              split at hp
              · rw [hp] at hv
                cases hv
              · obtain ⟨hheld, -, hm⟩ := hp
                rcases hheld with hheld | ⟨hheld, -⟩ <;> rw [hheld] at hv
                · rw [List.mem_singleton] at hv
                  subst hv
                  exact absurd hm hlocal
                · cases hv
          | tcpListen l b =>
              rw [hp.1] at hv
              cases hv
          | _ =>
              rw [hp.1] at hv
              cases hv
    · exact .inr (.inr (.inr ⟨v, by rw [Function.update_of_ne hvu]; exact hv⟩))

/-- The runs in which the listener can be referenced when an accept request has completed. -/
def listenersStay : SysGuard where
  start _ _ := True
  call _ j t _ a := j.Accepts = true → t = [] → 0 ≤ a

instance (w : World) (j : Job) : Decidable (listenersStay.start w j) := instDecidableTrue

instance (w : World) (j : Job) (t : CallTrace) (c : Call) (a : Int) :
    Decidable (listenersStay.call w j t c a) :=
  inferInstanceAs (Decidable (_ → _ → _))

variable {s : SysState τ}

/-- **In every run in which listeners stay.** Induction on the run. -/
theorem sys_settled (hr : SysReaches listenersStay s) : Settled s.world (s.records links) := by
  have hkept : Kept links system listenersStay (State.rest World.initial) (Settled (τ := τ)) := by
    constructor
    case env =>
      intro s e
      exact nomatch e
    case start =>
      intro s u j w hs hset hu hw hG
      exact ⟨(sys_custody hs).1.job_links hw, hset.start hw (State.records_idle hu)⟩
    case call =>
      intro s u j t c k a w hs hset hu hw hG hn
      obtain ⟨hc, -⟩ := sys_custody hs
      exact ⟨hc.ok hw, hset.call hc hw hn⟩
    case finish =>
      intro s u j t r hs hset hu hp
      refine hset.finish (sys_custody hs).1 hp fun hj => ?_
      by_contra hturned
      rw [Bool.not_eq_false, State.records_running hu] at hturned
      obtain ⟨t₁, h, a, rfl, ha⟩ := LinkRecord.turned_record hturned
      have hpos := hs.traced (P := fun j t c a => j.Accepts = true → t = [] → 0 ≤ a)
        (fun w j t c a hG => hG) (fun _ => rfl) hu t₁ _ a [] rfl hj rfl
      omega
  refine (hr.kept hkept ?_ (State.meets_rest _)).1
  intro h o ho
  cases ho

/-- A job is at work on the link of an accept request: it dispatches the completion, or has
allocated the link. -/
def Job.WorksOn (j : Job) (t : CallTrace) (h : Int) : Prop :=
  (∃ p status transfer turns irp,
      j = .completion p status transfer turns irp ∧ p.IsSyn ∧ p.acceptedLink = h)
    ∨ ∃ proto remote, (.objallo proto remote, h) ∈ t

/-- **No accepted link is orphaned.** A link made to accept on is closed or announced, unless its
request is outstanding or a job is at work on it. -/
theorem accepted_link_settled (hr : SysReaches listenersStay s) {h : Int} {o : Obj}
    (ho : s.world.obj h = some o) (hremote : o.remote = true)
    (hpost : ∀ p ∈ s.world.posted, p.IsSyn → p.acceptedLink ≠ h)
    (hwork : ∀ u j t p, s.thread u = .running j t p → ¬ j.WorksOn t h) :
    o.closed = true ∨ ∃ l, .accepted l h ∈ s.world.notices := by
  rcases sys_settled hr h o ho hremote with hclosed | hl | ⟨p, hp, hsyn, hpa⟩ | ⟨u, hu⟩
  · exact .inl hclosed
  · exact .inr hl
  · exact absurd hpa (hpost p hp hsyn)
  · -- what is in hand of a job, that job works on
    exfalso
    simp only [State.records] at hu
    cases hth : s.thread u with
    | idle =>
        rw [hth] at hu
        cases hu
    | running j t q =>
        rw [hth] at hu
        refine hwork u j t q hth ?_
        rcases LinkRecord.held_record hu with hstart | hallo
        · rcases start_cases j with ⟨p, status, transfer, turns, irp, rfl, hp, hs⟩
            | ⟨-, accepts, hs⟩
          · rw [hs, List.mem_singleton] at hstart
            exact .inl ⟨p, status, transfer, turns, irp, rfl, hp, hstart.symm⟩
          · rw [hs] at hstart
            cases hstart
        · exact .inr hallo

end

/-- An accept request fails while its listener is open: its link is closed. -/
theorem accepted_link_settled_failed : ∃ s : SysState Unit, SysReaches listenersStay s ∧
    ∃ o, s.world.obj 1 = some o ∧ o.remote = true
      ∧ (o.closed = true ∨ ∃ l, .accepted l 1 ∈ s.world.notices) := by
  obtain ⟨s, hs, hidle, o, ho, hremote, hpost⟩ := sys_of_play listenersStay
    (P := fun s => idling s () = true ∧ ∃ o ∈ s.world.obj 1, o.remote = true
      ∧ ∀ p ∈ s.world.posted, p.IsSyn → p.acceptedLink ≠ 1)
    (createTcp () 0 ++ listenTcp () 0 5 1
      ++ .start () (.completion (synPacket 5 0 1) cancelled 0 0 noAddrs) :: referTcp () ++
        referTcp ()
      ++ synRound () 6 2 ++ Move.calls () (List.replicate 6 0) ++ [.finish ()])
    (by decide +kernel)
  refine ⟨s, hs, o, ho, hremote, accepted_link_settled hs ho hremote hpost fun u j t p hu => ?_⟩
  rw [idle_of_idling hidle] at hu
  cases hu

/-- The listener is destroyed, and its outstanding request completes: its link stays open, and the
user never hears of it. -/
theorem accepted_link_orphaned : ∃ s : SysState Unit, SysReaches anyRun s
    ∧ (∀ u, s.thread u = .idle) ∧ s.world.posted = []
    ∧ ∃ o, s.world.obj 1 = some o ∧ o.remote = true ∧ o.closed = false
      ∧ ∀ n ∈ s.world.notices, 1 ∉ n.gives := by
  obtain ⟨s, hs, hidle, hpost, hobj⟩ := sys_of_play anyRun
    (P := fun s => idling s () = true ∧ s.world.posted = [] ∧ ∃ o ∈ s.world.obj 1,
      o.remote = true ∧ o.closed = false ∧ ∀ n ∈ s.world.notices, 1 ∉ n.gives)
    (createTcp () 0 ++ listenTcp () 0 5 1 ++ destroyTcp () 0
      ++ Move.whole () (.completion (synPacket 5 0 1) cancelled 0 0 noAddrs) [-1, 0])
    (by decide +kernel)
  exact ⟨s, hs, fun _ => idle_of_idling hidle, hpost, hobj⟩

/-! ## Accept requests -/

namespace World

/-- The accept requests of a listener that are outstanding. -/
def requests (w : World) (l : Int) : Nat :=
  w.posted.countP fun p => decide (p.IsSyn ∧ p.link = l)

/-- The accept requests that the calls of `tcp_listen` on a link that succeeded have made. -/
def slots (w : World) (l : Int) : Int :=
  ((w.listens.filter fun e => decide (e.1 = l)).map
    fun e => if 0 ≤ e.2.2 then listenSlots e.2.1 else 0).sum

variable {w : World}

/-- The end of `tcp_listen` is recorded, with what it returned. -/
theorem finishJob_listens (w : World) (j : Job) (r : Int) :
    (∃ l block, j = .user (.tcpListen l block)
        ∧ (w.finishJob j r).listens = (l, block, r) :: w.listens)
      ∨ (∀ l block, j ≠ .user (.tcpListen l block)) ∧ (w.finishJob j r).listens = w.listens := by
  have hcreate : (if 0 ≤ r then w.note (.created r) else w).listens = w.listens := by
    split <;> rfl
  cases j with
  | completion p => exact .inr ⟨nofun, rfl⟩
  | user c =>
      cases c with
      | tcpListen l block => exact .inl ⟨l, block, rfl, rfl⟩
      | tcpCreate b l => exact .inr ⟨by rintro _ _ ⟨⟩, hcreate⟩
      | udpCreate b l p c => exact .inr ⟨by rintro _ _ ⟨⟩, hcreate⟩
      | _ => exact .inr ⟨by rintro _ _ ⟨⟩, rfl⟩

end World

/-- The accept requests of listener `l` that a job is still to make good. -/
def LinkRecord.owes (l : Int) (g : LinkRecord) : Int := if g.link = some l then g.due else 0

section

variable {τ : Type} [Fintype τ] {w w' : World} {rec : τ → LinkRecord} {c : Call} {a : Int} {u : τ}

/-- The requests outstanding and those to be made good are the slots of a listener, unless it is
closed, or a call of `tcp_listen` on it failed halfway. -/
structure Slotted (w : World) (rec : τ → LinkRecord) : Prop where
  quiet : ∀ u, (rec u).accepts = false → (rec u).due = 0
  shut : ∀ u h, (rec u).link = some h → h ∈ (rec u).shut → 0 ≤ h → w.Shut h
  slots : ∀ l, w.Shut l ∨ (∃ e ∈ w.listens, e.1 = l ∧ e.2.2 < 0)
    ∨ (w.requests l : Int) + ∑ u, (rec u).owes l = w.slots l

/-- What a call takes off what is owed is a request more. -/
theorem requests_call (hw : w.answer c a = some w') {g : LinkRecord} (hn : g.Need c) (l : Int) :
    (w'.requests l : Int) + (g.after c a).owes l = w.requests l + g.owes l := by
  have hsame : w'.posted = w.posted → (g.after c a).due = g.due →
      (w'.requests l : Int) + (g.after c a).owes l = w.requests l + g.owes l := by
    intro hp hd
    rw [World.requests, hp, LinkRecord.owes, hd]
    rfl
  rcases World.answer_posted hw with ⟨p, rfl, ha, hp⟩ | ⟨hp, hneg⟩
  · by_cases hsyn : p.IsSyn
    · simp only [LinkRecord.Need, if_pos hsyn] at hn
      have hcount : w'.requests l = w.requests l + if p.link = l then 1 else 0 := by
        rw [World.requests, hp, List.countP_cons]
        simp [World.requests, hsyn]
      have hdue : (g.after (.post p) a).due = g.due - 1 := by
        simp [LinkRecord.after, show ¬ a < 0 by omega, hsyn]
      rw [hcount, LinkRecord.owes, LinkRecord.owes, hdue]
      show _ + (if g.link = some l then _ else _) = _
      rw [hn.2.1]
      by_cases hl : p.link = l <;> simp [hl]
    · have hcount : w'.requests l = w.requests l := by
        rw [World.requests, hp, List.countP_cons]
        simp [World.requests, hsyn]
      rw [hcount, LinkRecord.owes, LinkRecord.owes]
      simp [LinkRecord.after, hsyn]
  · refine hsame hp ?_
    cases c with
    | post p => simp [LinkRecord.after, hneg p rfl]
    | _ => rfl

variable [DecidableEq τ]

/-- **One call keeps the slots**: a request that is posted takes one that was due. -/
theorem Slotted.call (hs : Slotted w rec) (hc : Custody w rec) (hw : w.answer c a = some w')
    (hn : (rec u).Need c) : Slotted w' (Function.update rec u ((rec u).after c a)) := by
  have hframe := World.answer_frame hw
  refine ⟨fun v hv => ?_, fun v h hl hh hpos => ?_, fun l => ?_⟩
  · by_cases hvu : v = u
    · subst hvu
      rw [Function.update_self] at hv ⊢
      have hdue := hs.quiet v hv
      cases c with
      | post p =>
          by_cases hsyn : p.IsSyn
          · simp only [LinkRecord.Need, if_pos hsyn] at hn
            cases hn.1.symm.trans hv
          · simpa [LinkRecord.after, hsyn] using hdue
      | _ => exact hdue
    · rw [Function.update_of_ne hvu] at hv ⊢
      exact hs.quiet v hv
  · by_cases hvu : v = u
    · subst hvu
      rw [Function.update_self] at hl hh
      replace hl : (rec v).link = some h := hl
      have hnew : h ∈ (rec v).shut ∨ c = .objclos h ∨ c = .objreff h ∨ c = .objrefr h ∧ a < 0 := by
        cases c <;> simp only [LinkRecord.after] at hh <;> grind
      rcases hnew with hold | hnew
      · exact (hs.shut v h hl hold hpos).call hw
      · obtain ⟨o, ho, -⟩ := hc.shared h hpos (.inr (.inr ⟨v, .inl hl⟩))
        exact World.answer_shut hw ho hnew
    · rw [Function.update_of_ne hvu] at hl hh
      exact (hs.shut v h hl hh hpos).call hw
  · rcases hs.slots l with hshut | hfail | hsum
    · exact .inl (hshut.call hw)
    · exact .inr (.inl (by rw [hframe.2]; exact hfail))
    · refine .inr (.inr ?_)
      have hmove := sum_update (LinkRecord.owes l) rec u ((rec u).after c a)
      have hreq := requests_call hw hn l
      rw [World.slots, hframe.2, ← World.slots]
      omega

/-- **So does the start of a job**: the completion of an accept leaves one due. -/
theorem Slotted.start {j : Job} (hs : Slotted w rec) (hw : w.startJob j = some w')
    (hu : rec u = .blank) : Slotted w' (Function.update rec u (.start j)) := by
  have hstart := World.startJob_spec hw
  refine ⟨fun v hv => ?_, fun v h hl hh hpos => ?_, fun l => ?_⟩
  · by_cases hvu : v = u
    · subst hvu
      rw [Function.update_self] at hv ⊢
      rcases start_cases j with ⟨p, status, transfer, turns, irp, -, -, hj⟩ | ⟨-, accepts, hj⟩ <;>
        rw [hj] at hv ⊢
      · cases hv
      · rfl
    · rw [Function.update_of_ne hvu] at hv ⊢
      exact hs.quiet v hv
  · by_cases hvu : v = u
    · subst hvu
      rw [Function.update_self] at hh
      rcases start_cases j with ⟨p, status, transfer, turns, irp, -, -, hj⟩ | ⟨-, accepts, hj⟩ <;>
        · rw [hj] at hh
          cases hh
    · rw [Function.update_of_ne hvu] at hl hh
      exact (hs.shut v h hl hh hpos).start hw
  · rcases hs.slots l with hshut | hfail | hsum
    · exact .inl (hshut.start hw)
    · exact .inr (.inl (by rw [hstart.listens]; exact hfail))
    · refine .inr (.inr ?_)
      have hmove := sum_update (LinkRecord.owes l) rec u (.start j)
      have hblank : (rec u).owes l = 0 := by
        rw [hu]
        rfl
      -- what the job owes is the request that has completed
      have hreq : (w'.requests l : Int) + (LinkRecord.start j).owes l = w.requests l := by
        rcases start_cases j with ⟨p, status, transfer, turns, irp, rfl, hp, hj⟩
          | ⟨hne, accepts, hj⟩
        · obtain ⟨hmem, -, hposted, -⟩ := hstart.completion _ _ _ _ _ rfl
          by_cases hl : p.link = l
          · have hone : 0 < w.requests l := List.countP_pos_iff.mpr ⟨p, hmem, by simp [hp, hl]⟩
            have hless : w'.requests l = w.requests l - 1 := by
              rw [World.requests, hposted, List.countP_erase]
              simp [hmem, hp, hl, World.requests]
            have howes :
                (LinkRecord.start (.completion p status transfer turns irp)).owes l = 1 := by
              rw [hj, LinkRecord.owes, if_pos (by rw [hl])]
            omega
          · have hsame : w'.requests l = w.requests l := by
              rw [World.requests, hposted, List.countP_erase]
              simp [hl, World.requests]
            have howes :
                (LinkRecord.start (.completion p status transfer turns irp)).owes l = 0 := by
              rw [hj, LinkRecord.owes, if_neg (by simpa using hl)]
            omega
        · have hposted : w'.requests l = w.requests l := by
            cases j with
            | user c => rw [World.requests, (hstart.user c rfl).1, World.requests]
            | completion p status transfer turns irp =>
                obtain ⟨-, -, hposted, -⟩ := hstart.completion _ _ _ _ _ rfl
                have hp := hne _ _ _ _ _ rfl
                rw [World.requests, hposted, List.countP_erase]
                simp [hp, World.requests]
          rw [hj, hposted, LinkRecord.owes]
          simp [LinkRecord.blank]
      rw [World.slots, hstart.listens, ← World.slots]
      omega

/-- A job that returns owes nothing more, unless its listener is closed. -/
theorem Slotted.finish {j : Job} {r : Int} (hs : Slotted w rec) (hp : LinkRecord.Post j (rec u) r)
    (hlink : (rec u).link = j.link)
    (hpos : ∀ p status transfer turns irp, j = .completion p status transfer turns irp →
      p.IsSyn → 0 ≤ p.link)
    (hstarved : ∀ p status transfer turns irp, j = .completion p status transfer turns irp →
      p.IsSyn → ntSuccess status = false → (rec u).starved = true → w.Shut p.link) :
    Slotted (w.finishJob j r) (Function.update rec u .blank) := by
  have hposted := (World.finishJob_spec w j r).2.1
  refine ⟨fun v hv => ?_, fun v h hl hh hpos => ?_, fun l => ?_⟩
  · by_cases hvu : v = u
    · subst hvu
      rw [Function.update_self]
      rfl
    · rw [Function.update_of_ne hvu] at hv ⊢
      exact hs.quiet v hv
  · by_cases hvu : v = u
    · subst hvu
      rw [Function.update_self] at hh
      cases hh
    · rw [Function.update_of_ne hvu] at hl hh
      exact (hs.shut v h hl hh hpos).finish
  have hmove := sum_update (LinkRecord.owes l) rec u .blank
  have hblank : LinkRecord.blank.owes l = 0 := rfl
  have hreq : (w.finishJob j r).requests l = w.requests l := by
    rw [World.requests, hposted, World.requests]
  rcases World.finishJob_listens w j r with ⟨k, block, rfl, hlistens⟩ | ⟨hne, hlistens⟩
  · rcases hs.slots l with hshut | ⟨e, he, hfail⟩ | hsum
    · exact .inl hshut.finish
    · exact .inr (.inl ⟨e, by rw [hlistens]; exact List.mem_cons_of_mem _ he, hfail⟩)
    by_cases hl : k = l
    · subst hl
      by_cases hr : r < 0
      · exact .inr (.inl ⟨_, by rw [hlistens]; exact List.mem_cons_self, rfl, hr⟩)
      -- the requests that were made are slots now
      have howes : (rec u).owes k = - listenSlots block := by
        rw [LinkRecord.owes, if_pos (show (rec u).link = some k from hlink)]
        exact hp.2 (by omega)
      have hslots : (w.finishJob (.user (.tcpListen k block)) r).slots k
          = w.slots k + listenSlots block := by
        rw [World.slots, hlistens]
        simp [World.slots, show 0 ≤ r by omega]
        ring
      exact .inr (.inr (by omega))
    · have howes : (rec u).owes l = 0 := by
        rw [LinkRecord.owes, if_neg]
        rw [hlink]
        simpa [Job.link, UserCall.link] using hl
      have hslots : (w.finishJob (.user (.tcpListen k block)) r).slots l = w.slots l := by
        rw [World.slots, hlistens]
        simp [World.slots, hl]
      exact .inr (.inr (by omega))
  · rcases hs.slots l with hshut | hfail | hsum
    · exact .inl hshut.finish
    · exact .inr (.inl (by rw [hlistens]; exact hfail))
    have hslots : (w.finishJob j r).slots l = w.slots l := by
      rw [World.slots, hlistens, World.slots]
    -- nothing is owed, or the listener is closed
    have hcase : w.Shut l ∨ (rec u).owes l = 0 := by
      by_cases hl : (rec u).link = some l
      · have hdue : w.Shut l ∨ (rec u).due = 0 := by
          cases j with
          | completion p status transfer turns irp =>
              have hpl : p.link = l := by
                rw [hlink] at hl
                exact Option.some.inj hl
              subst hpl
              by_cases hsyn : p.IsSyn
              · simp only [LinkRecord.Post, if_pos hsyn] at hp
                rcases hp.2 with hdue | hshut | ⟨hst, hfail⟩
                · exact .inr hdue
                · exact .inl (hs.shut u _ hl hshut (hpos _ _ _ _ _ rfl hsyn))
                · exact .inl (hstarved _ _ _ _ _ rfl hsyn hfail hst)
              · simp only [LinkRecord.Post, if_neg hsyn] at hp
                exact .inr hp.2
          | user c =>
              cases c with
              | tcpCreate | udpCreate =>
                  rw [hlink] at hl
                  cases hl
              | tcpListen k block => exact absurd rfl (hne k block)
              | _ => exact .inr hp.2
        refine hdue.imp_right fun h => ?_
        rw [LinkRecord.owes, if_pos hl, h]
      · exact .inr (if_neg hl)
    rcases hcase with hshut | howes
    · exact .inl hshut.finish
    · exact .inr (.inr (by omega))

/-- The runs in which, after an accept request failed, the packet of the next one can be
allocated, unless the listener is closed. -/
def slotsRefilled : SysGuard where
  start _ _ := True
  call w j _ c a :=
    match j, c with
    | .completion p status _ _ _, .allocatePacket _ _ .syn =>
      p.IsSyn → ntSuccess status = false → a < 0 → w.Shut p.link
    | _, _ => True

instance (w : World) (j : Job) : Decidable (slotsRefilled.start w j) := instDecidableTrue

instance (w : World) (j : Job) (t : CallTrace) (c : Call) (a : Int) :
    Decidable (slotsRefilled.call w j t c a) := by
  unfold slotsRefilled
  dsimp only
  split <;> infer_instance

variable {s : SysState τ}

omit [Fintype τ] in
/-- Where no packet could be allocated, the listener is closed. -/
theorem shut_of_starved (hr : SysReaches slotsRefilled s) {t : CallTrace} {q : CallProg Int}
    {p : IoPacket} {status : NtStatus} {transfer : Int} {turns : Nat} {irp : AcceptAddrs}
    (hu : s.thread u = .running (.completion p status transfer turns irp) t q) (hp : p.IsSyn)
    (hf : ntSuccess status = false)
    (hst : (record LinkRecord.after (.start (.completion p status transfer turns irp)) t).starved
      = true) : s.world.Shut p.link := by
  refine hr.thread
    (I := fun w j t _ => ∀ p status transfer turns irp,
      j = .completion p status transfer turns irp →
      p.IsSyn → ntSuccess status = false →
      (record LinkRecord.after (.start j) t).starved = true → w.Shut p.link)
    ?_ ?_ ?_ (fun _ => rfl) hu _ _ _ _ _ rfl hp hf hst
  · intro s s' hstep j t q h p status transfer turns irp hj hp hf hst
    have hold := h p status transfer turns irp hj hp hf hst
    cases hstep with
    | env e => exact nomatch e
    | start v j' hv hw hG => exact hold.start hw
    | call v j' t' c k a hv hw hG => exact hold.call hw
    | finish v j' t' r hv => exact hold.finish
  · intro w j p status transfer turns irp hj hp hf hst
    subst hj
    rw [record_nil, LinkRecord.start, if_pos hp] at hst
    cases hst
  · intro w j t c k a w' h hw hG p status transfer turns irp hj hp hf hst
    by_cases hold : (record LinkRecord.after (.start j) t).starved = true
    · exact (h p status transfer turns irp hj hp hf hold).call hw
    · -- the packet could not be allocated just now
      subst hj
      rw [record_cons] at hst
      cases c with
      | allocatePacket l proto type =>
          cases type with
          | syn =>
              have ha : a < 0 := by simpa [LinkRecord.after, hold] using hst
              have hshut : w.Shut p.link := hG hp hf ha
              exact hshut.call (show w.answer (.allocatePacket l proto .syn) a = some w' from hw)
          | _ => exact absurd hst hold
      | _ => exact absurd hst hold

/-- **In every run in which the slots are refilled.** Induction on the run. -/
theorem sys_slotted (hr : SysReaches slotsRefilled s) : Slotted s.world (s.records links) := by
  have hkept : Kept links system slotsRefilled (State.rest World.initial) (Slotted (τ := τ)) := by
    constructor
    case env =>
      intro s e
      exact nomatch e
    case start =>
      intro s u j w hs hsl hu hw hG
      exact ⟨(sys_custody hs).1.job_links hw, hsl.start hw (State.records_idle hu)⟩
    case call =>
      intro s u j t c k a w hs hsl hu hw hG hn
      obtain ⟨hc, -⟩ := sys_custody hs
      exact ⟨hc.ok hw, hsl.call hc hw hn⟩
    case finish =>
      intro s u j t r hs hsl hu hp
      obtain ⟨hc, -⟩ := sys_custody hs
      have hrec : s.records links u = record LinkRecord.after (.start j) t :=
        State.records_running hu
      refine hsl.finish hp ?_ ?_ ?_
      · rw [hrec, (LinkRecord.grows_record j t).link, start_link]
      · rintro p status transfer turns irp rfl hp
        have htcp : p.link ∈ (s.records links u).tcp := by
          rw [hrec]
          refine (LinkRecord.grows_record _ t).tcp ?_
          rw [LinkRecord.start, if_pos hp]
          exact List.mem_cons_self
        obtain ⟨o, ho, -⟩ := hc.tcp u _ htcp
        exact hc.nonneg ho
      · rintro p status transfer turns irp rfl hp hf hst
        rw [hrec] at hst
        exact shut_of_starved hs hu hp hf hst
  have h₀ : Slotted World.initial ((State.rest World.initial : SysState τ).records links) := by
    refine ⟨fun _ _ => rfl, fun _ _ _ h => absurd h List.not_mem_nil, fun l => .inr (.inr ?_)⟩
    have hnone : ∑ u, ((State.rest World.initial : SysState τ).records links u).owes l = 0 :=
      Finset.sum_eq_zero fun _ _ => rfl
    rw [hnone]
    rfl
  exact (hr.kept hkept h₀ (State.meets_rest _)).1

/-- **Accept slots are conserved.** After one call of `tcp_listen` on a link, which succeeded, the
link has as many accept requests outstanding as the call made, whenever none of its accept
completions is being handled, unless it is closed. -/
theorem accept_slots (hr : SysReaches slotsRefilled s) {l block r : Int}
    (hlisten : s.world.listens.filter (fun e => decide (e.1 = l)) = [(l, block, r)]) (hr₀ : 0 ≤ r)
    (hquiet : ∀ u j t p, s.thread u = .running j t p → j.link = some l →
      j.Accepts = false ∧ ∀ b, j ≠ .user (.tcpListen l b)) :
    s.world.Shut l ∨ (s.world.requests l : Int) = listenSlots block := by
  have hs := sys_slotted hr
  rcases hs.slots l with hshut | ⟨e, he, hel, hfail⟩ | hsum
  · exact .inl hshut
  · have hmem : e ∈ s.world.listens.filter fun e => decide (e.1 = l) :=
      List.mem_filter.mpr ⟨he, by simpa using hel⟩
    rw [hlisten, List.mem_singleton] at hmem
    subst hmem
    exact absurd hr₀ (not_le.mpr hfail)
  · -- nobody owes a request
    have hnone : ∀ u, (s.records links u).owes l = 0 := by
      intro u
      by_cases hl : (s.records links u).link = some l
      · rw [LinkRecord.owes, if_pos hl]
        refine hs.quiet u ?_
        cases hth : s.thread u with
        | idle => rw [State.records_idle hth]; rfl
        | running j t p =>
            rw [State.records_running hth] at hl ⊢
            have hgrows := LinkRecord.grows_record j t
            have hjl : j.link = some l := by
              rw [← start_link, ← hgrows.link]
              exact hl
            obtain ⟨hacc, hlis⟩ := hquiet u j t p hth hjl
            rw [show links.upd = LinkRecord.after from rfl,
              show links.init = LinkRecord.start from rfl, hgrows.accepts]
            cases j with
            | completion p status transfer turns irp =>
                have hsyn : ¬ p.IsSyn := by simpa [Job.Accepts] using hacc
                rw [LinkRecord.start, if_neg hsyn]
                rfl
            | user c =>
                cases c with
                | tcpListen k b =>
                    cases hjl
                    exact absurd rfl (hlis b)
                | _ => rfl
      · exact if_neg hl
    refine .inr ?_
    rw [World.slots, hlisten] at hsum
    simpa [hnone, hr₀] using hsum

end

/-- An accept request fails, and the next one is made. -/
theorem accept_slots_refilled : ∃ s : SysState Unit, SysReaches slotsRefilled s ∧
    (s.world.Shut 0 ∨ (s.world.requests 0 : Int) = listenSlots 1) := by
  obtain ⟨s, hs, hidle, hlisten⟩ := sys_of_play slotsRefilled
    (P := fun s => idling s () = true
      ∧ s.world.listens.filter (fun e => decide (e.1 = 0)) = [(0, 1, 0)])
    (createTcp () 0 ++ listenTcp () 0 5 1
      ++ .start () (.completion (synPacket 5 0 1) cancelled 0 0 noAddrs) :: referTcp () ++
        referTcp ()
      ++ synRound () 6 2 ++ Move.calls () (List.replicate 6 0) ++ [.finish ()])
    (by decide +kernel)
  refine ⟨s, hs, accept_slots hs hlisten (by decide) fun u j t p hu => ?_⟩
  rw [idle_of_idling hidle] at hu
  cases hu

/-- An accept request fails, and the packet of the next one cannot be allocated: the listener is
open, and accepts no more. -/
theorem accept_slots_lost : ∃ s : SysState Unit, SysReaches anyRun s ∧ (∀ u, s.thread u = .idle)
    ∧ s.world.listens = [(0, 1, 0)] ∧ ¬ s.world.Shut 0 ∧ s.world.requests 0 = 0 := by
  obtain ⟨s, hs, hidle, hrest⟩ := sys_of_play anyRun
    (P := fun s => idling s () = true ∧ s.world.listens = [(0, 1, 0)] ∧ ¬ s.world.Shut 0
      ∧ s.world.requests 0 = 0)
    (createTcp () 0 ++ listenTcp () 0 5 1
      ++ .start () (.completion (synPacket 5 0 1) cancelled 0 0 noAddrs) :: referTcp () ++
        referTcp ()
      ++ Move.calls () ([0, -1] ++ List.replicate 6 0) ++ [.finish ()])
    (by decide +kernel)
  exact ⟨s, hs, fun _ => idle_of_idling hidle, hrest⟩

end Swnet.Sys
