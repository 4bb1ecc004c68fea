import Swnet.Sys.Receives

/-!
# Swnet — the receives of a link

How many receives a link has outstanding.

* `tcp_one_receive` — a TCP link that was announced and is open has one, whenever none of its
  completions is being handled, and a link whose receive could not be posted is closed, as long as
  `tcp_connect` can post its own;
* `udp_slots` — a UDP link that `udp_create` returned and is open has `so_asio_count` of them, as
  long as the system takes those of an open link.

One invariant serves both (`Received`). The receives that the system has and those the jobs still
owe (`due`) are as many as were announced for the link, unless it is closed. A completion that is
taken up turns a receive into one owed, a request that is taken turns it back, and a job can end
only when it owes nothing. What the two kinds of links differ in, which of their receives the system
is bound to take, is the parameter `T`.
-/

namespace Swnet.Sys

open Jobs Jobs.Prog

/-- `so_asio_count`. -/
def soAsioCount : Nat := 1

/-- The notice tells the user that TCP link `h` is established. -/
def Notice.Opens (h : Int) : Notice → Bool
  | .connected l | .accepted _ l => l = h
  | _ => false

/-- The call is to leave TCP link `h` with a receive. -/
def Call.Arms (h : Int) (c : Call) : Prop :=
  c = .allocatePacket h .tcp .recv ∨ ∃ p, c = .post p ∧ p.proto = .tcp ∧ p.Receives h

/-- The call tells the user so. -/
def Call.opens (h : Int) : Call → Bool
  | .emit n => n.Opens h
  | _ => false

namespace World

/-- The receives of a link that are outstanding. -/
def recvs (w : World) (h : Int) : Nat := w.posted.countP fun p => decide (p.Receives h)

/-- How often the user was told that the link is established. -/
def opened (w : World) (h : Int) : Nat := w.notices.countP (Notice.Opens h)

/-- How often the link was returned by a `create` call. -/
def created (w : World) (h : Int) : Nat := w.notices.count (.created h)

/-- The link is a UDP link. -/
def Udp (w : World) (h : Int) : Prop := ∃ o, w.obj h = some o ∧ o.proto = .udp

instance (w : World) (h : Int) : Decidable (w.Udp h) :=
  inferInstanceAs (Decidable (∃ o ∈ w.obj h, o.proto = .udp))

/-- The socket of the link was connected. -/
def Peered (w : World) (h : Int) : Prop := ∃ o, w.obj h = some o ∧ o.peer ≠ none

instance (w : World) (h : Int) : Decidable (w.Peered h) :=
  inferInstanceAs (Decidable (∃ o ∈ w.obj h, o.peer ≠ none))

/-- The receives a link that is open is to have. -/
def announced (w : World) (h : Int) : Int :=
  w.opened h + if w.Udp h then (w.created h : Int) else 0

section

variable {w w' : World} {c : Call} {a h : Int}

/-- A link is what it was. -/
theorem answer_udp (hw : w.answer c a = some w') (ho : ∃ o, w.obj h = some o) :
    w'.Udp h ↔ w.Udp h := by
  obtain ⟨o, ho⟩ := ho
  obtain ⟨o', ho', hk⟩ := answer_keeps hw ho
  simp [Udp, ho, ho', hk.kin.proto]

/-- A socket is connected by `connect` alone, and once. -/
theorem answer_peered (hw : w.answer c a = some w') :
    (w.Peered h → w'.Peered h)
      ∧ ∀ addr, c = .ncb h (.connect addr) → 0 ≤ a → (∃ o, w.obj h = some o) →
          ¬ w.Peered h ∧ w'.Peered h := by
  constructor
  · rintro ⟨o, ho, hpeer⟩
    have hstep := answer_obj hw h
    rw [ho] at hstep
    generalize hx : w'.obj h = x at hstep
    cases hstep with
    | same => exact ⟨o, hx, hpeer⟩
    | refer | reff => exact ⟨_, hx, hpeer⟩
    | defr hc hs | clos hc hs =>
        refine ⟨_, hx, ?_⟩
        rw [hs.husk.peer]
        exact hpeer
    | @access _ o' y hc hy =>
        refine ⟨o', hx, ?_⟩
        have hclose := o.ioclose_husk.peer
        cases y <;> simp only [Access.apply] at hy <;> grind
  · rintro addr rfl ha ⟨o, ho⟩
    simp only [answer, ho, Access.apply, if_neg (not_lt.mpr ha)] at hw
    split at hw
    next hnone =>
      cases hw
      refine ⟨?_, ⟨_, Function.update_self .., by simp⟩⟩
      rintro ⟨o₁, ho₁, hpeer⟩
      rw [ho] at ho₁
      cases ho₁
      exact hpeer hnone
    · cases hw

end

end World

/-! ## The books of a job that handles no completion of the link -/

/-- A job that does not handle the link has posted what it is to announce, and no more. -/
def RecvRecord.Balanced (g : RecvRecord) : Prop :=
  g.handles = false → g.due ≤ 0 ∧ (g.kind = none → g.due = 0)
    ∧ (g.kind = some .tcp → 0 ≤ g.due + g.credit) ∧ (g.kind = some .udp → g.due = 0 ∨ g.made = true)

/-- A job starts with what is due for the completion it dispatches. -/
theorem RecvRecord.Balanced.start (h : Int) (j : Job) : (RecvRecord.start h j).Balanced := by
  intro hh
  cases j with
  | user c => exact ⟨le_rfl, fun _ => rfl, nofun, nofun⟩
  | completion p =>
      have hno : ¬ (p.link = h ∨ p.Accepts h) := of_decide_eq_false hh
      have hr : ¬ p.Receives h := fun hr => hno (.inl hr.2)
      have ha : ¬ p.Accepts h := fun ha => hno (.inr ha)
      simp [RecvRecord.start, hr, ha]

/-- Nothing is due from a thread that does nothing. -/
theorem RecvRecord.Balanced.blank : RecvRecord.blank.Balanced :=
  fun _ => ⟨le_rfl, fun _ => rfl, nofun, nofun⟩

/-- Credit that is left over does no harm. -/
theorem RecvRecord.Balanced.grows {g g' : RecvRecord} (hg : g.Balanced) (hgr : g.Grows g')
    (hdue : g'.due = g.due) (hc : 0 ≤ g.credit) (hcredit : g.credit ≤ g'.credit) : g'.Balanced := by
  intro hh
  obtain ⟨hle, hnone, htcp, hudp⟩ := hg (hgr.handles.symm.trans hh)
  rw [hdue]
  cases hk : g.kind with
  | none =>
      have hzero := hnone hk
      exact ⟨hle, fun _ => hzero, fun _ => by omega, fun _ => .inl hzero⟩
  | some k =>
      rw [hgr.kind k hk]
      refine ⟨hle, nofun, fun ht => ?_, fun hu => (hudp (hk.trans hu)).imp_right hgr.made⟩
      have hsum := htcp (hk.trans ht)
      omega

/-- A call keeps the balance: what it takes off what is due it has posted, and what it announces it
had credit for. -/
theorem RecvRecord.Balanced.after {g : RecvRecord} {h a : Int} {c : Call} (hg : g.Balanced)
    (hc : 0 ≤ g.credit) (hn : g.Need h c) : (g.after h c a).Balanced := by
  have hsame : (g.after h c a).due = g.due → g.credit ≤ (g.after h c a).credit →
      (g.after h c a).Balanced := fun hdue hcredit => hg.grows (grows_after h g c a) hdue hc hcredit
  cases c with
  -- a receive that is taken is one due less; who may post it knows why
  | post p =>
      by_cases hp : p.Receives h ∧ 0 ≤ a
      · intro hh
        obtain ⟨hle, -, -, -⟩ := hg hh
        obtain ⟨-, hk, -, he⟩ := hn hp.1
        have hh : g.handles = false := hh
        simp only [RecvRecord.after, if_pos hp, hk]
        refine ⟨by omega, by simp, fun hkind => ?_, fun hkind => .inr ?_⟩ <;>
          rw [Option.some.injEq] at hkind <;>
          rcases he with hhd | ⟨hu, hmade⟩ | ⟨ht, -, hpos⟩ <;> simp_all
        omega
      · exact hsame (by simp [RecvRecord.after, hp]) le_rfl
  | emit n =>
      cases n with
      -- an announcement is one due more, for the receive that was posted before
      | connected l =>
          by_cases hl : l = h
          · intro hh
            obtain ⟨hle, -, htcp, -⟩ := hg hh
            obtain ⟨-, -, hk, hneg⟩ := hn hl
            have hless := hneg.resolve_left fun hhd => by
              rw [show g.handles = false from hh] at hhd
              cases hhd
            have hsum := htcp hk
            simp only [RecvRecord.after, if_pos hl, hk]
            exact ⟨by omega, by simp, fun _ => by omega, by simp⟩
          · exact hsame (by simp [RecvRecord.after, hl]) (by simp [RecvRecord.after, hl])
      | accepted k l =>
          by_cases hl : l = h
          · intro hh
            have hhd := (hn hl).2.2
            rw [show g.handles = false from hh] at hhd
            cases hhd
          · exact hsame (by simp [RecvRecord.after, hl]) (by simp [RecvRecord.after, hl])
      | _ => exact hsame rfl le_rfl
  | ncb l x =>
      refine hsame rfl ?_
      cases x with
      | connect addr =>
          simp only [RecvRecord.after]
          split <;> omega
      | _ => exact le_rfl
  | _ => exact hsame rfl le_rfl

/-! ## What holds of the receive of a link -/

section

variable {τ : Type} [Fintype τ]

/-- What holds of link `h`. `T` tells of which kinds of links the system takes the receives as long
as they are open. -/
structure Received (T : ProtoType → Prop) (h : Int) (w : World) (rec : τ → RecvRecord) : Prop where
  owns : ∀ u, (rec u).owns = true → ∃ o, w.obj h = some o
  kind : ∀ u k, (rec u).kind = some k → ∃ o, w.obj h = some o ∧ o.proto = k
  posted : ∀ p ∈ w.posted, p.Receives h →
    (∃ o, w.obj h = some o ∧ o.proto = p.proto) ∧ (p.proto = .tcp ∨ p.proto = .udp)
  shut : ∀ u, (rec u).shut = true → w.Shut h
  refused : ∀ u, (rec u).refused = true →
    ∃ k, (rec u).kind = some k ∧ (T .udp → k = .udp → w.Shut h)
  lost : T .tcp → ∀ u, (rec u).lost = true → (rec u).handles = true ∨ w.Shut h
  /-- A socket is connected once, and its link announced once after that. -/
  credit : ∀ u, 0 ≤ (rec u).credit
  peer : (w.opened h : Int) + ∑ u, (rec u).credit ≤ if w.Peered h then 1 else 0
  tcp : 0 < w.opened h → ∃ o, w.obj h = some o ∧ o.proto = .tcp
  /-- A link is returned once. -/
  made : ∀ u, (rec u).made = true → (rec u).owns = true
  fresh : ∀ u, (rec u).made = true → w.created h = 0 ∧ ∀ v, (rec v).made = true → v = u
  once : w.created h ≤ 1
  there : 0 < w.created h → ∃ o, w.obj h = some o
  balanced : ∀ u, (rec u).Balanced
  /-- The receives outstanding and those due are those the link is to have, unless it is closed. -/
  slots : (w.Udp h → T .udp) → w.Shut h ∨ (w.recvs h : Int) + ∑ u, (rec u).due = w.announced h

variable {T : ProtoType → Prop} {w w' : World} {h : Int} {rec : τ → RecvRecord} {c : Call}
  {a : Int} {u : τ}

/-! ### One call -/

/-- The announcements of a link after a call. -/
theorem opened_call (hw : w.answer c a = some w')
    (htold : ∀ n, c = .emit n → n.Opens h = true → w' = w.note n)
    (hnew : ∀ l, c ≠ .emit (.created l)) : w'.created h = w.created h
      ∧ (w'.opened h : Int) = w.opened h + if c.opens h = true then 1 else 0 := by
  by_cases hopens : c.opens h = true
  · cases c with
    | emit n =>
        have hn : n.Opens h = true := hopens
        have hne : n ≠ .created h := by
          rintro rfl
          cases hn
        rw [htold n rfl hn, if_pos hopens]
        constructor
        · simp [World.created, World.note, hne]
        · simp [World.opened, World.note, hn]
    | _ => cases hopens
  · rw [if_neg hopens]
    obtain ⟨new, htells, hnotices, -⟩ := World.answer_notices hw
    have hnone : ∀ n ∈ new, n.Opens h = false ∧ n ≠ .created h := by
      intro n hn
      cases htells with
      | nothing => cases hn
      | @event m o hc =>
          rw [List.mem_singleton] at hn
          subst hn hc
          refine ⟨Bool.eq_false_iff.mpr hopens, ?_⟩
          rintro rfl
          exact hnew h rfl
      -- the unload routine reports the end of a link, not its beginning
      | closing =>
          rw [World.closing] at hn
          split at hn
          · simp only [List.mem_cons, List.not_mem_nil, or_false] at hn
            rcases hn with rfl | rfl <;> exact ⟨rfl, by simp⟩
          · cases hn
    constructor
    · rw [World.created, hnotices, List.count_append,
        List.count_eq_zero.mpr fun hm => (hnone _ hm).2 rfl, World.created, Nat.add_zero]
    · have hzero : new.countP (Notice.Opens h) = 0 :=
        List.countP_eq_zero.mpr fun n hn => by simp [(hnone n hn).1]
      simp [World.opened, hnotices, hzero]

/-- What a call takes off what is due is a receive more, and what it adds an announcement. -/
theorem due_call (hw : w.answer c a = some w') {g : RecvRecord} :
    (w'.recvs h : Int) + (g.after h c a).due
      = w.recvs h + g.due + if c.opens h = true then 1 else 0 := by
  rcases World.answer_posted hw with ⟨p, rfl, ha, hp⟩ | ⟨hp, hneg⟩
  · have hcount : w'.recvs h = w.recvs h + if p.Receives h then 1 else 0 := by
      rw [World.recvs, hp, List.countP_cons]
      simp [World.recvs]
    rw [hcount]
    by_cases hr : p.Receives h
    · simp [RecvRecord.after, Call.opens, hr, ha]
    · simp [RecvRecord.after, Call.opens, hr]
  · have hcount : w'.recvs h = w.recvs h := by rw [World.recvs, hp, World.recvs]
    rw [hcount]
    cases c with
    | post p =>
        have ha := hneg p rfl
        simp [RecvRecord.after, Call.opens, not_le.mpr ha]
    | emit n =>
        cases n with
        | connected l | accepted _ l =>
            by_cases hl : l = h <;> simp [RecvRecord.after, Call.opens, Notice.Opens, hl]
            ring
        | _ => simp [RecvRecord.after, Call.opens, Notice.Opens]
    | _ => simp [RecvRecord.after, Call.opens]

/-- A connection that is made gives credit, an announcement takes it. -/
theorem credit_call (hw : w.answer c a = some w') {g : RecvRecord} (ho : g.owns = true →
    ∃ o, w.obj h = some o) (hn : g.Need h c) :
    ((g.after h c a).credit + (if c.opens h = true then 1 else 0)
      - if w'.Peered h then 1 else 0 : Int)
      ≤ g.credit - if w.Peered h then 1 else 0 := by
  obtain ⟨hkeep, hconn⟩ := World.answer_peered (h := h) hw
  have hpeer : (if w.Peered h then 1 else 0 : Int) ≤ if w'.Peered h then 1 else 0 := by
    by_cases hp : w.Peered h
    · rw [if_pos hp, if_pos (hkeep hp)]
    · rw [if_neg hp]
      split <;> omega
  cases c with
  | ncb l x =>
      cases x with
      | connect addr =>
          by_cases hl : l = h ∧ 0 ≤ a
          · obtain ⟨rfl, ha⟩ := hl
            obtain ⟨hno, hyes⟩ := hconn addr rfl ha (ho (hn rfl))
            simp [RecvRecord.after, Call.opens, ha, hno, hyes]
          · simp only [RecvRecord.after, Call.opens, if_neg hl]
            simp
            omega
      | _ => simp [RecvRecord.after, Call.opens]; omega
  | emit n =>
      cases n with
      | connected l | accepted _ l =>
          by_cases hl : l = h <;> simp [RecvRecord.after, Call.opens, Notice.Opens, hl] <;> omega
      | _ => simp [RecvRecord.after, Call.opens, Notice.Opens]; omega
  | _ => simp [RecvRecord.after, Call.opens]; omega

section

omit [Fintype τ]

variable {g : RecvRecord} {k : ProtoType}

/-- A job may work on link `h` from the start, or since it allocated it. -/
theorem RecvRecord.owns_after (ho : (g.after h c a).owns = true) :
    g.owns = true ∨ ∃ proto remote, c = .objallo proto remote ∧ a = h := by
  cases c <;> simp only [RecvRecord.after] at ho <;> grind

/-- It has made the link since it allocated it. -/
theorem RecvRecord.made_after (hm : (g.after h c a).made = true) :
    g.made = true ∨ ∃ proto remote, c = .objallo proto remote ∧ a = h := by
  cases c <;> simp only [RecvRecord.after] at hm <;> grind

/-- It knows what the link is because it made it, or has read its protocol. -/
theorem RecvRecord.kind_after (hk : (g.after h c a).kind = some k) :
    g.kind = some k ∨ (∃ remote, c = .objallo k remote ∧ a = h)
      ∨ c = .ncb h .proto ∧ g.owns = true ∧ a = k.code := by
  cases hg : g.kind with
  | some k' => cases c <;> simp only [RecvRecord.after, hg, Option.some_or] at hk <;> grind
  | none =>
      cases c with
      | objallo proto remote =>
          simp only [RecvRecord.after, hg, Option.none_or, Option.ite_none_right_eq_some] at hk
          obtain ⟨ha, hk⟩ := hk
          cases hk
          exact .inr (.inl ⟨remote, rfl, ha⟩)
      | _ =>
          simp only [RecvRecord.after, hg, Option.none_or] at hk
          grind

theorem RecvRecord.owns_of_made (hg : g.made = true → g.owns = true)
    (hm : (g.after h c a).made = true) : (g.after h c a).owns = true := by
  cases c <;> simp only [RecvRecord.after] at hm ⊢ <;> grind

theorem RecvRecord.owns_of_credit {j : Job} (hc : 0 < (RecvRecord.start h j).credit) :
    (RecvRecord.start h j).owns = true := by
  cases j with
  | user c => cases hc
  | completion p =>
      simp only [RecvRecord.start] at hc ⊢
      split at hc
      next hp => exact decide_eq_true (hp.2.imp (fun h => h.2.2) id)
      · cases hc

/-- Only a TCP link is announced. -/
theorem RecvRecord.opens_kind (hn : g.Need h c) (hc : c.opens h = true) :
    (g.after h c a).kind = some .tcp := by
  cases c with
  | emit n => cases n <;> simp_all [Call.opens, Notice.Opens, RecvRecord.Need, RecvRecord.after]
  | _ => cases hc

/-- The record has a link as closed because of the call that closed it, or that found it closed. -/
theorem RecvRecord.shut_after (hs : (g.after h c a).shut = true) :
    g.shut = true ∨ g.owns = true ∧ (c = .objclos h ∨ c = .objreff h ∨ c = .objrefr h ∧ a < 0) := by
  cases c <;> simp only [RecvRecord.after] at hs <;> grind

theorem RecvRecord.refused_after (hr : (g.after h c a).refused = true) :
    g.refused = true ∨ ∃ p, c = .post p ∧ p.Receives h ∧ a < 0 := by
  cases c <;> simp only [RecvRecord.after] at hr <;> grind

theorem RecvRecord.lost_after (hl : (g.after h c a).lost = true) :
    g.lost = true ∨ c.Arms h ∧ a < 0 := by
  unfold Call.Arms
  cases c <;> simp only [RecvRecord.after] at hl <;> grind

/-- Only a handler of the link arms it, or a job on it. -/
theorem RecvRecord.arms_link (hn : g.Need h c) (hh : g.handles = false) (hc : c.Arms h) :
    g.link = some h := by
  rcases hc with rfl | ⟨p, rfl, htcp, hp⟩
  · exact (hn rfl).resolve_left (by simp [hh])
  · rcases (hn hp).2.2.2 with hhd | ⟨hudp, -⟩ | ⟨-, hl, -⟩
    · rw [hh] at hhd
      cases hhd
    · rw [htcp] at hudp
      cases hudp
    · exact hl

/-- Credit is not overdrawn: a link is announced only by a job that has connected it. -/
theorem RecvRecord.credit_after (hn : g.Need h c) (hc : 0 ≤ g.credit) :
    0 ≤ (g.after h c a).credit := by
  cases c with
  | ncb l x => cases x <;> simp only [RecvRecord.after] <;> grind
  | emit n => cases n <;> simp only [RecvRecord.after] <;> grind [RecvRecord.Need]
  | _ => exact hc

end

variable [DecidableEq τ]

omit [Fintype τ] in
/-- What is so of every record is so after one has changed. -/
theorem forall_records {γ : Type} {P : τ → γ → Prop} {rec : τ → γ} {g : γ} (h : ∀ v, P v (rec v))
    (hu : P u g) : ∀ v, P v (Function.update rec u g v) := by
  intro v
  by_cases hv : v = u
  · subst hv
    rw [Function.update_self]
    exact hu
  · rw [Function.update_of_ne hv]
    exact h v

/-- A call of a job that keeps within its ledger. -/
theorem Received.call (hh : 0 ≤ h) (hs : Received T h w rec) (hw : w.answer c a = some w')
    (hn : (rec u).Need h c)
    (htold : ∀ n, c = .emit n → n.Opens h = true → w' = w.note n)
    (hnew : ∀ l, c ≠ .emit (.created l))
    (hT : T .udp → ∀ p, c = .post p → p.proto = .udp → a < 0 → w.Shut p.link)
    (hL : T .tcp → (rec u).handles = false → c.Arms h → a < 0 → w.Shut h) :
    Received T h w' (Function.update rec u ((rec u).after h c a)) := by
  -- objects are never taken out, and keep their kind
  have hthere : (∃ o, w.obj h = some o) → ∃ o, w'.obj h = some o := by
    rintro ⟨o, ho⟩
    obtain ⟨o', ho', -⟩ := World.answer_keeps hw ho
    exact ⟨o', ho'⟩
  have hproto : ∀ {k}, (∃ o, w.obj h = some o ∧ o.proto = k) →
      ∃ o, w'.obj h = some o ∧ o.proto = k := by
    rintro k ⟨o, ho, hk⟩
    obtain ⟨o', ho', hkeep⟩ := World.answer_keeps hw ho
    exact ⟨o', ho', hkeep.kin.proto.trans hk⟩
  obtain ⟨hcreated, hopened⟩ := opened_call hw htold hnew
  -- the link was not there before it was allocated
  have hallo : ∀ {proto remote}, c = .objallo proto remote → a = h →
      w.obj h = none ∧ ∃ o, w'.obj h = some o ∧ o.proto = proto := by
    rintro proto remote rfl rfl
    obtain ⟨hnone, hsome⟩ := World.answer_allo hh hw
    exact ⟨hnone, _, hsome, rfl⟩
  -- the kind of the link is known from its allocation, or was read from it
  have hkind : ∀ k, ((rec u).after h c a).kind = some k → ∃ o, w'.obj h = some o ∧ o.proto = k := by
    intro k hk
    rcases RecvRecord.kind_after hk with hold | ⟨remote, hc, ha⟩ | ⟨rfl, howns, ha⟩
    · exact hproto (hs.kind u k hold)
    · exact (hallo hc ha).2
    · obtain ⟨o, ho⟩ := hs.owns u howns
      exact hproto ⟨o, ho, ProtoType.code_inj ((World.answer_proto ho hw).symm.trans ha)⟩
  constructor
  case owns =>
    refine forall_records (P := fun _ (g : RecvRecord) => g.owns = true → ∃ o, w'.obj h = some o)
      (fun v hv => hthere (hs.owns v hv)) fun ho => ?_
    rcases RecvRecord.owns_after ho with hold | ⟨proto, remote, hc, ha⟩
    · exact hthere (hs.owns u hold)
    · obtain ⟨-, o, hsome, -⟩ := hallo hc ha
      exact ⟨o, hsome⟩
  case kind =>
    exact forall_records
      (P := fun _ (g : RecvRecord) => ∀ k, g.kind = some k → ∃ o, w'.obj h = some o ∧ o.proto = k)
      (fun v k hk => hproto (hs.kind v k hk)) hkind
  -- a request the system has just taken is for a link of its kind
  case posted =>
    intro p hp hr
    have hold : p ∈ w.posted → (∃ o, w'.obj h = some o ∧ o.proto = p.proto)
        ∧ (p.proto = .tcp ∨ p.proto = .udp) := fun hp =>
      ⟨hproto (hs.posted p hp hr).1, (hs.posted p hp hr).2⟩
    rcases World.answer_posted hw with ⟨q, rfl, -, hq⟩ | ⟨hq, -⟩ <;> rw [hq] at hp
    · rcases List.mem_cons.mp hp with rfl | hp
      · obtain ⟨-, hk, hpr, -⟩ := hn hr
        exact ⟨hproto (hs.kind u _ hk), hpr⟩
      · exact hold hp
    · exact hold hp
  -- a link that was shut stays so; `objclos`, `objreff` and a refused reference shut it
  case shut =>
    refine forall_records (P := fun _ (g : RecvRecord) => g.shut = true → w'.Shut h)
      (fun v hv => (hs.shut v hv).call hw) fun hsh => ?_
    rcases RecvRecord.shut_after hsh with hold | ⟨howns, hc⟩
    · exact (hs.shut u hold).call hw
    · obtain ⟨o, ho⟩ := hs.owns u howns
      exact World.answer_shut hw ho hc
  -- the guard of the run says what follows from a refused receive
  case refused =>
    refine forall_records (P := fun _ (g : RecvRecord) => g.refused = true →
        ∃ k, g.kind = some k ∧ (T .udp → k = .udp → w'.Shut h)) ?_ fun hr => ?_
    · intro v hv
      obtain ⟨k, hk, hshut⟩ := hs.refused v hv
      exact ⟨k, hk, fun hT hu => (hshut hT hu).call hw⟩
    · rcases RecvRecord.refused_after hr with hold | ⟨p, rfl, hp, ha⟩
      · obtain ⟨k, hk, hshut⟩ := hs.refused u hold
        exact ⟨k, (RecvRecord.grows_after h _ c a).kind k hk, fun hT hu => (hshut hT hu).call hw⟩
      · obtain ⟨-, hk, -⟩ := hn hp
        refine ⟨p.proto, hk, fun hTrue hu => ?_⟩
        have hshut := hT hTrue p rfl hu ha
        rw [hp.2] at hshut
        exact hshut.call hw
  case lost =>
    intro hTrue
    refine forall_records
      (P := fun _ (g : RecvRecord) => g.lost = true → g.handles = true ∨ w'.Shut h)
      (fun v hv => (hs.lost hTrue v hv).imp_right (·.call hw)) fun hl => ?_
    rcases RecvRecord.lost_after hl with hold | ⟨hc, ha⟩
    · exact (hs.lost hTrue u hold).imp_right (·.call hw)
    · cases hhd : (rec u).handles with
      | true => exact .inl hhd
      | false => exact .inr ((hL hTrue hhd hc ha).call hw)
  case credit =>
    exact forall_records (P := fun _ (g : RecvRecord) => 0 ≤ g.credit) hs.credit
      (RecvRecord.credit_after hn (hs.credit u))
  -- an announcement uses up the credit of the connection it announces
  case peer =>
    have hmove := sum_update RecvRecord.credit rec u ((rec u).after h c a)
    have hcredit := credit_call hw (hs.owns u) hn
    have hpeer := hs.peer
    rw [hopened]
    omega
  case tcp =>
    intro hpos
    by_cases hopens : c.opens h = true
    · exact hkind _ (RecvRecord.opens_kind hn hopens)
    · rw [if_neg hopens] at hopened
      exact hproto (hs.tcp (by omega))
  case made =>
    exact forall_records (P := fun _ (g : RecvRecord) => g.made = true → g.owns = true) hs.made
      (RecvRecord.owns_of_made (hs.made u))
  case fresh =>
    -- a link that a job has just allocated was there for no other
    have hnew : ((rec u).after h c a).made = true → (rec u).made = true
        ∨ w.created h = 0 ∧ ∀ v, (rec v).made ≠ true := by
      intro hm
      rcases RecvRecord.made_after hm with hold | ⟨proto, remote, hc, ha⟩
      · exact .inl hold
      · have hnone : ¬ ∃ o, w.obj h = some o := by simp [(hallo hc ha).1]
        refine .inr ⟨Nat.eq_zero_of_not_pos fun hpos => hnone (hs.there hpos), fun v hv => ?_⟩
        exact hnone (hs.owns v (hs.made v hv))
    rw [hcreated]
    intro x hx
    by_cases hxu : x = u
    · subst hxu
      rw [Function.update_self] at hx
      rcases hnew hx with hold | ⟨hzero, hnobody⟩
      · refine ⟨(hs.fresh x hold).1, fun v hv => ?_⟩
        by_contra hvx
        rw [Function.update_of_ne hvx] at hv
        exact hvx ((hs.fresh x hold).2 v hv)
      · refine ⟨hzero, fun v hv => ?_⟩
        by_contra hvx
        rw [Function.update_of_ne hvx] at hv
        exact hnobody v hv
    · rw [Function.update_of_ne hxu] at hx
      refine ⟨(hs.fresh x hx).1, fun v hv => ?_⟩
      by_cases hvu : v = u
      · subst hvu
        rw [Function.update_self] at hv
        rcases hnew hv with hold | ⟨-, hnobody⟩
        · exact (hs.fresh x hx).2 v hold
        · exact absurd hx (hnobody x)
      · rw [Function.update_of_ne hvu] at hv
        exact (hs.fresh x hx).2 v hv
  case once =>
    rw [hcreated]
    exact hs.once
  case there =>
    rw [hcreated]
    exact fun hpos => hthere (hs.there hpos)
  case balanced =>
    exact forall_records (P := fun _ (g : RecvRecord) => g.Balanced) hs.balanced
      ((hs.balanced u).after (hs.credit u) hn)
  -- what the call adds to the receives outstanding it takes off those due
  case slots =>
    intro hudp
    refine (hs.slots fun hu => hudp (hproto hu)).imp (·.call hw) fun hsum => ?_
    have hmove := sum_update RecvRecord.due rec u ((rec u).after h c a)
    have hdue := due_call hw (h := h) (g := rec u)
    have hsame : (if w'.Udp h then (w.created h : Int) else 0)
        = if w.Udp h then (w.created h : Int) else 0 := by
      by_cases hpos : 0 < w.created h
      · simp only [World.answer_udp hw (hs.there hpos)]
      · simp [Nat.eq_zero_of_not_pos hpos]
    rw [World.announced] at hsum ⊢
    rw [hcreated, hopened, hsame]
    omega

/-! ### The start of a job -/

omit [Fintype τ] [DecidableEq τ] in
/-- What was there when a job started. -/
theorem Custody.starting {rec : τ → LinkRecord} (hc : Custody w rec) {j : Job}
    (hs : World.Started w w' j) (hh : 0 ≤ h) (ho : (RecvRecord.start h j).owns = true) :
    ∃ o, w.obj h = some o := by
  have hshared : Shared w rec h → ∃ o, w.obj h = some o := by
    intro hsh
    obtain ⟨o, ho, -⟩ := hc.shared h hh hsh
    exact ⟨o, ho⟩
  cases j with
  | user c =>
      have hl : c.link = some h := by simpa [RecvRecord.start] using ho
      rcases (hs.user c rfl).2.2 h hl with hneg | hknown
      · omega
      · exact hshared (.inl hknown)
  | completion p status transfer turns irp =>
      have hp := (hs.completion _ _ _ _ _ rfl).1
      have hcase : p.link = h ∨ p.Accepts h := by simpa [RecvRecord.start] using ho
      rcases hcase with hl | ⟨hsyn, rfl⟩
      · exact hshared (.inr (.inl ⟨p, hp, hl⟩))
      · obtain ⟨o, ho, -⟩ := hc.accepted p hp hsyn
        exact ⟨o, ho⟩

/-- A link that is connected has its peer from then on, and had none before. -/
theorem World.connectPeer_peered {k : Int} {addr : SockaddrIn}
    (hw : w.connectPeer k addr = some w') :
    (w.Peered h → w'.Peered h)
      ∧ (k = h → (∃ o, w.obj h = some o) → ¬ w.Peered h ∧ w'.Peered h) := by
  simp only [World.connectPeer] at hw
  split at hw
  next hnone =>
    cases hw
    refine ⟨id, ?_⟩
    rintro rfl ⟨o, ho⟩
    rw [hnone] at ho
    cases ho
  next o ho =>
    split at hw
    next hpeer =>
      cases hw
      have hno : k = h → ¬ w.Peered h := by
        rintro rfl ⟨o₁, ho₁, hp⟩
        rw [ho] at ho₁
        cases ho₁
        exact hp hpeer
      refine ⟨fun hp => ?_, fun hk _ => ⟨hno hk, ?_⟩⟩
      · obtain ⟨o₁, ho₁, hp₁⟩ := hp
        have hk : h ≠ k := fun hk => hno hk.symm ⟨o₁, ho₁, hp₁⟩
        exact ⟨o₁, by rw [World.setObj_obj, Function.update_of_ne hk]; exact ho₁, hp₁⟩
      · subst hk
        exact ⟨_, Function.update_self .., by simp⟩
    · cases hw

/-- A request that succeeded has connected a socket. -/
theorem World.startJob_peered {j : Job} (hw : w.startJob j = some w') :
    (w.Peered h → w'.Peered h)
      ∧ (0 < (RecvRecord.start h j).credit → (∃ o, w.obj h = some o) →
        ¬ w.Peered h ∧ w'.Peered h) := by
  cases j with
  | user c =>
      have hsame : w' = w := by
        simp only [World.startJob] at hw
        grind
      subst hsame
      exact ⟨id, fun hpos => absurd hpos (by simp [RecvRecord.start, RecvRecord.blank])⟩
  | completion p status transfer turns irp =>
      simp only [World.startJob] at hw
      split at hw
      · split at hw
        next hok =>
          have hcase : 0 < (RecvRecord.start h (.completion p status transfer turns irp)).credit →
              p.Connects h ∨ p.Accepts h := by
            intro hpos
            by_contra hno
            simp [RecvRecord.start, hno] at hpos
          cases htype : p.type <;> simp only [World.succeed, htype] at hw
          -- a connect or an accept that succeeded connects a socket, which had no peer before
          case connect =>
            obtain ⟨hkeep, hconn⟩ := World.connectPeer_peered (h := h) hw
            refine ⟨hkeep, fun hpos ho => ?_⟩
            rcases hcase hpos with hc | hc
            · exact hconn hc.2.2 ho
            · exact absurd (htype.symm.trans hc.1.2) (by simp)
          case syn =>
            obtain ⟨hkeep, hconn⟩ := World.connectPeer_peered (h := h) hw
            refine ⟨hkeep, fun hpos ho => ?_⟩
            rcases hcase hpos with hc | hc
            · exact absurd (htype.symm.trans hc.2.1) (by simp)
            · exact hconn hc.2 ho
          all_goals
            cases hw
            refine ⟨id, fun hpos => ?_⟩
            rcases hcase hpos with hc | hc
            · exact absurd (htype.symm.trans hc.2.1) (by simp)
            · exact absurd (htype.symm.trans hc.1.2) (by simp)
        next hno =>
          cases hw
          exact ⟨id, fun hpos => absurd hpos (by simp [RecvRecord.start, hno])⟩
      · cases hw

/-- A receive that has completed is due. -/
theorem due_start {j : Job} (hs : World.Started w w' j) :
    (w'.recvs h : Int) + (RecvRecord.start h j).due = w.recvs h := by
  cases j with
  | user c => simp [World.recvs, (hs.user c rfl).1, RecvRecord.start, RecvRecord.blank]
  | completion p status transfer turns irp =>
      obtain ⟨hp, -, hposted, -⟩ := hs.completion _ _ _ _ _ rfl
      by_cases hr : p.Receives h
      · have hone : 0 < w.recvs h := List.countP_pos_iff.mpr ⟨p, hp, by simpa using hr⟩
        have hless : w'.recvs h = w.recvs h - 1 := by
          rw [World.recvs, hposted, List.countP_erase]
          simp [hp, hr, World.recvs]
        simp only [RecvRecord.start, if_pos hr]
        omega
      · have hsame : w'.recvs h = w.recvs h := by
          rw [World.recvs, hposted, List.countP_erase]
          simp [hr, World.recvs]
        simp only [RecvRecord.start, if_neg hr]
        omega

/-- A job starts. -/
theorem Received.start {j : Job} {links : τ → LinkRecord} (hc : Custody w links) (hh : 0 ≤ h)
    (hs : Received T h w rec) (hw : w.startJob j = some w') (hu : rec u = .blank) :
    Received T h w' (Function.update rec u (.start h j)) := by
  have hstart := World.startJob_spec hw
  obtain ⟨hkeep, hconn⟩ := World.startJob_peered (h := h) hw
  have howns := hc.starting hstart hh
  -- a start makes no object, takes none away, and says nothing to the user
  have hproto : ∀ {k}, (∃ o, w.obj h = some o ∧ o.proto = k) →
      ∃ o, w'.obj h = some o ∧ o.proto = k := by
    rintro k ⟨o, ho, hk⟩
    exact obj_of_start hstart (fun _ _ => id) ⟨o, ho, hk⟩
  have hthere : (∃ o, w.obj h = some o) → ∃ o, w'.obj h = some o := by
    rintro ⟨o, ho⟩
    obtain ⟨o', ho', -⟩ := hproto ⟨o, ho, rfl⟩
    exact ⟨o', ho'⟩
  have hudp : w'.Udp h ↔ w.Udp h := by
    refine ⟨?_, hproto⟩
    rintro ⟨o', ho', hk⟩
    rcases hstart.same h with ⟨-, hnone⟩ | ⟨o, peer, ho, hpeer⟩
    · rw [hnone] at ho'
      cases ho'
    · rw [hpeer] at ho'
      cases ho'
      exact ⟨o, ho, hk⟩
  have hcreated : w'.created h = w.created h := by rw [World.created, hstart.notices, World.created]
  have hopened : w'.opened h = w.opened h := by rw [World.opened, hstart.notices, World.opened]
  -- a job has made, shut and been refused nothing when it starts
  have hnot : (RecvRecord.start h j).made = false ∧ (RecvRecord.start h j).refused = false
      ∧ (RecvRecord.start h j).shut = false := by
    cases j <;> exact ⟨rfl, rfl, rfl⟩
  obtain ⟨hmade, hrefused, hshut⟩ := hnot
  have hother : ∀ v, (Function.update rec u (RecvRecord.start h j) v).made = true →
      (rec v).made = true ∧ v ≠ u := by
    intro v hv
    by_cases hvu : v = u
    · subst hvu
      rw [Function.update_self, hmade] at hv
      cases hv
    · rw [Function.update_of_ne hvu] at hv
      exact ⟨hv, hvu⟩
  constructor
  case owns =>
    exact forall_records (P := fun _ (g : RecvRecord) => g.owns = true → ∃ o, w'.obj h = some o)
      (fun v hv => hthere (hs.owns v hv)) fun ho => hthere (howns ho)
  -- the kind is that of the completed packet
  case kind =>
    refine forall_records
      (P := fun _ (g : RecvRecord) => ∀ k, g.kind = some k → ∃ o, w'.obj h = some o ∧ o.proto = k)
      (fun v k hk => hproto (hs.kind v k hk)) fun k hk => hproto ?_
    cases j with
    | user c => cases hk
    | completion p status transfer turns irp =>
        have hp := (hstart.completion _ _ _ _ _ rfl).1
        simp only [RecvRecord.start] at hk
        by_cases hr : p.Receives h
        · rw [if_pos hr, Option.some.injEq] at hk
          subst hk
          exact (hs.posted p hp hr).1
        by_cases ha : p.Accepts h
        · rw [if_neg hr, if_pos ha, Option.some.injEq] at hk
          subst hk
          obtain ⟨o, ho, htcp, -⟩ := hc.accepted p hp ha.1
          exact ⟨o, by rw [← ha.2]; exact ho, htcp⟩
        · rw [if_neg hr, if_neg ha] at hk
          cases hk
  case posted =>
    intro p hp hr
    obtain ⟨hobj, hk⟩ := hs.posted p (posted_of_start hstart hp) hr
    exact ⟨hproto hobj, hk⟩
  case shut =>
    refine forall_records (P := fun _ (g : RecvRecord) => g.shut = true → w'.Shut h)
      (fun v hv => (hs.shut v hv).start hw) fun h => ?_
    rw [hshut] at h
    cases h
  case refused =>
    refine forall_records (P := fun _ (g : RecvRecord) => g.refused = true →
        ∃ k, g.kind = some k ∧ (T .udp → k = .udp → w'.Shut h)) ?_ fun h => ?_
    · intro v hv
      obtain ⟨k, hk, hold⟩ := hs.refused v hv
      exact ⟨k, hk, fun hT hu => (hold hT hu).start hw⟩
    · rw [hrefused] at h
      cases h
  case lost =>
    refine fun hT => forall_records
      (P := fun _ (g : RecvRecord) => g.lost = true → g.handles = true ∨ w'.Shut h)
      (fun v hv => (hs.lost hT v hv).imp_right (·.start hw)) fun h => ?_
    rw [RecvRecord.start_lost] at h
    cases h
  case credit =>
    refine forall_records (P := fun _ (g : RecvRecord) => 0 ≤ g.credit) hs.credit ?_
    cases j with
    | user c => exact le_rfl
    | completion p =>
        simp only [RecvRecord.start]
        split <;> decide
  -- the start of a connect or accept completion connects the socket: that gives the one credit
  case peer =>
    have hmove := sum_update RecvRecord.credit rec u (.start h j)
    have hpeer := hs.peer
    have hblank : (rec u).credit = 0 := by
      rw [hu]
      rfl
    have hone : (RecvRecord.start h j).credit ≤ 1 := by
      cases j with
      | user c => exact Int.zero_le_ofNat 1
      | completion p =>
          simp only [RecvRecord.start]
          split <;> decide
    rw [hopened]
    by_cases hpos : 0 < (RecvRecord.start h j).credit
    · obtain ⟨hno, hyes⟩ := hconn hpos (howns (RecvRecord.owns_of_credit hpos))
      rw [if_neg hno] at hpeer
      rw [if_pos hyes]
      omega
    · have hle : (if w.Peered h then 1 else 0 : Int) ≤ if w'.Peered h then 1 else 0 := by
        by_cases hp : w.Peered h
        · rw [if_pos hp, if_pos (hkeep hp)]
        · rw [if_neg hp]
          split <;> decide
      omega
  case tcp =>
    rw [hopened]
    exact fun hpos => hproto (hs.tcp hpos)
  case made =>
    refine forall_records (P := fun _ (g : RecvRecord) => g.made = true → g.owns = true) hs.made
      fun h => ?_
    rw [hmade] at h
    cases h
  case fresh =>
    intro x hx
    obtain ⟨hx, -⟩ := hother x hx
    rw [hcreated]
    exact ⟨(hs.fresh x hx).1, fun v hv => (hs.fresh x hx).2 v (hother v hv).1⟩
  case once =>
    rw [hcreated]
    exact hs.once
  case there =>
    rw [hcreated]
    exact fun hpos => hthere (hs.there hpos)
  case balanced =>
    exact forall_records (P := fun _ (g : RecvRecord) => g.Balanced) hs.balanced (.start h j)
  -- a completed receive leaves the system, and is due again
  case slots =>
    intro hT
    refine (hs.slots fun hu => hT (hudp.mpr hu)).imp (·.start hw) fun hsum => ?_
    have hmove := sum_update RecvRecord.due rec u (.start h j)
    have hdue := due_start hstart (h := h)
    have hblank : (rec u).due = 0 := by
      rw [hu]
      rfl
    rw [World.announced] at hsum ⊢
    rw [hcreated, hopened]
    simp only [hudp]
    omega

/-! ### The return of a job -/

/-- A link is returned by a `create` call. -/
theorem World.finishJob_counts {j : Job} {r : Int} (hh : 0 ≤ h) :
    (w.finishJob j r).opened h = w.opened h
      ∧ ((w.finishJob j r).created h = w.created h ∧ ¬ (j.Makes = true ∧ r = h)
        ∨ (w.finishJob j r).created h = w.created h + 1 ∧ j.Makes = true ∧ r = h) := by
  have hmakes : ∀ {w' : World}, w' = (if 0 ≤ r then w.note (.created r) else w) →
      w'.opened h = w.opened h ∧ (w'.created h = w.created h ∧ ¬ (True ∧ r = h)
        ∨ w'.created h = w.created h + 1 ∧ True ∧ r = h) := by
    rintro w' rfl
    by_cases hr : r = h
    · subst hr
      rw [if_pos hh]
      simp [World.opened, World.created, World.note, Notice.Opens]
    · split <;> simp [World.opened, World.created, World.note, Notice.Opens, hr]
  cases j with
  | completion p => exact ⟨rfl, .inl ⟨rfl, fun h => by cases h.1⟩⟩
  | user c =>
      cases c with
      | tcpCreate | udpCreate => simpa [Job.Makes, World.finishJob] using hmakes rfl
      | _ => exact ⟨rfl, .inl ⟨rfl, fun h => by cases h.1⟩⟩

/-- A job returns. `hmake` says that a link returned is of the kind the call is for. -/
theorem Received.finish {j : Job} {r : Int} (hh : 0 ≤ h) (hs : Received T h w rec)
    (hp : RecvRecord.Post h j (rec u) r)
    (hmake : j.Makes = true → r = h → (w.Udp h ↔ j.MakesUdp = true)) :
    Received T h (w.finishJob j r) (Function.update rec u .blank) := by
  obtain ⟨hobj, hposted, hcase⟩ := World.finishJob_spec w j r
  have hudp : (w.finishJob j r).Udp h ↔ w.Udp h := by rw [World.Udp, hobj, World.Udp]
  have hpeered : (w.finishJob j r).Peered h ↔ w.Peered h := by rw [World.Peered, hobj, World.Peered]
  have hrecvs : (w.finishJob j r).recvs h = w.recvs h := by rw [World.recvs, hposted, World.recvs]
  obtain ⟨hopened, hcreated⟩ := World.finishJob_counts (w := w) (j := j) (r := r) hh
  -- the record of the job is blank again: what it has made is nobody's now
  have hother : ∀ v, (Function.update rec u RecvRecord.blank v).made = true →
      (rec v).made = true ∧ v ≠ u := by
    intro v hv
    by_cases hvu : v = u
    · subst hvu
      rw [Function.update_self] at hv
      cases hv
    · rw [Function.update_of_ne hvu] at hv
      exact ⟨hv, hvu⟩
  constructor
  case owns =>
    rw [hobj]
    exact forall_records (P := fun _ (g : RecvRecord) => g.owns = true → ∃ o, w.obj h = some o)
      hs.owns nofun
  case kind =>
    rw [hobj]
    exact forall_records
      (P := fun _ (g : RecvRecord) => ∀ k, g.kind = some k → ∃ o, w.obj h = some o ∧ o.proto = k)
      hs.kind nofun
  case posted =>
    rw [hobj, hposted]
    exact hs.posted
  case shut =>
    exact forall_records (P := fun _ (g : RecvRecord) => g.shut = true → (w.finishJob j r).Shut h)
      (fun v hv => (hs.shut v hv).finish) nofun
  case refused =>
    refine forall_records (P := fun _ (g : RecvRecord) => g.refused = true →
        ∃ k, g.kind = some k ∧ (T .udp → k = .udp → (w.finishJob j r).Shut h)) ?_ nofun
    intro v hv
    obtain ⟨k, hk, hold⟩ := hs.refused v hv
    exact ⟨k, hk, fun hT hu => (hold hT hu).finish⟩
  case lost =>
    exact fun hT => forall_records
      (P := fun _ (g : RecvRecord) => g.lost = true → g.handles = true ∨ (w.finishJob j r).Shut h)
      (fun v hv => (hs.lost hT v hv).imp_right (·.finish)) nofun
  case credit =>
    exact forall_records (P := fun _ (g : RecvRecord) => 0 ≤ g.credit) hs.credit le_rfl
  case peer =>
    have hmove := sum_update RecvRecord.credit rec u .blank
    have hpeer := hs.peer
    have hcredit := hs.credit u
    have hblank : RecvRecord.blank.credit = 0 := rfl
    rw [hopened]
    simp only [hpeered]
    omega
  case tcp =>
    rw [hopened, hobj]
    exact hs.tcp
  case made =>
    exact forall_records (P := fun _ (g : RecvRecord) => g.made = true → g.owns = true)
      hs.made nofun
  -- who returns the link was the only one that had made it
  case fresh =>
    intro x hx
    obtain ⟨hx, hxu⟩ := hother x hx
    refine ⟨?_, fun v hv => (hs.fresh x hx).2 v (hother v hv).1⟩
    rcases hcreated with ⟨hsame, -⟩ | ⟨-, hmakes, hr⟩
    · rw [hsame]
      exact (hs.fresh x hx).1
    · exact absurd ((hs.fresh x hx).2 u (hp.made hmakes hr)) (Ne.symm hxu)
  -- a link that is returned had not been returned before
  case once =>
    rcases hcreated with ⟨hsame, -⟩ | ⟨hmore, hmakes, hr⟩
    · rw [hsame]
      exact hs.once
    · rw [hmore, (hs.fresh u (hp.made hmakes hr)).1]
  case there =>
    rw [hobj]
    rcases hcreated with ⟨hsame, -⟩ | ⟨-, hmakes, hr⟩
    · rw [hsame]
      exact hs.there
    · exact fun _ => hs.owns u (hs.made u (hp.made hmakes hr))
  case balanced =>
    exact forall_records (P := fun _ (g : RecvRecord) => g.Balanced) hs.balanced .blank
  -- the contract of the job: nothing is due, or the link is shut, or a create call failed
  case slots =>
    intro hT
    have hmove := sum_update RecvRecord.due rec u .blank
    have hblank : RecvRecord.blank.due = 0 := rfl
    have hTu : w.Udp h → T .udp := fun hu => hT (hudp.mpr hu)
    rcases hs.slots hTu with hshut | hsum
    · exact .inl hshut.finish
    rcases hp.due with hdue | hshut | ⟨hkind, hrefused⟩
    · refine .inr ?_
      rw [World.announced] at hsum ⊢
      rw [hopened, hrecvs]
      simp only [hudp]
      rcases hcreated with ⟨hsame, hno⟩ | ⟨hmore, hmakes, hr⟩
      · have hzero : (rec u).due = 0 := by
          rw [hdue, if_neg fun hm => hno ⟨Job.makes_of_udp hm.1, hm.2⟩]
        rw [hsame]
        omega
      · by_cases hm : j.MakesUdp = true
        · have hu : w.Udp h := (hmake hmakes hr).mpr hm
          rw [if_pos ⟨hm, hr⟩] at hdue
          rw [if_pos hu] at hsum ⊢
          omega
        · have hu : ¬ w.Udp h := fun hu => hm ((hmake hmakes hr).mp hu)
          rw [if_neg fun h => hm h.1] at hdue
          rw [if_neg hu] at hsum ⊢
          omega
    · exact .inl (hs.shut u hshut).finish
    · obtain ⟨k, hk, hold⟩ := hs.refused u hrefused
      rw [hkind, Option.some.injEq] at hk
      exact .inl (hold (hTu (hs.kind u _ hkind)) hk.symm).finish

/-! ### Every run -/

omit [Fintype τ] [DecidableEq τ] in
/-- The user hears of a link that is established. -/
theorem Custody.opened {rec : τ → LinkRecord} (hc : Custody w rec) (hh : 0 ≤ h)
    (hw : w.answer c a = some w') (hn : (rec u).Need c) {g : RecvRecord} (hg : g.Need h c)
    (hlink : g.link = (rec u).link) : ∀ n, c = .emit n → n.Opens h = true → w' = w.note n := by
  rintro n rfl hopens
  cases n with
  | connected l =>
      obtain rfl : l = h := by simpa [Notice.Opens] using hopens
      obtain ⟨-, hl, -⟩ := hg rfl
      obtain ⟨o, ho, hcb, -⟩ := hc.shared l hh (.inr (.inr ⟨u, .inl (hlink.symm.trans hl)⟩))
      simp only [World.answer, World.tell, Notice.link, ho, hcb, if_true, Option.some.injEq] at hw
      exact hw.symm
  | accepted l k => exact hc.announced hw hn
  | _ => cases hopens

omit [Fintype τ] [DecidableEq τ] in
/-- The link of a job is that of its completion or its argument. -/
@[simp] theorem recvStart_link (j : Job) : (RecvRecord.start h j).link = j.link := by
  cases j <;> rfl

variable {G : SysGuard} {s : SysState τ}

omit [Fintype τ] [DecidableEq τ] in
/-- Both records of a running job name the link of the job. -/
theorem records_link {j : Job} {t : CallTrace} {p : CallProg Int}
    (hu : s.thread u = .running j t p) :
    (s.records (receives h) u).link = (s.records links u).link := by
  have hl := (LinkRecord.grows_record j t).link
  rw [start_link] at hl
  rw [State.records_running hu, State.records_running hu]
  exact ((RecvRecord.grows_record h j t).link.trans (recvStart_link j)).trans hl.symm

/-- In every run that keeps to `T`. -/
theorem sys_received (hh : 0 ≤ h) (hG : ∀ {w j t c a}, G.call w j t c a →
      T .udp → ∀ p, c = .post p → p.proto = .udp → a < 0 → w.Shut p.link)
    (hL : ∀ {w j t c a}, G.call w j t c a → T .tcp → (∃ x, j = .user x) → c.Arms h → a < 0 →
      w.Shut h) (hr : SysReaches G s) :
    Received T h s.world (s.records (receives h)) ∧ s.Meets (receives h) := by
  have hkept : Kept (receives h) system G (State.rest World.initial) (Received (τ := τ) T h) := by
    constructor
    case env =>
      intro s e
      exact e.elim
    case start =>
      intro s u j w hs hi hu hw hG
      refine ⟨job_receives hh fun p status transfer turns irp hj hp => ?_,
        hi.start (sys_custody hs).1 hh hw (State.records_idle hu)⟩
      have hmem := ((World.startJob_spec hw).completion _ _ _ _ _ hj).1
      exact (hi.posted p hmem hp).2
    case call =>
      intro s u j t c k a w hs hi hu hw hcall hn
      obtain ⟨hc, hm⟩ := sys_custody hs
      have hneed : (s.records links u).Need c := (hm u j t _ hu).1
      refine ⟨?_, hi.call hh hw hn (hc.opened hh hw hneed hn (records_link hu)) ?_ (hG hcall) ?_⟩
      · cases c with
        | ncb l x =>
            cases x with
            | proto =>
                rintro rfl k hk
                obtain ⟨o, ho, rfl⟩ := hi.kind u k hk
                exact World.answer_proto ho hw
            | _ => trivial
        | _ => trivial
      · rintro l rfl
        exact hneed
      · intro hT hhd harms
        refine hL hcall hT ?_ harms
        -- only a call of the user can arm the link and not be one of its handlers
        rw [State.records_running hu] at hhd hn
        have hgr := RecvRecord.grows_record h j t
        have hl := (RecvRecord.arms_link hn hhd harms).symm.trans hgr.link
        cases j with
        | user x => exact ⟨x, rfl⟩
        | completion p status transfer turns irp =>
            have hlink : p.link = h := (Option.some.inj hl).symm
            have hyes := hgr.handles.symm.trans hhd
            simp [RecvRecord.start, hlink] at hyes
    case finish =>
      intro s u j t r hs hi hu hp
      obtain ⟨hc, hm⟩ := sys_custody hs
      refine hi.finish hh hp fun hmakes hr => ?_
      have hpost : LinkRecord.Post j (s.records links u) r := hm u j t _ hu
      -- the link was made as the call would have it
      obtain ⟨proto, hmade, hproto⟩ : ∃ proto, (r, proto, false) ∈ (s.records links u).made
          ∧ (proto = .udp ↔ j.MakesUdp = true) := by
        have hpos : ¬ r < 0 := by omega
        cases j with
        | completion => cases hmakes
        | user c =>
            cases c with
            | tcpCreate =>
                simp only [LinkRecord.Post, if_neg hpos] at hpost
                exact ⟨.tcp, hpost.2.2, by simp [Job.MakesUdp]⟩
            | udpCreate =>
                simp only [LinkRecord.Post, if_neg hpos] at hpost
                exact ⟨.udp, hpost.2.2, by simp [Job.MakesUdp]⟩
            | _ => cases hmakes
      obtain ⟨o, ho, hkind, -⟩ := hc.made u r proto false hmade
      subst hr
      rw [← hproto, ← hkind]
      simp [World.Udp, ho]
  have h₀ : Received (τ := τ) T h World.initial
      ((State.rest World.initial : SysState τ).records (receives h)) := by
    refine ⟨fun _ ho => (by cases ho), fun _ _ hk => (by cases hk), fun _ hp => (by cases hp),
      fun _ hs => (by cases hs), fun _ hr => (by cases hr), fun _ _ hl => (by cases hl),
      fun _ => le_rfl, ?_, fun hpos => (by cases hpos), fun _ hm => (by cases hm),
      fun _ hm => (by cases hm), ?_, fun hpos => (by cases hpos), fun _ => .blank, fun _ => .inr ?_⟩
    · simp [World.opened, World.initial, receives, RecvRecord.blank, World.Peered]
    · simp [World.created, World.initial]
    · simp [World.recvs, World.announced, World.opened, World.created, World.initial, receives,
        RecvRecord.blank]
  exact hr.kept hkept h₀ (State.meets_rest _)

/-- No handler of link `h` is running. -/
def Unhandled (s : SysState τ) (h : Int) : Prop :=
  ∀ u p status transfer turns irp t q,
    s.thread u = .running (.completion p status transfer turns irp) t q →
    p.link ≠ h ∧ ¬ p.Accepts h

omit [Fintype τ] [DecidableEq τ] in
/-- While no completion of the link is handled no record handles one. -/
theorem Unhandled.handles (hq : Unhandled s h) (u : τ) :
    (s.records (receives h) u).handles = false := by
  cases hth : s.thread u with
  | idle =>
      rw [State.records_idle hth]
      rfl
  | running j t q =>
      rw [State.records_running hth]
      refine (RecvRecord.grows_record h j t).handles.trans ?_
      cases j with
      | user c => rfl
      | completion p status transfer turns irp =>
          obtain ⟨hl, ha⟩ := hq u p status transfer turns irp t q hth
          exact decide_eq_false (by simp [hl, ha])

omit [DecidableEq τ] in
/-- Where no handler of the link is running, nothing is due of a link that was announced. -/
theorem Received.settled (hs : Received T h w rec) (hh : ∀ u, (rec u).handles = false)
    (ha : 0 < w.opened h ∨ w.Udp h ∧ 0 < w.created h) (u : τ) : (rec u).due = 0 := by
  obtain ⟨hle, hnone, htcp, hudp⟩ := hs.balanced u (hh u)
  cases hk : (rec u).kind with
  | none => exact hnone hk
  | some k =>
      obtain ⟨o, ho, rfl⟩ := hs.kind u k hk
      rcases ha with hopened | ⟨⟨o', ho', hu⟩, hcreated⟩
      · -- all the credit was taken up by the announcement
        obtain ⟨o', ho', ht⟩ := hs.tcp hopened
        rw [ho] at ho'
        cases ho'
        have hcredit : (rec u).credit ≤ ∑ v, (rec v).credit :=
          Finset.single_le_sum (f := fun v => (rec v).credit) (fun v _ => hs.credit v)
            (Finset.mem_univ u)
        have hone : (if w.Peered h then 1 else 0 : Int) ≤ 1 := by split <;> decide
        have hpeer := hs.peer
        have hsum := htcp (by rw [hk, ht])
        omega
      · rw [ho] at ho'
        cases ho'
        refine (hudp (by rw [hk, hu])).resolve_right fun hm => ?_
        have hzero := (hs.fresh u hm).1
        omega

end

/-! ## TCP links -/

/-- A receive of TCP link `h` could not be made ready or posted. -/
def LosesReceive (h : Int) (t : CallTrace) : Prop := ∃ x ∈ t, x.1.Arms h ∧ x.2 < 0

/-- The stream of link `h` was rejected: by the parser, or when a large block was assembled, which
is what a second look at it finds. The calls of a trace are in reverse order. -/
def RejectsStream (h : Int) (t : CallTrace) : Prop :=
  (∃ a, (.ncb h (.read .tcpTst), a) ∈ t ∧ a < 0)
    ∨ ∃ t₁ a b t₂, t = t₁ ++ (.ncb h (.read .largeBlock), a) ::
      (.ncb h (.read .largeBlock), b) :: t₂
      ∧ a < 0

section

variable {h : Int} {j : Job} {t : CallTrace}

theorem LosesReceive.lost (hl : LosesReceive h t) :
    (record (RecvRecord.after h) (.start h j) t).lost = true := by
  obtain ⟨x, hx, harms, ha⟩ := hl
  induction t with
  | nil => cases hx
  | cons y t ih =>
      rw [record_cons]
      rcases List.mem_cons.mp hx with rfl | hx
      · rcases harms with hc | ⟨p, hc, htcp, hp⟩
        · simp [RecvRecord.after, hc, ha]
        · simp [RecvRecord.after, hc, htcp, hp, ha]
      · exact (RecvRecord.grows_after h _ _ _).lost (ih hx)

theorem RejectsStream.rejected (hr : RejectsStream h t) :
    (record (RecvRecord.after h) (.start h j) t).rejected = true := by
  rcases hr with ⟨a, hx, ha⟩ | ⟨t₁, a, b, t₂, rfl, ha⟩
  · induction t with
    | nil => cases hx
    | cons y t ih =>
        rw [record_cons]
        rcases List.mem_cons.mp hx with rfl | hx
        · simp [RecvRecord.after, ha]
        · exact (RecvRecord.grows_after h _ _ _).rejected (ih hx)
  · induction t₁ with
    | nil => simp [RecvRecord.after, ha]
    | cons y t₁ ih => exact (RecvRecord.grows_after h _ _ _).rejected ih

end

section

variable {τ : Type} [Fintype τ] [DecidableEq τ] {s s₀ : SysState τ} {h : Int}

/-- The runs in which a call of the user that is to leave a TCP link with a receive (`tcp_connect`
is the only one) fails to only when the link is closed. -/
def linksArmed : SysGuard where
  start _ _ := True
  call w j _ c a :=
    match j, c with
    | .user _, .allocatePacket l .tcp .recv => a < 0 → w.Shut l
    | .user _, .post p => p.proto = .tcp → p.type = .recv → a < 0 → w.Shut p.link
    | _, _ => True

instance (w : World) (j : Job) : Decidable (linksArmed.start w j) := instDecidableTrue

instance (w : World) (j : Job) (t : CallTrace) (c : Call) (a : Int) :
    Decidable (linksArmed.call w j t c a) :=
  match j, c with
  | .completion .., _ => instDecidableTrue
  | .user _, .allocatePacket l .tcp .recv => inferInstanceAs (Decidable (a < 0 → w.Shut l))
  | .user _, .post p =>
    inferInstanceAs (Decidable (p.proto = .tcp → p.type = .recv → a < 0 → w.Shut p.link))
  | .user _, .allocatePacket _ .tcp .send | .user _, .allocatePacket _ .tcp .syn
  | .user _, .allocatePacket _ .tcp .connect | .user _, .allocatePacket _ .tcp .pipe
  | .user _, .allocatePacket _ .tcp .unknown | .user _, .allocatePacket _ .unknown _
  | .user _, .allocatePacket _ .ip _ | .user _, .allocatePacket _ .udp _
  | .user _, .allocatePacket _ .pipe _ | .user _, .objallo .. | .user _, .objrefr _
  | .user _, .objreff _ | .user _, .objdefr _ | .user _, .objclos _ | .user _, .ncb ..
  | .user _, .freepkt _ | .user _, .emit _ | .user _, .other _ | .user _, .stuck =>
    instDecidableTrue

/-- **In every run** in which TCP links get their receives. Induction on the run, a call at a
time. -/
theorem sys_armed (hh : 0 ≤ h) (hr : SysReaches linksArmed s) :
    Received (· = .tcp) h s.world (s.records (receives h)) ∧ s.Meets (receives h) := by
  refine sys_received hh (fun _ hT => nomatch hT) ?_ hr
  rintro w j t c a hG - ⟨x, rfl⟩ harms ha
  rcases harms with rfl | ⟨p, rfl, htcp, hp⟩
  · exact hG ha
  · have hshut := hG htcp hp.1 ha
    rw [hp.2] at hshut
    exact hshut

/-- A thread handles link `h`, and has lost its receive or rejected its stream. -/
def Failing (s : SysState τ) (h : Int) (u : τ) : Prop :=
  ∃ j t q, s.thread u = .running j t q ∧ (RecvRecord.start h j).handles = true
    ∧ ((record (RecvRecord.after h) (.start h j) t).lost = true
      ∨ ((RecvRecord.start h j).data = true ∧ (RecvRecord.start h j).kind = some .tcp)
        ∧ (record (RecvRecord.after h) (.start h j) t).rejected = true)

omit [Fintype τ] in
/-- A link stays what it is. -/
theorem proto_step {G : SysGuard} {s s' : SysState τ} {k : ProtoType} (hstep : Step system G s s')
    (ho : ∃ o, s.world.obj h = some o ∧ o.proto = k) :
    ∃ o, s'.world.obj h = some o ∧ o.proto = k := by
  obtain ⟨o, ho, hk⟩ := ho
  cases hstep with
  | env e => exact nomatch e
  | start x j hx hw hG => exact obj_of_start (World.startJob_spec hw) (fun _ _ => id) ⟨o, ho, hk⟩
  | call x j t c k a hx hw hG =>
      obtain ⟨o', ho', hkeep⟩ := World.answer_keeps hw ho
      exact ⟨o', ho', hkeep.kin.proto.trans hk⟩
  | finish x j t r hx => exact ⟨o, by rw [← ho]; exact congrFun (World.finishJob_spec ..).1 h, hk⟩

omit [Fintype τ] in
theorem proto_run {G : SysGuard} {k : ProtoType} (hr : Reaches system G s₀ s)
    (ho : ∃ o, s₀.world.obj h = some o ∧ o.proto = k) : ∃ o,
      s.world.obj h = some o ∧ o.proto = k := by
  induction hr with
  | refl => exact ho
  | step _ hstep ih => exact proto_step hstep ih

omit [Fintype τ] in
theorem World.Shut.step {G : SysGuard} {s s' : SysState τ} (hshut : s.world.Shut h)
    (hstep : Step system G s s') : s'.world.Shut h := by
  cases hstep with
  | env e => exact nomatch e
  | start x j hx hw hG => exact hshut.start hw
  | call x j t c k a hx hw hG => exact hshut.call hw
  | finish x j t r hx => exact hshut.finish

omit [Fintype τ] in
theorem World.Shut.run {G : SysGuard} (hshut : s₀.world.Shut h) (hr : Reaches system G s₀ s) :
    s.world.Shut h := by
  induction hr with
  | refl => exact hshut
  | step _ hstep ih => exact ih.step hstep

/-- A job that fails a TCP link closes it before it returns. -/
theorem failing_shut (hh : 0 ≤ h) (h₀ : SysReaches linksArmed s₀)
    (hr : Reaches system linksArmed s₀ s) {u : τ} (hf : Failing s₀ h u) :
    ¬ s.world.Udp h → s.world.Shut h ∨ ∃ u, Failing s h u := by
  induction hr with
  | refl => exact fun _ => .inr ⟨u, hf⟩
  | @step s s' hs hstep ih =>
      intro hudp
      replace ih := ih fun hu => hudp (proto_step hstep hu)
      obtain ⟨hrec, hmeets⟩ := sys_armed hh (h₀.trans hs)
      have hother : ∀ {x w} {v : τ}, v ≠ x → Failing s h v → ∀ th,
          Failing { world := w, thread := Function.update s.thread x th } h v := by
        rintro x w v hv ⟨j, t, q, hu, hbad⟩ th
        exact ⟨j, t, q, (Function.update_of_ne hv ..).trans hu, hbad⟩
      -- a link that is shut stays so; a failing job goes on failing until it returns
      rcases ih with hshut | ⟨v, hfail⟩
      · exact .inl (hshut.step hstep)
      · obtain ⟨j, t, q, hv, hhandles, hbad⟩ := hfail
        cases hstep with
        | env e => exact nomatch e
        | start x j' hx hw hG =>
            have hne : v ≠ x := by
              rintro rfl
              rw [hv] at hx
              cases hx
            exact .inr ⟨v, hother hne ⟨j, t, q, hv, hhandles, hbad⟩ _⟩
        | call x j' t' c k a hx hw hG =>
            by_cases hne : v = x
            · subst hne
              rw [hv] at hx
              cases hx
              have hgr := RecvRecord.grows_after h (record (RecvRecord.after h) (.start h j) t) c a
              exact .inr ⟨v, j, (c, a) :: t, k a, Function.update_self .., hhandles,
                hbad.imp hgr.lost (And.imp_right hgr.rejected)⟩
            · exact .inr ⟨v, hother hne ⟨j, t, q, hv, hhandles, hbad⟩ _⟩
        | finish x j' t' r hx =>
            by_cases hne : v = x
            · subst hne
              rw [hv] at hx
              cases hx
              -- and when it returns, its contract says that it has closed the link
              have hpost : RecvRecord.Post h j (s.records (receives h) v) r := hmeets v j t _ hv
              have hgr := RecvRecord.grows_record h j t
              refine .inl (hrec.shut v ?_).finish
              rw [State.records_running hv] at hpost ⊢
              rcases hbad with hlost | ⟨⟨hdata, hkind⟩, hrej⟩
              · refine hpost.lost ?_ (fun hk => hudp ?_) hlost
                · cases j with
                  | user x => cases hhandles
                  | completion => rfl
                · exact proto_step (G := linksArmed) (.finish v j t r hv)
                    (hrec.kind v _ (by rw [State.records_running hv]; exact hk))
              · exact hpost.rejected (hgr.data.trans hdata) (hgr.kind _ hkind) hrej
            · exact .inr ⟨v, hother hne ⟨j, t, q, hv, hhandles, hbad⟩ _⟩

/-- **One receive.** A TCP link that was announced has one receive outstanding whenever none of its
completions is being handled, unless it is closed. It is closed if, at any time before, its receive
could not be posted or its stream was rejected. -/
theorem tcp_one_receive (hr : SysReaches linksArmed s) {o : Obj} (ho : s.world.obj h = some o)
    (htcp : o.proto = .tcp) (hquiet : Unhandled s h) :
    ((∃ n ∈ s.world.notices, n.Opens h = true) → s.world.Shut h ∨ s.world.recvs h = 1)
      ∧ ∀ s₀, SysReaches linksArmed s₀ → Reaches system linksArmed s₀ s →
        ∀ u j t q, s₀.thread u = .running j t q →
          LosesReceive h t ∨ (∃ p status transfer turns irp,
            j = .completion p status transfer turns irp ∧ p.Receives h) ∧ RejectsStream h t →
          s.world.Shut h := by
  have hh : 0 ≤ h := (sys_custody hr).1.nonneg ho
  have hs := (sys_armed hh hr).1
  constructor
  · rintro ⟨n, hn, hopens⟩
    have hnot : ¬ s.world.Udp h := by
      rintro ⟨o', ho', hu⟩
      rw [ho] at ho'
      cases ho'
      rw [htcp] at hu
      cases hu
    refine (hs.slots fun hu => absurd hu hnot).imp_right fun hsum => ?_
    have hpos : 0 < s.world.opened h := List.countP_pos_iff.mpr ⟨n, hn, hopens⟩
    have hdue : ∑ u, (s.records (receives h) u).due = 0 := Finset.sum_eq_zero fun u _ =>
      hs.settled hquiet.handles (.inl hpos) u
    -- a link is announced once
    have hcredit : 0 ≤ ∑ u, (s.records (receives h) u).credit :=
      Finset.sum_nonneg fun u _ => hs.credit u
    have hone : (if s.world.Peered h then 1 else 0 : Int) ≤ 1 := by split <;> decide
    have hpeer := hs.peer
    rw [World.announced, if_neg hnot] at hsum
    omega
  · intro s₀ h₀ hreach u j t q hu hbad
    have hrec₀ := (sys_armed hh h₀).1
    have hkind : ∀ k, (s₀.records (receives h) u).kind = some k → k = .tcp := by
      intro k hk
      obtain ⟨o', ho', rfl⟩ := proto_run hreach (hrec₀.kind u k hk)
      rw [ho] at ho'
      cases ho'
      exact htcp
    have hfail : s₀.world.Shut h ∨ Failing s₀ h u := by
      rcases hbad with hlost | ⟨⟨p, status, transfer, turns, irp, rfl, hp⟩, hrej⟩
      · have hl := hlost.lost (j := j)
        rcases hrec₀.lost rfl u (by rw [State.records_running hu]; exact hl) with hhd | hshut
        · rw [State.records_running hu] at hhd
          exact .inr ⟨j, t, q, hu, (RecvRecord.grows_record h j t).handles.symm.trans hhd, .inl hl⟩
        · exact .inl hshut
      · refine .inr ⟨_, t, q, hu, ?_, .inr ⟨⟨?_, ?_⟩, hrej.rejected⟩⟩
        · exact decide_eq_true (.inl hp.2)
        · exact decide_eq_true hp
        · have hstart : (RecvRecord.start h (.completion p status transfer turns irp)).kind
              = some p.proto := if_pos hp
          rw [hstart, hkind p.proto]
          rw [State.records_running hu]
          exact (RecvRecord.grows_record h _ t).kind _ hstart
    have hdone : s.world.Shut h ∨ ∃ u, Failing s h u := by
      rcases hfail with hshut | hfail
      · exact .inl (hshut.run hreach)
      · refine failing_shut hh h₀ hreach hfail fun hu => ?_
        obtain ⟨o', ho', hu⟩ := hu
        rw [ho] at ho'
        cases ho'
        rw [htcp] at hu
        cases hu
    refine hdone.resolve_right ?_
    rintro ⟨v, j', t', q', hv, hhandles, -⟩
    have hno := hquiet.handles v
    rw [State.records_running hv] at hno
    rw [(RecvRecord.grows_record h j' t').handles.symm.trans hno] at hhandles
    cases hhandles

end

/-- A call of `tcp_connect` on link 0, whose `connect` succeeds, up to its return. -/
def connectTcp (u : Unit) (as : List Int) : List (SysMove Unit) :=
  .start u (.user (.tcpConnect 0 true somePeer)) :: referTcp u ++ Move.calls u (1 :: as)

/-- The beginning of the dispatch of the receive that the call has posted. -/
def received (u : Unit) : List (SysMove Unit) :=
  .start u (.completion (.plain 0 .tcp .recv 0) 0 5 1 noAddrs) :: referTcp u

/-- Bytes are received, and the receive posted again. The next are rejected. -/
theorem tcp_one_receive_kept : ∃ s : SysState Unit, SysReaches linksArmed s
    ∧ (s.world.Shut 0 ∨ s.world.recvs 0 = 1)
    ∧ ∃ s' : SysState Unit, SysReaches linksArmed s' ∧ s'.world.Shut 0 := by
  have hquiet : ∀ {s : SysState Unit}, s.thread () = .idle → Unhandled s 0 := by
    intro s hidle u p status transfer turns irp t q hu
    rw [hidle] at hu
    cases hu
  obtain ⟨s, hs, hidle, ⟨o, ho, htcp⟩, n, hn, hopens⟩ := sys_of_play linksArmed
    (P := fun s => idling s () = true ∧ (∃ o ∈ s.world.obj 0, o.proto = .tcp)
      ∧ ∃ n ∈ s.world.notices, n.Opens 0 = true)
    (createTcp () 0 ++ connectTcp () (List.replicate 12 0) ++ [.finish ()] ++ received ()
      ++ Move.calls () (List.replicate 8 0) ++ [.finish ()])
    (by decide +kernel)
  have hone := (tcp_one_receive hs ho htcp (hquiet (idle_of_idling hidle))).1 ⟨n, hn, hopens⟩
  obtain ⟨s₀, hs₀, ⟨o', ho', htcp'⟩, x, hx, hjob, hrej⟩ := sys_of_play linksArmed
    (P := fun s => (∃ o ∈ s.world.obj 0, o.proto = .tcp)
      ∧ ∃ x ∈ returning s (), x.1 = .completion (.plain 0 .tcp .recv 0) 0 5 1 noAddrs
        ∧ (.ncb 0 (.read .tcpTst), -1) ∈ x.2.1)
    (createTcp () 0 ++ connectTcp () (List.replicate 12 0) ++ [.finish ()] ++ received ()
      ++ Move.calls () ([0, -1] ++ List.replicate 5 0))
    (by decide +kernel)
  obtain ⟨j, t, r⟩ := x
  obtain rfl : j = _ := hjob
  have hu := running_of_returning hx
  have hstep := Step.finish (S := system) (G := linksArmed) () _ t r hu
  refine ⟨s, hs, hone, _, hs₀.step hstep, ?_⟩
  have hidle' : Function.update s₀.thread () Thread.idle () = .idle := Function.update_self ..
  have hclosed := (tcp_one_receive (hs₀.step hstep) (o := o') ho' htcp' (hquiet hidle')).2
  exact hclosed s₀ hs₀ (Reaches.refl.step hstep) () _ t _ hu
    (.inr ⟨⟨_, _, _, _, _, rfl, rfl, rfl⟩, .inl ⟨-1, hrej, by decide⟩⟩)

/-- `tcp_connect` connects, and the system refuses its receive: the call fails, and the link stays
open and connected, with no receive. -/
theorem tcp_one_receive_lost : ∃ s₀ s : SysState Unit, SysReaches anyRun s₀
    ∧ Reaches system anyRun s₀ s ∧ (∃ u j t q, s₀.thread u = .running j t q ∧ LosesReceive 0 t)
    ∧ (∀ u, s.thread u = .idle) ∧ s.world.Peered 0 ∧ ¬ s.world.Shut 0 := by
  obtain ⟨s₀, hs₀, ⟨x, hx, hjob, y, hy, hpost, ha⟩, hpeer, hopen⟩ := sys_of_play anyRun
    (P := fun s => (∃ x ∈ returning s (), x.1 = .user (.tcpConnect 0 true somePeer)
        ∧ ∃ y ∈ x.2.1, y.1 = .post (.plain 0 .tcp .recv 0) ∧ y.2 < 0)
      ∧ s.world.Peered 0 ∧ ¬ s.world.Shut 0)
    (createTcp () 0 ++ connectTcp () ([0, 0, 0, 0, 0, -1] ++ List.replicate 5 0))
    (by decide +kernel)
  obtain ⟨j, t, r⟩ := x
  obtain rfl : j = _ := hjob
  have hu := running_of_returning hx
  have hstep := Step.finish (S := system) (G := anyRun) () _ t r hu
  refine ⟨s₀, _, hs₀, Reaches.refl.step hstep, ⟨(), _, t, _, hu, y, hy, ?_, ha⟩, fun u => ?_, hpeer,
    hopen⟩
  · exact .inr ⟨_, hpost, rfl, rfl, rfl⟩
  · show Function.update s₀.thread () Thread.idle () = .idle
    exact Function.update_self ..

/-! ## UDP links -/

section

variable {τ : Type} [Fintype τ] [DecidableEq τ] {s : SysState τ}

/-- The runs in which the system refuses a receive of a UDP link only when the link is closed. -/
def recvsTaken : SysGuard where
  start _ _ := True
  call w _ _ c a :=
    match c with
    | .post p => p.proto = .udp → a < 0 → w.Shut p.link
    | _ => True

instance (w : World) (j : Job) : Decidable (recvsTaken.start w j) := instDecidableTrue

instance (w : World) (j : Job) (t : CallTrace) (c : Call) (a : Int) :
    Decidable (recvsTaken.call w j t c a) :=
  match c with
  | .post p => inferInstanceAs (Decidable (p.proto = .udp → a < 0 → w.Shut p.link))
  | .objallo .. | .objrefr _ | .objreff _ | .objdefr _ | .objclos _ | .ncb .. | .allocatePacket ..
  | .freepkt _ | .emit _ | .other _ | .stuck => instDecidableTrue

/-- **UDP receive slots are conserved.** A UDP link that `udp_create` returned has
`so_asio_count` receives outstanding whenever none of its completions is being handled, unless it
is closed. -/
theorem udp_slots (hr : SysReaches recvsTaken s) {h : Int} (hcreated : .created h ∈ s.world.notices)
    (hudp : s.world.Udp h) (hquiet : Unhandled s h) :
    s.world.Shut h ∨ s.world.recvs h = soAsioCount := by
  have hh : 0 ≤ h := by
    obtain ⟨o, ho, -⟩ := hudp
    exact (sys_custody hr).1.nonneg ho
  have hs := (sys_received (T := (· = .udp)) hh (fun {w j t c a} hG _ p hc hu ha => by
    subst hc
    exact hG hu ha) (fun _ h => nomatch h) hr).1
  refine (hs.slots fun _ => rfl).imp_right fun hsum => ?_
  have hpos : 0 < s.world.created h := List.count_pos_iff.mpr hcreated
  have hdue : ∑ u, (s.records (receives h) u).due = 0 := Finset.sum_eq_zero fun u _ =>
    hs.settled hquiet.handles (.inr ⟨hudp, hpos⟩) u
  -- a UDP link is never announced as connected
  have hopened : s.world.opened h = 0 := by
    by_contra hne
    obtain ⟨o, ho, ht⟩ := hs.tcp (Nat.pos_of_ne_zero hne)
    obtain ⟨o', ho', hu⟩ := hudp
    rw [ho] at ho'
    cases ho'
    rw [ht] at hu
    cases hu
  have honce := hs.once
  rw [World.announced, if_pos hudp] at hsum
  rw [soAsioCount]
  omega

end

/-- A call of `udp_create`, whose receive `WSARecvFrom` answers with `a`, and which makes link 0. -/
def createUdp (u : Unit) (a : Int) : List (SysMove Unit) :=
  Move.whole u (.user (.udpCreate true false false false))
    (List.replicate 17 0 ++ a :: List.replicate 3 0)

/-- A datagram is received, and the receive posted again. -/
theorem udp_slots_reposted : ∃ s : SysState Unit, SysReaches recvsTaken s ∧
    (s.world.Shut 0 ∨ s.world.recvs 0 = soAsioCount) := by
  obtain ⟨s, hs, hidle, hcreated, hudp⟩ := sys_of_play recvsTaken
    (P := fun s => idling s () = true ∧ .created 0 ∈ s.world.notices ∧ s.world.Udp 0)
    (createUdp () 0 ++ Move.whole () (.completion (.plain 0 .udp .recv 0) 0 5 0 noAddrs)
      ([0, ProtoType.udp.code] ++ List.replicate 7 0))
    (by decide +kernel)
  refine ⟨s, hs, udp_slots hs hcreated hudp fun u p status transfer turns irp t q hu => ?_⟩
  rw [idle_of_idling hidle] at hu
  cases hu

/-- The system refuses the receive of `udp_create`: the link is returned open, and receives
nothing. -/
theorem udp_slots_refused : ∃ s : SysState Unit, SysReaches anyRun s ∧ (∀ u, s.thread u = .idle)
    ∧ .created 0 ∈ s.world.notices ∧ s.world.Udp 0 ∧ ¬ s.world.Shut 0 ∧ s.world.recvs 0 = 0 := by
  obtain ⟨s, hs, hidle, hrest⟩ := sys_of_play anyRun
    (P := fun s => idling s () = true ∧ .created 0 ∈ s.world.notices ∧ s.world.Udp 0
      ∧ ¬ s.world.Shut 0 ∧ s.world.recvs 0 = 0)
    (createUdp () (-1))
    (by decide +kernel)
  exact ⟨s, hs, fun _ => idle_of_idling hidle, hrest⟩

end Swnet.Sys
