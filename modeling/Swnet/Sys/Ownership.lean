import Swnet.Sys.Links

/-!
# Swnet — every link in one place

In every run, a link is known to all, or it is in hand of the one job that allocated it or
dispatches its accept request, or it is in the one outstanding request that will accept on it.
Nobody else can close it while it is in one of the last two places.

The places are those of `Lib.Places`, and the invariant is kept in two parts: the facts about each
link by itself (`Facts`), and that no link is claimed by two places at once (`Exclusive`). A call
moves at most one link, from one place to another, and `Moves` says which; the start of a job takes
a link out of a request, and its end leaves none in hand. Each of the three kinds of steps has its
lemma (`Custody.call`, `Custody.start`, `Custody.finish`), and `sys_custody` is their induction.
-/

namespace Swnet.Sys

open Jobs Jobs.Prog

section

variable {τ : Type}

/-! ## Places -/

/-- Where a handle is. -/
inductive Place (τ : Type) where
  | unused
  | everywhere
  | inHand (u : τ)
  | inRequest (p : IoPacket)

/-- A handle that more than one job may use. -/
def Shared (w : World) (rec : τ → LinkRecord) (h : Int) : Prop :=
  h ∈ w.known ∨ (∃ p ∈ w.posted, p.link = h) ∨ ∃ u, (rec u).link = some h ∨ h ∈ (rec u).told

/-- A handle is claimed from a place. -/
def Claims (w : World) (rec : τ → LinkRecord) : Place τ → Int → Prop
  | .unused, h => 0 ≤ h ∧ w.obj h = none
  | .everywhere, h => h < 0 ∨ Shared w rec h
  | .inHand u, h => h ∈ (rec u).held
  | .inRequest p, h => p ∈ w.posted ∧ p.IsSyn ∧ p.acceptedLink = h

/-- What the jobs know of links is so. -/
structure Facts (w : World) (rec : τ → LinkRecord) : Prop where
  negative : ∀ h, h < 0 → w.obj h = none
  granted : ∀ u, ∀ h ∈ (rec u).granted, ∃ o, w.obj h = some o
  tcp : ∀ u h, h ∈ (rec u).tcp → ∃ o, w.obj h = some o ∧ o.proto = .tcp
  ready : ∀ u h, h ∈ (rec u).ready → ∃ o, w.obj h = some o ∧ o.callback = true
  made : ∀ u h proto remote, (h, proto, remote) ∈ (rec u).made →
    ∃ o, w.obj h = some o ∧ o.proto = proto ∧ o.remote = remote
  listener : ∀ p ∈ w.posted, p.IsSyn → ∃ o, w.obj p.link = some o ∧ o.proto = .tcp
  accepted : ∀ p ∈ w.posted, p.IsSyn →
    ∃ o, w.obj p.acceptedLink = some o ∧ o.proto = .tcp ∧ o.callback = true

/-- Every link is in one place, and open unless it is known to all. -/
structure Custody (w : World) (rec : τ → LinkRecord) : Prop extends Facts w rec where
  exclusive : Exclusive (Claims w rec)
  held_once : ∀ u h, (rec u).held.count h ≤ 1
  posted_once : ∀ p, p.IsSyn → w.posted.count p ≤ 1
  held_open : ∀ u, ∀ h ∈ (rec u).held, ∃ o, w.obj h = some o ∧ o.closed = false
  posted_open : ∀ p ∈ w.posted, p.IsSyn → ∃ o, w.obj p.acceptedLink = some o ∧ o.closed = false
  shared : ∀ h, 0 ≤ h → Shared w rec h →
    ∃ o, w.obj h = some o ∧ o.callback = true ∧ (o.proto = .tcp → h ∈ w.known)

/-- A link has a handle, which is not negative. -/
theorem Facts.nonneg {w : World} {rec : τ → LinkRecord} (hf : Facts w rec) {h : Int} {o : Obj}
    (ho : w.obj h = some o) : 0 ≤ h := by
  by_contra hneg
  rw [hf.negative h (by omega)] at ho
  cases ho

namespace Custody

variable {w w' : World} {rec : τ → LinkRecord}

theorem not_shared (hc : Custody w rec) {u : τ} {h : Int} (hh : h ∈ (rec u).held) :
    ¬ Shared w rec h := by
  intro hs
  cases hc.exclusive h (.inHand u) .everywhere hh (.inr hs)

theorem held_apart (hc : Custody w rec) {u v : τ} {h : Int} (hu : h ∈ (rec u).held)
    (hv : h ∈ (rec v).held) : u = v := by
  cases hc.exclusive h (.inHand u) (.inHand v) hu hv
  rfl

theorem not_requested (hc : Custody w rec) {u : τ} {p : IoPacket} (hp : p ∈ w.posted)
    (hs : p.IsSyn) : p.acceptedLink ∉ (rec u).held := by
  intro hh
  cases hc.exclusive _ (.inHand u) (.inRequest p) hh ⟨hp, hs, rfl⟩

theorem request_private (hc : Custody w rec) {p : IoPacket} (hp : p ∈ w.posted) (hs : p.IsSyn) :
    ¬ Shared w rec p.acceptedLink := by
  intro hh
  cases hc.exclusive _ (.inRequest p) .everywhere ⟨hp, hs, rfl⟩ (.inr hh)

end Custody

/-! ## One call -/

variable [DecidableEq τ] {w w' : World} {rec : τ → LinkRecord} {c : Call} {a : Int} {u : τ}

/-- The entries of the other threads are what they were. -/
theorem forall_entries {α : Type} {f : LinkRecord → List α} {Q : α → Prop} {g : LinkRecord}
    (hQ : ∀ v, ∀ x ∈ f (rec v), Q x) (hnew : ∀ x ∈ f g, Q x) :
    ∀ v, ∀ x ∈ f (Function.update rec u g v), Q x := by
  intro v x hx
  by_cases hv : v = u
  · subst hv
    rw [Function.update_self] at hx
    exact hnew x hx
  · rw [Function.update_of_ne hv] at hx
    exact hQ v x hx

omit [DecidableEq τ] in
/-- The answers of the calls of a job are ones that can be got. -/
theorem Custody.ok (hc : Custody w rec) (hw : w.answer c a = some w') : (rec u).Ok c a := by
  cases c with
  | objrefr h =>
      intro hh
      by_contra hneg
      obtain ⟨o, ho, hopen⟩ := hc.held_open u h hh
      have hclosed := World.answer_refused (.inl rfl) (by omega) hw o ho
      rw [hopen] at hclosed
      cases hclosed
  | ncb h x =>
      cases x with
      | proto =>
          intro hh
          obtain ⟨o, ho, htcp⟩ := hc.tcp u h hh
          rw [World.answer_proto ho hw, htcp]
      | _ => trivial
  | _ => trivial

/-- **One call keeps the facts.** By what it does to the object of the link, and to the requests. -/
theorem Facts.call (hf : Facts w rec) (hw : w.answer c a = some w') (hn : (rec u).Need c)
    (hheld : ∀ h ∈ (rec u).held, ∃ o, w.obj h = some o) :
    Facts w' (Function.update rec u ((rec u).after c a)) := by
  -- objects keep what the facts say of them, call after call
  have hkin : ∀ {h : Int} {P : Obj → Prop}, (∀ {o o'}, World.Keeps c h o o' → P o → P o') →
      (∃ o, w.obj h = some o ∧ P o) → ∃ o, w'.obj h = some o ∧ P o := by
    rintro h P hP ⟨o, ho, hPo⟩
    obtain ⟨o', ho', hk⟩ := World.answer_keeps hw ho
    exact ⟨o', ho', hP hk hPo⟩
  have hthere : ∀ {h : Int}, (∃ o, w.obj h = some o) → ∃ o, w'.obj h = some o := by
    rintro h ⟨o, ho⟩
    obtain ⟨o', ho', -⟩ := World.answer_keeps hw ho
    exact ⟨o', ho'⟩
  have hproto : ∀ {h : Int} {proto : ProtoType}, (∃ o, w.obj h = some o ∧ o.proto = proto) →
      ∃ o, w'.obj h = some o ∧ o.proto = proto :=
    fun h => hkin (fun hk hp => hk.kin.proto.trans hp) h
  have hcallback : ∀ {h : Int}, (∃ o, w.obj h = some o ∧ o.callback = true) →
      ∃ o, w'.obj h = some o ∧ o.callback = true :=
    fun h => hkin (fun hk hp => hk.callback hp) h
  -- the requests are those of before, and the one the system may just have taken
  have hposted : ∀ p ∈ w'.posted, p ∈ w.posted ∨ c = .post p := by
    intro p hp
    rcases World.answer_posted hw with ⟨q, hc, -, hq⟩ | ⟨hq, -⟩
    · rw [hq] at hp
      rcases List.mem_cons.mp hp with rfl | hp
      · exact .inr hc
      · exact .inl hp
    · rw [hq] at hp
      exact .inl hp
  -- what a record holds is from before, or is what this call has put there
  have hold : ∀ {α : Type} {f : LinkRecord → List α} {Q : α → Prop},
      (∀ v, ∀ x ∈ f (rec v), Q x) → (∀ x ∈ f ((rec u).after c a), x ∈ f (rec u) ∨ Q x) →
      ∀ v, ∀ x ∈ f (Function.update rec u ((rec u).after c a) v), Q x :=
    fun hQ hnew => forall_entries hQ fun x hx => (hnew x hx).elim (hQ u x) id
  constructor
  case negative =>
    intro h hneg
    by_contra hsome
    obtain ⟨o, ho⟩ := Option.ne_none_iff_exists'.mp hsome
    obtain ⟨-, -, -, ha, rfl, -⟩ := World.answer_made hw (hf.negative h hneg) ho
    omega
  case granted =>
    refine hold (fun v h hh => hthere (hf.granted v h hh)) fun h hh => ?_
    rcases LinkRecord.granted_after hh with hh | ⟨rfl, ha⟩
    · exact .inl hh
    · exact .inr (hthere (World.answer_granted (.inl rfl) ha hw))
  -- the kind of a link is known from its allocation, or was read from a granted link
  case tcp =>
    refine hold (fun v h hh => hproto (hf.tcp v h hh)) fun h hh => ?_
    rcases LinkRecord.tcp_after hh with hh | ⟨remote, rfl, ha, rfl⟩ | ⟨rfl, ha, hh⟩
    · exact .inl hh
    · exact .inr ⟨_, (World.answer_allo ha hw).2, rfl⟩
    · obtain ⟨o, ho⟩ := hf.granted u h hh
      exact .inr (hproto ⟨o, ho, ProtoType.code_inj ((World.answer_proto ho hw).symm.trans ha)⟩)
  -- only the job that has a link in hand sets its callback
  case ready =>
    refine hold (fun v h hh => hcallback (hf.ready v h hh)) fun h hh => ?_
    rcases LinkRecord.ready_after hh with hh | rfl
    · exact .inl hh
    · obtain ⟨o, ho⟩ := hheld h hn
      exact .inr (World.answer_setCallback ho hw)
  case made =>
    have hmade : ∀ v, ∀ x ∈ (Function.update rec u ((rec u).after c a) v).made,
        ∃ o, w'.obj x.1 = some o ∧ o.proto = x.2.1 ∧ o.remote = x.2.2 := by
      refine hold (fun v x hx => ?_) fun x hx => ?_
      · exact hkin (fun hk hp => ⟨hk.kin.proto.trans hp.1, hk.kin.remote.trans hp.2⟩)
          (hf.made v _ _ _ hx)
      · rcases LinkRecord.made_after hx with hx | ⟨rfl, ha, rfl⟩
        · exact .inl hx
        · exact .inr ⟨_, (World.answer_allo ha hw).2, rfl, rfl⟩
    exact fun v h proto remote hm => hmade v _ hm
  case listener =>
    intro p hp hs
    rcases hposted p hp with hp | rfl
    · exact hproto (hf.listener p hp hs)
    · simp only [LinkRecord.Need, if_pos hs] at hn
      exact hproto (hf.tcp u _ hn.2.2.1)
  -- an accept request is made for a TCP link whose callback is set
  case accepted =>
    intro p hp hs
    refine hkin (fun hk hp => ⟨hk.kin.proto.trans hp.1, hk.callback hp.2⟩) ?_
    rcases hposted p hp with hp | rfl
    · exact hf.accepted p hp hs
    · simp only [LinkRecord.Need, if_pos hs] at hn
      obtain ⟨-, -, -, -, htcp, hready⟩ := hn
      obtain ⟨o, ho, hotcp⟩ := hf.tcp u _ htcp
      obtain ⟨o', ho', hcb⟩ := hf.ready u _ hready
      rw [ho] at ho'
      cases ho'
      exact ⟨o, ho, hotcp, hcb⟩

/-! ## Ownership -/

/-- How a call of thread `u` moves a handle. -/
inductive Moves (c : Call) (a : Int) (u : τ) : Place τ → Place τ → Int → Prop where
  | allo {h : Int} {proto : ProtoType} {remote : Bool} (hc : c = .objallo proto remote)
      (ha : 0 ≤ a) (hh : a = h) : Moves c a u .unused (.inHand u) h
  | request {h : Int} {p : IoPacket} (hc : c = .post p) (ha : 0 ≤ a) (hs : p.IsSyn)
      (hh : p.acceptedLink = h) : Moves c a u (.inHand u) (.inRequest p) h
  | post {h : Int} {p : IoPacket} (hc : c = .post p) (ha : 0 ≤ a) (hs : ¬ p.IsSyn)
      (hh : p.link = h) : Moves c a u (.inHand u) .everywhere h
  | accepted {l h : Int} (hc : c = .emit (.accepted l h)) :
      Moves c a u (.inHand u) .everywhere h

/-- A handle the others come to use through a call was in hand. -/
theorem shared_after (hw : w.answer c a = some w') (hn : (rec u).Need c) {h : Int}
    (hs : Shared w' (Function.update rec u ((rec u).after c a)) h) :
    Shared w rec h ∨ h ∈ (rec u).held ∧ Moves c a u (.inHand u) .everywhere h := by
  have hlink : ∀ {h : Int}, (rec u).link = some h → Shared w rec h :=
    fun h => .inr (.inr ⟨u, .inl h⟩)
  have htold : ∀ {h : Int}, h ∈ (rec u).told → Shared w rec h :=
    fun h => .inr (.inr ⟨u, .inr h⟩)
  -- a request on a link that is in hand gives the link away
  have hpost : ∀ p, c = .post p → 0 ≤ a →
      Shared w rec p.link ∨ p.link ∈ (rec u).held ∧ Moves c a u (.inHand u) .everywhere p.link := by
    rintro p rfl ha
    simp only [LinkRecord.Need] at hn
    split at hn
    next hsyn => exact .inl (hlink hn.2.1)
    next hsyn =>
      rcases hn with hn | hn | ⟨hn, -, -⟩
      · exact .inl (hlink hn)
      · exact .inl (htold hn)
      · exact .inr ⟨hn, .post rfl ha hsyn rfl⟩
  -- the user gets to know it, the system gets a request on it, or a job is told of it
  rcases hs with hknown | ⟨p, hp, rfl⟩ | ⟨v, hv⟩
  · obtain ⟨new, htells, -, hnew⟩ := World.answer_notices hw
    rw [hnew] at hknown
    rcases List.mem_append.mp hknown with hm | hm
    · cases htells with
      | nothing => cases hm
      | closing =>
          rw [World.closing] at hm
          split at hm <;> cases hm
      | @event n o hc ho hcb hg =>
          subst hc
          cases n with
          | accepted l h' =>
              obtain rfl : h = h' := by simpa [Notice.gives] using hm
              exact .inr ⟨hn.2.2.1, .accepted rfl⟩
          | _ => cases hm <;> cases hn
    · exact .inl (.inl hm)
  · rcases World.answer_posted hw with ⟨q, hc, ha, hq⟩ | ⟨hq, -⟩
    · rw [hq] at hp
      rcases List.mem_cons.mp hp with rfl | hp
      · exact hpost p hc ha
      · exact .inl (.inr (.inl ⟨p, hp, rfl⟩))
    · rw [hq] at hp
      exact .inl (.inr (.inl ⟨p, hp, rfl⟩))
  · by_cases hvu : v = u
    · subst hvu
      rw [Function.update_self] at hv
      rcases hv with hv | hv
      · exact .inl (hlink hv)
      · rcases LinkRecord.told_after hv with hv | ⟨p, hc, ha, -, rfl⟩ | ⟨l, rfl⟩
        · exact .inl (htold hv)
        · exact hpost p hc ha
        · exact .inr ⟨hn.2.2.1, .accepted rfl⟩
    · rw [Function.update_of_ne hvu] at hv
      exact .inl (.inr (.inr ⟨v, hv⟩))

omit [DecidableEq τ] in
/-- What moves is no longer where it was. -/
theorem Custody.held_left (hc : Custody w rec) {h : Int} {y : Place τ}
    (hm : Moves c a u (.inHand u) y h) : h ∉ ((rec u).after c a).held := by
  have honce := hc.held_once u h
  have herase : h ∉ (rec u).held.erase h := by
    intro hmem
    have := List.count_erase_self (a := h) (l := (rec u).held)
    have := List.count_pos_iff.mpr hmem
    omega
  generalize hx : Place.inHand u = x at hm
  cases hm with
  | allo => cases hx
  | request hcall ha hs hh =>
      subst hcall hh
      simpa [LinkRecord.after, show ¬ a < 0 by omega, hs] using herase
  | post hcall ha hs hh =>
      subst hcall hh
      simpa [LinkRecord.after, show ¬ a < 0 by omega, hs] using herase
  | accepted hcall =>
      subst hcall
      exact herase

/-- One call leaves every link in one place: it moves one, and that was claimed by its job alone. -/
theorem Custody.exclusive_call (hc : Custody w rec) (hw : w.answer c a = some w')
    (hn : (rec u).Need c) :
    Exclusive (Claims w' (Function.update rec u ((rec u).after c a))) := by
  refine hc.exclusive.moves (M := Moves c a u) ?_ ?_ ?_
  · intro y h hy
    -- who claims a handle after the call did so before, or got it by a move
    cases y with
    | unused =>
        obtain ⟨hpos, hnone⟩ := hy
        refine .inl ⟨hpos, ?_⟩
        by_contra hsome
        obtain ⟨o, ho⟩ := Option.ne_none_iff_exists'.mp hsome
        obtain ⟨o', ho', -⟩ := World.answer_keeps hw ho
        rw [hnone] at ho'
        cases ho'
    | everywhere =>
        rcases hy with hneg | hs
        · exact .inl (.inl hneg)
        · exact (shared_after hw hn hs).imp .inr fun ⟨hh, hm⟩ => ⟨_, hm, hh⟩
    | inHand v =>
        replace hy : h ∈ (Function.update rec u ((rec u).after c a) v).held := hy
        by_cases hv : v = u
        · subst hv
          rw [Function.update_self] at hy
          rcases LinkRecord.held_after hy with hy | ⟨proto, remote, rfl, ha, rfl⟩
          · exact .inl hy
          · exact .inr ⟨_, .allo rfl ha rfl, ha, (World.answer_allo ha hw).1⟩
        · rw [Function.update_of_ne hv] at hy
          exact .inl hy
    | inRequest p =>
        obtain ⟨hp, hs, rfl⟩ := hy
        rcases World.answer_posted hw with ⟨q, rfl, ha, hq⟩ | ⟨hq, -⟩
        · rw [hq] at hp
          rcases List.mem_cons.mp hp with rfl | hp
          · simp only [LinkRecord.Need, if_pos hs] at hn
            exact .inr ⟨_, .request rfl ha hs rfl, hn.2.2.2.1⟩
          · exact .inl ⟨hp, hs, rfl⟩
        · rw [hq] at hp
          exact .inl ⟨hp, hs, rfl⟩
  · intro x y h hm hx
    -- and where it came from nobody claims it any more
    by_cases hxu : x = .inHand u
    · subst hxu
      replace hx : h ∈ (Function.update rec u ((rec u).after c a) u).held := hx
      rw [Function.update_self] at hx
      exact hc.held_left hm hx
    · cases hm with
      | allo hcall ha hh =>
          subst hcall hh
          obtain ⟨-, hnone⟩ := hx
          rw [(World.answer_allo ha hw).2] at hnone
          cases hnone
      | _ => exact hxu rfl
  · intro x x' y y' h hm hm'
    cases hm <;> cases hm' <;> simp_all

omit [DecidableEq τ] in
/-- A listener is known to the user, and has a callback to announce a link. -/
theorem Custody.announced (hc : Custody w rec) {l h : Int}
    (hw : w.answer (.emit (.accepted l h)) a = some w')
    (hn : (rec u).Need (.emit (.accepted l h))) : w' = w.note (.accepted l h) := by
  obtain ⟨hl, hltcp, -⟩ := hn
  obtain ⟨ol, hol, -⟩ := hc.tcp u l hltcp
  obtain ⟨ol', hol', hlcb, -⟩ := hc.shared l (hc.nonneg hol) (.inr (.inr ⟨u, .inl hl⟩))
  simp only [World.answer, World.tell, Notice.link, hol', hlcb, if_true, Option.some.injEq] at hw
  exact hw.symm

omit [DecidableEq τ] in
/-- What a call closes is known to all, or in hand of its job. -/
theorem closes_cases (hn : (rec u).Need c) {h : Int} (hcl : c.closes = some h) :
    Shared w rec h ∨ c = .objclos h ∧ h ∈ (rec u).held := by
  cases c <;> simp only [Call.closes, Option.some.injEq, reduceCtorEq] at hcl
  next =>
    subst hcl
    exact .inl (.inr (.inr ⟨u, .inl hn⟩))
  next =>
    subst hcl
    rcases hn with ⟨hh, -⟩ | hh | hh
    · exact .inr ⟨rfl, hh⟩
    · exact .inl (.inr (.inr ⟨u, .inr hh⟩))
    · exact .inl (.inr (.inr ⟨u, .inl hh⟩))

/-- **One call keeps the custody.** -/
theorem Custody.call (hc : Custody w rec) (hw : w.answer c a = some w') (hn : (rec u).Need c) :
    Custody w' (Function.update rec u ((rec u).after c a)) := by
  -- what the call does not close stays open
  have hopen : ∀ {h : Int}, c.closes ≠ some h → (∃ o, w.obj h = some o ∧ o.closed = false) →
      ∃ o, w'.obj h = some o ∧ o.closed = false := by
    rintro h hcl ⟨o, ho, hopen⟩
    obtain ⟨o', ho', hk⟩ := World.answer_keeps hw ho
    exact ⟨o', ho', (hk.opened hcl).trans hopen⟩
  have hfacts := hc.toFacts.call hw hn fun h hh => (hc.held_open u h hh).imp fun _ ho => ho.1
  have hexcl := hc.exclusive_call hw hn
  constructor
  case toFacts => exact hfacts
  case exclusive => exact hexcl
  case held_once =>
    intro v h
    by_cases hv : v = u
    · subst hv
      rw [Function.update_self]
      have honce := hc.held_once v h
      rcases (LinkRecord.held_shape (g := rec v) (c := c) (a := a)) with
        hheld | ⟨k, hheld⟩ | ⟨proto, remote, rfl, ha, hheld⟩ <;> rw [hheld]
      · exact honce
      · exact (List.erase_sublist.count_le h).trans honce
      · -- memory is handed out once
        rw [List.count_cons]
        split
        next heq =>
          obtain rfl : a = h := by simpa using heq
          have hfree := (World.answer_allo ha hw).1
          have hout : a ∉ (rec v).held := by
            intro hmem
            obtain ⟨o, ho, -⟩ := hc.held_open v a hmem
            rw [hfree] at ho
            cases ho
          rw [List.count_eq_zero_of_not_mem hout]
        · exact honce
    · rw [Function.update_of_ne hv]
      exact hc.held_once v h
  -- a request is posted with a link in hand, so it is not posted yet
  case posted_once =>
    intro p hs
    have honce := hc.posted_once p hs
    rcases World.answer_posted hw with ⟨q, rfl, ha, hq⟩ | ⟨hq, -⟩ <;> rw [hq]
    · rw [List.count_cons]
      split
      next heq =>
        obtain rfl : q = p := by simpa using heq
        simp only [LinkRecord.Need, if_pos hs] at hn
        have hout : q ∉ w.posted := fun hmem => hc.not_requested hmem hs hn.2.2.2.1
        rw [List.count_eq_zero_of_not_mem hout]
      · exact honce
    · exact honce
  case held_open =>
    intro v h hh
    by_cases hv : v = u
    · subst hv
      have hleft := hh
      rw [Function.update_self] at hh
      rcases LinkRecord.held_after hh with hold | ⟨proto, remote, rfl, ha, rfl⟩
      · refine hopen (fun hcl => ?_) (hc.held_open v h hold)
        rcases closes_cases (w := w) hn hcl with hs | ⟨rfl, -⟩
        · exact hc.not_shared hold hs
        · have honce := hc.held_once v h
          have hcount := List.count_erase_self (a := h) (l := (rec v).held)
          have hmem : 0 < ((rec v).held.erase h).count h := List.count_pos_iff.mpr hh
          omega
      · exact ⟨_, (World.answer_allo ha hw).2, rfl⟩
    · rw [Function.update_of_ne hv] at hh
      -- another thread has none of the links that this one may close
      refine hopen (fun hcl => ?_) (hc.held_open v h hh)
      rcases closes_cases (w := w) hn hcl with hs | ⟨-, hu⟩
      · exact hc.not_shared hh hs
      · exact hv (hc.held_apart hh hu)
  case posted_open =>
    intro p hp hs
    rcases World.answer_posted hw with ⟨q, rfl, ha, hq⟩ | ⟨hq, -⟩ <;> rw [hq] at hp
    · rcases List.mem_cons.mp hp with rfl | hp
      · simp only [LinkRecord.Need, if_pos hs] at hn
        exact hopen (fun h => by cases h) (hc.held_open u _ hn.2.2.2.1)
      · exact hopen (fun h => by cases h) (hc.posted_open p hp hs)
    · refine hopen (fun hcl => ?_) (hc.posted_open p hp hs)
      rcases closes_cases (w := w) hn hcl with hsh | ⟨-, hu⟩
      · exact hc.request_private hp hs hsh
      · exact hc.not_requested hp hs hu
  case shared =>
    intro h hpos hs
    obtain ⟨new, -, -, hknown⟩ := World.answer_notices hw
    have hready : ∀ {h : Int}, h ∈ (rec u).ready → ∃ o, w'.obj h = some o ∧ o.callback = true := by
      intro h hr
      obtain ⟨o, ho, hcb⟩ := hc.ready u h hr
      obtain ⟨o', ho', hk⟩ := World.answer_keeps hw ho
      exact ⟨o', ho', hk.callback hcb⟩
    -- either it was known before, or the call has made it known
    rcases shared_after hw hn hs with hs | ⟨hh, hm⟩
    · obtain ⟨o, ho, hcb, htcp⟩ := hc.shared h hpos hs
      obtain ⟨o', ho', hk⟩ := World.answer_keeps hw ho
      refine ⟨o', ho', hk.callback hcb, fun hp => ?_⟩
      rw [hknown]
      exact List.mem_append_right _ (htcp (hk.kin.proto.symm.trans hp))
    generalize hx : Place.inHand u = x at hm
    generalize hy : Place.everywhere = y at hm
    cases hm with
    | allo => cases hx
    | request => cases hy
    | @post _ p hcall ha hsyn hp =>
        subst hcall hp
        simp only [LinkRecord.Need, if_neg hsyn] at hn
        have hudp := hn.resolve_left fun hl =>
          hc.not_shared hh (.inr (.inr ⟨u, .inl hl⟩))
        obtain ⟨-, hr, hmade⟩ := hudp.resolve_left fun ht =>
          hc.not_shared hh (.inr (.inr ⟨u, .inr ht⟩))
        obtain ⟨o, ho, hcb⟩ := hready hr
        obtain ⟨o₀, ho₀, hudp, -⟩ := hc.made u _ _ _ hmade
        obtain ⟨o', ho', hk⟩ := World.answer_keeps hw ho₀
        rw [ho] at ho'
        cases ho'
        refine ⟨o, ho, hcb, fun htcp => ?_⟩
        rw [hk.kin.proto, hudp] at htcp
        cases htcp
    | @accepted l _ hcall =>
        subst hcall
        obtain ⟨hl, hltcp, -, hr⟩ := hn
        obtain ⟨o, ho, hcb⟩ := hready hr
        refine ⟨o, ho, hcb, fun _ => ?_⟩
        rw [hc.announced hw ⟨hl, hltcp, hh, hr⟩]
        exact List.mem_cons_self

/-! ## The start of a job -/

omit [DecidableEq τ] in
/-- A job posts nothing at its start. -/
theorem posted_of_start {j : Job} (hs : World.Started w w' j) {p : IoPacket} (hp : p ∈ w'.posted) :
    p ∈ w.posted := by
  cases j with
  | user c => rwa [← (hs.user c rfl).1]
  | completion q status transfer turns irp =>
      rw [(hs.completion _ _ _ _ _ rfl).2.2.1] at hp
      exact List.mem_of_mem_erase hp

omit [DecidableEq τ] in
/-- The objects stay what they are, but for the peer of an accepted link. -/
theorem obj_of_start {j : Job} (hs : World.Started w w' j) {h : Int} {P : Obj → Prop}
    (hP : ∀ o peer, P o → P { o with peer := peer }) (ho : ∃ o, w.obj h = some o ∧ P o) :
    ∃ o, w'.obj h = some o ∧ P o := by
  obtain ⟨o, ho, hPo⟩ := ho
  rcases hs.same h with ⟨hn, -⟩ | ⟨o', peer, ho', hw'⟩
  · rw [ho] at hn
    cases hn
  · rw [ho] at ho'
    cases ho'
    exact ⟨_, hw', hP o peer hPo⟩

/-- **The start of a job keeps the facts**: the dispatch of an accept takes the link of its
request. -/
theorem Facts.start {j : Job} (hf : Facts w rec) (hs : World.Started w w' j) :
    Facts w' (Function.update rec u (.start j)) := by
  have htcp : ∀ {h : Int}, (∃ o, w.obj h = some o ∧ o.proto = .tcp) →
      ∃ o, w'.obj h = some o ∧ o.proto = .tcp := obj_of_start hs fun _ _ => id
  -- what an accept completion brings is known from its request
  have hsyn : ∀ p status transfer turns irp, j = .completion p status transfer turns irp →
      p.IsSyn → (∃ o, w'.obj p.link = some o ∧ o.proto = .tcp)
        ∧ ∃ o, w'.obj p.acceptedLink = some o ∧ o.proto = .tcp ∧ o.callback = true := by
    intro p status transfer turns irp hj hp
    have hmem := (hs.completion _ _ _ _ _ hj).1
    exact ⟨htcp (hf.listener p hmem hp), obj_of_start hs (fun _ _ => id) (hf.accepted p hmem hp)⟩
  constructor
  case negative =>
    intro h hneg
    rcases hs.same h with ⟨-, hn⟩ | ⟨o, peer, ho, -⟩
    · exact hn
    · rw [hf.negative h hneg] at ho
      cases ho
  case granted =>
    refine forall_entries (fun v h hh => ?_) fun h hh => ?_
    · obtain ⟨o, ho⟩ := hf.granted v h hh
      exact (obj_of_start (P := fun _ => True) hs (fun _ _ => id) ⟨o, ho, trivial⟩).imp
        fun _ h => h.1
    · rcases start_cases j with ⟨p, status, transfer, turns, irp, -, -, hg⟩ | ⟨-, accepts, hg⟩ <;>
      · rw [hg] at hh
        cases hh
  case tcp =>
    refine forall_entries (fun v h hh => htcp (hf.tcp v h hh)) fun h hh => ?_
    rcases start_cases j with ⟨p, status, transfer, turns, irp, hj, hp, hg⟩ | ⟨-, accepts, hg⟩
    · obtain ⟨hl, ho⟩ := hsyn p status transfer turns irp hj hp
      rw [hg] at hh
      simp only [List.mem_cons, List.not_mem_nil, or_false] at hh
      rcases hh with rfl | rfl
      · exact hl
      · exact ho.imp fun _ h => ⟨h.1, h.2.1⟩
    · rw [hg] at hh
      cases hh
  case ready =>
    refine forall_entries (fun v h hh => obj_of_start hs (fun _ _ => id) (hf.ready v h hh))
      fun h hh => ?_
    rcases start_cases j with ⟨p, status, transfer, turns, irp, hj, hp, hg⟩ | ⟨-, accepts, hg⟩
    · obtain ⟨-, ho⟩ := hsyn p status transfer turns irp hj hp
      rw [hg] at hh
      obtain rfl := List.mem_singleton.mp hh
      exact ho.imp fun _ h => ⟨h.1, h.2.2⟩
    · rw [hg] at hh
      cases hh
  case made =>
    have hmade : ∀ v, ∀ x ∈ (Function.update rec u (.start j) v).made,
        ∃ o, w'.obj x.1 = some o ∧ o.proto = x.2.1 ∧ o.remote = x.2.2 := by
      refine forall_entries (fun v x hx => obj_of_start hs (fun _ _ => id) (hf.made v _ _ _ hx))
        fun x hx => ?_
      rcases start_cases j with ⟨p, status, transfer, turns, irp, -, -, hg⟩ | ⟨-, accepts, hg⟩ <;>
      · rw [hg] at hx
        cases hx
    exact fun v h proto remote hm => hmade v _ hm
  case listener =>
    exact fun p hp hps => htcp (hf.listener p (posted_of_start hs hp) hps)
  case accepted =>
    exact fun p hp hps => obj_of_start hs (fun _ _ => id)
      (hf.accepted p (posted_of_start hs hp) hps)

/-- A job starts on a handle that others may use. -/
theorem shared_of_start {j : Job} (hs : World.Started w w' j) {h : Int}
    (hsh : Shared w' (Function.update rec u (.start j)) h) : h < 0 ∨ Shared w rec h := by
  rcases hsh with hk | ⟨p, hp, rfl⟩ | ⟨v, hv⟩
  · rw [hs.known] at hk
    exact .inr (.inl hk)
  · exact .inr (.inr (.inl ⟨p, posted_of_start hs hp, rfl⟩))
  by_cases hvu : v = u
  · subst hvu
    rw [Function.update_self] at hv
    have htold : (LinkRecord.start j).told = [] := by
      rcases start_cases j with ⟨p, status, transfer, turns, irp, -, -, hg⟩ | ⟨-, accepts, hg⟩ <;>
        rw [hg] <;> rfl
    rw [start_link, htold] at hv
    have hl := hv.resolve_right nofun
    cases j with
    | user c => exact ((hs.user c rfl).2.2 h hl).imp_right .inl
    | completion p status transfer turns irp =>
        obtain rfl := Option.some.inj hl
        exact .inr (.inr (.inl ⟨p, (hs.completion _ _ _ _ _ rfl).1, rfl⟩))
  · rw [Function.update_of_ne hvu] at hv
    exact .inr (.inr (.inr ⟨v, hv⟩))

/-- It keeps the custody: the request is gone, and with it its claim. -/
theorem Custody.start {j : Job} (hc : Custody w rec) (hs : World.Started w w' j) :
    Custody w' (Function.update rec u (.start j)) := by
  have hunused : ∀ h, w'.obj h = none → w.obj h = none := by
    intro h hn
    rcases hs.same h with ⟨hn', -⟩ | ⟨o, peer, -, ho⟩
    · exact hn'
    · rw [hn] at ho
      cases ho
  -- a completed request is taken off the list, and none is added
  have hsub : ∀ p, w'.posted.count p ≤ w.posted.count p := by
    intro p
    cases j with
    | user c => rw [(hs.user c rfl).1]
    | completion q status transfer turns irp =>
        rw [(hs.completion _ _ _ _ _ rfl).2.2.1]
        exact List.erase_sublist.count_le p
  -- what it has in hand is the link of the completed request
  have hheld : ∀ h ∈ (LinkRecord.start j).held, ∃ p ∈ w.posted, p.IsSyn ∧ p.acceptedLink = h
      ∧ p ∉ w'.posted := by
    intro h hh
    rcases start_cases j with ⟨p, status, transfer, turns, irp, rfl, hp, hg⟩ | ⟨-, accepts, hg⟩
    · rw [hg] at hh
      obtain rfl := List.mem_singleton.mp hh
      obtain ⟨hmem, -, hposted, -⟩ := hs.completion _ _ _ _ _ rfl
      refine ⟨p, hmem, hp, rfl, fun hm => ?_⟩
      rw [hposted] at hm
      have honce := hc.posted_once p hp
      have hcount := List.count_erase_self (a := p) (l := w.posted)
      have hpos : 0 < (w.posted.erase p).count p := List.count_pos_iff.mpr hm
      omega
    · rw [hg] at hh
      cases hh
  have hrec : ∀ v h, h ∈ (Function.update rec u (.start j) v).held →
      h ∈ (rec v).held ∨ v = u ∧ h ∈ (LinkRecord.start j).held := by
    intro v h hh
    by_cases hv : v = u
    · subst hv
      rw [Function.update_self] at hh
      exact .inr ⟨rfl, hh⟩
    · rw [Function.update_of_ne hv] at hh
      exact .inl hh
  constructor
  case toFacts => exact hc.toFacts.start hs
  -- the link of the request goes from there to the thread
  case exclusive =>
    refine hc.exclusive.moves
      (M := fun x y h => (∃ p, x = .inRequest p ∧ p ∉ w'.posted) ∧ y = .inHand u) ?_ ?_ ?_
    · intro y h hy
      cases y with
      | unused => exact .inl ⟨hy.1, hunused h hy.2⟩
      | everywhere =>
          rcases hy with hneg | hsh
          · exact .inl (.inl hneg)
          · exact .inl (shared_of_start hs hsh)
      | inHand v =>
          rcases hrec v h hy with hold | ⟨rfl, hnew⟩
          · exact .inl hold
          · obtain ⟨p, hp, hps, hacc, hgone⟩ := hheld h hnew
            exact .inr ⟨.inRequest p, ⟨⟨p, rfl, hgone⟩, rfl⟩, hp, hps, hacc⟩
      | inRequest p => exact .inl ⟨posted_of_start hs hy.1, hy.2⟩
    · rintro _ _ h ⟨⟨p, rfl, hgone⟩, -⟩ hx
      exact hgone hx.1
    · rintro _ _ _ _ h ⟨-, rfl⟩ ⟨-, rfl⟩
      rfl
  case held_once =>
    intro v h
    by_cases hv : v = u
    · subst hv
      rw [Function.update_self]
      rcases start_cases j with ⟨p, status, transfer, turns, irp, -, -, hg⟩ | ⟨-, accepts, hg⟩
      · rw [hg]
        exact List.count_le_length
      · rw [hg]
        exact Nat.zero_le _
    · rw [Function.update_of_ne hv]
      exact hc.held_once v h
  case posted_once => exact fun p hp => (hsub p).trans (hc.posted_once p hp)
  case held_open =>
    intro v h hh
    refine obj_of_start hs (fun _ _ => id) ?_
    rcases hrec v h hh with hold | ⟨rfl, hnew⟩
    · exact hc.held_open v h hold
    · obtain ⟨p, hp, hps, rfl, -⟩ := hheld h hnew
      exact hc.posted_open p hp hps
  case posted_open =>
    intro p hp hps
    exact obj_of_start hs (fun _ _ => id) (hc.posted_open p (posted_of_start hs hp) hps)
  case shared =>
    intro h hpos hsh
    have hold := (shared_of_start hs hsh).resolve_left (by omega)
    rw [hs.known]
    exact obj_of_start hs (fun _ _ => id) (hc.shared h hpos hold)

/-! ## The end of a job -/

/-- **The end of a job keeps the facts**: what it returns, the user knows. -/
theorem Facts.finish {j : Job} {r : Int} (hf : Facts w rec) :
    Facts (w.finishJob j r) (Function.update rec u .blank) := by
  obtain ⟨hobj, hposted, -⟩ := World.finishJob_spec w j r
  refine ⟨?_, ?_, ?_, ?_, ?_, ?_, ?_⟩ <;> rw [hobj]
  · exact hf.negative
  · exact forall_entries hf.granted fun _ h => absurd h List.not_mem_nil
  · exact forall_entries hf.tcp fun _ h => absurd h List.not_mem_nil
  · exact forall_entries hf.ready fun _ h => absurd h List.not_mem_nil
  · have hmade : ∀ v, ∀ x ∈ (Function.update rec u LinkRecord.blank v).made,
        ∃ o, w.obj x.1 = some o ∧ o.proto = x.2.1 ∧ o.remote = x.2.2 :=
      forall_entries (fun v x hx => hf.made v _ _ _ hx) fun _ h => absurd h List.not_mem_nil
    exact fun v h proto remote hm => hmade v _ hm
  · rw [hposted]
    exact hf.listener
  · rw [hposted]
    exact hf.accepted

omit [DecidableEq τ] in
/-- The link a `create` call returns is set up, and in hand of the call unless others know it
already. -/
theorem created_of_post {j : Job} {r : Int} (hp : LinkRecord.Post j (rec u) r)
    (hj : (∃ b l, j = .user (.tcpCreate b l)) ∨ ∃ b l p c, j = .user (.udpCreate b l p c))
    (hr : 0 ≤ r) : r ∈ (rec u).ready ∧ (r ∈ (rec u).held ∨ r ∈ (rec u).told) := by
  rcases hj with ⟨b, l, rfl⟩ | ⟨b, l, p, c, rfl⟩ <;>
    simp only [LinkRecord.Post, if_neg (show ¬ r < 0 by omega)] at hp
  · exact ⟨hp.2.1, .inl (by simp [hp.1])⟩
  · exact ⟨hp.2.1, hp.1.imp (fun h => by simp [h]) fun h => h.2⟩

/-- It keeps the custody: nothing is left in hand, unless what was in hand was given up. -/
theorem Custody.finish {j : Job} {r : Int} (hc : Custody w rec) (hp : LinkRecord.Post j (rec u) r) :
    Custody (w.finishJob j r) (Function.update rec u .blank) := by
  obtain ⟨hobj, hposted, hknown⟩ := World.finishJob_spec w j r
  have hheld : ∀ v h, h ∈ (Function.update rec u LinkRecord.blank v).held →
      v ≠ u ∧ h ∈ (rec v).held := by
    intro v h hh
    by_cases hv : v = u
    · subst hv
      rw [Function.update_self] at hh
      cases hh
    · rw [Function.update_of_ne hv] at hh
      exact ⟨hv, hh⟩
  -- a `create` call makes the link in hand known; nothing else changes places
  have hshared : ∀ h, Shared (w.finishJob j r) (Function.update rec u LinkRecord.blank) h →
      Shared w rec h ∨ h ∈ (rec u).held ∧ h ∈ (rec u).ready ∧ h ∈ (w.finishJob j r).known := by
    intro h hs
    rcases hs with hk | ⟨p, hp, rfl⟩ | ⟨v, hv⟩
    · rcases hknown with ⟨hj, hr, hnew, -⟩ | ⟨hsame, -⟩
      · obtain ⟨hready, hr⟩ := created_of_post hp hj hr
        have hk' := hk
        rw [hnew] at hk'
        rcases List.mem_cons.mp hk' with rfl | hk'
        · rcases hr with hr | hr
          · exact .inr ⟨hr, hready, hk⟩
          · exact .inl (.inr (.inr ⟨u, .inr hr⟩))
        · exact .inl (.inl hk')
      · rw [hsame] at hk
        exact .inl (.inl hk)
    · rw [hposted] at hp
      exact .inl (.inr (.inl ⟨p, hp, rfl⟩))
    · by_cases hvu : v = u
      · subst hvu
        rw [Function.update_self] at hv
        rcases hv with hv | hv <;> cases hv
      · rw [Function.update_of_ne hvu] at hv
        exact .inl (.inr (.inr ⟨v, hv⟩))
  constructor
  case toFacts => exact hc.toFacts.finish
  -- what was in hand is known to all now
  case exclusive =>
    refine hc.exclusive.moves (M := fun x y _ => x = .inHand u ∧ y = .everywhere) ?_ ?_ ?_
    · intro y h hy
      cases y with
      | unused =>
          obtain ⟨hpos, hn⟩ := hy
          rw [hobj] at hn
          exact .inl ⟨hpos, hn⟩
      | everywhere =>
          rcases hy with hneg | hs
          · exact .inl (.inl hneg)
          · exact (hshared h hs).imp .inr fun hm => ⟨_, ⟨rfl, rfl⟩, hm.1⟩
      | inHand v => exact .inl (hheld v h hy).2
      | inRequest p =>
          obtain ⟨hp, hps⟩ := hy
          rw [hposted] at hp
          exact .inl ⟨hp, hps⟩
    · rintro _ _ h ⟨rfl, -⟩ hx
      exact (hheld u h hx).1 rfl
    · rintro _ _ _ _ h ⟨-, rfl⟩ ⟨-, rfl⟩
      rfl
  case held_once =>
    intro v h
    by_cases hv : v = u
    · subst hv
      rw [Function.update_self]
      exact Nat.zero_le _
    · rw [Function.update_of_ne hv]
      exact hc.held_once v h
  case posted_once =>
    rw [hposted]
    exact hc.posted_once
  case held_open =>
    intro v h hh
    rw [hobj]
    exact hc.held_open v h (hheld v h hh).2
  case posted_open =>
    rw [hposted, hobj]
    exact hc.posted_open
  case shared =>
    intro h hpos hs
    rw [hobj]
    rcases hshared h hs with hs | ⟨-, hready, hk⟩
    · obtain ⟨o, ho, hcb, htcp⟩ := hc.shared h hpos hs
      refine ⟨o, ho, hcb, fun hp => ?_⟩
      rcases hknown with ⟨-, -, hnew, -⟩ | ⟨hsame, -⟩
      · rw [hnew]
        exact List.mem_cons_of_mem _ (htcp hp)
      · rw [hsame]
        exact htcp hp
    · obtain ⟨o, ho, hcb⟩ := hc.ready u h hready
      exact ⟨o, ho, hcb, fun _ => hk⟩

/-! ## Every run -/

omit [DecidableEq τ] in
/-- Before the first call no link is known. -/
theorem not_shared_initial (h : Int) :
    ¬ Shared World.initial (fun _ : τ => LinkRecord.blank) h := by
  rintro (hk | ⟨p, hp, -⟩ | ⟨v, hv | hv⟩)
  · exact List.not_mem_nil hk
  · exact List.not_mem_nil hp
  · cases hv
  · exact List.not_mem_nil hv

omit [DecidableEq τ] in
/-- At first every handle is unused, and negative numbers are handles of nothing. -/
theorem claims_initial {x : Place τ} {h : Int}
    (hx : Claims World.initial (fun _ => LinkRecord.blank) x h) :
    x = .unused ∧ 0 ≤ h ∨ x = .everywhere ∧ h < 0 := by
  cases x with
  | unused => exact .inl ⟨rfl, hx.1⟩
  | everywhere => exact .inr ⟨rfl, hx.resolve_right (not_shared_initial h)⟩
  | inHand v => exact absurd hx List.not_mem_nil
  | inRequest p => exact absurd hx.1 List.not_mem_nil

omit [DecidableEq τ] in
/-- There are no links to begin with. -/
theorem custody_initial : Custody World.initial fun _ : τ => LinkRecord.blank where
  negative _ _ := rfl
  granted _ _ h := absurd h List.not_mem_nil
  tcp _ _ h := absurd h List.not_mem_nil
  ready _ _ h := absurd h List.not_mem_nil
  made _ _ _ _ h := absurd h List.not_mem_nil
  listener _ h := absurd h List.not_mem_nil
  accepted _ h := absurd h List.not_mem_nil
  exclusive h x y hx hy := by
    rcases claims_initial hx with ⟨rfl, hpos⟩ | ⟨rfl, hneg⟩ <;>
      rcases claims_initial hy with ⟨rfl, hpos'⟩ | ⟨rfl, hneg'⟩ <;> first | rfl | omega
  held_once _ _ := Nat.zero_le _
  posted_once _ _ := Nat.zero_le _
  held_open _ _ h := absurd h List.not_mem_nil
  posted_open _ h := absurd h List.not_mem_nil
  shared h _ hs := absurd hs (not_shared_initial h)

omit [DecidableEq τ] in
/-- An accept completion has a listener, and a link of its own to accept on. -/
theorem Custody.accepting (hc : Custody w rec) {p : IoPacket} (hp : p ∈ w.posted) (hs : p.IsSyn) :
    0 ≤ p.link ∧ 0 ≤ p.acceptedLink ∧ p.link ≠ p.acceptedLink := by
  obtain ⟨o, ho, -⟩ := hc.listener p hp hs
  obtain ⟨o', ho', -⟩ := hc.accepted p hp hs
  refine ⟨hc.nonneg ho, hc.nonneg ho', fun heq => hc.request_private hp hs ?_⟩
  rw [← heq]
  exact .inr (.inl ⟨p, hp, rfl⟩)

omit [DecidableEq τ] in
/-- A job that starts keeps to what it may do with links. -/
theorem Custody.job_links (hc : Custody w rec) {j : Job} (hw : w.startJob j = some w') :
    LinkRecord.Meets j.prog (.start j) (LinkRecord.Post j) :=
  Swnet.Sys.job_links fun p status transfer turns irp hj hp =>
    hc.accepting ((World.startJob_spec hw).completion p status transfer turns irp hj).1 hp

variable {G : SysGuard} {s : SysState τ}

/-- **Every link in one place.** In every run, every thread stays within the bounds of the
ledger of links. -/
theorem sys_custody (hr : SysReaches G s) :
    Custody s.world (s.records links) ∧ s.Meets links := by
  have hkept : Kept links system G (State.rest World.initial) (Custody (τ := τ)) := by
    constructor
    case env =>
      intro s e
      exact nomatch e
    case start =>
      intro s u j w hs hc hu hw hG
      exact ⟨hc.job_links hw, hc.start (World.startJob_spec hw)⟩
    case call =>
      intro s u j t c k a w hs hc hu hw hG hn
      exact ⟨hc.ok hw, hc.call hw hn⟩
    case finish =>
      intro s u j t r hs hc hu hp
      exact hc.finish hp
  exact hr.kept hkept custody_initial (State.meets_rest _)

end

end Swnet.Sys
