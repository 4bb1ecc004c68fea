import Swnet.Sys.References

/-!
# Swnet — reference counts

In every run, the references to an object are those its jobs hold, and those that were never
given back. Where none was forgotten, nobody holds a closed link once all jobs are done, and its
unload routine has run.

What one call does to the count of an object is said once (`answer_refs`), and what it does to the
references its job holds is on the record of `References`. The two change alike, so that the sum
over the jobs stays the count (`Counted`, kept by `call`, `start` and the end of a job, where what
the job has forgotten goes over to what was `leaked`).
-/

namespace Swnet.Sys

open Jobs Jobs.Prog

/-! ## One call -/

namespace World

variable {w w' : World} {c : Call} {a : Int}

/-- The references to the object of a handle. -/
def refs (w : World) (k : Int) : Nat :=
  match w.obj k with
  | some o => o.refs
  | none => 0

theorem refs_some {k : Int} {o : Obj} (ho : w.obj k = some o) : w.refs k = o.refs := by
  rw [refs, ho]

theorem refs_none {k : Int} (ho : w.obj k = none) : w.refs k = 0 := by
  rw [refs, ho]

/-- How a call changes the references to the object of `k`. -/
def refsAfter (c : Call) (a k : Int) (n : Nat) : Nat :=
  match c with
  | .objrefr h | .objreff h => if h = k ∧ 0 ≤ a then n + 1 else n
  | .objdefr h => if h = k then n - 1 else n
  | _ => n

/-- An object that is put in its place brings its count. -/
theorem refs_setObj (w : World) (h k : Int) (o : Obj) :
    (w.setObj h o).refs k = if h = k then o.refs else w.refs k := by
  unfold refs
  rw [setObj_obj]
  by_cases hk : h = k
  · subst hk
    rw [Function.update_self, if_pos rfl]
  · rw [Function.update_of_ne (Ne.symm hk), if_neg hk]

/-- The unload routine changes no count. -/
theorem refs_settle (w : World) (h k : Int) : (w.settle h).refs k = w.refs k := by
  by_cases hk : k = h
  · subst hk
    cases ho : w.obj k with
    | none => rw [settle_obj_none ho]
    | some o =>
        obtain ⟨o', ho', hhusk, -⟩ := settle_obj_self ho
        rw [refs_some ho', refs_some ho, hhusk.refs]
  · unfold refs
    rw [settle_obj_of_ne hk]

/-- **What a call does to a count.** One reference more or less, for the object of the call. -/
theorem answer_refs (h : w.answer c a = some w') (k : Int) :
    w'.refs k = refsAfter c a k (w.refs k) := by
  -- a change of an object that leaves its count alone
  have hsame : ∀ {l : Int} {o o₁ : Obj}, w.obj l = some o → o₁.refs = o.refs →
      (w.setObj l o₁).refs k = w.refs k := by
    intro l o o₁ ho h₁
    rw [refs_setObj]
    split
    next hl =>
      subst hl
      rw [h₁, refs_some ho]
    · rfl
  cases c with
  -- a new object has no references yet
  | objallo proto remote =>
      simp only [answer] at h
      split at h
      · cases h
        rfl
      · split at h
        next hnone =>
          cases h
          rw [refs_setObj]
          show _ = w.refs k
          split
          next hk =>
            subst hk
            exact (refs_none hnone).symm
          · rfl
        · cases h
  -- a reference that is granted is one more; a closed or missing object refuses
  | objrefr l =>
      simp only [answer] at h
      split at h
      · split at h
        · cases h
          simp [refsAfter, show ¬ 0 ≤ a by omega]
        · cases h
      next o ho =>
        split at h
        · split at h
          · cases h
            simp [refsAfter, show ¬ 0 ≤ a by omega]
          · cases h
        · split at h
          · cases h
            rw [refs_setObj, refsAfter]
            grind [refs_some]
          · cases h
  -- `objreff` grants the reference and closes the object: one more as well
  | objreff l =>
      simp only [answer] at h
      split at h
      · split at h
        · cases h
          simp [refsAfter, show ¬ 0 ≤ a by omega]
        · cases h
      next o ho =>
        split at h
        · split at h
          · cases h
            simp [refsAfter, show ¬ 0 ≤ a by omega]
          · cases h
        · split at h
          · cases h
          · cases h
            rw [refs_setObj, refsAfter]
            grind [refs_some]
  -- one less, and the unload that may follow leaves the count alone
  | objdefr l =>
      simp only [answer] at h
      split at h
      next ho =>
        cases h
        rw [refsAfter]
        split
        next hl =>
          subst hl
          rw [refs_none ho]
        · rfl
      next o ho =>
        cases h
        rw [refs_settle, refs_setObj, refsAfter]
        split
        next hl =>
          subst hl
          rw [refs_some ho]
        · rfl
  -- the remaining calls touch no count
  | objclos l =>
      simp only [answer] at h
      split at h
      · cases h
        rfl
      next o ho =>
        cases h
        rw [refs_settle]
        exact hsame ho rfl
  | ncb l x =>
      simp only [answer] at h
      split at h
      · cases h
        rfl
      next o ho =>
        obtain ⟨o', happly, rfl⟩ := Option.map_eq_some_iff.mp h
        exact hsame ho (Access.apply_spec happly).2.2.1
  | allocatePacket l proto type =>
      simp only [answer] at h
      split at h
      · cases h
        rfl
      · split at h
        · cases h
        · cases h
          rfl
  | freepkt p =>
      cases h
      rfl
  | post p =>
      simp only [answer, Option.some.injEq] at h
      subst h
      split <;> rfl
  | emit n =>
      cases h
      unfold refs
      rw [tell_obj]
      rfl
  | other x =>
      cases h
      rfl
  | stuck => cases h

/-- An object is unloaded when it is closed and nobody holds it, and no sooner. -/
def Tidy (w : World) : Prop :=
  ∀ h o, w.obj h = some o → (o.unloaded = true ↔ o.closed = true ∧ o.refs = 0)

theorem Tidy.call (ht : w.Tidy) (hw : w.answer c a = some w') : w'.Tidy := by
  intro k o' ho'
  have hstep := answer_obj hw k
  rw [ho'] at hstep
  generalize hx : w.obj k = x at hstep
  -- an object that was looked at for unloading
  have hset : ∀ {o₁ : Obj}, o₁.Settled o' → (o₁.unloaded = true → o₁.closed = true ∧ o₁.refs = 0) →
      (o'.unloaded = true ↔ o'.closed = true ∧ o'.refs = 0) := by
    intro o₁ hs h₁
    constructor
    · intro hu
      rw [hs.husk.closed, hs.husk.refs]
      exact (hs.loaded hu).elim h₁ id
    · exact fun h => hs.idle h.1 h.2
  cases hstep with
  | same => exact ht k o' hx
  | allo => simp [Obj.new]
  | @refer o hc ha ho =>
      have hiff := ht k o hx
      simp only [Obj.Referable] at ho
      constructor
      · intro hu
        obtain ⟨hclosed, hrefs⟩ := hiff.mp hu
        rw [hclosed, hrefs] at ho
        exact absurd ho (by decide)
      · exact fun h => absurd h.2 (Nat.succ_ne_zero _)
  | @reff o hc ha ho =>
      have hiff := ht k o hx
      constructor
      · intro hu
        rw [(hiff.mp hu).1] at ho
        cases ho
      · exact fun h => absurd h.2 (Nat.succ_ne_zero _)
  | @defr o _ hc hs =>
      refine hset hs fun hu => ?_
      obtain ⟨hclosed, hrefs⟩ := (ht k o hx).mp hu
      exact ⟨hclosed, by simp [hrefs]⟩
  | @clos o _ hc hs =>
      refine hset hs fun hu => ?_
      exact ⟨rfl, ((ht k o hx).mp hu).2⟩
  | @access o _ x hc hs =>
      obtain ⟨-, hclosed, hrefs, hunloaded⟩ := Access.apply_spec hs
      rw [hclosed, hrefs, hunloaded]
      exact ht k o hx

theorem Tidy.start {j : Job} (ht : w.Tidy) (hw : w.startJob j = some w') : w'.Tidy := by
  intro k o' ho'
  rcases (startJob_spec hw).same k with ⟨-, hnone⟩ | ⟨o, peer, ho, hpeer⟩
  · rw [hnone] at ho'
    cases ho'
  · rw [hpeer] at ho'
    cases ho'
    exact ht k o ho

end World

variable {τ : Type} [DecidableEq τ] {G : SysGuard} {s : SysState τ}

/-- In every run. -/
theorem sys_tidy (hr : SysReaches G s) : s.world.Tidy := by
  refine hr.world (I := World.Tidy) ?_ ?_ ?_ ?_ ?_
  · intro h o ho
    cases ho
  · intro s e
    exact nomatch e
  · intro s u j w hs ht hu hw
    exact ht.start hw
  · intro s u j t c k a w hs ht hu hw hG
    exact ht.call hw
  · intro s u j t r hs ht hu h o ho
    exact ht h o (by rw [← ho]; exact congrFun (World.finishJob_spec s.world j r).1.symm h)

/-! ## The references of a job -/

/-- The link of which a call asks for a reference. -/
def Call.refers : Call → Option Int
  | .objrefr h | .objreff h => some h
  | _ => none

/-- The references to `h` that the calls of a trace took. -/
def acquisitions (h : Int) (t : CallTrace) : Nat :=
  t.countP fun x => decide (x.1.refers = some h ∧ 0 ≤ x.2)

/-- The references to `h` that they released. -/
def releases (h : Int) (t : CallTrace) : Nat :=
  t.countP fun x => decide (x.1 = .objdefr h)

namespace RefRecord

theorem acquired_count (j : Job) (t : CallTrace) (h : Int) :
    (record after (start j) t).acquired.count h = acquisitions h t := by
  induction t with
  | nil => rfl
  | cons x t ih =>
      obtain ⟨c, a⟩ := x
      rw [record_cons, acquisitions, List.countP_cons, ← acquisitions, ← ih]
      cases c <;> simp only [after, Call.refers] <;> grind

theorem released_count (j : Job) (t : CallTrace) (h : Int) :
    (record after (start j) t).released.count h = releases h t := by
  induction t with
  | nil => rfl
  | cons x t ih =>
      obtain ⟨c, a⟩ := x
      rw [record_cons, releases, List.countP_cons, ← releases, ← ih]
      cases c <;> simp only [after] <;> grind

/-- What was allocated last is in hand. -/
theorem fresh_held {j : Job} {t : CallTrace} {h : Int}
    (hf : (record after (start j) t).fresh = some h) (hh : 0 ≤ h) :
    h ∈ (record LinkRecord.after (LinkRecord.start j) t).held := by
  cases t with
  | nil => cases hf
  | cons x t =>
      obtain ⟨c, a⟩ := x
      rw [record_cons] at hf ⊢
      cases c <;> simp only [after, reduceCtorEq, Option.some.injEq] at hf
      subst hf
      simp [LinkRecord.after, show ¬ a < 0 by omega]

/-- What a call does to the references that are held, and to those of the object. -/
theorem held_count {g : RefRecord} {c : Call} {a h : Int} {n : Nat} (hn : g.Need c)
    (hle : g.held.count h ≤ n) :
    World.refsAfter c a h n + g.held.count h = n + (g.after c a).held.count h := by
  cases c with
  | objrefr k | objreff k =>
      by_cases ha : a < 0
      · simp [World.refsAfter, ha, show ¬ 0 ≤ a by omega]
      · by_cases hk : k = h
        · simp [World.refsAfter, ha, hk, show 0 ≤ a by omega]
          omega
        · simp [World.refsAfter, ha, hk]
  | objdefr k =>
      by_cases hk : k = h
      · subst hk
        have hpos := List.count_pos_iff.mpr hn
        simp only [World.refsAfter, if_true, held_objdefr, List.count_erase_self]
        omega
      · simp [World.refsAfter, hk, List.count_erase_of_ne (Ne.symm hk)]
  | _ => simp [World.refsAfter]

/-- What is held was acquired and not released. -/
theorem balance_after {g : RefRecord} {c : Call} {a h : Int} (hn : g.Need c)
    (hb : g.held.count h + g.released.count h = g.acquired.count h) :
    (g.after c a).held.count h + (g.after c a).released.count h
      = (g.after c a).acquired.count h := by
  cases c with
  | objrefr k | objreff k =>
      by_cases ha : a < 0
      · simpa [after, ha] using hb
      · simp only [after, if_neg ha, List.count_cons]
        omega
  | objdefr k =>
      by_cases hk : k = h
      · subst hk
        have hpos := List.count_pos_iff.mpr hn
        simp only [after, List.count_erase_self, List.count_cons_self]
        omega
      · simpa [after, hk, List.count_erase_of_ne (Ne.symm hk)] using hb
  | _ => exact hb

end RefRecord

/-! ## The references of all jobs -/

section

variable [Fintype τ]

/-- The references to each object are those the jobs hold and those that were `leaked`, which
no job will release. What `objreff` was asked to close is closed. -/
structure Counted (w : World) (rec : τ → RefRecord) (leaked : Int → Nat) : Prop where
  refs : ∀ h, w.refs h = ∑ u, (rec u).held.count h + leaked h
  balance : ∀ u h, (rec u).held.count h + (rec u).released.count h = (rec u).acquired.count h
  shut : ∀ u, ∀ h ∈ (rec u).shut, 0 ≤ h → ∃ o, w.obj h = some o ∧ o.closed = true

namespace Counted

variable {w w' : World} {rec : τ → RefRecord} {leaked : Int → Nat} {c : Call} {a : Int} {u : τ}

omit [DecidableEq τ] in
/-- A job holds no more references than there are. -/
theorem held_le (hc : Counted w rec leaked) (u : τ) (h : Int) :
    (rec u).held.count h ≤ w.refs h := by
  have hone : (rec u).held.count h ≤ ∑ v, (rec v).held.count h :=
    Finset.single_le_sum (fun v _ => Nat.zero_le ((rec v).held.count h)) (Finset.mem_univ u)
  have hrefs := hc.refs h
  omega

omit [DecidableEq τ] in
/-- What a job holds is alive. -/
theorem alive (hc : Counted w rec leaked) {u : τ} {h : Int} (hh : h ∈ (rec u).held) :
    ∃ o, w.obj h = some o ∧ 0 < o.refs := by
  have hpos := List.count_pos_iff.mpr hh
  have hle := hc.held_le u h
  cases ho : w.obj h with
  | none =>
      rw [World.refs_none ho] at hle
      omega
  | some o =>
      rw [World.refs_some ho] at hle
      exact ⟨o, rfl, by omega⟩

omit [DecidableEq τ] in
/-- There is nothing to count to begin with. -/
theorem initial : Counted World.initial (fun _ : τ => RefRecord.blank) fun _ => 0 where
  refs h := by simp [World.refs, World.initial, RefRecord.blank]
  balance _ _ := rfl
  shut _ _ h := absurd h List.not_mem_nil

/-- **A call keeps the count**: what it takes or releases, its job holds or has held. -/
theorem call (hc : Counted w rec leaked) (hw : w.answer c a = some w') (hn : (rec u).Need c)
    (hthere : ∀ h, c = .objreff h → 0 ≤ h → ∃ o, w.obj h = some o) :
    Counted w' (Function.update rec u ((rec u).after c a)) leaked := by
  refine ⟨fun h => ?_, fun v h => ?_, ?_⟩
  · have hsum := sum_update (fun g : RefRecord => g.held.count h) rec u ((rec u).after c a)
    have hmove := RefRecord.held_count (a := a) hn (hc.held_le u h)
    have hrefs := hc.refs h
    rw [World.answer_refs hw h]
    omega
  · by_cases hv : v = u
    · subst hv
      rw [Function.update_self]
      exact RefRecord.balance_after hn (hc.balance v h)
    · rw [Function.update_of_ne hv]
      exact hc.balance v h
  · have hkeep : ∀ {h : Int}, (∃ o, w.obj h = some o ∧ o.closed = true) →
        ∃ o, w'.obj h = some o ∧ o.closed = true := by
      rintro h ⟨o, ho, hclosed⟩
      obtain ⟨o', ho', hk⟩ := World.answer_keeps hw ho
      exact ⟨o', ho', hk.closed hclosed⟩
    intro v h hh hpos
    by_cases hv : v = u
    · subst hv
      rw [Function.update_self] at hh
      -- asked for just now, or before
      have hnew : h ∈ (rec v).shut ∨ c = .objreff h := by
        cases c <;> simp only [RefRecord.after] at hh <;> grind
      rcases hnew with hold | rfl
      · exact hkeep (hc.shut v h hold hpos)
      · obtain ⟨o, ho⟩ := hthere h rfl hpos
        have hstep := World.answer_obj hw h
        rw [ho] at hstep
        by_cases ha : a < 0
        · exact hkeep ⟨o, ho, World.answer_refused (.inr rfl) ha hw o ho⟩
        · simp only [World.answer, ho, if_neg ha] at hw
          split at hw
          · cases hw
          · cases hw
            exact ⟨_, Function.update_self .., rfl⟩
    · rw [Function.update_of_ne hv] at hh
      exact hkeep (hc.shut v h hh hpos)

/-- **So does the start of a job**, which holds nothing. -/
theorem start {j : Job} (hc : Counted w rec leaked) (hw : w.startJob j = some w')
    (hu : rec u = .blank) : Counted w' (Function.update rec u (.start j)) leaked := by
  have hsame := (World.startJob_spec hw).same
  refine ⟨fun h => ?_, fun v h => ?_, fun v h hh hpos => ?_⟩
  · have hsum := sum_update (fun g : RefRecord => g.held.count h) rec u (.start j)
    have hrefs := hc.refs h
    have hobj : w'.refs h = w.refs h := by
      rcases hsame h with ⟨ho, ho'⟩ | ⟨o, peer, ho, ho'⟩
      · rw [World.refs_none ho, World.refs_none ho']
      · rw [World.refs_some ho, World.refs_some ho']
    rw [hu] at hsum
    simp only [RefRecord.start, RefRecord.blank] at hsum
    rw [hobj]
    simp only [RefRecord.start, RefRecord.blank]
    omega
  · by_cases hv : v = u
    · subst hv
      rw [Function.update_self]
      rfl
    · rw [Function.update_of_ne hv]
      exact hc.balance v h
  · by_cases hv : v = u
    · subst hv
      rw [Function.update_self] at hh
      exact absurd hh List.not_mem_nil
    · rw [Function.update_of_ne hv] at hh
      obtain ⟨o, ho, hclosed⟩ := hc.shut v h hh hpos
      rcases hsame h with ⟨hnone, -⟩ | ⟨o₁, peer, ho₁, ho'⟩
      · rw [hnone] at ho
        cases ho
      · rw [ho] at ho₁
        cases ho₁
        exact ⟨_, ho', hclosed⟩

/-- What a job still holds when it returns is held for good. -/
theorem finish {j : Job} {r : Int} (hc : Counted w rec leaked) :
    Counted (w.finishJob j r) (Function.update rec u .blank)
      fun h => leaked h + (rec u).held.count h := by
  have hobj := (World.finishJob_spec w j r).1
  refine ⟨fun h => ?_, fun v h => ?_, fun v h hh hpos => ?_⟩
  · have hsum := sum_update (fun g : RefRecord => g.held.count h) rec u .blank
    have hrefs := hc.refs h
    have hsame : (w.finishJob j r).refs h = w.refs h := by
      unfold World.refs
      rw [hobj]
    simp only [RefRecord.blank] at hsum
    rw [hsame]
    simp only [RefRecord.blank]
    simp only [List.count_nil] at hsum
    omega
  · by_cases hv : v = u
    · subst hv
      rw [Function.update_self]
      rfl
    · rw [Function.update_of_ne hv]
      exact hc.balance v h
  · rw [hobj]
    by_cases hv : v = u
    · subst hv
      rw [Function.update_self] at hh
      exact absurd hh List.not_mem_nil
    · rw [Function.update_of_ne hv] at hh
      exact hc.shut v h hh hpos

end Counted

/-- The runs kept to `G` forget no reference. -/
def NoneForgotten (G : SysGuard) : Prop :=
  ∀ w j t c a l, G.call w j t c a → j.forgets = some l → c.refers = some l → a < 0

/-- **The references to every object are accounted for.** -/
theorem sys_counted (hr : SysReaches G s) :
    (∃ leaked : Int → Nat, Counted s.world (s.records references) leaked
        ∧ (NoneForgotten G → ∀ h, leaked h = 0))
      ∧ s.Meets references := by
  have hkept : Kept references system G (State.rest World.initial) fun w (rec : τ → RefRecord) =>
      ∃ leaked : Int → Nat, Counted w rec leaked ∧ (NoneForgotten G → ∀ h, leaked h = 0) := by
    constructor
    case env =>
      intro s e
      exact nomatch e
    case start =>
      rintro s u j w hs ⟨leaked, hc, hexact⟩ hu hw hG
      exact ⟨job_refs j, leaked, hc.start hw (State.records_idle hu), hexact⟩
    case call =>
      rintro s u j t c k a w hs ⟨leaked, hc, hexact⟩ hu hw hG hn
      obtain ⟨hcust, hmeets⟩ := sys_custody hs
      have hlink := (hmeets u j t _ hu).1
      refine ⟨?_, leaked, hc.call hw hn ?_, hexact⟩
      · cases c with
        | objrefr h =>
            intro hf hh
            have hok : (s.records links u).Ok (.objrefr h) a := hcust.ok hw
            rw [State.records_running hu] at hf hok
            exact hok (RefRecord.fresh_held hf hh)
        | _ => trivial
      · rintro h rfl hh
        obtain ⟨o, ho, -⟩ := hcust.shared h hh (.inr (.inr ⟨u, .inl hlink⟩))
        exact ⟨o, ho⟩
    case finish =>
      rintro s u j t r hs ⟨leaked, hc, hexact⟩ hu hp
      refine ⟨_, hc.finish, fun hG h => ?_⟩
      have hnone : (s.records references u).held = [] := by
        have hpost := hp.1
        cases hf : j.forgets with
        | none => simpa [hf] using hpost
        | some l =>
            simp only [hf] at hpost
            rw [hpost, if_neg]
            intro hl
            -- the call that was granted a reference was not permitted
            rw [State.records_running hu] at hl
            have hcount := List.count_pos_iff.mpr hl
            rw [show references.upd = RefRecord.after from rfl,
              show references.init = RefRecord.start from rfl, RefRecord.acquired_count] at hcount
            obtain ⟨⟨c, a⟩, hmem, hcall⟩ := List.countP_pos_iff.mp hcount
            simp only [decide_eq_true_eq] at hcall
            obtain ⟨t₁, t₂, rfl⟩ := List.append_of_mem hmem
            have hneg := hs.traced
              (P := fun j t c a => ∀ l, j.forgets = some l → c.refers = some l → a < 0)
              (fun w j t c a hG' l => hG w j t c a l hG')
                (fun _ => rfl) hu t₁ c a t₂ rfl l hf hcall.1
            omega
      rw [hexact hG h, hnone]
      rfl
  refine hr.kept hkept ⟨fun _ => 0, Counted.initial, fun _ _ => rfl⟩ (State.meets_rest _)

end

/-! ## Use of control blocks -/

namespace RefRecord

/-- Whether a job dispatches a connect does not change. -/
theorem connects_record (j : Job) (t : CallTrace) :
    (record after (start j) t).connects = j.Connects := by
  induction t with
  | nil => rfl
  | cons x t ih => exact ih

/-- What failed, after the first call of the job. -/
theorem failed_record {j : Job} {t : CallTrace} (hf : (record after (start j) t).failed = true) :
    ∃ t₁ c a t₂, t = t₁ ++ (c, a) :: t₂ ∧ c.ForReceive = true ∧ a < 0 ∧ t₂ ≠ [] := by
  induction t with
  | nil => cases hf
  | cons x t ih =>
      obtain ⟨c, a⟩ := x
      rw [record_cons] at hf
      simp only [after, Bool.or_eq_true, Bool.and_eq_true, decide_eq_true_eq] at hf
      rcases hf with hf | ⟨hc, ha, hheld⟩
      · obtain ⟨t₁, c', a', t₂, rfl, hrest⟩ := ih hf
        exact ⟨(c, a) :: t₁, c', a', t₂, rfl, hrest⟩
      · refine ⟨[], c, a, t, rfl, hc, ha, ?_⟩
        rintro rfl
        exact hheld rfl

end RefRecord

/-- The runs in which the first receive request can always be made once a link is connected:
while `tcp_dispatch_io_connected` holds its link, neither the allocation of the packet fails,
nor the request. -/
def receivesStart : SysGuard where
  start _ _ := True
  call _ j t c a := j.Connects = true → t ≠ [] → c.ForReceive = true → 0 ≤ a

instance (w : World) (j : Job) : Decidable (receivesStart.start w j) := instDecidableTrue

instance (w : World) (j : Job) (t : CallTrace) (c : Call) (a : Int) :
    Decidable (receivesStart.call w j t c a) :=
  inferInstanceAs (Decidable (_ → _ → _ → _))

/-- The control block a call touches: a callback is read off the block, and so is the handle
that is released. -/
def Call.touches : Call → Option Int
  | .ncb h _ | .objdefr h => some h
  | .emit n => some n.link
  | _ => none

/-- **No use of a link after giving up its reference.** A job that touches a control block
holds a reference to it, and the block is alive. -/
theorem touched_alive [Fintype τ] (hr : SysReaches receivesStart s) {u : τ} {j : Job}
    {t : CallTrace} {c : Call} (hu : calling s u = some (j, t, c)) {h : Int}
    (hc : c.touches = some h) :
    releases h t < acquisitions h t ∧ ∃ o, s.world.obj h = some o ∧ o.Alive := by
  obtain ⟨k, hk⟩ := running_of_calling hu
  obtain ⟨⟨leaked, hcount, -⟩, hmeets⟩ := sys_counted hr
  have hneed : (s.records references u).Need c := (hmeets u j t _ hk).1
  have hrec : s.records references u = record RefRecord.after (.start j) t :=
    State.records_running hk
  -- a connecting job has not failed
  have hsound :
      ¬ ((s.records references u).connects = true ∧ (s.records references u).failed = true) := by
    rw [hrec, RefRecord.connects_record]
    rintro ⟨hconn, hf⟩
    obtain ⟨t₁, c', a, t₂, rfl, hfor, ha, hne⟩ := RefRecord.failed_record hf
    have hpos :=
      hr.traced (P := fun j t c a => j.Connects = true → t ≠ [] → c.ForReceive = true → 0 ≤ a)
      (fun w j t c a hG => hG) (fun _ => rfl) hk t₁ c' a t₂ rfl hconn hne hfor
    omega
  have hheld : h ∈ (s.records references u).held := by
    cases c <;> simp only [Call.touches, Option.some.injEq, reduceCtorEq] at hc <;> subst hc
    next => exact hneed
    next => exact hneed.resolve_right hsound
    next => exact hneed
  obtain ⟨o, ho, hpos⟩ := hcount.alive hheld
  have hbalance := hcount.balance u h
  have hone := List.count_pos_iff.mpr hheld
  rw [hrec, RefRecord.acquired_count, RefRecord.released_count] at hbalance
  rw [hrec] at hone
  exact ⟨by omega, o, ho, .inl hpos⟩

/-- In a run that goes well: the link is connected, and its handle is read for a message. -/
theorem touched_alive_connected : ∃ s : SysState Unit, SysReaches receivesStart s ∧
    ∃ j t h x, calling s () = some (j, t, .ncb h x)
      ∧ releases h t < acquisitions h t ∧ ∃ o, s.world.obj h = some o ∧ o.Alive := by
  obtain ⟨s, hs, ⟨j, t, c⟩, hc, hx⟩ := sys_of_play receivesStart
    (P := fun s => ∃ x ∈ calling s (), x.2.2 = .ncb 0 (.read .hld))
    (createTcp () 0 ++ connect2Tcp () 7 0
      ++ .start () (.completion (connectPacket 7 0) 0 0 0 noAddrs) :: referTcp ()
      ++ Move.calls () ([0, 0, -1, 0, 8] ++ List.replicate 5 0)) (by decide +kernel)
  obtain rfl : c = .ncb 0 (.read .hld) := hx
  exact ⟨s, hs, j, t, 0, _, hc, touched_alive hs hc rfl⟩

/-- The connect request succeeds and the first receive request fails: the link is closed, its
reference is released, and its handle is read after that, to close it. -/
theorem touched_dead : ∃ s : SysState Unit, SysReaches anyRun s ∧
    ∃ j t h x, calling s () = some (j, t, .ncb h x)
      ∧ releases h t = acquisitions h t ∧ ∃ o, s.world.obj h = some o ∧ ¬ o.Alive := by
  obtain ⟨s, hs, ⟨j, t, c⟩, hc, hx, hrel, o, ho, hdead⟩ := sys_of_play anyRun
    (P := fun s => ∃ x ∈ calling s (), x.2.2 = .ncb 0 (.read .hld)
      ∧ releases 0 x.2.1 = acquisitions 0 x.2.1 ∧ ∃ o ∈ s.world.obj 0, ¬ o.Alive)
    (createTcp () 0 ++ connect2Tcp () 7 0
      ++ .start () (.completion (connectPacket 7 0) 0 0 0 noAddrs) :: referTcp ()
      ++ Move.calls () ([0, 0, -1, 0, 8, 0, -1] ++ List.replicate 7 0)) (by decide +kernel)
  obtain rfl : c = .ncb 0 (.read .hld) := hx
  exact ⟨s, hs, j, t, 0, _, hc, hrel, o, ho, hdead⟩

end Swnet.Sys
