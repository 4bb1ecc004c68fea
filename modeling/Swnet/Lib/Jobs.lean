import Mathlib.Tactic

/-!
# Jobs — programs of primitive calls, run by many threads at once

A program is a tree: it makes a primitive call, is handed an answer and goes on. Threads
pick up jobs, each job runs its program, and the calls of different threads come in any
order over one shared world. A thread carries the trace of its job, the calls made so far
with their answers, newest first.

* `Prog.Meets` — what one program does on its own, said of a record of its calls: each call
  it makes is one it may make (`need`), for the answers it can get (`ok`);
* `Ledger` — what is kept on record of every job, and the bounds its program stays within;
* `Reaches.kept` — the run rule: an invariant of the world and of the records that each call
  keeps, as long as it is a call its program may make, holds in every run, and every thread
  stays within what its program meets;
* `Reaches.world` — the same for an invariant of the world alone;
* `Reaches.tracing`, `Reaches.traced`, `Reaches.leads` — what each call of a run keeps is so of
  the traces; what a guard asks of each call is so of every call on a trace; and a thread is where
  its trace leads;
* `Exclusive` — every token is in one place at most;
* `sum_update` — how a quantity summed over the threads moves when one thread moves.
-/

namespace Jobs

variable {Op Ans Res α β : Type}

/-! ## Programs -/

inductive Prog (Op Ans α : Type) where
  | done (r : α)
  | call (o : Op) (k : Ans → Prog Op Ans α)

abbrev Trace (Op Ans : Type) := List (Op × Ans)

/-- What has been recorded after the calls of a trace. -/
def record {γ : Type} (upd : γ → Op → Ans → γ) (g : γ) : Trace Op Ans → γ
  | [] => g
  | (o, a) :: t => upd (record upd g t) o a

@[simp] theorem record_nil {γ : Type} (upd : γ → Op → Ans → γ) (g : γ) :
    record upd g ([] : Trace Op Ans) = g := rfl

/-- The newest call comes first in a trace, and last on the record. -/
@[simp] theorem record_cons {γ : Type} (upd : γ → Op → Ans → γ) (g : γ) (o : Op) (a : Ans)
    (t : Trace Op Ans) : record upd g ((o, a) :: t) = upd (record upd g t) o a := rfl

namespace Prog

def bind : Prog Op Ans α → (α → Prog Op Ans β) → Prog Op Ans β
  | done r, f => f r
  | call o k, f => call o fun a => (k a).bind f

instance : Monad (Prog Op Ans) where
  pure := done
  bind := bind

/-- One primitive call. -/
def perform (o : Op) : Prog Op Ans Ans := call o done

@[simp] theorem pure_eq (r : α) : (pure r : Prog Op Ans α) = done r := rfl

@[simp] theorem done_bind (r : α) (f : α → Prog Op Ans β) : (done r >>= f) = f r := rfl

/-- A call stays in front of what follows. -/
@[simp] theorem call_bind (o : Op) (k : Ans → Prog Op Ans α) (f : α → Prog Op Ans β) :
    (call o k >>= f) = call o fun a => k a >>= f := rfl

/-- Programs are put one after the other in either order. -/
@[simp] theorem bind_bind {δ : Type} (p : Prog Op Ans α) (f : α → Prog Op Ans β)
    (g : β → Prog Op Ans δ) : (p >>= f) >>= g = p >>= fun a => f a >>= g := by
  induction p with
  | done r => rfl
  | call o k ih => simp [ih]

section Meets

variable {γ : Type} (upd : γ → Op → Ans → γ) (need : γ → Op → Prop) (ok : γ → Op → Ans → Prop)

/-- From `g` on, the program only makes calls it may make and ends in `Q`, as long as the
answers are ones it can get. `g` is what is recorded of the calls, `upd` the recording. -/
def Meets : Prog Op Ans α → γ → (γ → α → Prop) → Prop
  | done r, g, Q => Q g r
  | call o k, g, Q => need g o ∧ ∀ a, ok g o a → (k a).Meets (upd g o a) Q

variable {upd need ok}

/-- A program that returns meets what holds of the record and its result. -/
@[simp] theorem meets_done {r : α} {g : γ} {Q : γ → α → Prop} :
    (done r).Meets upd need ok g Q ↔ Q g r := Iff.rfl

/-- One that calls needs what the ledger asks for, and meets the rest on every answer. -/
@[simp] theorem meets_call {o : Op} {k : Ans → Prog Op Ans α} {g : γ} {Q : γ → α → Prop} :
    (call o k).Meets upd need ok g Q
      ↔ need g o ∧ ∀ a, ok g o a → (k a).Meets upd need ok (upd g o a) Q := Iff.rfl

@[simp] theorem meets_perform {o : Op} {g : γ} {Q : γ → Ans → Prop} :
    (perform o).Meets upd need ok g Q ↔ need g o ∧ ∀ a, ok g o a → Q (upd g o a) a := Iff.rfl

/-- Each branch meets the contract under its condition. -/
@[simp] theorem meets_ite {c : Prop} [Decidable c] {p q : Prog Op Ans α} {g : γ}
    {Q : γ → α → Prop} :
    (if c then p else q).Meets upd need ok g Q
      ↔ (c → p.Meets upd need ok g Q) ∧ (¬ c → q.Meets upd need ok g Q) := by
  by_cases h : c <;> simp [h]

/-- Sequential composition: what the first part ends in is where the second starts. -/
@[simp] theorem meets_bind {p : Prog Op Ans α} {f : α → Prog Op Ans β} {g : γ}
    {Q : γ → β → Prop} :
    (p >>= f).Meets upd need ok g Q
      ↔ p.Meets upd need ok g fun g r => (f r).Meets upd need ok g Q := by
  induction p generalizing g with
  | done r => rfl
  | call o k ih =>
      simp only [call_bind, meets_call]
      constructor
      · intro h
        exact ⟨h.1, fun a ha => ih a |>.mp (h.2 a ha)⟩
      · intro h
        exact ⟨h.1, fun a ha => ih a |>.mpr (h.2 a ha)⟩

/-- A contract may be weakened at its end. Induction on the program. -/
theorem Meets.mono {p : Prog Op Ans α} {g : γ} {Q R : γ → α → Prop}
    (h : p.Meets upd need ok g Q) (hQ : ∀ g r, Q g r → R g r) : p.Meets upd need ok g R := by
  induction p generalizing g with
  | done r => exact hQ _ _ h
  | call o k ih => exact ⟨h.1, fun a ha => ih a (h.2 a ha)⟩

/-- The first part leaves the record as it was. -/
theorem Meets.bind_of_same {p : Prog Op Ans α} {f : α → Prog Op Ans β} {g : γ} {Q : γ → β → Prop}
    (hp : p.Meets upd need ok g fun g' _ => g' = g) (hf : ∀ r, (f r).Meets upd need ok g Q) :
    (p >>= f).Meets upd need ok g Q :=
  meets_bind.mpr (hp.mono fun g' r hg => by rw [hg]; exact hf r)

/-- Fewer answers, less to ask for. -/
theorem Meets.weaken {need' : γ → Op → Prop} {ok' : γ → Op → Ans → Prop} {p : Prog Op Ans α}
    {g : γ} {Q : γ → α → Prop} (h : p.Meets upd need ok g Q)
    (hneed : ∀ g o, need g o → need' g o) (hok : ∀ g o a, ok' g o a → ok g o a) :
    p.Meets upd need' ok' g Q := by
  induction p generalizing g with
  | done r => exact h
  | call o k ih => exact ⟨hneed g o h.1, fun a ha => ih a (h.2 a (hok g o a ha))⟩

/-- What each call can only take further. -/
theorem Meets.along {R : γ → γ → Prop} (hrefl : ∀ g, R g g)
    (htrans : ∀ g₁ g₂ g₃, R g₁ g₂ → R g₂ g₃ → R g₁ g₃) (hstep : ∀ g o a, R g (upd g o a))
    {p : Prog Op Ans α} {g : γ} {Q : γ → α → Prop} (h : p.Meets upd need ok g Q) :
    p.Meets upd need ok g fun g' r => R g g' ∧ Q g' r := by
  induction p generalizing g with
  | done r => exact ⟨hrefl g, h⟩
  | call o k ih =>
      refine ⟨h.1, fun a ha => ?_⟩
      refine (ih a (h.2 a ha)).mono ?_
      intro g' r hg'
      exact ⟨htrans _ _ _ (hstep g o a) hg'.1, hg'.2⟩

end Meets

/-! ## Programs that only make calls of one kind -/

/-- The program makes no call but those of `P`, whatever it is answered. -/
def Uses (P : Op → Prop) (p : Prog Op Ans α) : Prop :=
  p.Meets (fun _ _ _ => ()) (fun _ o => P o) (fun _ _ _ => True) () fun _ _ => True

section Uses

variable {P : Op → Prop} {γ : Type} {upd : γ → Op → Ans → γ} {need : γ → Op → Prop}
  {ok : γ → Op → Ans → Prop}

/-- A program that returns calls nothing. -/
@[simp] theorem uses_done {r : α} : (done r : Prog Op Ans α).Uses P := trivial

/-- One that calls has its call and those of the rest. -/
@[simp] theorem uses_call {o : Op} {k : Ans → Prog Op Ans α} :
    (call o k).Uses P ↔ P o ∧ ∀ a, (k a).Uses P := by
  simp [Uses]

@[simp] theorem uses_perform {o : Op} : (perform o : Prog Op Ans Ans).Uses P ↔ P o := by
  simp [Uses]

@[simp] theorem uses_perform_bind {o : Op} {f : Ans → Prog Op Ans α} :
    (perform o >>= f).Uses P ↔ P o ∧ ∀ a, (f a).Uses P := by
  simp [Uses]

@[simp] theorem uses_ite {c : Prop} [Decidable c] {p q : Prog Op Ans α} :
    (if c then p else q).Uses P ↔ (c → p.Uses P) ∧ (¬ c → q.Uses P) := by
  by_cases h : c <;> simp [h]

@[simp] theorem uses_ite_bind {c : Prop} [Decidable c] {p q : Prog Op Ans α}
    {f : α → Prog Op Ans β} :
    ((if c then p else q) >>= f).Uses P ↔ (c → (p >>= f).Uses P) ∧ (¬ c → (q >>= f).Uses P) := by
  by_cases h : c <;> simp [h]

/-- The calls of a program are those of its parts. -/
theorem Uses.bind {p : Prog Op Ans α} {f : α → Prog Op Ans β} (hp : p.Uses P)
    (hf : ∀ r, (f r).Uses P) : (p >>= f).Uses P :=
  meets_bind.mpr (Meets.mono hp fun _ r _ => hf r)

/-- A property of calls may be weakened. -/
theorem Uses.mono {R : Op → Prop} {p : Prog Op Ans α} (hp : p.Uses P) (hPR : ∀ o, P o → R o) :
    p.Uses R :=
  Meets.weaken hp (fun _ o => hPR o) fun _ _ _ h => h

/-- Where calls of the kind may be made as long as `I` holds, and keep `I`, the program does. -/
theorem Uses.keeps {I : γ → Prop} (hneed : ∀ g o, I g → P o → need g o)
    (hkeep : ∀ g o a, I g → P o → I (upd g o a)) {p : Prog Op Ans α} (h : p.Uses P) {g : γ}
    (hg : I g) : p.Meets upd need ok g fun g' _ => I g' := by
  induction p generalizing g with
  | done r => exact hg
  | call o k ih =>
      exact ⟨hneed g o hg h.1, fun a _ => ih a (h.2 a trivial) (hkeep g o a hg h.1)⟩

/-- What follows a program, in one that only makes calls of a kind, only makes such calls. -/
theorem Meets.and_uses {p : Prog Op Ans α} {f : α → Prog Op Ans β} {g : γ} {Q : γ → α → Prop}
    (h : p.Meets upd need ok g Q) (hu : (p >>= f).Uses P) :
    p.Meets upd need ok g fun g' r => Q g' r ∧ (f r).Uses P := by
  induction p generalizing g with
  | done r => exact ⟨h, hu⟩
  | call o k ih => exact ⟨h.1, fun a ha => ih a (h.2 a ha) (hu.2 a trivial)⟩

end Uses

/-! ## Where the calls of a trace lead -/

/-- After the calls of the trace, `q` is left of the program. -/
inductive Leads (p : Prog Op Ans α) : Trace Op Ans → Prog Op Ans α → Prop where
  | start : Leads p [] p
  | call {t : Trace Op Ans} {o : Op} {k : Ans → Prog Op Ans α} (a : Ans)
      (h : Leads p t (call o k)) : Leads p ((o, a) :: t) (k a)

section

variable {γ : Type} {upd : γ → Op → Ans → γ} {need : γ → Op → Prop} {ok : γ → Op → Ans → Prop}

/-- What a program meets, the rest of it meets. -/
theorem Meets.leads {p q : Prog Op Ans α} {t : Trace Op Ans} {g : γ} {Q : γ → α → Prop}
    (h : p.Meets upd need ok g Q) (hl : Leads p t q)
    (hok : ∀ t₁ o a t₂, t = t₁ ++ (o, a) :: t₂ → ok (record upd g t₂) o a) :
    q.Meets upd need ok (record upd g t) Q := by
  induction hl with
  | start => exact h
  | @call t o k a hl ih =>
      have hrest := ih fun t₁ o' a' t₂ ht => hok ((o, a) :: t₁) o' a' t₂ (by rw [ht]; rfl)
      exact hrest.2 a (hok [] o a t rfl)

/-- The calls of a trace are calls of the program. -/
theorem Uses.leads {P : Op → Prop} {p q : Prog Op Ans α} {t : Trace Op Ans} (h : p.Uses P)
    (hl : Leads p t q) : q.Uses P ∧ ∀ x ∈ t, P x.1 := by
  induction hl with
  | start => exact ⟨h, fun x hx => absurd hx List.not_mem_nil⟩
  | @call t o k a hl ih =>
      obtain ⟨hrest, htrace⟩ := ih
      obtain ⟨ho, hk⟩ := uses_call.mp hrest
      refine ⟨hk a, fun x hx => ?_⟩
      rcases List.mem_cons.mp hx with rfl | hx
      · exact ho
      · exact htrace x hx

end

end Prog

/-! ## Threads -/

/-- What a thread is doing. -/
inductive Thread (Job Op Ans Res : Type) where
  | idle
  | running (j : Job) (t : Trace Op Ans) (p : Prog Op Ans Res)

/-- The world the calls work on: what a call does when it gives an answer, `none` when it
cannot give that answer; when a job can start, what starting it does and what its return
does; and what happens on its own. -/
structure System (World Job Op Ans Res Env : Type) where
  prog : Job → Prog Op Ans Res
  answer : World → Op → Ans → Option World
  start : World → Job → Option World
  finish : World → Job → Res → World
  env : World → Env → Option World

structure State (τ World Job Op Ans Res : Type) where
  world : World
  thread : τ → Thread Job Op Ans Res

variable {τ World Job Env : Type}

/-- Nobody runs. -/
def State.rest (w : World) : State τ World Job Op Ans Res where
  world := w
  thread _ := .idle

variable [DecidableEq τ] (S : System World Job Op Ans Res Env)

/-- What the runs looked at keep to: which jobs start, and which calls are made and how they
are answered. -/
structure Guard (World Job Op Ans : Type) where
  start : World → Job → Prop
  call : World → Job → Trace Op Ans → Op → Ans → Prop

/-- One step of one thread, or of the world alone. -/
inductive Step (G : Guard World Job Op Ans) :
    State τ World Job Op Ans Res → State τ World Job Op Ans Res → Prop where
  | env {s : State τ World Job Op Ans Res} {w : World} (e : Env)
      (hw : S.env s.world e = some w) : Step G s { s with world := w }
  | start {s : State τ World Job Op Ans Res} {w : World} (u : τ) (j : Job)
      (hu : s.thread u = .idle) (hw : S.start s.world j = some w) (hG : G.start s.world j) :
      Step G s
        { s with world := w, thread := Function.update s.thread u (.running j [] (S.prog j)) }
  | call {s : State τ World Job Op Ans Res} {w : World} (u : τ) (j : Job) (t : Trace Op Ans)
      (o : Op) (k : Ans → Prog Op Ans Res) (a : Ans) (hu : s.thread u = .running j t (.call o k))
      (hw : S.answer s.world o a = some w) (hG : G.call s.world j t o a) :
      Step G s
        { s with world := w, thread := Function.update s.thread u (.running j ((o, a) :: t) (k a)) }
  | finish {s : State τ World Job Op Ans Res} (u : τ) (j : Job) (t : Trace Op Ans) (r : Res)
      (hu : s.thread u = .running j t (.done r)) :
      Step G s
        { s with
          world := S.finish s.world j r
          thread := Function.update s.thread u .idle }

/-- The states of the runs that start in `s₀` and keep to `G`. -/
inductive Reaches (G : Guard World Job Op Ans)
    (s₀ : State τ World Job Op Ans Res) : State τ World Job Op Ans Res → Prop where
  | refl : Reaches G s₀ s₀
  | step {s s' : State τ World Job Op Ans Res} (hs : Reaches G s₀ s) (h : Step S G s s') :
      Reaches G s₀ s'

/-! ## Ledgers -/

/-- What is kept on record of each job, and the bounds its program stays within: the calls it
may make, the answers they can get, what it can end in. -/
structure Ledger (Job Op Ans Res γ : Type) where
  idle : γ
  init : Job → γ
  upd : γ → Op → Ans → γ
  need : γ → Op → Prop
  ok : γ → Op → Ans → Prop
  post : Job → γ → Res → Prop

section

variable {γ : Type} (L : Ledger Job Op Ans Res γ)

/-- The program stays within the bounds of the ledger, and ends in `Q`. -/
abbrev Ledger.Meets (p : Prog Op Ans α) (g : γ) (Q : γ → α → Prop) : Prop :=
  p.Meets L.upd L.need L.ok g Q

/-- What is on record of a thread. -/
def Ledger.of : Thread Job Op Ans Res → γ
  | .idle => L.idle
  | .running j t _ => record L.upd (L.init j) t

/-- What is on record of each thread. -/
def State.records (s : State τ World Job Op Ans Res) (u : τ) : γ := L.of (s.thread u)

/-- Every thread is within the bounds of its ledger. -/
def State.Meets (s : State τ World Job Op Ans Res) : Prop :=
  ∀ u j t p, s.thread u = .running j t p → L.Meets p (s.records L u) (L.post j)

variable {L}

omit [DecidableEq τ] in
@[simp] theorem State.records_rest (w : World) (u : τ) :
    (State.rest w : State τ World Job Op Ans Res).records L u = L.idle := rfl

omit [DecidableEq τ] in
theorem State.records_idle {s : State τ World Job Op Ans Res} {u : τ} (hu : s.thread u = .idle) :
    s.records L u = L.idle := by
  rw [State.records, hu, Ledger.of]

omit [DecidableEq τ] in
theorem State.records_running {s : State τ World Job Op Ans Res} {u : τ} {j : Job}
    {t : Trace Op Ans} {p : Prog Op Ans Res} (hu : s.thread u = .running j t p) :
    s.records L u = record L.upd (L.init j) t := by
  rw [State.records, hu, Ledger.of]

/-- A step of one thread changes its record alone. -/
theorem State.records_update (s : State τ World Job Op Ans Res) (w : World) (u : τ)
    (x : Thread Job Op Ans Res) :
    ({ world := w, thread := Function.update s.thread u x } :
        State τ World Job Op Ans Res).records L
      = Function.update (s.records L) u (L.of x) := by
  funext v
  show L.of (Function.update s.thread u x v) = _
  by_cases hv : v = u
  · subst hv
    rw [Function.update_self, Function.update_self]
  · rw [Function.update_of_ne hv, Function.update_of_ne hv, State.records]

omit [DecidableEq τ] in
/-- At rest nobody has anything to meet. -/
theorem State.meets_rest (w : World) : (State.rest w : State τ World Job Op Ans Res).Meets L := by
  intro u j t p hu
  cases hu

/-- The other threads are where they were. -/
theorem State.Meets.update {s : State τ World Job Op Ans Res} (hs : s.Meets L)
    {u : τ} {x : Thread Job Op Ans Res} {w : World}
    (hx : ∀ j t p, x = .running j t p → L.Meets p (L.of x) (L.post j)) :
    ({ world := w, thread := Function.update s.thread u x } :
      State τ World Job Op Ans Res).Meets L := by
  intro v j t p hv
  replace hv : Function.update s.thread u x v = .running j t p := hv
  rw [State.records_update]
  by_cases huv : v = u
  · subst huv
    rw [Function.update_self] at hv ⊢
    exact hx j t p hv
  · rw [Function.update_of_ne huv] at hv ⊢
    exact hs v j t p hv

end

/-! ## The run rule -/

section

variable {S} {G : Guard World Job Op Ans} {s₀ s : State τ World Job Op Ans Res} {γ : Type}
  {L : Ledger Job Op Ans Res γ}

/-- `I` is kept by every step of the runs from `s₀`, a call being one its program may make and
a return one its program can end in. In exchange, it shows that a program that starts meets
its bounds, and that the answer of a call is one that can be got. -/
structure Kept (L : Ledger Job Op Ans Res γ) (S : System World Job Op Ans Res Env)
    (G : Guard World Job Op Ans) (s₀ : State τ World Job Op Ans Res)
    (I : World → (τ → γ) → Prop) : Prop where
  env : ∀ {s e w}, Reaches S G s₀ s → I s.world (s.records L) → S.env s.world e = some w →
    I w (s.records L)
  start : ∀ {s u j w}, Reaches S G s₀ s → I s.world (s.records L) → s.thread u = .idle →
    S.start s.world j = some w → G.start s.world j →
    L.Meets (S.prog j) (L.init j) (L.post j) ∧ I w (Function.update (s.records L) u (L.init j))
  call : ∀ {s u j t o k a w}, Reaches S G s₀ s → I s.world (s.records L) →
    s.thread u = .running j t (.call o k) → S.answer s.world o a = some w →
    G.call s.world j t o a → L.need (s.records L u) o →
    L.ok (s.records L u) o a ∧
      I w (Function.update (s.records L) u (L.upd (s.records L u) o a))
  finish : ∀ {s u j t r}, Reaches S G s₀ s → I s.world (s.records L) →
    s.thread u = .running j t (.done r) → L.post j (s.records L u) r →
    I (S.finish s.world j r) (Function.update (s.records L) u L.idle)

/-- **The run rule.** An invariant that every permitted step keeps holds in every run, and
every thread stays within the bounds of its ledger. -/
theorem Reaches.kept {I : World → (τ → γ) → Prop} (hI : Kept L S G s₀ I)
    (h₀ : I s₀.world (s₀.records L)) (hm₀ : s₀.Meets L) (hr : Reaches S G s₀ s) :
    I s.world (s.records L) ∧ s.Meets L := by
  induction hr with
  | refl => exact ⟨h₀, hm₀⟩
  | step hs h ih =>
      obtain ⟨hi, hm⟩ := ih
      cases h with
      -- the environment has no record to keep
      | env e hw =>
          have hkept := hI.env hs hi hw
          exact ⟨hkept, hm⟩
      | start u j hu hw hG =>
          have hkept := hI.start hs hi hu hw hG
          rw [State.records_update]
          refine ⟨hkept.2, hm.update ?_⟩
          rintro _ _ _ ⟨⟩
          exact hkept.1
      -- the program allows the call, and goes on within its bounds after the answer
      | call u j t o k a hu hw hG =>
          have hcall := hm u j t _ hu
          have hkept := hI.call hs hi hu hw hG hcall.1
          rw [State.records_update]
          rw [State.records_running hu] at hcall hkept
          refine ⟨hkept.2, hm.update ?_⟩
          rintro _ _ _ ⟨⟩
          exact hcall.2 a hkept.1
      | finish u j t r hu =>
          rw [State.records_update]
          refine ⟨hI.finish hs hi hu (hm u j t _ hu), hm.update ?_⟩
          rintro _ _ _ ⟨⟩

/-- The run rule for an invariant of the world alone. -/
theorem Reaches.world {I : World → Prop} (h₀ : I s₀.world)
    (henv : ∀ {s e w}, Reaches S G s₀ s → I s.world → S.env s.world e = some w → I w)
    (hstart : ∀ {s u j w}, Reaches S G s₀ s → I s.world → s.thread u = .idle →
      S.start s.world j = some w → I w)
    (hcall : ∀ {s u j t o k a w}, Reaches S G s₀ s → I s.world →
      s.thread u = .running j t (.call o k) → S.answer s.world o a = some w →
      G.call s.world j t o a → I w)
    (hfinish : ∀ {s u j t r}, Reaches S G s₀ s → I s.world →
      s.thread u = .running j t (.done r) → I (S.finish s.world j r))
    (hr : Reaches S G s₀ s) : I s.world := by
  induction hr with
  | refl => exact h₀
  | step hs h ih =>
      cases h with
      | env e hw => exact henv hs ih hw
      | start u j hu hw hG => exact hstart hs ih hu hw
      | call u j t o k a hu hw hG => exact hcall hs ih hu hw hG
      | finish u j t r hu => exact hfinish hs ih hu

/-- The run rule for what each thread is doing: `I w j t p` of job `j` in world `w`, with `p`
left to do after the calls `t`. What is so stays so whatever the other threads do. -/
theorem Reaches.thread {I : World → Job → Trace Op Ans → Prog Op Ans Res → Prop}
    (hkeep : ∀ {s s' : State τ World Job Op Ans Res}, Step S G s s' →
      ∀ j t p, I s.world j t p → I s'.world j t p)
    (hstart : ∀ w j, I w j [] (S.prog j))
    (hcall : ∀ {w j t o k a w'}, I w j t (.call o k) → S.answer w o a = some w' →
      G.call w j t o a → I w' j ((o, a) :: t) (k a))
    (h₀ : ∀ u, s₀.thread u = .idle) (hr : Reaches S G s₀ s) {u : τ} {j : Job}
    {t : Trace Op Ans} {p : Prog Op Ans Res} (hu : s.thread u = .running j t p) :
    I s.world j t p := by
  induction hr generalizing u j t p with
  | refl =>
      rw [h₀ u] at hu
      cases hu
  | @step s s' hs h ih =>
      -- the others are where they were
      have hmove : ∀ {v : τ} {x : Thread Job Op Ans Res},
          (∀ {j t p}, x = .running j t p → I s'.world j t p) →
          Function.update s.thread v x u = .running j t p → I s'.world j t p := by
        intro v x hx hu
        by_cases hv : u = v
        · subst hv
          rw [Function.update_self] at hu
          exact hx hu
        · rw [Function.update_of_ne hv] at hu
          exact hkeep h _ _ _ (ih hu)
      cases h with
      | env e hw => exact hkeep (.env e hw) _ _ _ (ih hu)
      | start v j' hv hw hG =>
          refine hmove ?_ hu
          rintro _ _ _ ⟨⟩
          exact hstart _ j'
      | call v j' t' o k a hv hw hG =>
          refine hmove ?_ hu
          rintro _ _ _ ⟨⟩
          exact hcall (ih hv) hw hG
      | finish v j' t' r hv =>
          refine hmove ?_ hu
          rintro _ _ _ ⟨⟩

/-- The run rule for the traces of the threads: a call may use that it is made in a state of
the run. -/
theorem Reaches.tracing {P : Job → Trace Op Ans → Prop} (h₀ : ∀ u, s₀.thread u = .idle)
    (hstart : ∀ j, P j [])
    (hcall : ∀ {s u j t o k a w}, Reaches S G s₀ s → s.thread u = .running j t (.call o k) →
      S.answer s.world o a = some w → P j t → P j ((o, a) :: t))
    (hr : Reaches S G s₀ s) {u : τ} {j : Job} {t : Trace Op Ans} {p : Prog Op Ans Res}
    (hu : s.thread u = .running j t p) : P j t := by
  induction hr generalizing u j t p with
  | refl =>
      rw [h₀ u] at hu
      cases hu
  | @step s s' hs h ih =>
      -- the others are where they were
      have hmove : ∀ {v : τ} {x : Thread Job Op Ans Res},
          (∀ {j t p}, x = .running j t p → P j t) →
          Function.update s.thread v x u = .running j t p → P j t := by
        intro v x hx hu
        by_cases hv : u = v
        · subst hv
          rw [Function.update_self] at hu
          exact hx hu
        · rw [Function.update_of_ne hv] at hu
          exact ih hu
      cases h with
      | env e hw => exact ih hu
      | start v j' hv hw hG =>
          refine hmove ?_ hu
          rintro _ _ _ ⟨⟩
          exact hstart j'
      | call v j' t' o k a hv hw hG =>
          refine hmove ?_ hu
          rintro _ _ _ ⟨⟩
          exact hcall hs hv hw (ih hv)
      | finish v j' t' r hv =>
          refine hmove ?_ hu
          rintro _ _ _ ⟨⟩

/-- A thread is where its trace leads. -/
theorem Reaches.leads (h₀ : ∀ u, s₀.thread u = .idle) (hr : Reaches S G s₀ s) {u : τ} {j : Job}
    {t : Trace Op Ans} {p : Prog Op Ans Res} (hu : s.thread u = .running j t p) :
    (S.prog j).Leads t p :=
  hr.thread (I := fun _ j => (S.prog j).Leads) (fun _ _ _ _ h => h) (fun _ _ => .start)
    (fun h _ _ => .call _ h) h₀ hu

/-- The calls on the trace of a thread were made as the guard has it: `P j t o a` when it lets
job `j` make call `o` after the calls `t`, to be answered `a`. -/
theorem Reaches.traced {P : Job → Trace Op Ans → Op → Ans → Prop}
    (hP : ∀ w j t o a, G.call w j t o a → P j t o a)
    (h₀ : ∀ u, s₀.thread u = .idle) (hr : Reaches S G s₀ s) {u : τ} {j : Job}
    {t : Trace Op Ans} {p : Prog Op Ans Res} (hu : s.thread u = .running j t p) :
    ∀ t₁ o a t₂, t = t₁ ++ (o, a) :: t₂ → P j t₂ o a := by
  refine hr.thread (I := fun _ j t _ => ∀ t₁ o a t₂, t = t₁ ++ (o, a) :: t₂ → P j t₂ o a)
    (fun _ _ _ _ h => h) ?_ ?_ h₀ hu
  · intro w j t₁ o a t₂ ht
    exact absurd ht.symm (by simp)
  · intro w j t o k a w' ih hw hG t₁ o' a' t₂ ht
    cases t₁ with
    | nil =>
        cases ht
        exact hP _ _ _ _ _ hG
    | cons x t₁ =>
        cases ht
        exact ih t₁ o' a' t₂ rfl

/-- A run goes on. -/
theorem Reaches.trans {s₁ : State τ World Job Op Ans Res} (h₁ : Reaches S G s₀ s₁)
    (h₂ : Reaches S G s₁ s) : Reaches S G s₀ s := by
  induction h₂ with
  | refl => exact h₁
  | step _ h ih => exact ih.step h

end

/-! ## Who has what -/

section

variable {Place Token : Type} {C C' : Place → Token → Prop}

/-- No token is claimed from two places. -/
def Exclusive (C : Place → Token → Prop) : Prop := ∀ t x y, C x t → C y t → x = y

/-- Tokens move from place to place: `M x y t` when `t` goes from `x` to `y`. -/
theorem Exclusive.moves {M : Place → Place → Token → Prop} (h : Exclusive C)
    (hC : ∀ y t, C' y t → C y t ∨ ∃ x, M x y t ∧ C x t) (hleft : ∀ x y t, M x y t → ¬ C' x t)
    (hone : ∀ x x' y y' t, M x y t → M x' y' t → y = y') : Exclusive C' := by
  intro t y y' hy hy'
  rcases hC y t hy with hold | ⟨x, hm, hx⟩ <;> rcases hC y' t hy' with hold' | ⟨x', hm', hx'⟩
  · exact h t y y' hold hold'
  · have hsame := h t y x' hold hx'
    subst hsame
    exact absurd hy (hleft y y' t hm')
  · have hsame := h t y' x hold' hx
    subst hsame
    exact absurd hy' (hleft y' y t hm)
  · exact hone x x' y y' t hm hm'

end

/-! ## Sums over the threads -/

section

variable {M : Type} [AddCommMonoid M] [Fintype τ]

/-- When one thread moves, a sum over the threads changes by what that thread contributes. -/
theorem sum_update {γ : Type} (f : γ → M) (th : τ → γ) (u : τ) (x : γ) :
    ∑ v, f (Function.update th u x v) + f (th u) = ∑ v, f (th v) + f x := by
  have hrest : ∑ v ∈ Finset.univ.erase u, f (Function.update th u x v)
      = ∑ v ∈ Finset.univ.erase u, f (th v) := by
    refine Finset.sum_congr rfl fun v hv => ?_
    rw [Function.update_of_ne (Finset.ne_of_mem_erase hv)]
  rw [← Finset.sum_erase_add _ _ (Finset.mem_univ u),
    ← Finset.sum_erase_add _ _ (Finset.mem_univ u), hrest, Function.update_self]
  exact add_right_comm ..

end

/-! ## Runs that can be played -/

section

variable (G : Guard World Job Op Ans) [∀ w j, Decidable (G.start w j)]
  [∀ w j t o a, Decidable (G.call w j t o a)]

/-- A step, as an instruction: which thread, and which job or answer. -/
inductive Move (τ Job Ans Env : Type) where
  | env (e : Env)
  | start (u : τ) (j : Job)
  | call (u : τ) (a : Ans)
  | finish (u : τ)

/-- The next calls of a thread, with their answers. -/
def Move.calls (u : τ) (as : List Ans) : List (Move τ Job Ans Env) := as.map (.call u)

/-- A whole job of a thread, with the answers of its calls. -/
def Move.whole (u : τ) (j : Job) (as : List Ans) : List (Move τ Job Ans Env) :=
  .start u j :: (Move.calls u as ++ [.finish u])

def State.move (s : State τ World Job Op Ans Res) :
    Move τ Job Ans Env → Option (State τ World Job Op Ans Res)
  | .env e => (S.env s.world e).map fun w => { s with world := w }
  | .start u j =>
    match s.thread u with
    | .idle =>
      if G.start s.world j then (S.start s.world j).map fun w =>
        { s with world := w, thread := Function.update s.thread u (.running j [] (S.prog j)) }
      else none
    | .running .. => none
  | .call u a =>
    match s.thread u with
    | .running j t (.call o k) =>
      if G.call s.world j t o a then (S.answer s.world o a).map fun w =>
        { s with world := w, thread := Function.update s.thread u (.running j ((o, a) :: t) (k a)) }
      else none
    | _ => none
  | .finish u =>
    match s.thread u with
    | .running j _ (.done r) =>
      some { s with world := S.finish s.world j r, thread := Function.update s.thread u .idle }
    | _ => none

def State.play (s : State τ World Job Op Ans Res) (ms : List (Move τ Job Ans Env)) :
    Option (State τ World Job Op Ans Res) :=
  ms.foldlM (fun s m => s.move S G m) s

variable {S G}

theorem step_of_move {s s' : State τ World Job Op Ans Res} {m : Move τ Job Ans Env}
    (h : s.move S G m = some s') : Step S G s s' := by
  cases m with
  | env e =>
      obtain ⟨w, hw, rfl⟩ := Option.map_eq_some_iff.mp h
      exact .env e hw
  | start u j =>
      simp only [State.move] at h
      split at h
      next hu =>
        split at h
        next hG =>
          obtain ⟨w, hw, rfl⟩ := Option.map_eq_some_iff.mp h
          exact .start u j hu hw hG
        · cases h
      · cases h
  | call u a =>
      simp only [State.move] at h
      split at h
      next j t o k hu =>
        split at h
        next hG =>
          obtain ⟨w, hw, rfl⟩ := Option.map_eq_some_iff.mp h
          exact .call u j t o k a hu hw hG
        · cases h
      · cases h
  | finish u =>
      simp only [State.move] at h
      split at h
      next j t r hu =>
        cases h
        exact .finish u j t r hu
      · cases h

theorem reaches_of_play {s₀ s s' : State τ World Job Op Ans Res} {ms : List (Move τ Job Ans Env)}
    (hs : Reaches S G s₀ s) (h : s.play S G ms = some s') : Reaches S G s₀ s' := by
  induction ms generalizing s with
  | nil =>
      cases h
      exact hs
  | cons m ms ih =>
      rw [State.play, List.foldlM_cons] at h
      obtain ⟨s₁, hm, hms⟩ := Option.bind_eq_some_iff.mp h
      exact ih (hs.step (step_of_move hm)) hms

/-- A state with a decidable property is reachable when a played run gets there. -/
theorem exists_of_play {s₀ : State τ World Job Op Ans Res}
    {P : State τ World Job Op Ans Res → Prop} (ms : List (Move τ Job Ans Env))
    (h : ∃ s ∈ s₀.play S G ms, P s) : ∃ s, Reaches S G s₀ s ∧ P s := by
  obtain ⟨s, hs, hP⟩ := h
  exact ⟨s, reaches_of_play .refl hs, hP⟩

end

end Jobs
