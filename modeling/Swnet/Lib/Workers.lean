import Mathlib.Tactic

/-!
# Workers — queues with one worker each

Entries arrive at the queue of a worker, which takes them out from the head and handles one
at a time. An entry that `stops` is not handled: the worker that takes it is done, and what
stands behind it in the queue is left there. A pool has a worker at every place; some
entries can arrive at one place only.

* `Worker.Inv` — what arrived is what was taken, what stopped the worker, and the queue;
* `Worker.Inv.taken_of_stopped` — a worker that stopped has taken exactly what arrived ahead
  of the first entry that stops;
* `Work.countdown` — with such an entry in its queue a worker stops after so many steps,
  whatever else arrives;
* `Pool.Reachable.apart` — entries bound to one place are handled one at a time.
-/

namespace Workers

variable {σ ε : Type}

/-- Where a worker stands. -/
inductive Phase (ε : Type) where
  | waiting
  | handling (e : ε)
  | stopped (e : ε)

namespace Phase

/-- The entry that stopped the worker. -/
def stopper : Phase ε → Option ε
  | stopped e => some e
  | _ => none

/-- The steps a worker takes before it looks at its queue. -/
def lag : Phase ε → Nat
  | handling _ => 1
  | _ => 0

end Phase

/-- A queue and its worker, with what has arrived and what was taken out to be handled. -/
structure Worker (ε : Type) where
  queue : List ε
  phase : Phase ε
  arrived : List ε
  taken : List ε

namespace Worker

def init : Worker ε := ⟨[], .waiting, [], []⟩

/-- An entry arrives. -/
def arrive (w : Worker ε) (e : ε) : Worker ε :=
  { w with queue := w.queue ++ [e], arrived := w.arrived ++ [e] }

end Worker

/-- One step of a worker. -/
inductive Work (stops : ε → Bool) (w : Worker ε) : Worker ε → Prop
  | take (e : ε) (rest : List ε) (hp : w.phase = .waiting) (hq : w.queue = e :: rest)
      (hs : stops e = false) :
      Work stops w { w with queue := rest, phase := .handling e, taken := w.taken ++ [e] }
  | stop (e : ε) (rest : List ε) (hp : w.phase = .waiting) (hq : w.queue = e :: rest)
      (hs : stops e = true) : Work stops w { w with queue := rest, phase := .stopped e }
  | finish (e : ε) (hp : w.phase = .handling e) : Work stops w { w with phase := .waiting }

variable {stops : ε → Bool}

namespace Worker

/-! ## One worker -/

/-- First in, first out; an entry that stops is taken last. -/
structure Inv (stops : ε → Bool) (w : Worker ε) : Prop where
  order : w.arrived = w.taken ++ (w.phase.stopper.toList ++ w.queue)
  taken : ∀ e ∈ w.taken, stops e = false
  stopper : ∀ e, w.phase = .stopped e → stops e = true
  current : ∀ e, w.phase = .handling e → e ∈ w.taken

theorem Inv.init : Inv stops (init : Worker ε) where
  order := rfl
  taken _ h := by cases h
  stopper _ h := by cases h
  current _ h := by cases h

variable {w w' : Worker ε}

/-- An event that arrives is queued. -/
theorem Inv.arrive (h : Inv stops w) (e : ε) : Inv stops (w.arrive e) where
  order := by
    show w.arrived ++ [e] = w.taken ++ (w.phase.stopper.toList ++ (w.queue ++ [e]))
    rw [h.order]
    simp only [List.append_assoc]
  taken := h.taken
  stopper := h.stopper
  current := h.current

/-- A step of the worker keeps the invariant, one case a constructor. -/
theorem Inv.work (h : Inv stops w) (hw : Work stops w w') : Inv stops w' := by
  have horder := h.order
  cases hw with
  -- an entry goes from the queue to the taken ones
  | take e rest hp hq hs =>
    rw [hp, hq] at horder
    constructor
    case order =>
      rw [horder]
      simp [Phase.stopper]
    case taken =>
      intro x hx
      rcases List.mem_append.mp hx with hx | hx
      · exact h.taken x hx
      · rw [List.mem_singleton.mp hx]
        exact hs
    case stopper =>
      intro x hx
      cases hx
    case current =>
      intro x hx
      cases hx
      exact List.mem_append_right _ (List.mem_singleton_self e)
  -- it stops the worker, and counts as no taken one
  | stop e rest hp hq hs =>
    rw [hp, hq] at horder
    constructor
    case order =>
      rw [horder]
      simp [Phase.stopper]
    case taken => exact h.taken
    case stopper =>
      intro x hx
      cases hx
      exact hs
    case current =>
      intro x hx
      cases hx
  | finish e hp =>
    rw [hp] at horder
    constructor
    case order => exact horder
    case taken => exact h.taken
    case stopper =>
      intro x hx
      cases hx
    case current =>
      intro x hx
      cases hx

/-- Entries are taken in the order they arrive, none from behind one that stops. -/
theorem Inv.taken_first (h : Inv stops w) :
    w.taken <+: w.arrived.takeWhile fun e => !stops e := by
  rw [h.order, List.takeWhile_append_of_pos fun e he => by rw [h.taken e he]; rfl]
  exact List.prefix_append _ _

/-- **A worker that stopped** took exactly what had arrived ahead of the first entry that
stops. -/
theorem Inv.taken_of_stopped (h : Inv stops w) {e : ε} (hp : w.phase = .stopped e) :
    w.taken = w.arrived.takeWhile fun e => !stops e := by
  have horder := h.order
  rw [hp] at horder
  rw [horder, List.takeWhile_append_of_pos fun x hx => by rw [h.taken x hx]; rfl]
  simp [Phase.stopper, h.stopper e hp]

/-! ### The countdown of a worker that is told to stop -/

/-- The steps left to a worker that has an entry that stops in its queue. -/
def countdown (stops : ε → Bool) (w : Worker ε) : Nat :=
  match w.phase with
  | .stopped _ => 0
  | p => 2 * (w.queue.takeWhile fun e => !stops e).length + p.lag + 1

/-- The worker has stopped, or an entry that stops is in its queue. -/
def Told (stops : ε → Bool) (w : Worker ε) : Prop :=
  (∃ e, w.phase = .stopped e) ∨ ∃ e ∈ w.queue, stops e = true

/-- What arrives afterwards stands behind the entry that stops. -/
theorem countdown_arrive (h : Told stops w) (x : ε) :
    countdown stops (w.arrive x) = countdown stops w := by
  rcases h with ⟨e, hp⟩ | ⟨e, he, hs⟩
  · simp only [countdown, arrive, hp]
  · obtain ⟨front, back, hq⟩ := List.append_of_mem he
    have htake : (w.queue ++ [x]).takeWhile (fun e => !stops e)
        = w.queue.takeWhile fun e => !stops e := by
      rw [hq, List.append_assoc, List.cons_append, List.takeWhile_append, List.takeWhile_append]
      simp [hs]
    simp only [countdown, arrive, htake]

/-- Who was told to stop was so before an arrival. -/
theorem Told.arrive (h : Told stops w) (x : ε) : Told stops (w.arrive x) := by
  rcases h with hp | ⟨e, he, hs⟩
  · exact Or.inl hp
  · exact Or.inr ⟨e, List.mem_append_left _ he, hs⟩

end Worker

/-- **Each step counts down** to the one that stops the worker. -/
theorem Work.countdown {w w' : Worker ε} (h : Work stops w w') (ht : w.Told stops) :
    w'.Told stops ∧ w'.countdown stops < w.countdown stops := by
  -- until it has stopped, the entry that will stop it is in its queue
  have hqueue : (∀ e, w.phase ≠ .stopped e) → ∃ e ∈ w.queue, stops e = true := by
    intro hrun
    rcases ht with ⟨e, hp⟩ | hq
    · exact absurd hp (hrun e)
    · exact hq
  cases h with
  | take e rest hp hq hs =>
    obtain ⟨x, hx, hxs⟩ := hqueue fun e he => by rw [hp] at he; cases he
    rw [hq] at hx
    refine ⟨Or.inr ?_, ?_⟩
    · rcases List.mem_cons.mp hx with rfl | hx
      · rw [hs] at hxs
        cases hxs
      · exact ⟨x, hx, hxs⟩
    · simp only [Worker.countdown, hp, hq, hs, Phase.lag, Bool.not_false, List.takeWhile_cons,
        if_true, List.length_cons]
      omega
  | stop e rest hp hq hs =>
    refine ⟨Or.inl ⟨e, rfl⟩, ?_⟩
    simp only [Worker.countdown, hp]
    omega
  | finish e hp =>
    refine ⟨Or.inr (hqueue fun e he => by rw [hp] at he; cases he), ?_⟩
    simp only [Worker.countdown, hp, Phase.lag]
    omega

namespace Worker

/-- A worker that is told to stop and has not stopped can take a step. -/
theorem Told.progress {w : Worker ε} (h : Told stops w) :
    (∃ e, w.phase = .stopped e) ∨ ∃ w', Work stops w w' := by
  cases hp : w.phase with
  | stopped e => exact Or.inl ⟨e, rfl⟩
  | handling e => exact Or.inr ⟨_, .finish e hp⟩
  | waiting =>
    right
    cases hq : w.queue with
    | nil =>
      rcases h with ⟨e, he⟩ | ⟨e, he, -⟩
      · rw [hp] at he
        cases he
      · rw [hq] at he
        cases he
    | cons e rest =>
      cases hs : stops e with
      | false => exact ⟨_, .take e rest hp hq hs⟩
      | true => exact ⟨_, .stop e rest hp hq hs⟩

end Worker

/-! ## A pool -/

/-- A worker at every place. -/
abbrev Pool (σ ε : Type) := σ → Worker ε

namespace Pool

variable [DecidableEq σ]

/-- One step of a pool: an entry arrives, at the place it is bound to if it is bound to one,
or a worker moves. -/
inductive Step (stops : ε → Bool) (place : ε → Option σ) (p : Pool σ ε) : Pool σ ε → Prop
  | arrive (i : σ) (e : ε) (hplace : ∀ j, place e = some j → j = i) :
      Step stops place p (Function.update p i ((p i).arrive e))
  | work (i : σ) (w : Worker ε) (hw : Work stops (p i) w) :
      Step stops place p (Function.update p i w)

variable {place : ε → Option σ} {p : Pool σ ε}

/-- The pools reached from the empty one. -/
def Reachable (stops : ε → Bool) (place : ε → Option σ) (p : Pool σ ε) : Prop :=
  Relation.ReflTransGen (Step stops place) (fun _ => .init) p

/-- A worker that is told to stop stays so, and no step of the pool puts it off. -/
theorem Step.told {p' : Pool σ ε} (h : Step stops place p p') {i : σ} (ht : (p i).Told stops) :
    (p' i).Told stops ∧ (p' i).countdown stops ≤ (p i).countdown stops := by
  cases h with
  | arrive k e hplace =>
    rcases eq_or_ne i k with rfl | hk
    · rw [Function.update_self]
      exact ⟨ht.arrive e, (Worker.countdown_arrive ht e).le⟩
    · rw [Function.update_of_ne hk]
      exact ⟨ht, le_rfl⟩
  | work k w hw =>
    rcases eq_or_ne i k with rfl | hk
    · rw [Function.update_self]
      exact ⟨(hw.countdown ht).1, (hw.countdown ht).2.le⟩
    · rw [Function.update_of_ne hk]
      exact ⟨ht, le_rfl⟩

/-- What holds of every worker. -/
structure Inv (stops : ε → Bool) (place : ε → Option σ) (p : Pool σ ε) : Prop where
  worker : ∀ i, (p i).Inv stops
  placed : ∀ i, ∀ e ∈ (p i).arrived, ∀ j, place e = some j → j = i

/-- A step of the pool is one of a worker, or an arrival at its place. -/
theorem Step.inv {p' : Pool σ ε} (h : Step stops place p p') (hi : Inv stops place p) :
    Inv stops place p' := by
  -- the step is at place `i`, and leaves the others as they are
  have hat : ∀ (i : σ) (w : Worker ε), w.Inv stops →
      (∀ e ∈ w.arrived, ∀ j, place e = some j → j = i) →
      Inv stops place (Function.update p i w) := by
    intro i w hw hplaced
    constructor
    case worker =>
      intro k
      rcases eq_or_ne k i with rfl | hk
      · rw [Function.update_self]
        exact hw
      · rw [Function.update_of_ne hk]
        exact hi.worker k
    case placed =>
      intro k
      rcases eq_or_ne k i with rfl | hk
      · rw [Function.update_self]
        exact hplaced
      · rw [Function.update_of_ne hk]
        exact hi.placed k
  cases h with
  | arrive i e hplace =>
    refine hat i _ ((hi.worker i).arrive e) fun x hx => ?_
    rcases List.mem_append.mp hx with hx | hx
    · exact hi.placed i x hx
    · rw [List.mem_singleton.mp hx]
      exact hplace
  | work i w hw =>
    have harrived : w.arrived = (p i).arrived := by cases hw <;> rfl
    refine hat i w ((hi.worker i).work hw) ?_
    rw [harrived]
    exact hi.placed i

/-- In every run. Induction on it. -/
theorem Reachable.inv (h : Reachable stops place p) : Inv stops place p := by
  induction h with
  | refl => exact ⟨fun _ => .init, fun _ _ h => by cases h⟩
  | tail _ hstep ih => exact hstep.inv ih

omit [DecidableEq σ] in
theorem Inv.queued (h : Inv stops place p) (i : σ) : ∀ e ∈ (p i).queue, e ∈ (p i).arrived := by
  intro e he
  rw [(h.worker i).order]
  exact List.mem_append_right _ (List.mem_append_right _ he)

omit [DecidableEq σ] in
theorem Inv.handled (h : Inv stops place p) (i : σ) {e : ε} (hi : (p i).phase = .handling e) :
    e ∈ (p i).arrived := by
  rw [(h.worker i).order]
  exact List.mem_append_left _ ((h.worker i).current e hi)

omit [DecidableEq σ] in
/-- **One at a time.** Two workers that handle entries bound to one place are the same. -/
theorem Inv.apart (h : Inv stops place p) {i j k : σ} {e e' : ε} (hi : (p i).phase = .handling e)
    (hj : (p j).phase = .handling e') (he : place e = some k) (he' : place e' = some k) :
    i = j :=
  (h.placed i e (h.handled i hi) k he).symm.trans (h.placed j e' (h.handled j hj) k he')

end Pool

end Workers
