import Mathlib.Tactic
import Mathlib.Logic.Relation

/-!
# SendGate — a bounded queue that lets one item out at a time

Any number of threads push items into a queue under a lock. Two counters stand beside it:
`size`, raised before a push and compared with the capacity, and `pending`, raised by a
thread that wants to take the head out and lowered, outside the lock, when an item that was
sent has come back. A thread that finds `pending` raised already lowers it again, and tries
again when that makes it zero.

* `Reachable.inv` — the invariant, for every order of the threads' steps;
* `Inv.one_out` — at most one item is between its removal from the queue and its return;
* `Inv.sent_prefix` — items are sent in the order they were pushed;
* `Inv.awake` — no lost wake-up: an item in the queue has one before it that is still out,
  or a thread that is bound to look at the queue.
-/

namespace SendGate

variable {τ ι : Type}

/-- Where a thread stands. From `grow` to `leave` it holds the lock. -/
inductive Phase (ι : Type) where
  | out
  | retry
  | grow (x : ι)
  | shrink
  | push (x : ι)
  | look
  | raise
  | lower
  | pop
  | drop (x : ι)
  | leave (x : Option ι)
  | send (x : ι)

namespace Phase

/-- Inside the lock. -/
def inside : Phase ι → Bool
  | out | retry | send _ => false
  | _ => true

/-- The item a thread has taken out and not yet sent. -/
def carries : Phase ι → Option ι
  | drop x | send x => some x
  | leave x => x
  | _ => none

/-- What a thread inside contributes to the counts: how far `size` is ahead of the queue, the
room it has been granted and not used, what it has added to `pending` without having taken
an item out, and whether it has found that nothing is out. -/
structure Weight where
  counted : Int
  granted : Int
  raised : Int
  alone : Int

def weight : Phase ι → Weight
  | push _ => ⟨1, 1, 0, 0⟩
  | shrink | drop _ => ⟨1, 0, 0, 0⟩
  | lower => ⟨0, 0, 1, 0⟩
  | pop => ⟨0, 0, 1, 1⟩
  | _ => ⟨0, 0, 0, 0⟩

/-- The thread knows the queue to hold an item. -/
def serving : Phase ι → Bool
  | raise | lower | pop => true
  | _ => false

/-- The thread is bound to look at the queue, or is doing so. -/
def onDuty : Phase ι → Bool
  | retry | look | raise | lower | pop => true
  | _ => false

end Phase

/-- The queue, its lock and its counters, where each thread stands, and what has happened:
the items pushed, those sent, those flying (sent and not yet back) and those returned. -/
structure Gate (τ ι : Type) where
  lock : Option τ
  size : Int
  pending : Int
  queue : List ι
  phase : τ → Phase ι
  flying : List ι
  returned : List ι
  pushed : List ι
  sent : List ι

def Gate.init : Gate τ ι where
  lock := none
  size := 0
  pending := 0
  queue := []
  phase _ := .out
  flying := []
  returned := []
  pushed := []
  sent := []

/-- Thread `t` moves to phase `p`. -/
def Gate.goto [DecidableEq τ] (g : Gate τ ι) (t : τ) (p : Phase ι) : Gate τ ι :=
  { g with phase := Function.update g.phase t p }

/-- One step of one thread, for a queue of fewer than `cap` items. -/
inductive Step [DecidableEq τ] [DecidableEq ι] (cap : Int) (g : Gate τ ι) : Gate τ ι → Prop
  | enterPush (t : τ) (x : ι) (hp : g.phase t = .out) (hl : g.lock = none) :
      Step cap g ({ g with lock := some t }.goto t (.grow x))
  | enterLook (t : τ) (hp : g.phase t = .retry) (hl : g.lock = none) :
      Step cap g ({ g with lock := some t }.goto t .look)
  | grow (t : τ) (x : ι) (hp : g.phase t = .grow x) (h : g.size + 1 < cap) :
      Step cap g ({ g with size := g.size + 1 }.goto t (.push x))
  | overflow (t : τ) (x : ι) (hp : g.phase t = .grow x) (h : cap ≤ g.size + 1) :
      Step cap g ({ g with size := g.size + 1 }.goto t .shrink)
  | shrink (t : τ) (hp : g.phase t = .shrink) :
      Step cap g ({ g with size := g.size - 1 }.goto t (.leave none))
  | push (t : τ) (x : ι) (hp : g.phase t = .push x) :
      Step cap g ({ g with queue := g.queue ++ [x], pushed := g.pushed ++ [x] }.goto t .raise)
  | lookEmpty (t : τ) (hp : g.phase t = .look) (h : g.queue = []) :
      Step cap g (g.goto t (.leave none))
  | look (t : τ) (hp : g.phase t = .look) (h : g.queue ≠ []) : Step cap g (g.goto t .raise)
  | raise (t : τ) (hp : g.phase t = .raise) (h : g.pending + 1 ≤ 1) :
      Step cap g ({ g with pending := g.pending + 1 }.goto t .pop)
  | busy (t : τ) (hp : g.phase t = .raise) (h : 1 < g.pending + 1) :
      Step cap g ({ g with pending := g.pending + 1 }.goto t .lower)
  | lower (t : τ) (hp : g.phase t = .lower) (h : 0 < g.pending - 1) :
      Step cap g ({ g with pending := g.pending - 1 }.goto t (.leave none))
  | again (t : τ) (hp : g.phase t = .lower) (h : g.pending - 1 ≤ 0) :
      Step cap g ({ g with pending := g.pending - 1 }.goto t .raise)
  | pop (t : τ) (x : ι) (rest : List ι) (hp : g.phase t = .pop) (h : g.queue = x :: rest) :
      Step cap g ({ g with queue := rest }.goto t (.drop x))
  | drop (t : τ) (x : ι) (hp : g.phase t = .drop x) :
      Step cap g ({ g with size := g.size - 1 }.goto t (.leave (some x)))
  | leave (t : τ) (hp : g.phase t = .leave none) :
      Step cap g ({ g with lock := none }.goto t .out)
  | leaveSend (t : τ) (x : ι) (hp : g.phase t = .leave (some x)) :
      Step cap g ({ g with lock := none }.goto t (.send x))
  | send (t : τ) (x : ι) (hp : g.phase t = .send x) :
      Step cap g ({ g with flying := g.flying ++ [x], sent := g.sent ++ [x] }.goto t .out)
  | finish (t : τ) (x : ι) (hp : g.phase t = .out) (hx : x ∈ g.flying) :
      Step cap g ({ g with
        flying := g.flying.erase x
        returned := g.returned ++ [x]
        pending := g.pending - 1 }.goto t .retry)

/-! ## The invariant -/

/-- The weight of the thread that holds the lock. -/
def held (lock : Option τ) (phase : τ → Phase ι) : Phase.Weight :=
  match lock with
  | none => ⟨0, 0, 0, 0⟩
  | some t => (phase t).weight

/-- The item that is taken out and not yet sent, with its thread, when there is one. -/
abbrev Carrier (τ ι : Type) := Option (τ × ι)

def Carrier.items (c : Carrier τ ι) : List ι := (c.map Prod.snd).toList

@[simp] theorem Carrier.items_none : Carrier.items (none : Carrier τ ι) = [] := rfl

@[simp] theorem Carrier.items_some (t : τ) (x : ι) : Carrier.items (some (t, x)) = [x] := rfl

/-- The threads inside are the holder of the lock, and the thread with an item is the
carrier. -/
structure Mutex (lock : Option τ) (phase : τ → Phase ι) (c : Carrier τ ι) : Prop where
  lock : ∀ t, (phase t).inside = true ↔ lock = some t
  carrier : ∀ t x, (phase t).carries = some x ↔ c = some (t, x)

/-- What the counters count, and that one item is out at most, for the weight `w` of the
thread inside. A thread about to take the head finds nothing out. -/
structure Counts (cap size pending : Int) (queue flying out : List ι) (w : Phase.Weight) :
    Prop where
  size : size = queue.length + w.counted
  room : queue.length + w.granted < cap
  pending : pending = out.length + flying.length + w.raised
  oneOut : out.length + flying.length + w.alone ≤ 1

/-- The items: first in, first out; the one that flies was sent last; none is forgotten. -/
structure Flow (queue pushed sent flying returned : List ι) (phase : τ → Phase ι)
    (c : Carrier τ ι) :
    Prop where
  serving : ∀ t, (phase t).serving = true → queue ≠ []
  order : pushed = sent ++ c.items ++ queue
  back : sent = returned ++ flying
  awake : queue ≠ [] → c ≠ none ∨ flying ≠ [] ∨ ∃ t, (phase t).onDuty = true

structure Inv (cap : Int) (g : Gate τ ι) (c : Carrier τ ι) : Prop where
  mutex : Mutex g.lock g.phase c
  counts : Counts cap g.size g.pending g.queue g.flying c.items (held g.lock g.phase)
  flow : Flow g.queue g.pushed g.sent g.flying g.returned g.phase c

theorem Inv.init {cap : Int} (hcap : 0 < cap) : Inv cap (Gate.init : Gate τ ι) none where
  mutex := ⟨fun _ => by simp [Gate.init, Phase.inside],
    fun _ _ => by simp [Gate.init, Phase.carries]⟩
  counts := ⟨rfl, hcap, rfl, Int.zero_le_ofNat 1⟩
  flow := ⟨fun _ h => by simp [Gate.init, Phase.serving] at h, rfl, rfl, fun h => absurd rfl h⟩

section

variable [DecidableEq τ] {lock : Option τ} {phase : τ → Phase ι} {c : Carrier τ ι} {t : τ}
  {p : Phase ι}

/-! ### The lock and the carrier -/

namespace Mutex

/-- One thread moves: what has to be shown of it, and that the others see no change. -/
theorem update {lock' : Option τ} {c' : Carrier τ ι} (h : Mutex lock phase c)
    (hin : p.inside = true ↔ lock' = some t) (hcar : ∀ x, p.carries = some x ↔ c' = some (t, x))
    (hlock : ∀ u, u ≠ t → (lock' = some u ↔ lock = some u))
    (hc : ∀ u x, u ≠ t → (c' = some (u, x) ↔ c = some (u, x))) :
    Mutex lock' (Function.update phase t p) c' := by
  constructor
  · intro u
    rcases eq_or_ne u t with rfl | hu
    · rw [Function.update_self]
      exact hin
    · rw [Function.update_of_ne hu, hlock u hu]
      exact h.lock u
  · intro u x
    rcases eq_or_ne u t with rfl | hu
    · rw [Function.update_self]
      exact hcar x
    · rw [Function.update_of_ne hu, hc u x hu]
      exact h.carrier u x

/-- The thread neither crosses the lock nor changes what it carries. -/
theorem move (h : Mutex lock phase c) (hin : p.inside = (phase t).inside)
    (hcar : p.carries = (phase t).carries) : Mutex lock (Function.update phase t p) c :=
  h.update (hin ▸ h.lock t) (fun x => hcar ▸ h.carrier t x) (fun _ _ => Iff.rfl)
    fun _ _ _ => Iff.rfl

/-- A thread that takes the lock is inside alone. -/
theorem enter (h : Mutex none phase c) (hin : p.inside = true)
    (hcar : p.carries = (phase t).carries) : Mutex (some t) (Function.update phase t p) c :=
  h.update (by simp [hin]) (fun x => hcar ▸ h.carrier t x) (fun u hu => by simp [hu.symm])
    fun _ _ _ => Iff.rfl

/-- A thread that leaves it is not. -/
theorem leave (h : Mutex (some t) phase c) (hin : p.inside = false)
    (hcar : p.carries = (phase t).carries) : Mutex none (Function.update phase t p) c :=
  h.update (by simp [hin]) (fun x => hcar ▸ h.carrier t x) (fun u hu => by simp [hu.symm])
    fun _ _ _ => Iff.rfl

theorem take {x : ι} (h : Mutex lock phase none) (hin : p.inside = (phase t).inside)
    (hcar : p.carries = some x) : Mutex lock (Function.update phase t p) (some (t, x)) :=
  h.update (hin ▸ h.lock t) (fun y => by simp [hcar]) (fun _ _ => Iff.rfl)
    fun u y hu => by simp [hu.symm]

theorem release {x : ι} (h : Mutex lock phase (some (t, x))) (hin : p.inside = (phase t).inside)
    (hcar : p.carries = none) : Mutex lock (Function.update phase t p) none :=
  h.update (hin ▸ h.lock t) (fun y => by simp [hcar]) (fun _ _ => Iff.rfl)
    fun u y hu => by simp [hu.symm]

end Mutex

/-! ### The counters -/

theorem held_update_self : held (some t) (Function.update phase t p) = p.weight := by
  rw [held, Function.update_self]

theorem held_update_of_ne (h : lock ≠ some t) :
    held lock (Function.update phase t p) = held lock phase := by
  cases lock with
  | none => rfl
  | some u => rw [held, Function.update_of_ne fun heq => h (congrArg some heq), held]

omit [DecidableEq τ] in
/-- It adds to the counter at most. -/
theorem held_alone_nonneg (lock : Option τ) (phase : τ → Phase ι) :
    0 ≤ (held lock phase).alone := by
  cases lock with
  | none => exact Int.le_refl 0
  | some t => cases h : phase t <;> simp [held, h, Phase.weight]

/-! ### The items -/

namespace Flow

variable {queue pushed sent flying returned : List ι}

/-- A thread moves and the items stay: it may become a server of a queue that holds an item,
and gives up its duty only when there is nothing to be served or something is out. -/
theorem move (h : Flow queue pushed sent flying returned phase c)
    (hserve : p.serving = true → queue ≠ [])
    (hduty : (phase t).onDuty = true →
      p.onDuty = true ∨ queue = [] ∨ c ≠ none ∨ flying ≠ []) :
    Flow queue pushed sent flying returned (Function.update phase t p) c where
  serving u hu := by
    rcases eq_or_ne u t with rfl | hne
    · rw [Function.update_self] at hu
      exact hserve hu
    · rw [Function.update_of_ne hne] at hu
      exact h.serving u hu
  order := h.order
  back := h.back
  awake hq := by
    rcases h.awake hq with hc | hf | ⟨u, hu⟩
    · exact Or.inl hc
    · exact Or.inr (Or.inl hf)
    · rcases eq_or_ne u t with rfl | hne
      · rcases hduty hu with hp | hempty | hc | hf
        · exact Or.inr (Or.inr ⟨u, by rw [Function.update_self]; exact hp⟩)
        · exact absurd hempty hq
        · exact Or.inl hc
        · exact Or.inr (Or.inl hf)
      · exact Or.inr (Or.inr ⟨u, by rw [Function.update_of_ne hne]; exact hu⟩)

/-- An item is pushed by a thread that goes on to serve the queue. -/
theorem push (h : Flow queue pushed sent flying returned phase c) (x : ι) (hp : p.onDuty = true) :
    Flow (queue ++ [x]) (pushed ++ [x]) sent flying returned (Function.update phase t p) c where
  serving _ _ := by simp
  order := by rw [h.order, List.append_assoc]
  back := h.back
  awake _ := Or.inr (Or.inr ⟨t, by rw [Function.update_self]; exact hp⟩)

/-- The head is taken out. Only the thread that takes it was serving the queue. -/
theorem pop {x : ι} {rest : List ι} (h : Flow (x :: rest) pushed sent flying returned phase none)
    (hp : p.serving = false)
    (hothers : ∀ u, u ≠ t → (phase u).serving = false) :
    Flow rest pushed sent flying returned (Function.update phase t p) (some (t, x)) where
  serving u hu := by
    rcases eq_or_ne u t with rfl | hne
    · rw [Function.update_self, hp] at hu
      cases hu
    · rw [Function.update_of_ne hne, hothers u hne] at hu
      cases hu
  order := by rw [h.order]; simp
  back := h.back
  awake _ := Or.inl (by simp)

/-- The item taken out is sent. -/
theorem send {x : ι} (h : Flow queue pushed sent flying returned phase (some (t, x)))
    (hp : p.serving = false) :
    Flow queue pushed (sent ++ [x]) (flying ++ [x]) returned (Function.update phase t p) none where
  serving u hu := by
    rcases eq_or_ne u t with rfl | hne
    · rw [Function.update_self, hp] at hu
      cases hu
    · rw [Function.update_of_ne hne] at hu
      exact h.serving u hu
  order := by rw [h.order]; simp
  back := by rw [h.back, List.append_assoc]
  awake _ := Or.inr (Or.inl (by simp))

/-- An item comes back: its thread is on duty. -/
theorem finish {x : ι} (h : Flow queue pushed sent [x] returned phase c)
    (hserve : p.serving = false) (hp : p.onDuty = true) :
    Flow queue pushed sent [] (returned ++ [x]) (Function.update phase t p) c where
  serving u hu := by
    rcases eq_or_ne u t with rfl | hne
    · rw [Function.update_self, hserve] at hu
      cases hu
    · rw [Function.update_of_ne hne] at hu
      exact h.serving u hu
  order := h.order
  back := by rw [h.back, List.append_nil]
  awake _ := Or.inr (Or.inr ⟨t, by rw [Function.update_self]; exact hp⟩)

end Flow

/-! ### One step -/

section

variable {cap : Int} {g : Gate τ ι} {q : Phase ι} {x : ι}

omit [DecidableEq τ] in
theorem Inv.lock_eq (hi : Inv cap g c) (hq : g.phase t = q) (hin : q.inside = true) :
    g.lock = some t :=
  (hi.mutex.lock t).mp (hq ▸ hin)

omit [DecidableEq τ] in
/-- The counters, seen by the thread inside. -/
theorem Inv.counts_at (hi : Inv cap g c) (hq : g.phase t = q) (hin : q.inside = true) :
    Counts cap g.size g.pending g.queue g.flying c.items q.weight := by
  have h := hi.counts
  rwa [hi.lock_eq hq hin, held, hq] at h

omit [DecidableEq τ] in
/-- The thread with an item is its carrier. -/
theorem Inv.carrier_eq (hi : Inv cap g c) (hq : g.phase t = q) (hx : q.carries = some x) :
    c = some (t, x) :=
  (hi.mutex.carrier t x).mp (hq ▸ hx)

/-- A step inside the lock that touches the counters only. -/
theorem Inv.stay (hi : Inv cap g c) (p : Phase ι) (size pending : Int) (hq : g.phase t = q)
    (hqin : q.inside = true) (hpin : p.inside = true) (hcar : p.carries = q.carries)
    (hcounts : Counts cap g.size g.pending g.queue g.flying c.items q.weight →
      Counts cap size pending g.queue g.flying c.items p.weight)
    (hserve : p.serving = true → g.queue ≠ [])
    (hduty : q.onDuty = true → p.onDuty = true ∨ g.queue = [] ∨ c ≠ none ∨ g.flying ≠ []) :
    Inv cap ({ g with size := size, pending := pending }.goto t p) c where
  mutex := hi.mutex.move (by rw [hpin, hq, hqin]) (by rw [hcar, hq])
  counts := by
    show Counts cap size pending g.queue g.flying c.items
      (held g.lock (Function.update g.phase t p))
    rw [hi.lock_eq hq hqin, held_update_self]
    exact hcounts (hi.counts_at hq hqin)
  flow := hi.flow.move hserve (by rw [hq]; exact hduty)

/-- A step into the lock. -/
theorem Inv.enter (hi : Inv cap g c) (p : Phase ι) (hl : g.lock = none) (hq : g.phase t = q)
    (hpin : p.inside = true) (hcar : p.carries = q.carries) (hweight : p.weight = ⟨0, 0, 0, 0⟩)
    (hserve : p.serving = false) (hduty : q.onDuty = true → p.onDuty = true) :
    Inv cap ({ g with lock := some t }.goto t p) c where
  mutex := by
    have hm := hi.mutex
    rw [hl] at hm
    exact hm.enter hpin (by rw [hcar, hq])
  counts := by
    have hc := hi.counts
    rw [hl, held] at hc
    show Counts cap _ _ _ _ _ (held (some t) (Function.update g.phase t p))
    rwa [held_update_self, hweight]
  flow := hi.flow.move (fun h => by rw [hserve] at h; cases h)
    fun h => Or.inl (hduty (hq ▸ h))

/-- A step out of the lock. -/
theorem Inv.leave (hi : Inv cap g c) (p : Phase ι) {x : Option ι} (hq : g.phase t = .leave x)
    (hpin : p.inside = false) (hcar : p.carries = x) (hserve : p.serving = false) :
    Inv cap ({ g with lock := none }.goto t p) c where
  mutex := by
    have hm := hi.mutex
    rw [hi.lock_eq hq rfl] at hm
    exact hm.leave hpin (by rw [hcar, hq]; rfl)
  counts := hi.counts_at hq rfl
  flow := hi.flow.move (fun h => by rw [hserve] at h; cases h)
    (fun h => by rw [hq] at h; cases h)

end

/-- **One step keeps the invariant.** One case a constructor; the carrier after it is that of the
step. -/
theorem Step.inv [DecidableEq ι] {cap : Int} {g g' : Gate τ ι} (h : Step cap g g')
    (hi : Inv cap g c) : ∃ c', Inv cap g' c' := by
  cases h with
  -- the lock is free, and the thread that takes it is the first inside
  | enterPush t x hp hl =>
    exact ⟨c, hi.enter (.grow x) hl hp rfl rfl rfl rfl fun h => by cases h⟩
  | enterLook t hp hl => exact ⟨c, hi.enter .look hl hp rfl rfl rfl rfl fun _ => rfl⟩
  -- the size counts the thread that has raised it and not pushed yet
  | grow t x hp hroom =>
    refine ⟨c, hi.stay (.push x) _ _ hp rfl rfl rfl (fun ⟨hsize, _, hpending, hone⟩ => ?_)
      (fun h => by cases h) fun h => by cases h⟩
    simp only [Phase.weight] at *
    constructor <;> dsimp only <;> omega
  | overflow t x hp hfull =>
    refine ⟨c, hi.stay .shrink _ _ hp rfl rfl rfl (fun ⟨hsize, hroom, hpending, hone⟩ => ?_)
      (fun h => by cases h) fun h => by cases h⟩
    simp only [Phase.weight] at *
    constructor <;> dsimp only <;> omega
  | shrink t hp =>
    refine ⟨c, hi.stay (.leave none) _ _ hp rfl rfl rfl
      (fun ⟨hsize, hroom, hpending, hone⟩ => ?_) (fun h => by cases h) fun h => by cases h⟩
    simp only [Phase.weight] at *
    constructor <;> dsimp only <;> omega
  -- what the thread had in hand is in the queue: the same size
  | push t x hp =>
    obtain ⟨hsize, hroom, hpending, hone⟩ := hi.counts_at hp rfl
    have hlen : (g.queue ++ [x]).length = g.queue.length + 1 := List.length_append
    refine ⟨c, hi.mutex.move (by rw [hp]; rfl) (by rw [hp]; rfl), ?_, hi.flow.push x rfl⟩
    show Counts cap _ _ _ _ _ (held g.lock (Function.update g.phase t .raise))
    rw [hi.lock_eq hp rfl, held_update_self]
    simp only [Phase.weight] at *
    constructor <;> dsimp only [Gate.goto] <;> omega
  -- nobody has to be woken for an empty queue
  | lookEmpty t hp hempty =>
    exact ⟨c, hi.stay (.leave none) g.size g.pending hp rfl rfl rfl id (fun h => by cases h)
      fun _ => Or.inr (Or.inl hempty)⟩
  | look t hp hne =>
    exact ⟨c, hi.stay .raise g.size g.pending hp rfl rfl rfl id (fun _ => hne)
      fun _ => Or.inl rfl⟩
  -- the first to raise the counter may take the head
  | raise t hp hfree =>
    refine ⟨c, hi.stay .pop _ _ hp rfl rfl rfl (fun ⟨hsize, hroom, hpending, hone⟩ => ?_)
      (fun _ => hi.flow.serving t (by rw [hp]; rfl)) fun _ => Or.inl rfl⟩
    simp only [Phase.weight] at *
    constructor <;> dsimp only <;> omega
  | busy t hp hbusy =>
    refine ⟨c, hi.stay .lower _ _ hp rfl rfl rfl (fun ⟨hsize, hroom, hpending, hone⟩ => ?_)
      (fun _ => hi.flow.serving t (by rw [hp]; rfl)) fun _ => Or.inl rfl⟩
    simp only [Phase.weight] at *
    constructor <;> dsimp only <;> omega
  | lower t hp hbusy =>
    -- the thread leaves the queue as it is because an item is out
    have hpending := (hi.counts_at hp rfl).pending
    have hout : c ≠ none ∨ g.flying ≠ [] := by
      by_contra hnone
      simp only [ne_eq, not_or, not_not] at hnone
      simp only [hnone.1, hnone.2, Carrier.items_none, List.length_nil, Phase.weight] at hpending
      omega
    refine ⟨c, hi.stay (.leave none) _ _ hp rfl rfl rfl
      (fun ⟨hsize, hroom, hpending, hone⟩ => ?_) (fun h => by cases h)
      fun _ => Or.inr (Or.inr hout)⟩
    simp only [Phase.weight] at *
    constructor <;> dsimp only <;> omega
  -- the item that was out came back in between: the thread tries again
  | again t hp hlast =>
    refine ⟨c, hi.stay .raise _ _ hp rfl rfl rfl (fun ⟨hsize, hroom, hpending, hone⟩ => ?_)
      (fun _ => hi.flow.serving t (by rw [hp]; rfl)) fun _ => Or.inl rfl⟩
    simp only [Phase.weight] at *
    constructor <;> dsimp only <;> omega
  -- the counter was free, so that nothing is out, neither flying nor carried
  | pop t x rest hp hqueue =>
    obtain ⟨hsize, hroom, hpending, hone⟩ := hi.counts_at hp rfl
    have hlen : g.queue.length = rest.length + 1 := by rw [hqueue]; rfl
    simp only [Phase.weight] at *
    have hflying : g.flying = [] := List.length_eq_zero_iff.mp (by omega)
    have hc : c = none := by
      cases c with
      | none => rfl
      | some u =>
        obtain ⟨u, y⟩ := u
        simp only [Carrier.items_some, List.length_singleton] at hone
        omega
    subst hc
    -- and nobody else serves, being outside of the lock
    have hothers : ∀ u, u ≠ t → (g.phase u).serving = false := by
      intro u hu
      by_contra hserve
      have hin : (g.phase u).inside = true := by
        cases hphase : g.phase u <;> simp [hphase, Phase.serving, Phase.inside] at hserve ⊢
      have heq := ((hi.mutex.lock u).mp hin).symm.trans (hi.lock_eq hp rfl)
      exact hu (Option.some.inj heq)
    have hflow := hi.flow
    rw [hqueue] at hflow
    refine ⟨some (t, x), hi.mutex.take (by rw [hp]; rfl) rfl, ?_,
      hflow.pop rfl hothers⟩
    show Counts cap _ _ _ _ _ (held g.lock (Function.update g.phase t (.drop x)))
    rw [hi.lock_eq hp rfl, held_update_self]
    simp only [Carrier.items_none, List.length_nil] at *
    constructor <;> simp only [Gate.goto, Phase.weight, Carrier.items_some, List.length_singleton]
      <;> omega
  | drop t x hp =>
    refine ⟨c, hi.stay (.leave (some x)) _ _ hp rfl rfl rfl
      (fun ⟨hsize, hroom, hpending, hone⟩ => ?_) (fun h => by cases h) fun h => by cases h⟩
    simp only [Phase.weight] at *
    constructor <;> dsimp only <;> omega
  | leave t hp => exact ⟨c, hi.leave .out hp rfl rfl rfl⟩
  | leaveSend t x hp => exact ⟨c, hi.leave (.send x) hp rfl rfl rfl⟩
  -- the one carried item flies
  | send t x hp =>
    have hc := hi.carrier_eq hp rfl
    subst hc
    have hl : g.lock ≠ some t := by
      intro hl
      have hin := (hi.mutex.lock t).mpr hl
      rw [hp] at hin
      cases hin
    obtain ⟨hsize, hroom, hpending, hone⟩ := hi.counts
    have hone' := hone
    simp only [Carrier.items_some, List.length_singleton] at hone' hpending
    have halone := held_alone_nonneg g.lock g.phase
    have hflying : g.flying = [] := List.length_eq_zero_iff.mp (by omega)
    refine ⟨none, hi.mutex.release (by rw [hp]; rfl) rfl, ?_, hi.flow.send rfl⟩
    show Counts cap _ _ _ _ _ (held g.lock (Function.update g.phase t .out))
    rw [held_update_of_ne hl]
    constructor <;> simp only [Gate.goto, hflying, List.nil_append, List.length_singleton,
      Carrier.items_none, List.length_nil] at * <;> omega
  -- the one item that flies is back, and its handler is to look at the queue
  | finish t x hp hx =>
    have hl : g.lock ≠ some t := by
      intro hl
      have hin := (hi.mutex.lock t).mpr hl
      rw [hp] at hin
      cases hin
    obtain ⟨hsize, hroom, hpending, hone⟩ := hi.counts
    have halone := held_alone_nonneg g.lock g.phase
    obtain ⟨y, hy⟩ := List.length_eq_one_iff.mp
      (Nat.le_antisymm (show g.flying.length ≤ 1 by omega) (List.length_pos_of_mem hx))
    rw [hy, List.mem_singleton] at hx
    subst hx
    have hflow := hi.flow
    rw [hy] at hflow
    refine ⟨c, hi.mutex.move (by rw [hp]; rfl) (by rw [hp]; rfl), ?_, ?_⟩
    · show Counts cap _ _ _ _ _ (held g.lock (Function.update g.phase t .retry))
      rw [held_update_of_ne hl]
      constructor <;> simp only [Gate.goto, hy, List.erase_cons_head, List.length_nil,
        List.length_singleton] at * <;> omega
    · show Flow _ _ _ (g.flying.erase x) _ _ _
      rw [hy, List.erase_cons_head]
      exact hflow.finish rfl rfl

end

/-! ## Every reachable gate -/

section

variable [DecidableEq τ] [DecidableEq ι]

/-- The gates reached from the empty one, whatever the order of the threads' steps. -/
def Reachable (cap : Int) (g : Gate τ ι) : Prop := Relation.ReflTransGen (Step cap) Gate.init g

/-- **The invariant holds in every reachable gate.** -/
theorem Reachable.inv {cap : Int} (hcap : 0 < cap) {g : Gate τ ι} (h : Reachable cap g) :
    ∃ c, Inv cap g c := by
  induction h with
  | refl => exact ⟨none, Inv.init hcap⟩
  | tail _ hstep ih =>
    obtain ⟨c, hi⟩ := ih
    exact hstep.inv hi

end

/-! ## What the invariant says -/

namespace Inv

variable {cap : Int} {g : Gate τ ι} {c : Carrier τ ι}

/-- With the lock free, `size` is the length of the queue. -/
theorem size_of_unlocked (h : Inv cap g c) (hl : g.lock = none) :
    g.size = g.queue.length ∧ g.size < cap := by
  have hc := h.counts
  rw [hl, held] at hc
  have hsize := hc.size
  have hroom := hc.room
  dsimp only at hsize hroom
  omega

theorem pending_nonneg (h : Inv cap g c) : 0 ≤ g.pending := by
  have hpending := h.counts.pending
  have hraised : 0 ≤ (held g.lock g.phase).raised := by
    cases hl : g.lock with
    | none => exact Int.le_refl 0
    | some t => cases hp : g.phase t <;> simp [held, hp, Phase.weight]
  omega

/-- A thread that takes the head out finds one. -/
theorem queue_ne_nil (h : Inv cap g c) {t : τ} (hp : g.phase t = .pop) : g.queue ≠ [] :=
  h.flow.serving t (by rw [hp]; rfl)

/-- While a thread has an item it took out, none is flying, and no other thread has one. -/
theorem carries_unique (h : Inv cap g c) {t u : τ} {x y : ι} (hx : (g.phase t).carries = some x)
    (hy : (g.phase u).carries = some y) : t = u ∧ x = y := by
  have heq := ((h.mutex.carrier t x).mp hx).symm.trans ((h.mutex.carrier u y).mp hy)
  simpa using heq

theorem flying_of_carries (h : Inv cap g c) {t : τ} {x : ι} (hx : (g.phase t).carries = some x) :
    g.flying = [] := by
  have hone := h.counts.oneOut
  have halone := held_alone_nonneg g.lock g.phase
  rw [(h.mutex.carrier t x).mp hx, Carrier.items_some, List.length_singleton] at hone
  exact List.length_eq_zero_iff.mp (by omega)

theorem flying_length_le (h : Inv cap g c) : g.flying.length ≤ 1 := by
  have hone := h.counts.oneOut
  have halone := held_alone_nonneg g.lock g.phase
  omega

/-- **One item out.** An item that was taken out and is not back yet is the only one. -/
theorem one_out (h : Inv cap g c) {x y : ι}
    (hx : x ∈ g.flying ∨ ∃ t, (g.phase t).carries = some x)
    (hy : y ∈ g.flying ∨ ∃ t, (g.phase t).carries = some y) : x = y := by
  rcases hx with hx | ⟨t, ht⟩
  · rcases hy with hy | ⟨u, hu⟩
    · obtain ⟨z, hz⟩ := List.length_eq_one_iff.mp
        (Nat.le_antisymm h.flying_length_le (List.length_pos_of_mem hx))
      rw [hz, List.mem_singleton] at hx hy
      rw [hx, hy]
    · rw [h.flying_of_carries hu] at hx
      cases hx
  · rcases hy with hy | ⟨u, hu⟩
    · rw [h.flying_of_carries ht] at hy
      cases hy
    · exact (h.carries_unique ht hu).2

/-- Items are sent in the order they were pushed. -/
theorem sent_prefix (h : Inv cap g c) : g.sent <+: g.pushed := by
  rw [h.flow.order, List.append_assoc]
  exact List.prefix_append _ _

/-- What was sent has come back or is on its way, in this order. -/
theorem sent_eq (h : Inv cap g c) : g.sent = g.returned ++ g.flying := h.flow.back

/-- **No lost wake-up.** Behind an item in the queue there is one that is out, or a thread
that is bound to look at the queue. -/
theorem awake (h : Inv cap g c) (hq : g.queue ≠ []) :
    (∃ x, x ∈ g.flying ∨ ∃ t, (g.phase t).carries = some x)
      ∨ ∃ t, (g.phase t).onDuty = true := by
  rcases h.flow.awake hq with hc | hf | hduty
  · cases c with
    | none => exact absurd rfl hc
    | some u =>
      obtain ⟨t, x⟩ := u
      exact Or.inl ⟨x, Or.inr ⟨t, (h.mutex.carrier t x).mpr rfl⟩⟩
  · obtain ⟨x, hx⟩ := List.exists_mem_of_ne_nil _ hf
    exact Or.inl ⟨x, Or.inl hx⟩
  · exact Or.inr hduty

end Inv

end SendGate
