import Swnet.Lib.Places
import Swnet.Sys.Hands
import Swnet.Sys.Counting

/-!
# Swnet — where the packets are

A packet goes from `allocate_packet` through the hands of the jobs, the requests of the system
and the send queues of the links to `freepkt`. Some are lost on the way, and stay allocated for
good; none is ever in two hands.

* `answer_handled` — what a call does with the packets;
* `Housed` — every packet is in one place at most, and what is anywhere was allocated;
* `packets_safe` — no packet is freed twice, posted twice at a time, or touched after it was
  freed or while the system has it, in any run.

A step moves packets from place to place (`Shift`), drops some, and makes new ones, and a shift
keeps them apart. So each call, each start and each end of a job is shown to be a shift, from what
the ledger of the hands says that the job has when it makes the call; the rest is the library.
-/

namespace Swnet.Sys

open Jobs Jobs.Prog Places

/-! ## Send queues -/

/-- What an access that answers `a` does to the send queue of a link. -/
inductive Access.Queues (x : Access) (a : Int) : List Int → List Int → Prop where
  | same (queue : List Int) (hadd : ∀ k, x ≠ .addTail k) (hpop : x ≠ .popFront) :
      Queues x a queue queue
  | lost (queue : List Int) (hx : x = .initListHead) : Queues x a queue []
  | added {k : Int} (queue : List Int) (hx : x = .addTail k) : Queues x a queue (queue ++ [k])
  -- there is no list to link it into
  | dropped {k : Int} (hx : x = .addTail k) : Queues x a [] []
  | taken (queue : List Int) (hx : x = .popFront) : Queues x a (a :: queue) queue

/-- An access changes the queue as `addTail`, `popFront` and the list head do, or not at all. -/
theorem Access.apply_queues {x : Access} {a : Int} {o o' : Obj} (h : x.apply a o = some o') :
    x.Queues a (o.cacheHead.getD []) (o'.cacheHead.getD []) := by
  cases x with
  | addTail k =>
      cases h
      cases hc : o.cacheHead with
      | none => exact .dropped rfl
      | some queue => exact .added queue rfl
  | popFront =>
      simp only [Access.apply] at h
      split at h
      next k queue hc =>
        split at h
        next heq =>
          cases h
          rw [hc, heq]
          exact .taken queue rfl
        · cases h
      · cases h
  | initListHead =>
      cases h
      exact .lost _ rfl
  | _ =>
      have hsame : o'.cacheHead = o.cacheHead := by
        simp only [Access.apply] at h
        grind [Obj.ioclose]
      rw [hsame]
      exact .same _ (by simp) (by simp)

/-- The unload routine frees the packets of the queue, or leaves them where they are. -/
theorem Obj.unload_queue (o : Obj) :
    (o.unload.2 = [] ∧ o.unload.1.cacheHead = o.cacheHead)
      ∨ (o.unload.2 = o.cacheHead.getD [] ∧ o.unload.1.cacheHead = some []) := by
  have hclose : ∀ o : Obj, o.ioclose.cacheHead = o.cacheHead := by
    intro o
    unfold ioclose
    split <;> rfl
  unfold unload
  dsimp only
  split
  · unfold tcpUnload
    dsimp only
    split
    next queue hlocker hqueue =>
      rw [drain_eq]
      rw [hclose] at hqueue
      exact .inr ⟨by rw [show o.cacheHead = some queue from hqueue]; rfl, rfl⟩
    · exact .inl ⟨rfl, hclose _⟩
  · exact .inl ⟨rfl, hclose _⟩

namespace World

variable {w w' : World} {h : Int} {o : Obj}

/-- The packets in the send queue of link `h`. -/
def queue (w : World) (h : Int) : List Int :=
  match w.obj h with
  | some o => o.cacheHead.getD []
  | none => []

theorem queue_some (ho : w.obj h = some o) : w.queue h = o.cacheHead.getD [] := by
  rw [queue, ho]

theorem queue_of_obj {k : Int} (ho : w'.obj k = w.obj k) : w'.queue k = w.queue k := by
  rw [queue, queue, ho]

theorem queue_setObj (w : World) (h : Int) (o : Obj) :
    (w.setObj h o).queue = Function.update w.queue h (o.cacheHead.getD []) := by
  funext k
  by_cases hk : k = h
  · subst hk
    rw [queue_some (o := o) (by simp), Function.update_self]
  · rw [Function.update_of_ne hk]
    exact queue_of_obj (by rw [setObj_obj, Function.update_of_ne hk])

/-- An object that is changed keeps its queue. -/
theorem queue_setObj_of {o₁ : Obj} (ho : w.obj h = some o) (h₁ : o₁.cacheHead = o.cacheHead) :
    (w.setObj h o₁).queue = w.queue := by
  rw [queue_setObj, h₁, ← queue_some ho, Function.update_eq_self]

/-- The unload routine allocates nothing. -/
@[simp] theorem settle_allocated (w : World) (h : Int) : (w.settle h).allocated = w.allocated := by
  unfold settle unload
  split
  · split
    · simp [setObj]
    · rfl
  · rfl

/-- The queue of an object that is unloaded is freed as a whole. -/
theorem settle_queue (w : World) (h : Int) :
    ((w.settle h).queue = w.queue ∧ (w.settle h).freed = w.freed)
      ∨ ((w.settle h).queue = Function.update w.queue h []
        ∧ (w.settle h).freed = w.queue h ++ w.freed) := by
  cases ho : w.obj h with
  | none =>
      rw [settle_obj_none ho]
      exact .inl ⟨rfl, rfl⟩
  | some o =>
      unfold settle
      rw [ho]
      dsimp only
      split
      · have hfreed : (w.unload h o).freed = o.unload.2 ++ w.freed := by
          unfold unload
          dsimp only
          rw [tell_freed, tell_freed]
        have hqueue : (w.unload h o).queue = Function.update w.queue h
            (o.unload.1.cacheHead.getD []) := by
          rw [← queue_setObj]
          funext k
          exact queue_of_obj (by rw [unload_obj, setObj_obj])
        rw [hfreed, hqueue]
        rcases o.unload_queue with ⟨hnone, hsame⟩ | ⟨hall, hempty⟩
        · rw [hnone, hsame, ← queue_some ho, Function.update_eq_self]
          exact .inl ⟨rfl, rfl⟩
        · rw [hall, hempty, ← queue_some ho]
          exact .inr ⟨rfl, rfl⟩
      · exact .inl ⟨rfl, rfl⟩

end World

/-! ## Places -/

/-- The places a packet can be in. -/
inductive PacketPlace (τ : Type) where
  | request
  | freed
  | queue (h : Int)
  | hand (u : τ)

section

variable {τ : Type} [DecidableEq τ] {w w' : World} {rec : τ → List Int} {c : Call} {a : Int} {u : τ}

/-- The packets in each place, for what is on record of the jobs. -/
def placed (w : World) (rec : τ → List Int) : PacketPlace τ → List Int
  | .request => w.posted.map IoPacket.packet
  | .freed => w.freed
  | .queue h => w.queue h
  | .hand u => rec u

/-- Only the hand of thread `u` changes. -/
theorem placed_hand (w : World) (rec : τ → List Int) (u : τ) (g : List Int) (x : PacketPlace τ) :
    placed w (Function.update rec u g) x
      = match x with
        | .hand v => if v = u then g else rec v
        | x => placed w rec x := by
  cases x with
  | hand v => exact Function.update_apply ..
  | _ => rfl

/-- A call that makes, moves and loses no packet. -/
theorem placed_same (hposted : w'.posted = w.posted) (hfreed : w'.freed = w.freed)
    (hqueue : w'.queue = w.queue) {g : List Int} (hg : g = rec u) :
    Shift (placed w rec) (placed w' (Function.update rec u g)) [] := by
  refine .same (funext fun x => ?_)
  rw [hg, Function.update_eq_self]
  cases x with
  | request => exact congrArg (List.map IoPacket.packet) hposted
  | freed => exact hfreed
  | queue h => exact congrFun hqueue h
  | hand v => rfl

/-- Packets are in one place at most, and what is anywhere was allocated. -/
structure Housed (w : World) (rec : τ → List Int) : Prop where
  apart : Apart (placed w rec)
  allocated : ∀ x, ∀ k ∈ placed w rec x, k ∈ w.allocated

/-- What a step does with the packets: those it makes are new. -/
structure Handled (w w' : World) (rec rec' : τ → List Int) : Prop where
  intro ::
  shift : ∃ made, Shift (placed w rec) (placed w' rec') made ∧ (∀ k ∈ made, k ∉ w.allocated)
    ∧ w'.allocated = made ++ w.allocated

omit [DecidableEq τ] in
/-- Packets that are moved stay in one place each. -/
theorem Housed.handled {rec' : τ → List Int} (h : Housed w rec) (hs : Handled w w' rec rec') :
    Housed w' rec' := by
  obtain ⟨made, hshift, hnew, hall⟩ := hs.shift
  have hmade : ∀ k ∈ made, ∀ x, k ∉ placed w rec x := fun k hk x hx =>
    hnew k hk (h.allocated x k hx)
  refine ⟨h.apart.shift hshift hmade, fun x k hk => ?_⟩
  rw [hall, List.mem_append]
  rcases hshift.mem hk with hk | ⟨y, hy⟩
  · exact .inl hk
  · exact .inr (h.allocated y k hy)

omit [DecidableEq τ] in
/-- A step that allocates nothing moves packets from place to place. -/
theorem Handled.of_shift {rec' : τ → List Int} (hs : Shift (placed w rec) (placed w' rec') [])
    (hall : w'.allocated = w.allocated) : Handled w w' rec rec' :=
  ⟨[], hs, fun _ hk => absurd hk List.not_mem_nil, hall⟩

/-- An object is looked at for unloading. -/
theorem settle_handled {h : Int} {o o₁ : Obj} (ho : w.obj h = some o)
    (h₁ : o₁.cacheHead = o.cacheHead) :
    Handled w ((w.setObj h o₁).settle h) rec (Function.update rec u (rec u)) := by
  have hqueue : (w.setObj h o₁).queue = w.queue := World.queue_setObj_of ho h₁
  have hposted : ((w.setObj h o₁).settle h).posted = w.posted := World.settle_posted ..
  refine .of_shift ?_ (World.settle_allocated ..)
  rcases World.settle_queue (w.setObj h o₁) h with ⟨hq, hf⟩ | ⟨hq, hf⟩
  · exact placed_same hposted hf (hq.trans hqueue) rfl
  · rw [hqueue] at hq hf
    rw [Function.update_eq_self]
    -- the queue is freed
    refine .moved (x := .queue h) (y := .freed) (w.queue h) (by simp) ?_ ?_ fun z hz hz' => ?_
    · simp [placed, hq]
    · exact List.Perm.of_eq hf
    · cases z with
      | request => exact congrArg (List.map IoPacket.packet) hposted
      | freed => exact absurd rfl hz'
      | queue k =>
          have hk : k ≠ h := fun hk => hz (by rw [hk])
          show ((w.setObj h o₁).settle h).queue k = w.queue k
          rw [hq, Function.update_of_ne hk]
      | hand v => rfl

/-- An access to a control block, which is there where a packet is taken out of its queue. -/
theorem access_handled {h : Int} {x : Access} (hw : w.answer (.ncb h x) a = some w')
    (hn : Hands.Need (rec u) (.ncb h x)) (hpop : x = .popFront → ∃ o, w.obj h = some o) :
    Handled w w' rec (Function.update rec u (Hands.after (rec u) (.ncb h x) a)) := by
  simp only [World.answer] at hw
  split at hw
  next hnone =>
    cases hw
    -- without the object only the record of the hands changes, and it loses at most
    have hloses : ∀ y,
      (placed w (Function.update rec u (Hands.after (rec u) (.ncb h x) a)) y).Sublist
        (placed w rec y) := by
      intro y
      rw [placed_hand]
      cases y with
      | hand v =>
          dsimp only
          split
          next hv =>
            subst hv
            cases x with
            | addTail k => exact List.erase_sublist
            | popFront =>
                obtain ⟨o, ho⟩ := hpop rfl
                rw [hnone] at ho
                cases ho
            | _ => exact .refl _
          · exact .refl _
      | _ => exact .refl _
    exact .of_shift (.lost hloses) rfl
  next o ho =>
    obtain ⟨o', happly, rfl⟩ := Option.map_eq_some_iff.mp hw
    -- what the access does to the queue of the object, by cases below
    have hq : x.Queues a (w.queue h) ((w.setObj h o').queue h) := by
      rw [World.queue_some ho, World.queue_some (o := o') (by simp)]
      exact Access.apply_queues happly
    have hother : ∀ k, k ≠ h → (w.setObj h o').queue k = w.queue k := by
      intro k hk
      rw [World.queue_setObj, Function.update_of_ne hk]
    -- only that queue and the hand of the job are touched
    have hrest : ∀ g z, z ≠ .queue h → z ≠ .hand u →
        placed (w.setObj h o') (Function.update rec u g) z = placed w rec z := by
      intro g z hz hz'
      cases z with
      | queue k => exact hother k fun hk => hz (by rw [hk])
      | hand v =>
          have hv : v ≠ u := fun hv => hz' (by rw [hv])
          exact Function.update_of_ne hv g rec
      | _ => rfl
    have hhand : ∀ g, placed (w.setObj h o') (Function.update rec u g) (.hand u) = g := by
      intro g
      rw [placed_hand]
      exact if_pos rfl
    refine .of_shift ?_ rfl
    generalize hold : w.queue h = q at hq
    generalize hnew : (w.setObj h o').queue h = q' at hq
    cases hq with
    -- neither queue nor hand
    | same queue hadd hpop' =>
        have hqueue : (w.setObj h o').queue = w.queue := by
          funext k
          by_cases hk : k = h
          · rw [hk, hold, hnew]
          · exact hother k hk
        refine placed_same ?_ ?_ hqueue ?_
        · rfl
        · rfl
        · cases x with
          | addTail k => exact absurd rfl (hadd k)
          | popFront => exact absurd rfl hpop'
          | _ => rfl
    -- `INIT_LIST_HEAD` over a queue drops what was in it
    | lost queue hx =>
        subst hx
        refine .lost fun z => ?_
        rw [show Hands.after (rec u) (.ncb h .initListHead) a = rec u from rfl,
          Function.update_eq_self]
        cases z with
        | queue k =>
            show ((w.setObj h o').queue k).Sublist (w.queue k)
            by_cases hk : k = h
            · rw [hk, hnew]
              exact List.nil_sublist _
            · rw [hother k hk]
        | _ => exact .refl _
    -- from the hand to the tail of the queue
    | @added k queue hx =>
        subst hx
        refine .moved (x := .hand u) (y := .queue h) [k] (by simp) ?_ ?_ fun z hz hz' =>
          hrest _ z hz' hz
        · rw [hhand]
          exact (List.perm_append_singleton k _).trans (List.perm_cons_erase hn).symm
        · show ((w.setObj h o').queue h).Perm ([k] ++ w.queue h)
          rw [hnew, hold]
          exact List.perm_append_comm
    -- an append to a queue that was never made: the packet is in no place any more
    | @dropped k hx =>
        subst hx
        refine .lost fun z => ?_
        by_cases hz : z = .hand u
        · rw [hz, hhand]
          exact List.erase_sublist
        · by_cases hz' : z = .queue h
          · subst hz'
            show ((w.setObj h o').queue h).Sublist (w.queue h)
            rw [hnew, hold]
          · rw [hrest _ z hz' hz]
    -- from the head of the queue to the hand
    | taken queue hx =>
        subst hx
        refine .moved (x := .queue h) (y := .hand u) [a] (by simp) ?_ ?_ fun z hz hz' =>
          hrest _ z hz hz'
        · show ((w.setObj h o').queue h ++ [a]).Perm (w.queue h)
          rw [hnew, hold]
          exact List.perm_append_singleton a _
        · rw [hhand]
          exact .refl _

/-- **What a call does with the packets.** -/
theorem answer_handled (hw : w.answer c a = some w') (hn : Hands.Need (rec u) c)
    (hpop : ∀ h, c = .ncb h .popFront → ∃ o, w.obj h = some o) :
    Handled w w' rec (Function.update rec u (Hands.after (rec u) c a)) := by
  have hsame : ∀ {h : Int} {o o₁ : Obj}, w.obj h = some o → o₁.cacheHead = o.cacheHead →
      Handled w (w.setObj h o₁) rec (Function.update rec u (rec u)) := by
    intro h o o₁ ho h₁
    refine .of_shift (placed_same ?_ ?_ (World.queue_setObj_of ho h₁) rfl) rfl <;> rfl
  have hquiet : Handled w w rec (Function.update rec u (rec u)) :=
    .of_shift (placed_same rfl rfl rfl rfl) rfl
  cases c with
  | objallo proto remote =>
      simp only [World.answer] at hw
      split at hw
      · cases hw
        exact hquiet
      · split at hw
        next hnone =>
          cases hw
          have hqueue : (w.setObj a (.new proto remote)).queue = w.queue := by
            rw [World.queue_setObj, show ((Obj.new proto remote).cacheHead.getD [] : List Int)
              = w.queue a by rw [World.queue, hnone]; rfl, Function.update_eq_self]
          refine .of_shift (placed_same ?_ ?_ hqueue rfl) rfl <;> rfl
        · cases hw
  | objrefr h =>
      simp only [World.answer] at hw
      split at hw
      · split at hw <;> cases hw
        exact hquiet
      next o ho =>
        split at hw <;> split at hw <;> cases hw
        · exact hquiet
        · exact hsame ho rfl
  | objreff h =>
      simp only [World.answer] at hw
      split at hw
      · split at hw <;> cases hw
        exact hquiet
      next o ho =>
        split at hw <;> split at hw <;> cases hw
        · exact hquiet
        · exact hsame ho rfl
  -- the unload routine may run: it frees what is queued
  | objdefr h =>
      simp only [World.answer] at hw
      split at hw
      · cases hw
        exact hquiet
      next o ho =>
        cases hw
        exact settle_handled ho rfl
  | objclos h =>
      simp only [World.answer] at hw
      split at hw
      · cases hw
        exact hquiet
      next o ho =>
        cases hw
        exact settle_handled ho rfl
  | ncb h x => exact access_handled hw hn fun hx => hpop h (by rw [hx])
  -- a packet is made in the hand of the job, and was nowhere before
  | allocatePacket h proto type =>
      simp only [World.answer] at hw
      split at hw
      next ha =>
        cases hw
        rw [show Hands.after (rec u) (.allocatePacket h proto type) a = rec u from if_pos ha]
        exact hquiet
      next ha =>
        split at hw
        · cases hw
        next hnew =>
          cases hw
          refine ⟨[a], .made (y := .hand u) a ?_ fun z hz => ?_, fun k hk => ?_, rfl⟩
          · rw [placed_hand]
            simp [Hands.after, ha, placed]
          · rw [placed_hand]
            cases z with
            | hand v => exact if_neg fun hv => hz (by rw [hv])
            | _ => rfl
          · rw [List.mem_singleton.mp hk]
            exact hnew
  -- from the hand to the freed
  | freepkt k =>
      cases hw
      refine .of_shift (.moved (x := .hand u) (y := .freed) [k] (by simp) ?_ (.refl _)
        fun z hz hz' => ?_) rfl
      · rw [placed_hand]
        simp only [if_true, Hands.after]
        exact (List.perm_append_singleton k _).trans (List.perm_cons_erase hn).symm
      · rw [placed_hand]
        cases z with
        | hand v => exact if_neg fun hv => hz (by rw [hv])
        | freed => exact absurd rfl hz'
        | _ => rfl
  -- from the hand to the system, if it takes the request
  | post p =>
      simp only [World.answer, Option.some.injEq] at hw
      subst hw
      by_cases ha : a < 0
      · rw [if_pos ha, show Hands.after (rec u) (.post p) a = rec u from if_pos ha]
        exact hquiet
      · rw [if_neg ha, show Hands.after (rec u) (.post p) a = (rec u).erase p.packet from if_neg ha]
        refine .of_shift (.moved (x := .hand u) (y := .request) [p.packet] (by simp) ?_ (.refl _)
          fun z hz hz' => ?_) rfl
        · rw [placed_hand]
          simp only [if_true]
          exact (List.perm_append_singleton _ _).trans (List.perm_cons_erase hn).symm
        · rw [placed_hand]
          cases z with
          | hand v => exact if_neg fun hv => hz (by rw [hv])
          | request => exact absurd rfl hz'
          | _ => rfl
  -- a callback moves no packet
  | emit n =>
      cases hw
      refine .of_shift (placed_same (World.tell_posted ..) (World.tell_freed ..) ?_ rfl)
        (World.tell_allocated ..)
      exact funext fun k => World.queue_of_obj (by rw [World.tell_obj])
  | other x =>
      cases hw
      exact hquiet
  | stuck => cases hw

/-! ## The start and the end of a job -/

omit [DecidableEq τ] in
/-- The start of a job frees nothing. -/
theorem World.startJob_freed {j : Job} (hw : w.startJob j = some w') :
    w'.freed = w.freed ∧ w'.allocated = w.allocated := by
  have hpeer : ∀ {w₁ w₂ : World} {h : Int} {addr : SockaddrIn}, w₁.connectPeer h addr = some w₂ →
      w₂.freed = w₁.freed ∧ w₂.allocated = w₁.allocated := by
    intro w₁ w₂ h addr hw
    simp only [connectPeer] at hw
    split at hw
    · cases hw
      exact ⟨rfl, rfl⟩
    · split at hw <;> cases hw
      exact ⟨rfl, rfl⟩
  cases j with
  | user c =>
      simp only [startJob] at hw
      split at hw
      · cases hw
        exact ⟨rfl, rfl⟩
      · split at hw <;> cases hw
        exact ⟨rfl, rfl⟩
  | completion p status transfer turns irp =>
      simp only [startJob] at hw
      split at hw
      · split at hw
        · simp only [succeed] at hw
          split at hw
          · have hframe := hpeer hw
            exact hframe
          · have hframe := hpeer hw
            exact hframe
          · cases hw
            exact ⟨rfl, rfl⟩
        · cases hw
          exact ⟨rfl, rfl⟩
      · cases hw

theorem World.SameObj.queue (hs : w.SameObj w') : w'.queue = w.queue := by
  funext k
  rcases hs k with ⟨hn, hn'⟩ | ⟨o, peer, ho, ho'⟩
  · rw [World.queue, World.queue, hn, hn']
  · rw [World.queue_some ho, World.queue_some ho']

/-- The dispatch of a completion has its packet in hand. -/
theorem start_handled {j : Job} (hw : w.startJob j = some w') (hidle : rec u = []) :
    Handled w w' rec (Function.update rec u (Hands.start j)) := by
  have hstart := World.startJob_spec hw
  obtain ⟨hfreed, hall⟩ := World.startJob_freed hw
  have hqueue := hstart.same.queue
  refine .of_shift ?_ hall
  cases j with
  | user c => exact placed_same (hstart.user c rfl).1 hfreed hqueue hidle.symm
  | completion p status transfer turns irp =>
      obtain ⟨hp, -, hposted, -⟩ := hstart.completion _ _ _ _ _ rfl
      refine .moved (x := .request) (y := .hand u) [p.packet] (by simp) ?_ ?_ fun z hz hz' => ?_
      · show (w'.posted.map IoPacket.packet ++ [p.packet]).Perm (w.posted.map IoPacket.packet)
        rw [hposted]
        exact (List.perm_append_singleton _ _).trans ((List.perm_cons_erase hp).map _).symm
      · rw [placed_hand]
        simp [Hands.start, placed, hidle]
      · rw [placed_hand]
        cases z with
        | hand v => exact if_neg fun hv => hz' (by rw [hv])
        | request => exact absurd rfl hz
        | freed => exact hfreed
        | queue h => exact congrFun hqueue h

/-- What a job has left in hand is lost. -/
theorem finish_handled (w : World) (j : Job) (r : Int) :
    Handled w (w.finishJob j r) rec (Function.update rec u []) := by
  obtain ⟨hobj, hposted, -⟩ := World.finishJob_spec w j r
  have hframe : (w.finishJob j r).freed = w.freed ∧ (w.finishJob j r).allocated = w.allocated := by
    unfold World.finishJob
    split
    · split <;> exact ⟨rfl, rfl⟩
    · split <;> exact ⟨rfl, rfl⟩
    all_goals exact ⟨rfl, rfl⟩
  refine .of_shift (.lost fun z => ?_) hframe.2
  rw [placed_hand]
  cases z with
  | request =>
      show ((w.finishJob j r).posted.map IoPacket.packet).Sublist (w.posted.map IoPacket.packet)
      rw [hposted]
  | freed =>
      show (w.finishJob j r).freed.Sublist w.freed
      rw [hframe.1]
  | queue h =>
      have hqueue : (w.finishJob j r).queue h = w.queue h := World.queue_of_obj (by rw [hobj])
      show ((w.finishJob j r).queue h).Sublist (w.queue h)
      rw [hqueue]
  | hand v =>
      dsimp only
      split
      · exact List.nil_sublist _
      · exact .refl _

end

/-! ## Every run -/

section

variable {τ : Type} [DecidableEq τ] [Fintype τ] {G : SysGuard} {s : SysState τ} {u : τ} {j : Job}
  {t : CallTrace}

omit [DecidableEq τ] [Fintype τ] in
/-- There are no packets to begin with. -/
theorem housed_initial : Housed World.initial fun _ : τ => ([] : List Int) := by
  have hnone : ∀ x k, k ∉ placed World.initial (fun _ : τ => []) x := by
    intro x k hk
    cases x <;> cases hk
  exact ⟨fun k => ⟨fun x => (List.count_eq_zero.mpr (hnone x k)).trans_le (Nat.zero_le 1),
    fun x y hx => absurd hx (hnone x k)⟩, fun x k hk => absurd hk (hnone x k)⟩

/-- A packet is only taken out of the queue of a link that is there. -/
theorem popped_there (hr : SysReaches G s) {h : Int} {k : Int → CallProg Int}
    (hu : s.thread u = .running j t (.call (.ncb h .popFront) k)) :
    ∃ o, s.world.obj h = some o := by
  obtain ⟨⟨leaked, hcount, -⟩, hmeets⟩ := sys_counted hr
  have hneed : (s.records references u).Need (.ncb h .popFront) := (hmeets u j t _ hu).1
  rcases hneed with hheld | ⟨hconn, -⟩
  · obtain ⟨o, ho, -⟩ := hcount.alive hheld
    exact ⟨o, ho⟩
  -- a connecting job takes no packet out of a queue
  rw [show s.records references u = record RefRecord.after (.start j) t from
    State.records_running hu, RefRecord.connects_record] at hconn
  have huses : j.prog.Uses fun c => ∀ l, c ≠ .ncb l .popFront := by
    cases j with
    | user c => cases hconn
    | completion p status transfer turns irp =>
        simp only [Job.Connects, decide_eq_true_eq] at hconn
        obtain ⟨hproto, htype, hok⟩ := hconn
        simp [Job.prog, soDispatchIoEvent, hproto, tcpDispatchIoEvent, htype, hok,
          tcpDispatchIoConnected, tcprefr, protoRefr, tcpConnected, updateLocalAddr,
          connectedFailed, asioTcpRecv, asioTransfer, tcpShutdownByPacket, IoPacket.plain]
  have hleads := hr.leads (fun _ => rfl) hu
  exact absurd rfl ((uses_call.mp (huses.leads hleads).1).1 h)

/-- **Every packet in one place.** In every run, every job handles only what it has in hand. -/
theorem sys_housed (hr : SysReaches G s) :
    Housed s.world (s.records hands) ∧ s.Meets hands := by
  have hkept : Kept hands system G (State.rest World.initial) (Housed (τ := τ)) := by
    constructor
    case env =>
      intro s e
      exact e.elim
    case start =>
      intro s u j w hs hh hu hw hG
      exact ⟨job_hands j, hh.handled (start_handled hw (State.records_idle hu))⟩
    case call =>
      intro s u j t c k a w hs hh hu hw hG hn
      refine ⟨trivial, hh.handled (answer_handled hw hn ?_)⟩
      rintro h rfl
      exact popped_there hs hu
    case finish =>
      intro s u j t r hs hh hu hp
      exact hh.handled (finish_handled s.world j r)
  exact hr.kept hkept housed_initial (State.meets_rest _)

/-- The packet a call frees, posts or queues. -/
def Call.packet : Call → Option Int
  | .freepkt k | .ncb _ (.addTail k) => some k
  | .post p => some p.packet
  | _ => none

/-- **Packets are used safely.** In every run, whatever the threads and the system do: no packet
is freed twice, none is with the system or in a send queue twice or in two of these places, and
the packet a job frees, posts or queues was allocated, and is neither freed nor with the system
nor in a queue, nor is another job at it. -/
theorem packets_safe {τ : Type} [DecidableEq τ] [Fintype τ] (G : SysGuard) (s : SysState τ)
    (hr : SysReaches G s) :
    s.world.freed.Nodup ∧ (s.world.posted.map IoPacket.packet).Nodup
      ∧ (∀ p ∈ s.world.posted, p.packet ∉ s.world.freed)
      ∧ (∀ h, (s.world.queue h).Nodup)
      ∧ (∀ h, ∀ k ∈ s.world.queue h, k ∉ s.world.freed ∧ (∀ p ∈ s.world.posted, p.packet ≠ k)
        ∧ ∀ h', h' ≠ h → k ∉ s.world.queue h')
      ∧ ∀ u j t c k, calling s u = some (j, t, c) → c.packet = some k →
        k ∈ s.world.allocated ∧ k ∉ s.world.freed ∧ (∀ p ∈ s.world.posted, p.packet ≠ k)
        ∧ (∀ h, k ∉ s.world.queue h)
        ∧ ∀ u' j' t' c', calling s u' = some (j', t', c') → c'.packet = some k → u' = u := by
  obtain ⟨⟨hapart, hall⟩, hmeets⟩ := sys_housed hr
  have hat : ∀ {k : Int} {x : PacketPlace τ}, k ∈ placed s.world (s.records hands) x →
      ∀ y, x ≠ y → k ∉ placed s.world (s.records hands) y := fun hk y hne =>
    hapart.disjoint hne hk
  have hrequest : ∀ {k : Int}, k ∉ placed s.world (s.records hands) .request →
      ∀ p ∈ s.world.posted, p.packet ≠ k := by
    rintro k hk p hp rfl
    exact hk (List.mem_map_of_mem hp)
  -- what a job is about to use, it has in hand
  have hhand : ∀ u j t c k, calling s u = some (j, t, c) → c.packet = some k →
      k ∈ placed s.world (s.records hands) (.hand u) := by
    intro u j t c k hu hc
    obtain ⟨rest, hrun⟩ := running_of_calling hu
    have hneed : Hands.Need (s.records hands u) c := (hmeets u j t _ hrun).1
    cases c with
    | freepkt k' =>
        cases hc
        exact hneed
    | post p =>
        cases hc
        exact hneed
    | ncb h x =>
        cases x with
        | addTail k' =>
            cases hc
            exact hneed
        | _ => cases hc
    | _ => cases hc
  refine ⟨hapart.nodup .freed, hapart.nodup .request, fun p hp => ?_,
    fun h => hapart.nodup (.queue h), fun h k hk => ⟨?_, ?_, fun h' hne => ?_⟩,
      fun u j t c k hu hc => ?_⟩
  · exact hat (x := .request) (List.mem_map_of_mem hp) .freed (by simp)
  · exact hat (x := .queue h) hk .freed (by simp)
  · exact hrequest (hat (x := .queue h) hk .request (by simp))
  · exact hat (x := .queue h) hk (.queue h') (by simp [hne.symm])
  · have hk := hhand u j t c k hu hc
    refine ⟨hall _ k hk, hat hk .freed (by simp), hrequest (hat hk .request (by simp)),
      fun h => hat hk (.queue h) (by simp), fun u' j' t' c' hu' hc' => ?_⟩
    by_contra hne
    exact hat hk (.hand u') (by simp [Ne.symm hne]) (hhand u' j' t' c' k hu' hc')

/-- A link is connected, and the packet of its connect request is about to be freed. -/
theorem packets_safe_connected : ∃ s : SysState Unit, SysReaches anyRun s ∧
    ∃ j t, calling s () = some (j, t, .freepkt 7)
      ∧ 7 ∈ s.world.allocated ∧ 7 ∉ s.world.freed ∧ ∀ p ∈ s.world.posted, p.packet ≠ 7 := by
  obtain ⟨s, hs, ⟨j, t, c⟩, hc, hx⟩ := sys_of_play anyRun
    (P := fun s => ∃ x ∈ calling s (), x.2.2 = .freepkt 7)
    (createTcp () 0 ++ connect2Tcp () 7 0
      ++ .start () (.completion (connectPacket 7 0) 0 0 0 noAddrs) :: referTcp ())
        (by decide +kernel)
  obtain rfl : c = .freepkt 7 := hx
  obtain ⟨hall, hfreed, hposted, -⟩ := (packets_safe anyRun s hs).2.2.2.2.2 () j t _ 7 hc rfl
  exact ⟨s, hs, j, t, hc, hall, hfreed, hposted⟩

end

end Swnet.Sys
