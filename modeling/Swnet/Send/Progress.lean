import Swnet.Send.Protocol

/-!
# Swnet — sending comes to an end (`tcp.c`)

`tcp_try_write` goes round its loop when it finds `tcp_write_pending_` lowered in between, waits
for `tcp_sender_locker_`, and is called again for every completion. None of these lets a thread
run for ever: a place in the code has so many steps left (`Pc.steps`), which the thread's own
steps lower and those of the others do not raise.

* `exec_turns` — what one step of a thread does to the steps left and to the packets on the way;
* `tcpWrite_bounded` — the steps a call takes, whatever the other threads do;
* `send_quiesces` — no deadlock and no livelock: the threads and the completions come to rest,
  and then everything that was appended was sent and is back.
-/

namespace Swnet

open CMem SendGate

/-- The thread is between `EnterCriticalSection` and `LeaveCriticalSection`. -/
def Pc.inside : Pc → Bool
  | .grow _ | .shrink _ | .append _ | .look _ | .raise _ | .lower _ | .first _ | .drop _ _
  | .leave _ _ _ | .unloadDrain | .unloadFree _ | .unloadLeave => true
  | _ => false

/-- The steps a thread has left, for `pending` in `tcp_write_pending_` and so many packets in the
queue. -/
def Pc.steps (pending : Int) (queued : Nat) : Pc → Nat
  | .idle => 0
  | .defer _ _ | .discard _ | .ioDefer | .unloadLeave => 1
  | .giveUp _ _ | .shutFree _ _ | .ioFree _ => 2
  | .written _ _ | .shutClose _ _ => 3
  | .sendFree _ _ => 4
  | .sendClose _ _ => 5
  | .send _ _ => 6
  | .leave _ _ _ => 7
  | .drop _ _ | .shrink _ => 8
  | .first _ => 9
  -- a thread that goes round again finds nothing pending, and nobody raises it meanwhile
  | .raise _ => if pending ≤ 0 then 10 else 12
  | .lower _ => 11
  | .append _ | .look _ => 13
  | .grow _ => 14
  | .enter _ => 15
  | .wrap _ | .ioLower _ | .exFree _ => 16
  | .fill _ | .ioRefer _ | .exLower _ => 17
  | .malloc _ | .exRefer _ _ => 18
  | .check _ => 19
  | .refer _ => 20
  | .unloadDrain => 2 * queued + 2
  | .unloadFree _ | .unloadEnter => 2 * queued + 3
  | .unloadSize => 2 * queued + 4

/-- The packets a thread has that may still come to be posted. -/
def Pc.packets : Pc → Nat
  | .refer _ | .check _ | .malloc _ | .fill _ | .wrap _ | .enter (.write _) | .grow _ | .append _
  | .drop _ _ | .leave _ (some _) _ | .send _ _ => 1
  | _ => 0

/-- Who is inside holds the lock. -/
def HoldsLock {τ : Type} (s : Sender τ) : Prop :=
  ∀ t, (s.pc t).inside = true ↔ s.tcpSenderLocker = some t

namespace Sender

variable {τ : Type}

def steps (s : Sender τ) (t : τ) : Nat := (s.pc t).steps s.tcpWritePending s.tcpSenderCache.length

/-- What a step of thread `t` does to the queue, the lock and what is left to do. -/
structure Turns (t : τ) (s s' : Sender τ) : Prop where
  others : ∀ u, u ≠ t → s'.pc u = s.pc u
  locker : (s'.pc t).inside = true ↔ s'.tcpSenderLocker = some t
  waits : ∀ u, u ≠ t → (s'.tcpSenderLocker = some u ↔ s.tcpSenderLocker = some u)
  steps : s'.steps t < s.steps t
  packets : (s'.pc t).packets + s'.tcpSenderCache.length + s'.posted.length
    ≤ (s.pc t).packets + s.tcpSenderCache.length + s.posted.length
  pending : (s.pc t).inside = false → s'.tcpWritePending ≤ s.tcpWritePending
  queue : (s.pc t).inside = false → s'.tcpSenderCache = s.tcpSenderCache
  queued : (s.pc t).holdsRef = false → s'.tcpSenderCache.length ≤ s.tcpSenderCache.length

end Sender

section

variable {τ : Type} [DecidableEq τ] {L : SendLink} {s s' : Sender τ} {t : τ} {p : Pc}

open Sender

/-- A thread moves to the place `p`. -/
theorem Sender.Turns.goto (s₁ : Sender τ) (hpc : s₁.pc = s.pc)
    (hlocker : p.inside = true ↔ s₁.tcpSenderLocker = some t)
    (hwaits : ∀ u, u ≠ t → (s₁.tcpSenderLocker = some u ↔ s.tcpSenderLocker = some u))
    (hsteps : p.steps s₁.tcpWritePending s₁.tcpSenderCache.length < s.steps t)
    (hpackets : p.packets + s₁.tcpSenderCache.length + s₁.posted.length
      ≤ (s.pc t).packets + s.tcpSenderCache.length + s.posted.length)
    (hpending : (s.pc t).inside = false → s₁.tcpWritePending ≤ s.tcpWritePending)
    (hqueue : (s.pc t).inside = false → s₁.tcpSenderCache = s.tcpSenderCache)
    (hqueued : (s.pc t).holdsRef = false →
      s₁.tcpSenderCache.length ≤ s.tcpSenderCache.length) :
    Turns t s (s₁.goto t p) := by
  have hself : (s₁.goto t p).pc t = p := Function.update_self ..
  constructor
  case others =>
    intro u hu
    show Function.update s₁.pc t p u = _
    rw [Function.update_of_ne hu, hpc]
  case locker =>
    rw [hself]
    exact hlocker
  case waits => exact hwaits
  case steps =>
    rw [Sender.steps, hself]
    exact hsteps
  case packets =>
    rw [hself]
    exact hpackets
  case pending => exact hpending
  case queue => exact hqueue
  case queued => exact hqueued

/-- A thread moves without crossing the lock. -/
theorem Sender.Turns.stay (h : HoldsLock s) (s₁ : Sender τ) (hpc : s₁.pc = s.pc)
    (hlocker : s₁.tcpSenderLocker = s.tcpSenderLocker) (hin : p.inside = (s.pc t).inside)
    (hsteps : p.steps s₁.tcpWritePending s₁.tcpSenderCache.length < s.steps t)
    (hpackets : p.packets + s₁.tcpSenderCache.length + s₁.posted.length
      ≤ (s.pc t).packets + s.tcpSenderCache.length + s.posted.length)
    (hpending : (s.pc t).inside = false → s₁.tcpWritePending ≤ s.tcpWritePending)
    (hqueue : (s.pc t).inside = false → s₁.tcpSenderCache = s.tcpSenderCache)
    (hqueued : (s.pc t).holdsRef = false →
      s₁.tcpSenderCache.length ≤ s.tcpSenderCache.length) :
    Turns t s (s₁.goto t p) :=
  .goto s₁ hpc (by rw [hin, hlocker]; exact h t) (fun u _ => by rw [hlocker]) hsteps hpackets
    hpending hqueue hqueued

/-- A thread moves and leaves the queue and its counters alone. -/
theorem Sender.Turns.aside (h : HoldsLock s) (s₁ : Sender τ) (hpc : s₁.pc = s.pc)
    (hlocker : s₁.tcpSenderLocker = s.tcpSenderLocker) (hin : p.inside = (s.pc t).inside)
    (hcache : s₁.tcpSenderCache = s.tcpSenderCache) (hposted : s₁.posted = s.posted)
    (hpending : s₁.tcpWritePending ≤ s.tcpWritePending)
    (hsteps : p.steps s₁.tcpWritePending s.tcpSenderCache.length < s.steps t)
    (hpackets : p.packets ≤ (s.pc t).packets) : Turns t s (s₁.goto t p) := by
  refine .stay h s₁ hpc hlocker hin (by rw [hcache]; exact hsteps) ?_ (fun _ => hpending)
    (fun _ => hcache) fun _ => by rw [hcache]
  rw [hcache, hposted]
  omega

/-- A thread enters the critical section. -/
theorem Sender.Turns.enter (hnone : s.tcpSenderLocker = none) (hin : p.inside = true)
    (hsteps : p.steps s.tcpWritePending s.tcpSenderCache.length < s.steps t)
    (hpackets : p.packets ≤ (s.pc t).packets) :
    Turns t s ({ s with tcpSenderLocker := some t }.goto t p) := by
  refine .goto { s with tcpSenderLocker := some t } rfl ?_ ?_ hsteps ?_ (fun _ => le_rfl)
    (fun _ => rfl) fun _ => le_rfl
  · exact ⟨fun _ => rfl, fun _ => hin⟩
  · intro u hu
    rw [hnone]
    exact ⟨fun h => absurd (Option.some.inj h).symm hu,
      fun h => (Option.some_ne_none u h.symm).elim⟩
  · exact Nat.add_le_add_right (Nat.add_le_add_right hpackets _) _

/-- A thread leaves the critical section. -/
theorem Sender.Turns.leave (hmine : s.tcpSenderLocker = some t) (hin : p.inside = false)
    (hsteps : p.steps s.tcpWritePending s.tcpSenderCache.length < s.steps t)
    (hpackets : p.packets ≤ (s.pc t).packets) :
    Turns t s ({ s with tcpSenderLocker := none }.goto t p) := by
  refine .goto { s with tcpSenderLocker := none } rfl ?_ ?_ hsteps ?_ (fun _ => le_rfl)
    (fun _ => rfl) fun _ => le_rfl
  · rw [hin]
    exact ⟨fun h => (Bool.false_ne_true h).elim, fun h => (Option.some_ne_none t h.symm).elim⟩
  · intro u hu
    rw [hmine]
    exact ⟨fun h => (Option.some_ne_none u h.symm).elim,
      fun h => absurd (Option.some.inj h).symm hu⟩
  · exact Nat.add_le_add_right (Nat.add_le_add_right hpackets _) _

theorem Caller.resume_inside (c : Caller) (retval : Int) : (c.resume retval).inside = false := by
  rcases c with k | k | _ <;> rfl

theorem Caller.resume_packets (c : Caller) (retval : Int) : (c.resume retval).packets = 0 := by
  rcases c with k | k | _ <;> rfl

theorem Caller.resume_steps (c : Caller) (retval pending : Int) (queued : Nat) :
    (c.resume retval).steps pending queued ≤ 3 := by
  rcases c with k | k | _ <;> simp [Caller.resume, Pc.steps]

theorem Pc.raise_steps (c : Caller) (pending : Int) (queued : Nat) :
    (Pc.raise c).steps pending queued < 13 := by
  rw [Pc.steps]
  split <;> decide

/-- **One step of a thread** lowers the steps it has left. By the places in the code; the loop goes
round again only when the counter was lowered in between, and then it has fewer turns to come. -/
theorem exec_turns (h : HoldsLock s) (t : τ) (o : SendOutcome) (hrun : s.pc t ≠ .idle)
    (hlock : (s.pc t).locks = true → s.tcpSenderLocker = none) :
    Yields (Turns t s) (exec L t o s (s.pc t)) := by
  -- most steps touch neither the lock nor the queue, and lower what is left
  have haside : ∀ (s₁ : Sender τ) {p : Pc}, s₁.pc = s.pc →
      s₁.tcpSenderLocker = s.tcpSenderLocker → p.inside = (s.pc t).inside →
      s₁.tcpSenderCache = s.tcpSenderCache → s₁.posted = s.posted →
      s₁.tcpWritePending ≤ s.tcpWritePending →
      p.steps s₁.tcpWritePending s.tcpSenderCache.length < s.steps t →
      p.packets ≤ (s.pc t).packets → Turns t s (s₁.goto t p) :=
    fun s₁ _ hpc hl hin hc hp hpe hst hpa => .aside h s₁ hpc hl hin hc hp hpe hst hpa
  -- to free a packet does not either
  have hfree : ∀ (k : Nat) {p : Pc}, p.inside = (s.pc t).inside →
      p.steps s.tcpWritePending s.tcpSenderCache.length < s.steps t →
      p.packets ≤ (s.pc t).packets →
      Yields (Turns t s) (s.freepkt k >>= fun s => (.ok (s.goto t p) : Exec (Sender τ))) := by
    refine fun k p hin hst hpa => (s.freepkt_yields k).bind fun s₁ hs₁ => ?_
    obtain ⟨b, pk, rfl⟩ := hs₁
    exact .aside h _ rfl rfl hin rfl rfl le_rfl hst hpa
  have hdown : s.tcpWritePending - 1 ≤ s.tcpWritePending := by omega
  cases hp : s.pc t with
  | idle => exact absurd hp hrun
  -- the steps that take the lock find it free (`hlock`)
  | enter c =>
    have hnone := hlock (by rw [hp]; rfl)
    cases c with
    | write k =>
      rw [exec]
      exact .enter hnone rfl (by simp [Sender.steps, hp, Pc.steps]) (by simp [hp, Pc.packets])
    | handler hd =>
      rw [exec]
      exact .enter hnone rfl (by simp [Sender.steps, hp, Pc.steps]) (by simp [hp, Pc.packets])
  | leave c next retval =>
    have hmine : s.tcpSenderLocker = some t := (h t).mp (by rw [hp]; rfl)
    cases next with
    | none =>
      have hsteps := c.resume_steps retval s.tcpWritePending s.tcpSenderCache.length
      rw [exec]
      refine .leave hmine (c.resume_inside retval) ?_ (by simp [Caller.resume_packets])
      rw [Sender.steps, hp, Pc.steps]
      omega
    | some next =>
      rw [exec]
      exact .leave hmine rfl (by simp [Sender.steps, hp, Pc.steps]) (by simp [hp, Pc.packets])
  | unloadEnter =>
    rw [exec]
    exact .enter (hlock (by rw [hp]; rfl)) rfl (by simp [Sender.steps, hp, Pc.steps])
      (by simp [Pc.packets])
  | unloadLeave =>
    rw [exec]
    exact .leave ((h t).mp (by rw [hp]; rfl)) rfl (by simp [Sender.steps, hp, Pc.steps])
      (by simp [Pc.packets])
  -- the packet goes from hand to queue: no packet more, and no step more
  | append k =>
    rw [exec]
    refine .bind_any fun _ _ => ?_
    refine .stay h { s with
      tcpSenderCache := s.tcpSenderCache ++ [k], appended := s.appended ++ [k] }
      rfl rfl (by rw [hp]; rfl) ?_ ?_ ?_ ?_ ?_
    case refine_1 =>
      rw [Sender.steps, hp]
      exact Pc.raise_steps ..
    all_goals simp [hp, Pc.packets, Pc.inside, Pc.holdsRef, add_comm, add_left_comm]
  -- a handler has so many steps more if there is something to send
  | look hd =>
    rw [exec]
    split
    · exact haside s rfl rfl (by rw [hp]; rfl) rfl rfl le_rfl (by simp [Sender.steps, hp, Pc.steps])
        (by simp [Pc.packets])
    · refine haside s rfl rfl (by rw [hp]; rfl) rfl rfl le_rfl ?_ (by simp [Pc.packets])
      rw [Sender.steps, hp]
      exact Pc.raise_steps ..
  -- raised by the first, the counter leads on; raised again, it is to be lowered
  | raise c =>
    rw [exec]
    dsimp only
    split
    · rename_i hbusy
      refine .stay h { s with tcpWritePending := s.tcpWritePending + 1 } rfl rfl (by rw [hp]; rfl)
        ?_ ?_ ?_ ?_ ?_
      all_goals simp [Sender.steps, hp, Pc.steps, Pc.packets, Pc.inside, Pc.holdsRef]
      split <;> omega
    · refine .stay h { s with tcpWritePending := s.tcpWritePending + 1 } rfl rfl (by rw [hp]; rfl)
        ?_ ?_ ?_ ?_ ?_
      all_goals simp [Sender.steps, hp, Pc.steps, Pc.packets, Pc.inside, Pc.holdsRef]
      split <;> omega
  | lower c =>
    rw [exec]
    dsimp only
    split
    · exact haside _ rfl rfl (by rw [hp]; rfl) rfl rfl hdown (by simp [Sender.steps, hp, Pc.steps])
        (by simp [Pc.packets])
    · -- nothing is pending when it goes round again
      rename_i hagain
      refine haside _ rfl rfl (by rw [hp]; rfl) rfl rfl hdown ?_ (by simp [Pc.packets])
      rw [Sender.steps, hp, Pc.steps, Pc.steps, if_pos (not_lt.mp hagain)]
      decide
  -- the head of the queue comes into hand
  | first c =>
    rw [exec]
    cases hq : s.tcpSenderCache with
    | nil => trivial
    | cons next rest =>
      refine .bind_any fun _ _ => ?_
      refine .stay h { s with tcpSenderCache := rest } rfl rfl (by rw [hp]; rfl) ?_ ?_ ?_ ?_ ?_
      all_goals simp [Sender.steps, hp, Pc.steps, Pc.packets, Pc.inside, Pc.holdsRef, hq]
      omega
  -- the transport takes the packet from the thread, or leaves it with it
  | send c next =>
    have hsteps : (c.resume 0).steps s.tcpWritePending s.tcpSenderCache.length < s.steps t := by
      rw [Sender.steps, hp, Pc.steps]
      exact (c.resume_steps 0 _ _).trans_lt (by decide)
    have hin : (c.resume 0).inside = (s.pc t).inside := by
      rw [hp, c.resume_inside]
      rfl
    rw [exec]
    refine .bind_any fun _ _ => ?_
    dsimp only
    split
    · refine .stay h { s with sent := s.sent ++ [next], posted := s.posted ++ [next] } rfl rfl hin
        hsteps ?_ (fun _ => le_rfl) (fun _ => rfl) fun _ => le_rfl
      rw [hp, c.resume_packets, Pc.packets, List.length_append, List.length_singleton]
      dsimp only
      omega
    · exact haside { s with sent := s.sent ++ [next] } rfl rfl (by rw [hp]; rfl) rfl rfl le_rfl
        (by simp [Sender.steps, hp, Pc.steps]) (by simp [Pc.packets])
  | sendFree c next =>
    have hsteps : (c.resume 0).steps s.tcpWritePending s.tcpSenderCache.length < s.steps t := by
      rw [Sender.steps, hp, Pc.steps]
      exact (c.resume_steps 0 _ _).trans_lt (by decide)
    rw [exec]
    refine hfree next ?_ hsteps (by simp [Caller.resume_packets])
    rw [hp, c.resume_inside]
    rfl
  -- each round of the loop in `tcp_unload` takes one packet off the queue
  | unloadDrain =>
    rw [exec]
    cases hq : s.tcpSenderCache with
    | nil =>
      exact haside s rfl rfl (by rw [hp]; rfl) rfl rfl le_rfl
        (by simp [Sender.steps, hp, Pc.steps]) (by simp [Pc.packets])
    | cons k rest =>
      refine .bind_any fun _ _ => ?_
      refine .stay h { s with tcpSenderCache := rest } rfl rfl (by rw [hp]; rfl) ?_ ?_ ?_ ?_ ?_
      all_goals simp [Sender.steps, hp, Pc.steps, Pc.packets, Pc.inside, hq]
      omega
  -- the remaining places: a step aside, a packet freed, or a branch of two of these
  | _ =>
    rw [exec]
    repeat' first
      | exact hfree _ (by rw [hp]; rfl) (by simp [Sender.steps, hp, Pc.steps])
          (by simp [hp, Pc.packets])
      | exact haside _ rfl rfl (by rw [hp]; rfl) rfl rfl le_rfl
          (by simp [Sender.steps, hp, Pc.steps]) (by simp [hp, Pc.packets])
      | exact haside _ rfl rfl (by rw [hp]; rfl) rfl rfl hdown
          (by simp [Sender.steps, hp, Pc.steps]) (by simp [hp, Pc.packets])
      | trivial
      | split
      | refine .bind_any fun _ _ => ?_

/-! ## The lock -/

omit [DecidableEq τ] in
/-- The lock is held by who is inside, after the step as before it. -/
theorem HoldsLock.turns (h : HoldsLock s) (hturn : Turns t s s') : HoldsLock s' := by
  intro u
  rcases eq_or_ne u t with rfl | hne
  · exact hturn.locker
  · rw [hturn.others u hne, hturn.waits u hne]
    exact h u

/-- A thread that was idle starts outside of the critical section. -/
theorem HoldsLock.begin (h : HoldsLock s) (s₁ : Sender τ) (hpc : s₁.pc = s.pc)
    (hlocker : s₁.tcpSenderLocker = s.tcpSenderLocker) (hidle : s.pc t = .idle)
    (hin : p.inside = false) : HoldsLock (s₁.goto t p) := by
  intro u
  show (Function.update s₁.pc t p u).inside = true ↔ s₁.tcpSenderLocker = some u
  rw [hlocker, ← h u]
  rcases eq_or_ne u t with rfl | hne
  · rw [Function.update_self, hin, hidle]
    rfl
  · rw [Function.update_of_ne hne, hpc]

/-- A handler starts outside of the lock. -/
theorem dispatchIoEvent_outside (k : Nat) (status : NtStatus) (size : Int) :
    (dispatchIoEvent k status size).inside = false := by
  unfold dispatchIoEvent
  split
  · rfl
  · split <;> rfl

theorem step_holdsLock (h : HoldsLock s) {a : Action τ} (ha : Enabled s a) :
    Yields HoldsLock (step L s a) := by
  cases a with
  | call t =>
    rw [step]
    dsimp only
    split
    · exact h
    · exact h.begin { s with calls := s.calls + 1 } rfl rfl ha rfl
  | run t o =>
    rw [step]
    cases hexec : exec L t o s (s.pc t) with
    | error e => trivial
    | ok s' => exact h.turns ((exec_turns h t o ha.1 ha.2.1).of_ok hexec)
  | take k =>
    refine .bind_any fun pk _ => .bind_any fun b _ => ?_
    split <;> exact h
  | complete t k status =>
    exact .bind_any fun pk _ => h.begin _ rfl rfl ha.1 (dispatchIoEvent_outside k status _)
  | close => exact h
  | unload t => exact h.begin { s with unloaded := true } rfl rfl ha.1 rfl

theorem SendReachable.holdsLock (h : SendReachable L s) : HoldsLock s := by
  induction h with
  | refl => exact fun t => ⟨fun h => (Bool.false_ne_true h).elim,
      fun h => (Option.some_ne_none t h.symm).elim⟩
  | tail _ hstep ih =>
    obtain ⟨a, ha, heq⟩ := hstep
    exact (step_holdsLock ih ha).of_ok heq

/-! ## The steps of the others -/

/-- With less in the counter and in the queue a thread has no more steps left. -/
theorem Pc.steps_mono {pending pending' : Int} {queued queued' : Nat} (hp : pending' ≤ pending)
    (hq : queued' ≤ queued) : p.steps pending' queued' ≤ p.steps pending queued := by
  cases p with
  | raise c =>
    rw [Pc.steps, Pc.steps]
    split
    · split <;> decide
    · rw [if_neg (by omega)]
  | _ =>
    simp only [Pc.steps]
    omega

/-- Outside of the critical section neither counts. -/
theorem Pc.steps_apart (hin : p.inside = false) (hun : p.unloads = false) (pending pending' : Int)
    (queued queued' : Nat) : p.steps pending' queued' = p.steps pending queued := by
  cases p with
  | raise c => cases hin
  | unloadSize | unloadEnter | unloadDrain | unloadFree k => cases hun
  | _ => rfl

omit [DecidableEq τ] in
/-- **No step of another thread gives a thread more to do.** -/
theorem Sender.Turns.steps_le (hturn : Turns t s s') (h : HoldsLock s) (hu : Unloading s) {u : τ}
    (hne : u ≠ t) : s'.steps u ≤ s.steps u := by
  rw [Sender.steps, Sender.steps, hturn.others u hne]
  cases hin : (s.pc u).inside with
  | true =>
    -- the other thread is not inside too
    have hout : (s.pc t).inside = false := by
      refine Bool.eq_false_of_not_eq_true fun ht => hne ?_
      exact Option.some.inj (((h u).mp hin).symm.trans ((h t).mp ht))
    rw [hturn.queue hout]
    exact Pc.steps_mono (hturn.pending hout) le_rfl
  | false =>
    cases hun : (s.pc u).unloads with
    | true =>
      -- nobody appends any more
      have hqueued := hturn.queued (hu.noRef (hu.begun u hun) t)
      cases hpc : s.pc u with
      | unloadSize | unloadEnter =>
        rw [Pc.steps, Pc.steps]
        omega
      | unloadDrain | unloadFree k | unloadLeave => rw [hpc] at hin; cases hin
      | _ => rw [hpc] at hun; cases hun
    | false => exact (Pc.steps_apart hin hun ..).le

/-! ## One call -/

/-- The action is a step of thread `t`. -/
def Action.runs (t : τ) : Action τ → Bool
  | .run u _ => decide (u = t)
  | _ => false

/-- Thread `t`, which is idle, is given something to do. -/
def Action.begins (t : τ) : Action τ → Bool
  | .call u | .complete u _ _ | .unload u => decide (u = t)
  | _ => false

/-- A run of the given actions. -/
inductive SendRun (L : SendLink) : Sender τ → List (Action τ) → Sender τ → Prop
  | nil (s : Sender τ) : SendRun L s [] s
  | cons {s s₁ s' : Sender τ} (a : Action τ) (as : List (Action τ)) (ha : Enabled s a)
      (hstep : step L s a = .ok s₁) (hrun : SendRun L s₁ as s') : SendRun L s (a :: as) s'

/-- What one action leaves thread `t` to do. -/
theorem step_steps (h : SendReachable L s) {a : Action τ} (ha : Enabled s a)
    (hnew : a.begins t = false) (heq : step L s a = .ok s') :
    s'.steps t + (if a.runs t then 1 else 0) ≤ s.steps t := by
  -- another thread that starts or ends leaves the steps of this one alone
  have hapart : ∀ {u : τ} (s₁ : Sender τ) (p : Pc), u ≠ t → s₁.pc = s.pc →
      s₁.tcpWritePending = s.tcpWritePending → s₁.tcpSenderCache = s.tcpSenderCache →
      (s₁.goto u p).steps t ≤ s.steps t := by
    intro u s₁ p hne hpc hpending hcache
    have hpct : (s₁.goto u p).pc t = s.pc t := by
      show Function.update s₁.pc u p t = _
      rw [Function.update_of_ne hne.symm, hpc]
    rw [Sender.steps, Sender.steps, hpct]
    show (s.pc t).steps s₁.tcpWritePending s₁.tcpSenderCache.length ≤ _
    rw [hpending, hcache]
  cases a with
  | call u =>
    have hne : u ≠ t := of_decide_eq_false hnew
    rw [step] at heq
    dsimp only at heq
    split at heq
    · cases heq
      exact le_rfl
    · cases heq
      exact hapart { s with calls := s.calls + 1 } _ hne rfl rfl rfl
  | run u o =>
    have hturn := (exec_turns h.holdsLock u o ha.1 ha.2.1).of_ok heq
    rcases eq_or_ne u t with rfl | hne
    -- its own step, and then the step of another
    · rw [Action.runs, decide_eq_true rfl, if_pos rfl]
      exact hturn.steps
    · rw [Action.runs, decide_eq_false hne]
      exact hturn.steps_le h.holdsLock h.unloading hne.symm
  | take k =>
    have hsame : Yields (fun s' => s'.steps t ≤ s.steps t) (step L s (.take k)) := by
      refine .bind_any fun pk _ => .bind_any fun b _ => ?_
      split <;> exact le_rfl
    exact hsame.of_ok heq
  | complete u k status =>
    have hne : u ≠ t := of_decide_eq_false hnew
    have hsame : Yields (fun s' => s'.steps t ≤ s.steps t) (step L s (.complete u k status)) :=
      .bind_any fun pk _ => hapart _ _ hne rfl rfl rfl
    exact hsame.of_ok heq
  | close =>
    cases heq
    exact le_rfl
  | unload u =>
    cases heq
    exact hapart { s with unloaded := true } _ (of_decide_eq_false hnew) rfl rfl rfl

/-- **A thread makes no more steps than it has left**, whatever the others do meanwhile. Induction
on the run. -/
theorem SendRun.steps (h : SendReachable L s) {as : List (Action τ)} (hrun : SendRun L s as s')
    (hnew : ∀ a ∈ as, a.begins t = false) : as.countP (·.runs t) ≤ s.steps t := by
  induction hrun with
  | nil s => exact Nat.zero_le _
  | @cons s s₁ s' a as ha hstep hrun ih =>
    have hfirst := step_steps h ha (hnew a List.mem_cons_self) hstep
    have hrest := ih (h.tail ⟨a, ha, hstep⟩) fun b hb => hnew b (List.mem_cons_of_mem a hb)
    rw [List.countP_cons]
    omega

omit [DecidableEq τ] in
/-- The bound, for a call and for an unload. -/
theorem Sender.steps_le (s : Sender τ) (t : τ) :
    s.steps t ≤ if (s.pc t).unloads then 2 * s.tcpSenderCache.length + 4 else 20 := by
  rw [Sender.steps]
  cases s.pc t with
  | raise c => exact (Pc.raise_steps ..).le.trans (show 13 ≤ 20 by decide)
  | unloadSize | unloadEnter | unloadDrain | unloadFree k | unloadLeave =>
    simp only [Pc.steps, Pc.unloads, if_true]
    omega
  | _ => simp [Pc.steps, Pc.unloads]

end

/-- **A call takes 20 steps at most**, and so does the handling of a completion, whatever the
other threads, the transport and the user do meanwhile; `tcp_unload` takes two for each packet it
finds in the queue. In particular `tcp_try_write` never goes round its loop for ever. -/
theorem tcpWrite_bounded {τ : Type} [DecidableEq τ] (L : SendLink) (s s' : Sender τ)
    (h : SendReachable L s) (t : τ) (as : List (Action τ)) (hrun : SendRun L s as s')
    (hnew : ∀ a ∈ as, a.begins t = false) :
    as.countP (·.runs t)
      ≤ if (s.pc t).unloads then 2 * s.tcpSenderCache.length + 4 else 20 :=
  (hrun.steps h hnew).trans (s.steps_le t)

/-- A run that is played is a run of its actions. -/
theorem play_run {τ : Type} [DecidableEq τ] [Fintype τ] {L : SendLink} {s s' : Sender τ}
    {as : List (Action τ)} (heq : play L s as = some s') : SendRun L s as s' := by
  induction as generalizing s with
  | nil =>
    cases heq
    exact .nil _
  | cons a as ih =>
    rw [play] at heq
    split at heq
    · rename_i ha
      cases hstep : step L s a with
      | error e => rw [hstep] at heq; cases heq
      | ok s₁ =>
        rw [hstep] at heq
        exact .cons a as ha hstep (ih heq)
    · cases heq

/-- A call that finds the link free and sends its packet at once. -/
theorem tcpWrite_bounded_oneWrite : ∃ s s' : Sender Unit,
    SendReachable (rawLink [[1, 2]]) s ∧ s.pc () = .refer 0
      ∧ SendRun (rawLink [[1, 2]]) s (List.replicate 15 (.run () ⟨true, true⟩)) s'
      ∧ s'.results = [(0, 0)] ∧ 15 ≤ if (s.pc ()).unloads then
        2 * s.tcpSenderCache.length + 4 else 20 := by
  have hfirst : ∃ s, play (rawLink [[1, 2]]) (.start : Sender Unit) [.call ()] = some s
      ∧ s.pc () = .refer 0
      ∧ (play (rawLink [[1, 2]]) s (List.replicate 15 (.run () ⟨true, true⟩))).any
          (fun s' => decide (s'.results = [(0, 0)])) = true :=
    ⟨_, rfl, rfl, by decide⟩
  obtain ⟨s, hcall, hpc, hplay⟩ := hfirst
  obtain ⟨s', hrun, hresults⟩ := Option.any_eq_true _ _ |>.mp hplay
  have hs : SendReachable (rawLink [[1, 2]]) s := play_reachable .refl hcall
  exact ⟨s, s', hs, hpc, play_run hrun, of_decide_eq_true hresults,
    tcpWrite_bounded _ s s' hs () _ (play_run hrun) (by decide)⟩

/-! ## Coming to rest -/

/-- A thread or a completion goes on. -/
def Action.goesOn {τ : Type} : Action τ → Bool
  | .run _ _ | .complete _ _ _ => true
  | _ => false

def Action.isCall {τ : Type} : Action τ → Bool
  | .call _ => true
  | _ => false

def Action.isUnload {τ : Type} : Action τ → Bool
  | .unload _ => true
  | _ => false

/-- The steps and completions that are left. A packet that is still to be posted or to come back
costs the steps of its completion. -/
def Sender.work {τ : Type} [Fintype τ] (s : Sender τ) : Nat :=
  ∑ t, (s.steps t + 19 * (s.pc t).packets) + 19 * (s.tcpSenderCache.length + s.posted.length)

section

variable {τ : Type} [DecidableEq τ] {L : SendLink} {s s' : Sender τ} {t : τ} {p : Pc}

/-- If all others go down, the sum goes down by what one goes down. -/
theorem sum_le_of_others [Fintype τ] {f g : τ → Nat} (t : τ) (h : ∀ u, u ≠ t → g u ≤ f u) :
    ∑ u, g u + f t ≤ ∑ u, f u + g t := by
  have hrest : ∑ u ∈ Finset.univ.erase t, g u ≤ ∑ u ∈ Finset.univ.erase t, f u :=
    Finset.sum_le_sum fun u hu => h u (Finset.ne_of_mem_erase hu)
  rw [← Finset.sum_erase_add _ _ (Finset.mem_univ t),
    ← Finset.sum_erase_add _ _ (Finset.mem_univ t)]
  omega

/-- **The work goes down with every step of a thread.** -/
theorem Sender.Turns.work [Fintype τ] (hturn : Turns t s s') (h : HoldsLock s) (hu : Unloading s) :
    s'.work < s.work := by
  have hsum : _ ≤ _ := sum_le_of_others (f := fun u => s.steps u + 19 * (s.pc u).packets)
    (g := fun u => s'.steps u + 19 * (s'.pc u).packets) t fun u hne => by
      have hle := hturn.steps_le h hu hne
      rw [hturn.others u hne]
      omega
  have hsteps := hturn.steps
  have hpackets := hturn.packets
  simp only [Sender.work]
  omega

/-- A thread is given something to do. -/
theorem work_begin [Fintype τ] (s₁ : Sender τ) (hpc : s₁.pc = s.pc)
    (hpending : s₁.tcpWritePending = s.tcpWritePending)
    (hcache : s₁.tcpSenderCache = s.tcpSenderCache) :
    (s₁.goto t p).work + 19 * s.posted.length
      ≤ s.work + p.steps s.tcpWritePending s.tcpSenderCache.length + 19 * p.packets
        + 19 * s₁.posted.length := by
  have hself : (s₁.goto t p).pc t = p := Function.update_self ..
  have hsteps : ∀ u, (s₁.goto t p).steps u
      = ((s₁.goto t p).pc u).steps s.tcpWritePending s.tcpSenderCache.length := by
    intro u
    show ((s₁.goto t p).pc u).steps s₁.tcpWritePending s₁.tcpSenderCache.length = _
    rw [hpending, hcache]
  have hsum := sum_le_of_others (f := fun u => s.steps u + 19 * (s.pc u).packets)
    (g := fun u => (s₁.goto t p).steps u + 19 * ((s₁.goto t p).pc u).packets) t fun u hne => by
      have hpcu : (s₁.goto t p).pc u = s.pc u := by
        show Function.update s₁.pc t p u = _
        rw [Function.update_of_ne hne, hpc]
      rw [hsteps, hpcu]
      exact le_rfl
  have hcache' : (s₁.goto t p).tcpSenderCache = s.tcpSenderCache := hcache
  have hposted : (s₁.goto t p).posted = s₁.posted := rfl
  simp only [hsteps, hself] at hsum
  simp only [Sender.work, hsteps, hcache', hposted]
  omega

theorem dispatchIoEvent_steps (k : Nat) (status : NtStatus) (size pending : Int) (queued : Nat) :
    (dispatchIoEvent k status size).steps pending queued ≤ 18
      ∧ (dispatchIoEvent k status size).packets = 0 := by
  unfold dispatchIoEvent
  split
  · exact ⟨le_rfl, rfl⟩
  · split
    · exact ⟨(by decide : 3 ≤ 18), rfl⟩
    · exact ⟨(by decide : 17 ≤ 18), rfl⟩

/-- A completion is picked up. -/
theorem work_complete [Fintype τ] {k : Nat} (hk : k ∈ s.posted) (status : NtStatus) (size : Int)
    (s₁ : Sender τ) (hpc : s₁.pc = s.pc) (hpending : s₁.tcpWritePending = s.tcpWritePending)
    (hcache : s₁.tcpSenderCache = s.tcpSenderCache) (hposted : s₁.posted = s.posted.erase k) :
    (s₁.goto t (dispatchIoEvent k status size)).work + 1 ≤ s.work := by
  obtain ⟨hsteps, hpackets⟩ := dispatchIoEvent_steps k status size s.tcpWritePending
    s.tcpSenderCache.length
  have hbegin := work_begin (t := t) (p := dispatchIoEvent k status size) s₁ hpc hpending hcache
  have hlength : (s.posted.erase k).length = s.posted.length - 1 := List.length_erase_of_mem hk
  have hpos := List.length_pos_of_mem hk
  rw [hpackets, hposted, hlength] at hbegin
  omega

/-- **What is left gets less** with every step of a thread and every completion; a call adds to
it. -/
theorem step_work [Fintype τ] (h : SendReachable L s) {a : Action τ} (ha : Enabled s a)
    (hload : a.isUnload = false) (heq : step L s a = .ok s') :
    s'.work + (if a.goesOn then 1 else 0) ≤ s.work + (if a.isCall then 39 else 0) := by
  cases a with
  -- a call that is not turned down brings work with it
  | call t =>
    rw [step] at heq
    dsimp only at heq
    split at heq
    · cases heq
      exact Nat.le_add_right s.work 39
    · cases heq
      have hbegin :=
        work_begin (s := s) (t := t) (p := .refer s.calls) { s with calls := s.calls + 1 } rfl
        rfl rfl
      simp only [Pc.steps, Pc.packets] at hbegin
      simp only [Action.goesOn, Action.isCall, if_true, Bool.false_eq_true, if_false]
      omega
  | run t o =>
    have hturn := (exec_turns h.holdsLock t o ha.1 ha.2.1).of_ok heq
    exact hturn.work h.holdsLock h.unloading
  | take k =>
    have hsame : Yields (fun s' => s'.work ≤ s.work) (step L s (.take k)) := by
      refine .bind_any fun pk _ => .bind_any fun b _ => ?_
      split <;> exact le_rfl
    exact hsame.of_ok heq
  -- a completion takes a packet from the transport, which outweighs its handler
  | complete t k status =>
    have hk : k ∈ s.posted := ha.2
    have hless : Yields (fun s' => s'.work + 1 ≤ s.work) (step L s (.complete t k status)) :=
      .bind_any fun pk _ => work_complete hk status (s.taken k) _ rfl rfl rfl rfl
    exact hless.of_ok heq
  | close =>
    cases heq
    exact le_rfl
  | unload t => cases hload

/-- **The work bounds a run**: every call adds to it, every other step takes from it. Induction on
the run. -/
theorem SendRun.work [Fintype τ] (h : SendReachable L s) {as : List (Action τ)}
    (hrun : SendRun L s as s') (hload : ∀ a ∈ as, a.isUnload = false) :
    as.countP Action.goesOn ≤ s.work + 39 * as.countP Action.isCall := by
  induction hrun with
  | nil s => exact Nat.zero_le _
  | @cons s s₁ s' a as ha hstep hrun ih =>
    have hfirst := step_work h ha (hload a List.mem_cons_self) hstep
    have hrest := ih (h.tail ⟨a, ha, hstep⟩) fun b hb => hload b (List.mem_cons_of_mem a hb)
    rw [List.countP_cons, List.countP_cons]
    split at hfirst <;> split at hfirst <;> simp_all <;> omega

/-! ## Nobody is stuck -/

omit [DecidableEq τ] in
/-- A packet that is freed can only go astray. -/
theorem freepkt_stops (s : Sender τ) (k : Nat) : Stops Stray (s.freepkt k) :=
  .bind (Cell.get_stops _) fun _ => .bind (Cell.free_stops _) fun _ => .bind (Cell.free_stops _)
    fun _ => .ok _

/-- Apart from filling the buffer and from taking the head of an empty queue, a step of a thread
faults only on memory outside of its lifetime. -/
theorem exec_stops (t : τ) (o : SendOutcome) (hfill : ∀ k, s.pc t ≠ .fill k)
    (hfirst : ∀ c, s.pc t = .first c → s.tcpSenderCache ≠ []) :
    Stops Stray (exec L t o s (s.pc t)) := by
  cases hp : s.pc t with
  | fill k => exact absurd hp (hfill k)
  | first c =>
    rw [exec]
    cases hq : s.tcpSenderCache with
    | nil => exact absurd hq (hfirst c hp)
    | cons next rest => exact .bind (Cell.get_stops _) fun _ => .ok _
  | _ =>
    rw [exec.eq_def]
    dsimp only
    repeat' first
      | exact .ok _
      | exact Cell.get_stops _
      | exact Cell.free_stops _
      | exact freepkt_stops _ _
      | split
      | refine .bind ?_ fun _ => ?_

omit [DecidableEq τ] in
/-- A thread that does not wait for the lock can go on. -/
theorem exists_run (hu : Unloading s) (hrun : s.pc t ≠ .idle)
    (hlock : (s.pc t).locks = true → s.tcpSenderLocker = none) : ∃ o, Enabled s (.run t o) := by
  refine ⟨⟨!s.unloaded, true⟩, hrun, hlock, fun _ => ⟨fun hopen => ?_, fun hun => ?_⟩⟩
  · cases hun : s.unloaded with
    | false => rfl
    | true =>
      rw [hu.closed hun] at hopen
      cases hopen
  · rw [hun]
    rfl

/-- Who is inside does not ask for the lock. -/
theorem Pc.locks_of_inside (hin : p.inside = true) : p.locks = false := by
  cases p <;> first | rfl | cases hin

omit [DecidableEq τ] in
/-- A thread can go on, or the one that holds the lock can. -/
theorem exists_enabled (h : HoldsLock s) (hu : Unloading s) (hrun : s.pc t ≠ .idle) :
    ∃ u o, Enabled s (.run u o) := by
  cases hlock : s.tcpSenderLocker with
  | none => exact ⟨t, exists_run hu hrun fun _ => hlock⟩
  | some u =>
    have hin := (h u).mpr hlock
    refine ⟨u, exists_run hu (fun hidle => ?_) fun hlocks => ?_⟩
    · rw [hidle] at hin
      cases hin
    · rw [Pc.locks_of_inside hin] at hlocks
      cases hlocks

theorem exec_runs (h : SendReachable L s) {o : SendOutcome} (hfill : ∀ k, s.pc t ≠ .fill k) :
    ∃ s', exec L t o s (s.pc t) = .ok s' := by
  have hfirst : ∀ c, s.pc t = .first c → s.tcpSenderCache ≠ [] := by
    intro c hc
    obtain ⟨f, hg⟩ := h.gated (h.unloading.not_unloaded (t := t) (by rw [hc]; rfl))
    obtain ⟨c', hinv⟩ := hg.inv
    exact hinv.queue_ne_nil (congrArg Pc.phase hc)
  exact (exec_stops t o hfill hfirst).runs (exec_custody h.custody t o)

end

/-- **Sending comes to rest**, for any number of threads. From every reachable state: no deadlock,
as where a thread is at work one can go on; no fault, apart from one in filling a buffer with the
user's data; no livelock, as until the link is unloaded the steps of the threads and the
completions are bounded, with 39 for each call of `tcp_write` on the way. And where the threads
and the transport have nothing left on an open link, all that was appended was sent and is back. -/
theorem send_quiesces {τ : Type} [DecidableEq τ] [Fintype τ] (L : SendLink) (s : Sender τ)
    (h : SendReachable L s) :
    (∀ t, s.pc t ≠ .idle → ∃ u o, Enabled s (.run u o))
      ∧ (∀ t o, Enabled s (.run t o) → (∀ k, s.pc t ≠ .fill k) → ∃ s', step L s (.run t o) = .ok s')
      ∧ (∀ as s', SendRun L s as s' → (∀ a ∈ as, a.isUnload = false) →
          as.countP Action.goesOn ≤ s.work + 39 * as.countP Action.isCall)
      ∧ ((∀ t, s.pc t = .idle) → s.posted = [] → s.closed = false →
          s.sent = s.appended ∧ s.lowered = s.sent) := by
  refine ⟨fun t hrun => exists_enabled h.holdsLock h.unloading hrun,
    fun t o _ hfill => exec_runs h hfill, fun as s' hrun hload => hrun.work h hload,
    fun hidle hposted hopen => ?_⟩
  have hu : s.unloaded = false := by
    refine Bool.eq_false_of_not_eq_true fun hu => ?_
    rw [h.unloading.closed hu] at hopen
    cases hopen
  obtain ⟨f, hg⟩ := h.gated hu
  exact hg.at_rest hopen hidle hposted

/-- A packet is written, taken by the transport and completed. -/
theorem send_quiesces_oneWrite : ∃ s : Sender Unit,
    SendReachable (rawLink [[1, 2]]) s ∧ s.completions = [(0, 0)] ∧ s.sent = s.appended
      ∧ s.lowered = s.sent := by
  obtain ⟨s, hs, hcompletions, hidle, hposted, hopen⟩ := exists_of_play (L := rawLink [[1, 2]])
    (P := fun s => s.completions = [(0, 0)] ∧ s.pc () = .idle ∧ s.posted = [] ∧ s.closed = false)
    (writeSteps 15 ++ [.take 0, .take 0, .complete () 0 0]
      ++ List.replicate 7 (.run () ⟨true, true⟩)) (by decide)
  exact ⟨s, hs, hcompletions,
    (send_quiesces (rawLink [[1, 2]]) s hs).2.2.2 (fun _ => hidle) hposted hopen⟩

end Swnet
