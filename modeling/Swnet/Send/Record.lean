import Swnet.Send.Protocol

/-!
# Swnet — what a step puts on record

`Recorded` says once what a step of a thread can do to the record of a run: it appends a
packet, hands one to the transport, lowers `tcp_write_pending_` for one, returns from a call
of `tcp_write`, or leaves the record alone (`exec_recorded`). What holds of whole runs
follows case by case.

* `SendReachable.calls` — a call of `tcp_write` returns once, and it returns `0` exactly when
  its packet was appended to the queue.
* `SendReachable.settled` — what was sent is a prefix of what was appended, and all of it but
  one packet is back.

What a thread in the code has still to tell about its call is read off its place (`Pc.verdict`), and
`Calls` keeps that in step with the results on record. That the packets sent are a prefix of those
appended comes from the gate.
-/

namespace Swnet

open CMem

/-! ## What a place knows -/

/-- Whether the packet of call `j` was appended. -/
def knows (j : Nat) (appended : Bool) (k : Nat) : List Bool := if j = k then [appended] else []

/-- What a thread inside call `k` of `tcp_write` has done about its packet, or will return. -/
def Pc.verdict : Pc → Nat → List Bool
  | .refer j | .check j | .malloc j | .fill j | .wrap j | .giveUp j _ | .enter (.write j) | .grow j
  | .shrink j | .append j => knows j false
  | .raise (.write j) | .lower (.write j) | .first (.write j) | .drop (.write j) _
  | .leave (.write j) (some _) _ | .send (.write j) _ | .sendClose (.write j) _
  | .sendFree (.write j) _ => knows j true
  | .leave (.write j) none retval | .written j retval | .defer j retval =>
    knows j (decide (retval = 0))
  | _ => fun _ => []

/-- After a completion with this status and this many bytes the link is not used further. -/
def completionEnds (status : NtStatus) (size : Nat) : Bool :=
  if ntSuccess status then size == 0 else endsLink status

/-- The packet whose completion makes the thread close the link. -/
def Pc.ending : Pc → Option Nat
  | .shutClose k _ => some k
  | .exRefer k status => if endsLink status then some k else none
  | _ => none

/-- What a handler knows of the completion it handles. -/
def Pc.Told {τ : Type} (s : Sender τ) : Pc → Prop
  | .ioRefer k | .ioLower k | .exLower k =>
    ∃ status, (k, status) ∈ s.completions ∧ completionEnds status (s.taken k) = false
  | .exRefer k status => (k, status) ∈ s.completions ∧ ntSuccess status = false
  | _ => True

@[simp] theorem knows_self (j : Nat) (b : Bool) : knows j b j = [b] := if_pos rfl

theorem knows_of_ne {j k : Nat} (h : k ≠ j) (b : Bool) : knows j b k = [] :=
  if_neg fun heq => h heq.symm

/-- The record of a run, as far as its threads write it. -/
def Sender.history {τ : Type} (s : Sender τ) :
    List Nat × List Nat × List Nat × List Nat × List (Nat × Int) :=
  (s.appended, s.sent, s.posted, s.lowered, s.results)

section

variable {τ : Type} [DecidableEq τ] {L : SendLink} {s s' : Sender τ} {t : τ} {p : Pc}
  {f : List Nat} {k : Nat}

/-- A step of thread `t` to `p` that leaves the record alone. -/
structure Quiet (s s' : Sender τ) (t : τ) (p : Pc) : Prop where
  pc : s'.pc = Function.update s.pc t p
  history : s'.history = s.history
  closed : s.closed = true → s'.closed = true
  verdict : p.verdict = (s.pc t).verdict
  told : (s.pc t).Told s → p.Told s
  ending : p.ending = (s.pc t).ending ∨ s'.closed = true

/-- What a step of thread `t` does to the record. -/
inductive Recorded (s : Sender τ) (t : τ) (s' : Sender τ) : Prop
  | quiet (p : Pc) (h : Quiet s s' t p)
  | refuse (k : Nat) (ht : s.pc t = .refer k)
      (hs : s' = { s with results := s.results ++ [(k, -2)] }.goto t .idle)
  | append (k : Nat) (ht : s.pc t = .append k)
      (hs : s' = { s with
        tcpSenderCache := s.tcpSenderCache ++ [k]
        appended := s.appended ++ [k] }.goto t (.raise (.write k)))
  | send (c : Caller) (k : Nat) (p : Pc) (posted : List Nat) (ht : s.pc t = .send c k)
      (hp : p.verdict = (Pc.send c k).verdict ∧ p.Told s ∧ p.ending = none)
      (hposted : posted = s.posted ++ [k] ∨ posted = s.posted)
      (hs : s' = { s with sent := s.sent ++ [k], posted := posted }.goto t p)
  | lower (k : Nat) (p : Pc) (ht : s.pc t = .ioLower k ∨ s.pc t = .exLower k)
      (hp : p.verdict = (s.pc t).verdict ∧ p.Told s ∧ p.ending = none)
      (hs : s' = { s with
        tcpWritePending := s.tcpWritePending - 1
        lowered := s.lowered ++ [k] }.goto t p)
  | answer (k : Nat) (retval : Int) (ht : s.pc t = .defer k retval)
      (hs : s' = { s with results := s.results ++ [(k, retval)] }.goto t .idle)

omit [DecidableEq τ] in
theorem Caller.resume_told (c : Caller) (retval : Int) : (c.resume retval).Told s := by
  rcases c with k | k | _ <;> trivial

theorem Caller.resume_ending (c : Caller) (retval : Int) : (c.resume retval).ending = none := by
  rcases c with k | k | _ <;> rfl

theorem Caller.resume_verdict (c : Caller) (retval : Int) :
    (c.resume retval).verdict = (Pc.leave c none retval).verdict := by
  rcases c with k | k | _ <;> rfl

theorem Caller.resume_zero_verdict (c : Caller) (k : Nat) :
    (c.resume 0).verdict = (Pc.send c k).verdict := by
  rcases c with k | k | _ <;> rfl

/-- **What a step of a thread records.** `hrefr`: a link that cannot be referenced is closed. -/
theorem exec_recorded (t : τ) (o : SendOutcome)
    (hrefr : (s.pc t).refers = true → s.closed = false → o.refr = true) :
    Yields (Recorded s t) (exec L t o s (s.pc t)) := by
  -- the places that only move on, with nothing known about a completion before or after
  have hmove : ∀ (s₁ : Sender τ) {p : Pc}, s₁.history = s.history → s₁.pc = s.pc →
      s₁.closed = s.closed → p.verdict = (s.pc t).verdict → p.Told s →
      p.ending = (s.pc t).ending → Recorded s t (s₁.goto t p) := by
    intro s₁ p hh hpc hcl hv htold hend
    exact .quiet p ⟨by rw [← hpc]; rfl, hh, fun h => hcl.trans h, hv, fun _ => htold, Or.inl hend⟩
  -- a packet is freed
  have hfree : ∀ {p : Pc} (k : Nat), p.verdict = (s.pc t).verdict → p.Told s →
      p.ending = (s.pc t).ending →
      Yields (Recorded s t) (s.freepkt k >>= fun s => (.ok (s.goto t p) : Exec (Sender τ))) := by
    refine fun k hv htold hend => (s.freepkt_yields k).bind fun s₁ hs₁ => ?_
    obtain ⟨b, pk, rfl⟩ := hs₁
    exact hmove _ rfl rfl rfl hv htold hend
  have hgone : (s.pc t).refers = true → o.refr ≠ true → s.closed = true :=
    fun hr hno => Bool.eq_true_of_not_eq_false fun hcl => hno (hrefr hr hcl)
  have hminus : decide ((-1 : Int) = 0) = false := by decide
  cases hp : s.pc t with
  | idle =>
    refine .quiet (s.pc t) ⟨(Function.update_eq_self ..).symm, rfl, id, rfl, id, Or.inl rfl⟩
  | refer k =>
    -- `tcprefr` fails: the call returns at once
    rw [exec]
    split
    · exact hmove s rfl rfl rfl (by rw [hp]; rfl) trivial (by rw [hp]; rfl)
    · exact .refuse k hp rfl
  | check k =>
    rw [exec]
    split <;> exact hmove s rfl rfl rfl (by rw [hp]; rfl) trivial (by rw [hp]; rfl)
  | malloc k =>
    rw [exec]
    split <;> exact hmove _ rfl rfl rfl (by rw [hp]; rfl) trivial (by rw [hp]; rfl)
  | fill k =>
    refine .bind_any fun b _ => .bind_any fun res _ => ?_
    cases res <;> exact hmove _ rfl rfl rfl (by rw [hp]; rfl) trivial (by rw [hp]; rfl)
  | wrap k =>
    rw [exec]
    split <;> exact hmove _ rfl rfl rfl (by rw [hp]; rfl) trivial (by rw [hp]; rfl)
  | written k retval =>
    -- the answer is known: the packet was not appended, and the caller is told so
    rw [exec]
    split
    · rename_i hneg
      have hfalse : decide (retval = 0) = false := by
        rw [decide_eq_false_iff_not]
        omega
      refine hfree k ?_ trivial (by rw [hp]; rfl)
      rw [hp]
      show knows k false = knows k (decide (retval = 0))
      rw [hfalse]
    · exact hmove s rfl rfl rfl (by rw [hp]; rfl) trivial (by rw [hp]; rfl)
  | giveUp k buffer =>
    have hverdict : (Pc.defer k (-1)).verdict = (Pc.giveUp k buffer).verdict := by
      show knows k (decide ((-1 : Int) = 0)) = knows k false
      rw [hminus]
    rw [exec]
    split
    · exact .bind_any fun cell _ =>
        hmove (s.setBuffer k cell) rfl rfl rfl (by rw [hp, hverdict]) trivial (by rw [hp]; rfl)
    · exact hmove s rfl rfl rfl (by rw [hp, hverdict]) trivial (by rw [hp]; rfl)
  | defer k retval => exact .answer k retval hp rfl
  | enter c =>
    cases c <;>
      exact hmove { s with tcpSenderLocker := some t } rfl rfl rfl (by rw [hp]; rfl) trivial
        (by rw [hp]; rfl)
  | grow k =>
    rw [exec]
    split <;> exact hmove { s with tcpSenderListSize := s.tcpSenderListSize + 1 } rfl rfl rfl
      (by rw [hp]; rfl) trivial (by rw [hp]; rfl)
  | shrink k =>
    refine hmove { s with tcpSenderListSize := s.tcpSenderListSize - 1 } rfl rfl rfl ?_ trivial
      (by rw [hp]; rfl)
    rw [hp]
    show knows k (decide ((-1 : Int) = 0)) = knows k false
    rw [hminus]
  | append k => exact .bind_any fun _ _ => .append k hp rfl
    -- from here on the call is bound to return 0
  | look c =>
    rw [exec]
    split <;> exact hmove s rfl rfl rfl (by rw [hp]; rfl) trivial (by rw [hp]; rfl)
  | raise c =>
    rw [exec]
    split <;> exact hmove { s with tcpWritePending := s.tcpWritePending + 1 } rfl rfl rfl
      (by rw [hp]; cases c <;> rfl) trivial (by rw [hp]; rfl)
  | lower c =>
    rw [exec]
    split <;> exact hmove { s with tcpWritePending := s.tcpWritePending - 1 } rfl rfl rfl
      (by rw [hp]; cases c <;> rfl) trivial (by rw [hp]; rfl)
  | first c =>
    rw [exec]
    split
    · trivial
    · exact .bind_any fun _ _ =>
        hmove _ rfl rfl rfl (by rw [hp]; cases c <;> rfl) trivial (by rw [hp]; rfl)
  | drop c next =>
    exact hmove { s with tcpSenderListSize := s.tcpSenderListSize - 1 } rfl rfl rfl
      (by rw [hp]; cases c <;> rfl) trivial (by rw [hp]; rfl)
  | leave c next retval =>
    cases next with
    | none =>
      exact hmove { s with tcpSenderLocker := none } rfl rfl rfl
        (by rw [hp]; exact c.resume_verdict retval) (c.resume_told retval)
        (by rw [hp]; exact c.resume_ending retval)
    | some next =>
      exact hmove { s with tcpSenderLocker := none } rfl rfl rfl (by rw [hp]; cases c <;> rfl)
        trivial (by rw [hp]; rfl)
  | send c next =>
    refine .bind_any fun _ _ => ?_
    dsimp only
    split
    · exact .send c next _ _ hp
        ⟨c.resume_zero_verdict next, c.resume_told 0, c.resume_ending 0⟩ (Or.inl rfl) rfl
    · exact .send c next (.sendClose c next) _ hp ⟨by cases c <;> rfl, trivial, rfl⟩
        (Or.inr rfl) rfl
  | sendClose c next =>
    exact .quiet (.sendFree c next) ⟨rfl, rfl, fun _ => rfl, by rw [hp]; cases c <;> rfl,
      fun _ => trivial, Or.inr rfl⟩
  | sendFree c next =>
    exact hfree next (by rw [hp, c.resume_zero_verdict next]; cases c <;> rfl) (c.resume_told 0)
      (by rw [hp, c.resume_ending]; rfl)
  | shutClose k ref =>
    exact .quiet (.shutFree k ref) ⟨rfl, rfl, fun _ => rfl, by rw [hp]; rfl, fun _ => trivial,
      Or.inr rfl⟩
  | shutFree k ref =>
    exact hfree k (by rw [hp]; cases ref <;> rfl) (by cases ref <;> trivial)
      (by rw [hp]; cases ref <;> rfl)
  | discard k => exact hfree k (by rw [hp]; rfl) trivial (by rw [hp]; rfl)
  | ioRefer k =>
    rw [exec]
    split
    · exact .quiet (.ioLower k) ⟨rfl, rfl, id, by rw [hp]; rfl, by rw [hp]; exact id,
        Or.inl (by rw [hp]; rfl)⟩
    · exact hmove s rfl rfl rfl (by rw [hp]; rfl) trivial (by rw [hp]; rfl)
  | ioLower k =>
    exact .lower k (.enter (.handler (.ioSend k))) (Or.inl hp) ⟨by rw [hp]; rfl, trivial, rfl⟩ rfl
  | ioFree k => exact hfree k (by rw [hp]; rfl) trivial (by rw [hp]; rfl)
  | exRefer k status =>
    -- a failed send ends the link, unless its status is one that goes on
    rw [exec]
    split
    · rename_i hno
      exact .quiet (.discard k) ⟨rfl, rfl, id, by rw [hp]; rfl, fun _ => trivial,
        Or.inr (hgone (by rw [hp]; rfl) hno)⟩
    · split
      · rename_i hends
        exact hmove s rfl rfl rfl (by rw [hp]; rfl) trivial (by rw [hp]; exact (if_pos hends).symm)
      · rename_i hends
        refine .quiet (.exLower k) ⟨rfl, rfl, id, by rw [hp]; rfl, ?_, Or.inl ?_⟩
        · rw [hp]
          rintro ⟨hin, hfail⟩
          refine ⟨status, hin, ?_⟩
          rw [completionEnds, if_neg (by rw [hfail]; decide)]
          exact Bool.eq_false_of_not_eq_true hends
        · rw [hp]
          exact (if_neg hends).symm
  | exLower k =>
    exact .lower k (.exFree k) (Or.inr hp) ⟨by rw [hp]; rfl, trivial, rfl⟩ rfl
  | exFree k => exact hfree k (by rw [hp]; rfl) trivial (by rw [hp]; rfl)
  | ioDefer => exact hmove s rfl rfl rfl (by rw [hp]; rfl) trivial (by rw [hp]; rfl)
  | unloadSize =>
    exact hmove { s with tcpSenderListSize := 0 } rfl rfl rfl (by rw [hp]; rfl) trivial
      (by rw [hp]; rfl)
  | unloadEnter =>
    exact hmove { s with tcpSenderLocker := some t } rfl rfl rfl (by rw [hp]; rfl) trivial
      (by rw [hp]; rfl)
  | unloadDrain =>
    rw [exec]
    split
    · exact hmove s rfl rfl rfl (by rw [hp]; rfl) trivial (by rw [hp]; rfl)
    · exact .bind_any fun _ _ => hmove _ rfl rfl rfl (by rw [hp]; rfl) trivial (by rw [hp]; rfl)
  | unloadFree k => exact hfree k (by rw [hp]; rfl) trivial (by rw [hp]; rfl)
  | unloadLeave =>
    exact hmove { s with tcpSenderLocker := none } rfl rfl rfl (by rw [hp]; rfl) trivial
      (by rw [hp]; rfl)

/-! ## What a call returns -/

/-- Call `k` returns once. `S` says what each thread knows of it, `appended` how often its
packet was appended, `results` what it returned. -/
inductive Called (S : τ → List Bool) (appended : Nat) (results : List Int) (fresh : Prop) : Prop
  | fresh (hf : fresh) (hS : ∀ u, S u = []) (ha : appended = 0) (hr : results = [])
  | running (t : τ) (b : Bool) (hf : ¬ fresh) (ht : S t = [b]) (hS : ∀ u, u ≠ t → S u = [])
      (ha : appended = b.toNat) (hr : results = [])
  | ended (retval : Int) (hf : ¬ fresh) (hS : ∀ u, S u = [])
      (ha : appended = (decide (retval = 0)).toNat) (hr : results = [retval])

/-- What call `k` returned. -/
def Sender.returned (s : Sender τ) (k : Nat) : List Int :=
  s.results.filterMap fun r => if r.1 = k then some r.2 else none

def Calls (s : Sender τ) : Prop :=
  ∀ k, Called (fun u => (s.pc u).verdict k) (s.appended.count k) (s.returned k) (s.calls ≤ k)

omit [DecidableEq τ] in
theorem Calls.start : Calls (Sender.start : Sender τ) :=
  fun _ => .fresh (Nat.zero_le _) (fun _ => rfl) rfl rfl

omit [DecidableEq τ] in
/-- A return is put on record at the end. -/
theorem Sender.returned_append (s : Sender τ) (j : Nat) (retval : Int) :
    { s with results := s.results ++ [(j, retval)] }.returned k
      = s.returned k ++ if j = k then [retval] else [] := by
  simp only [Sender.returned, List.filterMap_append, List.filterMap_cons, List.filterMap_nil]
  split <;> simp_all

omit [DecidableEq τ] in
/-- A thread inside call `k` is the only one, and the call has not returned. -/
theorem Calls.running (h : Calls s) {b : Bool} (hj : (s.pc t).verdict k = [b]) :
    ¬ s.calls ≤ k ∧ (∀ u, u ≠ t → (s.pc u).verdict k = []) ∧ s.appended.count k = b.toNat
      ∧ s.returned k = [] := by
  cases h k with
  | running u b' hf ht hS ha hr =>
    rcases eq_or_ne t u with rfl | hne
    · rw [hj] at ht
      cases ht
      exact ⟨hf, hS, ha, hr⟩
    · rw [hS t hne] at hj
      cases hj
  | fresh hf hS => rw [hS t] at hj; cases hj
  | ended r hf hS => rw [hS t] at hj; cases hj

/-- A step that is about call `j` only. -/
theorem Calls.move (h : Calls s) (j : Nat) (hpc : s'.pc = Function.update s.pc t p)
    (hverdict : ∀ k, k ≠ j → p.verdict k = (s.pc t).verdict k)
    (hframe : ∀ k, k ≠ j → s'.appended.count k = s.appended.count k
      ∧ s'.returned k = s.returned k ∧ (s'.calls ≤ k ↔ s.calls ≤ k))
    (hj : Called (fun u => (Function.update s.pc t p u).verdict j) (s'.appended.count j)
      (s'.returned j) (s'.calls ≤ j)) : Calls s' := by
  intro k
  rw [hpc]
  rcases eq_or_ne k j with rfl | hne
  · exact hj
  · obtain ⟨ha, hr, hc⟩ := hframe k hne
    rw [view_update (fun q => q.verdict k) s.pc t (hverdict k hne), ha, hr, propext hc]
    exact h k

/-- A step that is about no call. -/
theorem Calls.stay (h : Calls s) (hpc : s'.pc = Function.update s.pc t p)
    (hverdict : p.verdict = (s.pc t).verdict) (ha : s'.appended = s.appended)
    (hr : s'.results = s.results) (hc : s'.calls = s.calls) : Calls s' := by
  intro k
  have hreturned : s'.returned k = s.returned k := by rw [Sender.returned, hr, Sender.returned]
  rw [hpc, view_update (fun q => q.verdict k) s.pc t (congrFun hverdict k), ha, hreturned, hc]
  exact h k

/-- A call returns. -/
theorem Calls.answer (h : Calls s) {retval : Int}
    (hj : (s.pc t).verdict = knows k (decide (retval = 0))) :
    Calls ({ s with results := s.results ++ [(k, retval)] }.goto t .idle) := by
  obtain ⟨hf, hS, ha, hr⟩ := h.running (by rw [hj]; exact knows_self ..)
  refine h.move k rfl (fun j hne => ?_) (fun j hne => ⟨rfl, ?_, Iff.rfl⟩)
    (.ended retval hf (view_update_const (fun q => q.verdict k) rfl hS) ha ?_)
  · rw [hj]
    exact (knows_of_ne hne _).symm
  · exact (s.returned_append k retval).trans (by rw [if_neg hne.symm, List.append_nil])
  · exact (s.returned_append k retval).trans (by rw [hr, if_pos rfl]; rfl)

/-- A packet is appended. -/
theorem Calls.append (h : Calls s) (ht : s.pc t = .append k) :
    Calls ({ s with
      tcpSenderCache := s.tcpSenderCache ++ [k]
      appended := s.appended ++ [k] }.goto t (.raise (.write k))) := by
  obtain ⟨hf, hS, ha, hr⟩ := h.running (t := t) (k := k) (by rw [ht]; exact knows_self ..)
  refine h.move k rfl (fun j hne => ?_) (fun j hne => ⟨?_, rfl, Iff.rfl⟩)
    (.running t true hf ?_ (fun u hu => ?_) ?_ hr)
  · rw [ht]
    exact (knows_of_ne hne _).trans (knows_of_ne hne _).symm
  · show (s.appended ++ [k]).count j = _
    rw [List.count_append, List.count_singleton, if_neg (by simpa using hne.symm), Nat.add_zero]
  · rw [Function.update_self]
    exact knows_self ..
  · rw [Function.update_of_ne hu]
    exact hS u hu
  · show (s.appended ++ [k]).count k = _
    rw [List.count_append, List.count_singleton_self, ha]
    rfl

/-- **A step keeps the books of the calls**, by what it puts on record. -/
theorem Recorded.calls (hr : Recorded s t s') (hc : s'.calls = s.calls) (h : Calls s) :
    Calls s' := by
  cases hr with
  | quiet p hq =>
    have hh := hq.history
    simp only [Sender.history, Prod.mk.injEq] at hh
    exact h.stay hq.pc hq.verdict hh.1 hh.2.2.2.2 hc
  | refuse k ht hs =>
    subst hs
    exact h.answer (by rw [ht]; rfl)
  | append k ht hs =>
    subst hs
    exact h.append ht
  | send c k p posted ht hp hposted hs =>
    subst hs
    exact h.stay rfl (by rw [ht]; exact hp.1) rfl rfl rfl
  | lower k p ht hp hs =>
    subst hs
    exact h.stay rfl hp.1 rfl rfl rfl
  | answer k retval ht hs =>
    subst hs
    exact h.answer (by rw [ht]; rfl)

omit [DecidableEq τ] in
/-- A handler returns nothing to anybody. -/
theorem dispatchIoEvent_verdict (k : Nat) (status : NtStatus) (size : Int) :
    (dispatchIoEvent k status size).verdict = fun _ => [] := by
  unfold dispatchIoEvent
  split
  · rfl
  · split <;> rfl

/-- A call of `tcp_write` begins, or is turned down at once. -/
theorem Calls.call (h : Calls s) (hidle : s.pc t = .idle) :
    Calls { s with calls := s.calls + 1, results := s.results ++ [(s.calls, -1)] }
      ∧ Calls ({ s with calls := s.calls + 1 }.goto t (.refer s.calls)) := by
  obtain ⟨hS, ha, hr⟩ : (∀ u, (s.pc u).verdict s.calls = []) ∧ s.appended.count s.calls = 0
      ∧ s.returned s.calls = [] := by
    cases h s.calls with
    | fresh hf hS ha hr => exact ⟨hS, ha, hr⟩
    | running u b hf => exact absurd (Nat.le_refl _) hf
    | ended r hf => exact absurd (Nat.le_refl _) hf
  have hframe : ∀ k, k ≠ s.calls → (s.calls + 1 ≤ k ↔ s.calls ≤ k) := by
    intro k hk
    omega
  have hbegun : ¬ s.calls + 1 ≤ s.calls := by omega
  constructor
  -- turned down: the call has returned with -1
  · refine h.move (t := t) (p := .idle) s.calls ?_ (fun k hk => by rw [hidle])
      (fun k hk => ⟨rfl, ?_, hframe k hk⟩) (.ended (-1) hbegun ?_ (ha.trans (by decide)) ?_)
    · show s.pc = _
      rw [← hidle, Function.update_eq_self]
    · exact (s.returned_append s.calls (-1)).trans (by rw [if_neg hk.symm, List.append_nil])
    · exact view_update_const (fun q => q.verdict s.calls) rfl fun u _ => hS u
    · exact (s.returned_append s.calls (-1)).trans (by rw [hr, if_pos rfl]; rfl)
  -- accepted: it is under way in this thread
  · refine h.move s.calls rfl (fun k hk => ?_) (fun k hk => ⟨rfl, rfl, hframe k hk⟩)
      (.running t false hbegun ?_ (fun u hu => ?_) ha hr)
    · rw [hidle]
      exact knows_of_ne hk _
    · rw [Function.update_self]
      exact knows_self ..
    · rw [Function.update_of_ne hu]
      exact hS u

theorem step_calls (h : Calls s) {a : Action τ} (ha : Enabled s a) :
    Yields Calls (step L s a) := by
  cases a with
  | call t =>
    rw [step]
    dsimp only
    split
    · exact (h.call ha).1
    · exact (h.call ha).2
  | run t o =>
    have hframed := exec_framed L t o s (s.pc t)
    have hrecorded := exec_recorded (L := L) t o fun hr => (ha.2.2 hr).1
    rw [step]
    cases heq : exec L t o s (s.pc t) with
    | error e => trivial
    | ok s' => exact (hrecorded.of_ok heq).calls (hframed.of_ok heq).2.1 h
  | take k =>
    refine .bind_any fun pk _ => .bind_any fun b _ => ?_
    split <;> exact h
  | complete t k status =>
    refine .bind_any fun pk _ => ?_
    refine h.stay (t := t) (p := dispatchIoEvent k status (s.taken k)) rfl ?_ rfl rfl rfl
    rw [ha.1, dispatchIoEvent_verdict]
    rfl
  | close => exact h
  | unload t => exact h.stay (t := t) (p := .unloadSize) rfl (by rw [ha.1]; rfl) rfl rfl rfl

/-- **In every reachable state.** Induction on the run. -/
theorem SendReachable.calls (h : SendReachable L s) : Calls s := by
  induction h with
  | refl => exact Calls.start
  | tail _ hstep ih =>
    obtain ⟨a, ha, heq⟩ := hstep
    exact (step_calls ih ha).of_ok heq

omit [DecidableEq τ] in
theorem Calls.appended_nodup (h : Calls s) : s.appended.Nodup := by
  rw [List.nodup_iff_count_le_one]
  intro k
  cases h k with
  | fresh hf hS ha => omega
  | running u b hf ht hS ha => rw [ha]; exact b.toNat_le
  | ended r hf hS ha => rw [ha]; exact Bool.toNat_le _

omit [DecidableEq τ] in
/-- A call that returned `0` is one whose packet was appended. -/
theorem Calls.result_iff (h : Calls s) {retval : Int} (hin : (k, retval) ∈ s.results) :
    retval = 0 ↔ k ∈ s.appended := by
  have hreturned : retval ∈ s.returned k :=
    List.mem_filterMap.mpr ⟨(k, retval), hin, if_pos rfl⟩
  cases h k with
  | fresh hf hS ha hr => rw [hr] at hreturned; cases hreturned
  | running u b hf ht hS ha hr => rw [hr] at hreturned; cases hreturned
  | ended r hf hS ha hr =>
    rw [hr, List.mem_singleton] at hreturned
    subst hreturned
    rw [← List.count_pos_iff, ha]
    by_cases hzero : retval = 0 <;> simp [hzero]

/-- Results are not taken back. -/
theorem Recorded.results_prefix (hr : Recorded s t s') : s.results <+: s'.results := by
  cases hr with
  | quiet p hq =>
    have hh := hq.history
    simp only [Sender.history, Prod.mk.injEq] at hh
    rw [hh.2.2.2.2]
  | refuse k ht hs => subst hs; exact List.prefix_append _ _
  | append k ht hs => subst hs; exact List.prefix_refl _
  | send c k p posted ht hp hposted hs => subst hs; exact List.prefix_refl _
  | lower k p ht hp hs => subst hs; exact List.prefix_refl _
  | answer k retval ht hs => subst hs; exact List.prefix_append _ _

/-- A call whose arguments are turned down has returned `-1`. -/
theorem SendReachable.refused (h : SendReachable L s) {k : Nat} (hk : k < s.calls)
    (hrej : (L.call k).rejected = true) : (k, -1) ∈ s.results := by
  induction h with
  | refl => exact absurd hk (Nat.not_lt_zero k)
  | @tail s₁ s₂ hreach hstep ih =>
    obtain ⟨a, ha, heq⟩ := hstep
    cases a with
    | call t =>
      rw [step] at heq
      dsimp only at heq
      rcases Nat.lt_or_ge k s₁.calls with hold | hnew
      · split at heq
        · cases heq
          exact List.mem_append_left _ (ih hold)
        · cases heq
          exact ih hold
      -- it is the call that begins with this step
      · have hcalls : s₂.calls = s₁.calls + 1 := by
          split at heq <;> cases heq <;> rfl
        have hlast : k = s₁.calls := by omega
        subst hlast
        rw [if_pos hrej] at heq
        cases heq
        exact List.mem_append_right _ (List.mem_singleton_self _)
    -- results that are on record stay there
    | run t o =>
      have hcalls := ((exec_framed L t o s₁ (s₁.pc t)).of_ok heq).2.1
      have hrecorded := (exec_recorded t o fun hr => (ha.2.2 hr).1).of_ok heq
      exact hrecorded.results_prefix.subset (ih (hcalls ▸ hk))
    | take j =>
      have hsame : Yields (fun s' => s'.calls = s₁.calls ∧ s'.results = s₁.results)
          (step L s₁ (.take j)) := by
        refine .bind_any fun pk _ => .bind_any fun b _ => ?_
        split <;> exact ⟨rfl, rfl⟩
      obtain ⟨hcalls, hresults⟩ := hsame.of_ok heq
      rw [hresults]
      exact ih (hcalls ▸ hk)
    | complete t j status =>
      have hsame : Yields (fun s' => s'.calls = s₁.calls ∧ s'.results = s₁.results)
          (step L s₁ (.complete t j status)) := .bind_any fun pk _ => ⟨rfl, rfl⟩
      obtain ⟨hcalls, hresults⟩ := hsame.of_ok heq
      rw [hresults]
      exact ih (hcalls ▸ hk)
    | close => cases heq; exact ih hk
    | unload t => cases heq; exact ih hk

/-- What is appended comes from a call whose arguments were accepted. -/
theorem SendReachable.accepted (h : SendReachable L s) (hk : k ∈ s.appended) :
    (L.call k).rejected = false := by
  refine Bool.eq_false_of_not_eq_true fun hrej => ?_
  have hbegun : k < s.calls := by
    have hpos := List.count_pos_iff.mpr hk
    cases h.calls k with
    | fresh hf hS ha => omega
    | running u b hf => exact Nat.not_le.mp hf
    | ended r hf => exact Nat.not_le.mp hf
  have hzero := (h.calls.result_iff (h.refused hbegun hrej)).mpr hk
  omega

/-! ## What was sent -/

/-- What was sent is a prefix of what was appended, and all of it but one packet is back; a
packet the transport has is not. -/
structure Settled (s : Sender τ) : Prop where
  order : s.sent <+: s.appended
  back : ∃ f, s.sent = s.lowered ++ f ∧ f.length ≤ 1 ∧ ∀ k ∈ s.posted, k ∈ f

/-- What the gate knows of its items, said of the packets. -/
theorem Gated.settled (h : Gated s f) : Settled s := by
  obtain ⟨c, hinv⟩ := h.inv
  exact ⟨hinv.sent_prefix, f, hinv.sent_eq, hinv.flying_length_le, h.posted⟩

omit [DecidableEq τ] in
/-- It stays so when none of the lists changes but `posted`, which may lose a packet. -/
theorem Settled.mono (h : Settled s) (hsent : s'.sent = s.sent)
    (happended : s'.appended = s.appended)
    (hlowered : s'.lowered = s.lowered) (hposted : ∀ k ∈ s'.posted, k ∈ s.posted) :
    Settled s' := by
  obtain ⟨horder, f, hback, hone, hall⟩ := h
  refine ⟨by rw [hsent, happended]; exact horder, f, ?_, hone, fun k hk => hall k (hposted k hk)⟩
  rw [hsent, hlowered, hback]

/-- No thread sends or lowers on a link that is unloaded. -/
theorem Recorded.settled (hr : Recorded s t s') (hnoref : (s.pc t).holdsRef = false)
    (h : Settled s) : Settled s' := by
  cases hr with
  | quiet p hq =>
    have hh := hq.history
    simp only [Sender.history, Prod.mk.injEq] at hh
    exact h.mono hh.2.1 hh.1 hh.2.2.2.1 (by rw [hh.2.2.1]; exact fun _ hk => hk)
  | refuse k ht hs =>
    subst hs
    exact h.mono rfl rfl rfl fun _ hk => hk
  | append k ht hs => rw [ht] at hnoref; cases hnoref
  | send c k p posted ht => rw [ht] at hnoref; cases hnoref
  | lower k p ht => rcases ht with ht | ht <;> rw [ht] at hnoref <;> cases hnoref
  | answer k retval ht hs => rw [ht] at hnoref; cases hnoref

/-- **Sends go out in the order of the queue, one at a time, to the end of the link.** Up to
its unloading the gate says so; afterwards nothing is sent any more. -/
theorem SendReachable.settled (h : SendReachable L s) : Settled s := by
  induction h with
  | refl => exact Gated.start.settled
  | @tail s₁ s₂ hreach hstep ih =>
    have hr : SendReachable L s₁ := hreach
    have hr' : SendReachable L s₂ := hr.tail hstep
    cases hu : s₂.unloaded with
    -- up to the unloading the gate says so
    | false =>
      obtain ⟨f, hg⟩ := hr'.gated hu
      exact hg.settled
    -- after it nothing is appended or sent any more
    | true =>
      obtain ⟨a, ha, heq⟩ := hstep
      cases a with
      | call t =>
        rw [step] at heq
        dsimp only at heq
        split at heq <;> cases heq <;> exact ih.mono rfl rfl rfl fun _ hk => hk
      | run t o =>
        have hsame := ((exec_framed L t o s₁ (s₁.pc t)).of_ok heq).1
        have hrecorded := (exec_recorded t o fun hr => (ha.2.2 hr).1).of_ok heq
        exact hrecorded.settled (hr.unloading.noRef (hsame.symm.trans hu) t) ih
      | take k =>
        refine (Yields.bind_any fun pk _ => .bind_any fun b _ => ?_ :
          Yields Settled (step L s₁ (.take k))).of_ok heq
        split
        · exact ih.mono rfl rfl rfl fun _ hk => hk
        · exact ih
      | complete t k status =>
        refine (Yields.bind_any fun pk _ => ?_ :
          Yields Settled (step L s₁ (.complete t k status))).of_ok heq
        exact ih.mono rfl rfl rfl fun _ hk => List.mem_of_mem_erase hk
      | close => cases heq; exact ih.mono rfl rfl rfl fun _ hk => hk
      | unload t => cases heq; exact ih.mono rfl rfl rfl fun _ hk => hk

end

end Swnet
