import Swnet.Lib.SendGate
import Swnet.Send.Unload

/-!
# Swnet — the send queue is a gate

Up to the unloading of the link, the lock, the two counters and the queue of `ncb_t` go
through the steps of a `SendGate`: `Pc.phase` says where a thread stands in it, and every
step of a run is a step of the gate or none (`exec_gated`). What is flying in the gate is
what the transport has, or a handler that has not lowered `tcp_write_pending_` yet, as long
as the link is open.

* `tcpTryWrite_protocol` — one send outstanding, in order, with exact counters and no lost
  wake-up, for any number of threads.

The invariant of the gate is proved once, in the library, for threads that do nothing else. Here a
step of `exec` is matched with the step of the gate it makes, and the invariant is read back in the
words of the code. What the gate leaves open, that a flying item comes back, is the part of the
transport and of the handlers (`Gated.outstanding`).
-/

namespace Swnet

open CMem SendGate

/-! ## The gate of a link -/

/-- Where a thread stands in the gate. -/
def Pc.phase : Pc → Phase Nat
  | .enter (.handler _) | .exFree _ => .retry
  | .grow k => .grow k
  | .shrink _ => .shrink
  | .append k => .push k
  | .look _ => .look
  | .raise _ => .raise
  | .lower _ => .lower
  | .first _ => .pop
  | .drop _ next => .drop next
  | .leave _ next _ => .leave next
  | .send _ next => .send next
  | _ => .out

/-- The packet for which the thread has not lowered `tcp_write_pending_`: one whose posting
failed, or whose completion it handles. -/
def Pc.unlowered : Pc → Option Nat
  | .sendClose _ k | .shutClose k _ | .ioRefer k | .ioLower k | .exRefer k _ | .exLower k => some k
  | _ => none

def Sender.gate {τ : Type} (s : Sender τ) (flying : List Nat) : Gate τ Nat where
  lock := s.tcpSenderLocker
  size := s.tcpSenderListSize
  pending := s.tcpWritePending
  queue := s.tcpSenderCache
  phase t := (s.pc t).phase
  flying := flying
  returned := s.lowered
  pushed := s.appended
  sent := s.sent

/-- The gate of the link is reachable, and what is flying in it is accounted for. -/
structure Gated {τ : Type} [DecidableEq τ] (s : Sender τ) (flying : List Nat) : Prop where
  reach : Reachable tcpMaximumSenderCachedCntPreLink (s.gate flying)
  posted : ∀ k ∈ s.posted, k ∈ flying
  unlowered : ∀ t k, (s.pc t).unlowered = some k → k ∈ flying
  outstanding : s.closed = false →
    ∀ k ∈ flying, k ∈ s.posted ∨ ∃ t, (s.pc t).unlowered = some k

section

variable {τ : Type} [DecidableEq τ] {L : SendLink} {s s' : Sender τ} {t : τ} {p : Pc}
  {f : List Nat} {k : Nat}

theorem Gated.start : Gated (Sender.start : Sender τ) [] where
  reach := .refl
  posted _ hk := (List.not_mem_nil hk).elim
  unlowered _ _ hk := (Option.some_ne_none _ hk.symm).elim
  outstanding _ _ hk := (List.not_mem_nil hk).elim

/-- The invariant of the gate is there. -/
theorem Gated.inv (h : Gated s f) :
    ∃ c, Inv tcpMaximumSenderCachedCntPreLink (s.gate f) c :=
  h.reach.inv (by decide)

/-- A thread that goes on takes its phase with it. -/
theorem Sender.gate_goto (s : Sender τ) (t : τ) (p : Pc) (f : List Nat) :
    (s.goto t p).gate f = (s.gate f).goto t p.phase := by
  have hphase : ((s.goto t p).gate f).phase = Function.update (s.gate f).phase t p.phase := by
    funext u
    show (Function.update s.pc t p u).phase = _
    rcases eq_or_ne u t with rfl | hne
    · rw [Function.update_self, Function.update_self]
    · rw [Function.update_of_ne hne, Function.update_of_ne hne]
      rfl
  show _ = { s.gate f with phase := Function.update (s.gate f).phase t p.phase }
  rw [← hphase]
  rfl

/-! ## Keeping the gate -/

/-- A thread moves; what it has not lowered and what is posted stay. -/
theorem Gated.of_reach (h : Gated s f)
    (hreach : Reachable tcpMaximumSenderCachedCntPreLink ((s'.goto t p).gate f))
    (hposted : s'.posted = s.posted) (hpc : s'.pc = s.pc) (hclosed : s'.closed = s.closed)
    (hunl : p.unlowered = (s.pc t).unlowered) : Gated (s'.goto t p) f where
  reach := hreach
  posted := by
    show ∀ k ∈ s'.posted, k ∈ f
    rw [hposted]
    exact h.posted
  unlowered u j hj := by
    have hj' : (Function.update s'.pc t p u).unlowered = some j := hj
    rcases eq_or_ne u t with rfl | hne
    · rw [Function.update_self, hunl] at hj'
      exact h.unlowered u j hj'
    · rw [Function.update_of_ne hne, hpc] at hj'
      exact h.unlowered u j hj'
  outstanding hopen j hj := by
    rcases h.outstanding (hclosed ▸ hopen) j hj with hp | ⟨u, hu⟩
    · exact Or.inl (by rw [← hposted] at hp; exact hp)
    · refine Or.inr ⟨u, ?_⟩
      show (Function.update s'.pc t p u).unlowered = some j
      rcases eq_or_ne u t with rfl | hne
      · rw [Function.update_self, hunl, hu]
      · rw [Function.update_of_ne hne, hpc, hu]

/-- A step of the gate. -/
theorem Gated.act (h : Gated s f) (s' : Sender τ)
    (hstep : Step tcpMaximumSenderCachedCntPreLink (s.gate f) ((s'.gate f).goto t p.phase))
    (hposted : s'.posted = s.posted) (hpc : s'.pc = s.pc) (hclosed : s'.closed = s.closed)
    (hunl : p.unlowered = (s.pc t).unlowered) : Gated (s'.goto t p) f :=
  h.of_reach (by rw [Sender.gate_goto]; exact h.reach.tail hstep) hposted hpc hclosed hunl

/-- A phase that stays the same changes no gate. -/
theorem Gate.goto_self {g : Gate τ Nat} {q : Phase Nat} (hq : q = g.phase t) : g.goto t q = g := by
  subst hq
  simp [Gate.goto]

/-- A step beside the gate. -/
theorem Gated.stay (h : Gated s f) (s' : Sender τ) (hgate : s'.gate f = s.gate f)
    (hphase : p.phase = (s.pc t).phase) (hposted : s'.posted = s.posted) (hpc : s'.pc = s.pc)
    (hclosed : s'.closed = s.closed) (hunl : p.unlowered = (s.pc t).unlowered) :
    Gated (s'.goto t p) f := by
  refine h.of_reach ?_ hposted hpc hclosed hunl
  rw [Sender.gate_goto, hgate, Gate.goto_self (by rw [hphase]; rfl)]
  exact h.reach

/-- A step beside the gate after which the link is closed: what is flying may stay so. -/
theorem Gated.stayClosed (h : Gated s f) (s' : Sender τ) (hgate : s'.gate f = s.gate f)
    (hphase : p.phase = (s.pc t).phase) (hposted : s'.posted = s.posted) (hpc : s'.pc = s.pc)
    (hclosed : s'.closed = true) (hunl : p.unlowered = none) : Gated (s'.goto t p) f where
  reach := by
    rw [Sender.gate_goto, hgate, Gate.goto_self (by rw [hphase]; rfl)]
    exact h.reach
  posted := by
    show ∀ k ∈ s'.posted, k ∈ f
    rw [hposted]
    exact h.posted
  unlowered u j hj := by
    have hj' : (Function.update s'.pc t p u).unlowered = some j := hj
    rcases eq_or_ne u t with rfl | hne
    · rw [Function.update_self, hunl] at hj'
      cases hj'
    · rw [Function.update_of_ne hne, hpc] at hj'
      exact h.unlowered u j hj'
  outstanding hopen := by
    rw [show (s'.goto t p).closed = true from hclosed] at hopen
    cases hopen

/-- The transport is handed a packet, and takes it or not. -/
theorem Gated.send {c : Caller} (h : Gated s f) (ht : s.pc t = .send c k)
    (hphase : p.phase = .out)
    (posted : List Nat) (hposted : (posted = s.posted ++ [k] ∧ p.unlowered = none)
      ∨ (posted = s.posted ∧ p.unlowered = some k)) :
    Gated ({ s with sent := s.sent ++ [k], posted := posted }.goto t p) (f ++ [k]) where
  reach := by
    rw [Sender.gate_goto, hphase]
    exact h.reach.tail (.send t k (congrArg Pc.phase ht))
  posted j hj := by
    have hj' : j ∈ posted := hj
    -- taken by the transport, or back at once with the thread
    rcases hposted with ⟨rfl, -⟩ | ⟨rfl, -⟩
    · exact List.mem_append.mpr ((List.mem_append.mp hj').imp_left (h.posted j))
    · exact List.mem_append_left _ (h.posted j hj')
  unlowered u j hj := by
    have hj' : (Function.update s.pc t p u).unlowered = some j := hj
    rcases eq_or_ne u t with rfl | hne
    · rw [Function.update_self] at hj'
      rcases hposted with ⟨-, hnone⟩ | ⟨-, hsome⟩
      · rw [hnone] at hj'
        cases hj'
      · rw [hsome] at hj'
        cases hj'
        exact List.mem_append_right _ (List.mem_singleton_self _)
    · rw [Function.update_of_ne hne] at hj'
      exact List.mem_append_left _ (h.unlowered u j hj')
  outstanding hopen j hj := by
    show j ∈ posted ∨ ∃ u, (Function.update s.pc t p u).unlowered = some j
    rcases List.mem_append.mp hj with hin | hin
    · rcases h.outstanding hopen j hin with hp | ⟨u, hu⟩
      · rcases hposted with ⟨rfl, -⟩ | ⟨rfl, -⟩
        · exact Or.inl (List.mem_append_left _ hp)
        · exact Or.inl hp
      · refine Or.inr ⟨u, ?_⟩
        rcases eq_or_ne u t with rfl | hne
        · rw [ht] at hu
          cases hu
        · rw [Function.update_of_ne hne, hu]
    · rw [List.mem_singleton] at hin
      subst hin
      rcases hposted with ⟨rfl, -⟩ | ⟨rfl, hsome⟩
      · exact Or.inl (List.mem_append_right _ (List.mem_singleton_self _))
      · exact Or.inr ⟨t, by rw [Function.update_self, hsome]⟩

omit [DecidableEq τ] in
/-- A handler that has not lowered the counter has its packet in hand. -/
theorem Pc.holds_of_unlowered {q : Pc} (h : q.unlowered = some k) : q.holds k ≠ [] := by
  cases q <;> simp [Pc.unlowered] at h <;> subst h <;> simp [Pc.holds]

/-- A handler lowers `tcp_write_pending_` for the packet it alone has. -/
theorem Gated.finish (h : Gated s f) (hc : Custody L s)
    (ht : (s.pc t).unlowered = some k) (hholds : (s.pc t).holds k = [.packet])
    (hout : (s.pc t).phase = .out) (hphase : p.phase = .retry) (hunl : p.unlowered = none) :
    Gated ({ s with
      tcpWritePending := s.tcpWritePending - 1, lowered := s.lowered ++ [k] }.goto t p)
        (f.erase k) := by
  obtain ⟨c, hinv⟩ := h.inv
  have hk := h.unlowered t k ht
  -- what flies is this packet alone, and the transport has it no more
  obtain ⟨y, hy⟩ := List.length_eq_one_iff.mp
    (Nat.le_antisymm hinv.flying_length_le (List.length_pos_of_mem hk))
  have hf : f = [y] := hy
  subst hf
  rw [List.mem_singleton] at hk
  subst hk
  obtain ⟨-, -, hnobody, -, -, hnotposted⟩ := hc.mine hholds
  have hnil : ([k].erase k : List Nat) = [] := List.erase_cons_head ..
  have hposted : s.posted = [] := by
    rcases hp : s.posted with - | ⟨j, js⟩
    · rfl
    · have hj := h.posted j (by rw [hp]; exact List.mem_cons_self ..)
      rw [List.mem_singleton] at hj
      subst hj
      exact absurd (by rw [hp]; exact List.mem_cons_self ..) (List.count_eq_zero.mp hnotposted)
  refine ⟨?_, fun j hj => ?_, fun u j hj => ?_, fun _ j hj => ?_⟩
  · rw [Sender.gate_goto, hphase]
    exact h.reach.tail (.finish t k hout (List.mem_singleton_self k))
  · have hj' : j ∈ s.posted := hj
    rw [hposted] at hj'
    cases hj'
  · have hj' : (Function.update s.pc t p u).unlowered = some j := hj
    rcases eq_or_ne u t with rfl | hne
    · rw [Function.update_self, hunl] at hj'
      cases hj'
    · rw [Function.update_of_ne hne] at hj'
      have hjk := h.unlowered u j hj'
      rw [List.mem_singleton] at hjk
      subst hjk
      exact absurd (hnobody u hne) (Pc.holds_of_unlowered hj')
  · rw [hnil] at hj
    cases hj

/-! ## One step -/

theorem Caller.resume_phase (c : Caller) (retval : Int) : (c.resume retval).phase = .out := by
  rcases c with k | k | _ <;> rfl

theorem Caller.resume_unlowered (c : Caller) (retval : Int) :
    (c.resume retval).unlowered = none := by
  rcases c with k | k | _ <;> rfl

/-- **Every step of a thread is a step of the gate, or none.** The thread is not unloading the
link, and takes an enabled step. -/
theorem exec_gated (h : Gated s f) (hc : Custody L s) (t : τ) (o : SendOutcome)
    (hun : (s.pc t).unloads = false)
    (hlock : (s.pc t).locks = true → s.tcpSenderLocker = none)
    (hrefr : (s.pc t).refers = true → s.closed = false → o.refr = true) :
    Yields (fun s' => ∃ f', Gated s' f') (exec L t o s (s.pc t)) := by
  -- a step that the gate does not see
  have hstay : ∀ (s₁ : Sender τ) {p : Pc}, s₁.gate f = s.gate f → p.phase = (s.pc t).phase →
      s₁.posted = s.posted → s₁.pc = s.pc → s₁.closed = s.closed →
      p.unlowered = (s.pc t).unlowered → ∃ f', Gated (s₁.goto t p) f' :=
    fun s₁ _ hg hp hpo hpc hcl hunl => ⟨f, h.stay s₁ hg hp hpo hpc hcl hunl⟩
  -- a packet that is freed is none of the gate's
  have hfree : ∀ {p : Pc} (k : Nat), p.phase = (s.pc t).phase → p.unlowered = (s.pc t).unlowered →
      Yields (fun s' => ∃ f', Gated s' f')
        (s.freepkt k >>= fun s => (.ok (s.goto t p) : Exec (Sender τ))) := by
    refine fun k hp hunl => (s.freepkt_yields k).bind fun s₁ hs₁ => ?_
    obtain ⟨b, pk, rfl⟩ := hs₁
    exact hstay _ rfl hp rfl rfl rfl hunl
  -- a reference is refused on a closed link only
  have hgone : (s.pc t).refers = true → o.refr ≠ true → s.closed = true := by
    refine fun hr hno => Bool.eq_true_of_not_eq_false fun hcl => hno (hrefr hr hcl)
  cases hp : s.pc t with
  | idle => exact ⟨f, h⟩
  | refer k =>
    rw [exec]
    split <;> exact hstay _ rfl (by rw [hp]; rfl) rfl rfl rfl (by rw [hp]; rfl)
  | check k =>
    rw [exec]
    split <;> exact hstay _ rfl (by rw [hp]; rfl) rfl rfl rfl (by rw [hp]; rfl)
  | malloc k =>
    rw [exec]
    split <;> exact hstay _ rfl (by rw [hp]; rfl) rfl rfl rfl (by rw [hp]; rfl)
  | fill k =>
    refine .bind_any fun b _ => .bind_any fun res _ => ?_
    cases res <;> exact hstay _ rfl (by rw [hp]; rfl) rfl rfl rfl (by rw [hp]; rfl)
  | wrap k =>
    rw [exec]
    split <;> exact hstay _ rfl (by rw [hp]; rfl) rfl rfl rfl (by rw [hp]; rfl)
  | written k retval =>
    rw [exec]
    split
    · exact hfree k (by rw [hp]; rfl) (by rw [hp]; rfl)
    · exact hstay _ rfl (by rw [hp]; rfl) rfl rfl rfl (by rw [hp]; rfl)
  | giveUp k buffer =>
    rw [exec]
    split
    · exact .bind_any fun cell _ =>
        hstay (s.setBuffer k cell) rfl (by rw [hp]; rfl) rfl rfl rfl (by rw [hp]; rfl)
    · exact hstay _ rfl (by rw [hp]; rfl) rfl rfl rfl (by rw [hp]; rfl)
  | defer k retval =>
    exact hstay { s with results := s.results ++ [(k, retval)] } rfl (by rw [hp]; rfl)
      rfl rfl rfl (by rw [hp]; rfl)
  | enter c =>
    have hl := hlock (by rw [hp]; rfl)
    cases c with
    | write k =>
      exact ⟨f, h.act { s with tcpSenderLocker := some t } (p := .grow k)
        (.enterPush t k (congrArg Pc.phase hp) hl) rfl rfl rfl (by rw [hp]; rfl)⟩
    | handler c =>
      exact ⟨f, h.act { s with tcpSenderLocker := some t } (p := .look c)
        (.enterLook t (congrArg Pc.phase hp) hl) rfl rfl rfl (by rw [hp]; rfl)⟩
  | grow k =>
    -- the count is raised first, and lowered again where the queue is full
    rw [exec]
    dsimp only
    split
    · rename_i hfull
      exact ⟨f, h.act { s with tcpSenderListSize := s.tcpSenderListSize + 1 }
        (p := .shrink k) (.overflow t k (congrArg Pc.phase hp) hfull) rfl rfl rfl (by rw [hp]; rfl)⟩
    · rename_i hroom
      exact ⟨f, h.act { s with tcpSenderListSize := s.tcpSenderListSize + 1 }
        (p := .append k) (.grow t k (congrArg Pc.phase hp) (Int.not_le.mp hroom)) rfl rfl rfl
        (by rw [hp]; rfl)⟩
  | shrink k =>
    exact ⟨f, h.act { s with tcpSenderListSize := s.tcpSenderListSize - 1 }
      (p := .leave (.write k) none (-1)) (.shrink t (congrArg Pc.phase hp)) rfl rfl rfl
      (by rw [hp]; rfl)⟩
  | append k =>
    refine .bind_any fun _ _ => ⟨f, ?_⟩
    exact h.act { s with tcpSenderCache := s.tcpSenderCache ++ [k], appended := s.appended ++ [k] }
      (p := .raise (.write k)) (.push t k (congrArg Pc.phase hp)) rfl rfl rfl (by rw [hp]; rfl)
  | look c =>
    rw [exec]
    split
    · rename_i hempty
      exact ⟨f, h.act s (p := .leave (.handler c) none (-1))
        (.lookEmpty t (congrArg Pc.phase hp) hempty) rfl rfl rfl (by rw [hp]; rfl)⟩
    · rename_i hne
      exact ⟨f, h.act s (p := .raise (.handler c)) (.look t (congrArg Pc.phase hp) hne)
        rfl rfl rfl (by rw [hp]; rfl)⟩
  | raise c =>
    -- who finds `tcp_write_pending` raised has only to lower it
    rw [exec]
    dsimp only
    split
    · rename_i hbusy
      exact ⟨f, h.act { s with tcpWritePending := s.tcpWritePending + 1 }
        (p := .lower c) (.busy t (congrArg Pc.phase hp) hbusy) rfl rfl rfl (by rw [hp]; rfl)⟩
    · rename_i hfree
      exact ⟨f, h.act { s with tcpWritePending := s.tcpWritePending + 1 }
        (p := .first c) (.raise t (congrArg Pc.phase hp) (Int.not_lt.mp hfree)) rfl rfl rfl
        (by rw [hp]; rfl)⟩
  | lower c =>
    -- the packet in flight may have come back meanwhile: then the thread looks again
    rw [exec]
    dsimp only
    split
    · rename_i hbusy
      exact ⟨f, h.act { s with tcpWritePending := s.tcpWritePending - 1 }
        (p := .leave c none 0) (.lower t (congrArg Pc.phase hp) hbusy) rfl rfl rfl
        (by rw [hp]; rfl)⟩
    · rename_i hlast
      exact ⟨f, h.act { s with tcpWritePending := s.tcpWritePending - 1 }
        (p := .raise c) (.again t (congrArg Pc.phase hp) (Int.not_lt.mp hlast)) rfl rfl rfl
        (by rw [hp]; rfl)⟩
  | first c =>
    -- on an empty queue the step is a fault, of which nothing is claimed here
    rw [exec]
    split
    · trivial
    · rename_i next rest hq
      refine .bind_any fun _ _ => ⟨f, ?_⟩
      exact h.act { s with tcpSenderCache := rest } (p := .drop c next)
        (.pop t next rest (congrArg Pc.phase hp) hq) rfl rfl rfl (by rw [hp]; rfl)
  | drop c next =>
    exact ⟨f, h.act { s with tcpSenderListSize := s.tcpSenderListSize - 1 }
      (p := .leave c (some next) 0) (.drop t next (congrArg Pc.phase hp)) rfl rfl rfl
      (by rw [hp]; rfl)⟩
  | leave c next retval =>
    cases next with
    | none =>
      refine ⟨f, h.act { s with tcpSenderLocker := none } (p := c.resume retval) ?_
        rfl rfl rfl (by rw [hp]; exact c.resume_unlowered retval)⟩
      rw [c.resume_phase]
      exact .leave t (congrArg Pc.phase hp)
    | some next =>
      exact ⟨f, h.act { s with tcpSenderLocker := none } (p := .send c next)
        (.leaveSend t next (congrArg Pc.phase hp)) rfl rfl rfl (by rw [hp]; rfl)⟩
  | send c next =>
    -- the packet flies, or the thread closes the link with it in hand
    refine .bind_any fun _ _ => ?_
    dsimp only
    split
    · exact ⟨f ++ [next], h.send hp (c.resume_phase 0) _
        (Or.inl ⟨rfl, c.resume_unlowered 0⟩)⟩
    · exact ⟨f ++ [next], h.send (p := .sendClose c next) hp rfl _ (Or.inr ⟨rfl, rfl⟩)⟩
  | sendClose c next =>
    exact ⟨f, h.stayClosed { s with closed := true } rfl (by rw [hp]; rfl) rfl rfl rfl rfl⟩
  | sendFree c next =>
    exact hfree next (by rw [hp, c.resume_phase]; rfl) (by rw [hp, c.resume_unlowered]; rfl)
  | shutClose k ref =>
    exact ⟨f, h.stayClosed { s with closed := true } rfl (by rw [hp]; rfl) rfl rfl rfl rfl⟩
  | shutFree k ref =>
    exact hfree k (by rw [hp]; cases ref <;> rfl) (by rw [hp]; cases ref <;> rfl)
  | discard k => exact hfree k (by rw [hp]; rfl) (by rw [hp]; rfl)
  | ioRefer k =>
    rw [exec]
    split
    · exact hstay _ rfl (by rw [hp]; rfl) rfl rfl rfl (by rw [hp]; rfl)
    · rename_i hno
      exact ⟨f, h.stayClosed _ rfl (by rw [hp]; rfl) rfl rfl (hgone (by rw [hp]; rfl) hno) rfl⟩
  | ioLower k =>
    exact ⟨_, h.finish hc (by rw [hp]; rfl) (by rw [hp]; exact mine_self ..) (by rw [hp]; rfl)
      rfl rfl⟩
  | ioFree k => exact hfree k (by rw [hp]; rfl) (by rw [hp]; rfl)
  | exRefer k status =>
    rw [exec]
    split
    · rename_i hno
      exact ⟨f, h.stayClosed _ rfl (by rw [hp]; rfl) rfl rfl (hgone (by rw [hp]; rfl) hno) rfl⟩
    · split <;> exact hstay _ rfl (by rw [hp]; rfl) rfl rfl rfl (by rw [hp]; rfl)
  | exLower k =>
    exact ⟨_, h.finish hc (by rw [hp]; rfl) (by rw [hp]; exact mine_self ..) (by rw [hp]; rfl)
      rfl rfl⟩
  | exFree k => exact hfree k (by rw [hp]; rfl) (by rw [hp]; rfl)
  | ioDefer => exact hstay _ rfl (by rw [hp]; rfl) rfl rfl rfl (by rw [hp]; rfl)
  | unloadSize => rw [hp] at hun; cases hun
    -- no thread unloads as long as a thread holds a reference
  | unloadEnter => rw [hp] at hun; cases hun
  | unloadDrain => rw [hp] at hun; cases hun
  | unloadFree k => rw [hp] at hun; cases hun
  | unloadLeave => rw [hp] at hun; cases hun

/-- A handler starts outside, with the counter to lower. -/
theorem dispatchIoEvent_unlowered (k : Nat) (status : NtStatus) (size : Int) :
    (dispatchIoEvent k status size).unlowered = some k
      ∧ (dispatchIoEvent k status size).phase = .out := by
  unfold dispatchIoEvent
  split
  · exact ⟨rfl, rfl⟩
  · split <;> exact ⟨rfl, rfl⟩

/-- A thread picks up the completion of a posted packet. -/
theorem Gated.complete (h : Gated s f) (s' : Sender τ) (hidle : s.pc t = .idle) (hk : k ∈ s.posted)
    (hgate : s'.gate f = s.gate f) (hpc : s'.pc = s.pc) (hclosed : s'.closed = s.closed)
    (hposted : s'.posted = s.posted.erase k) (hp : p.unlowered = some k ∧ p.phase = .out) :
    Gated (s'.goto t p) f where
  reach := by
    rw [Sender.gate_goto, hgate, Gate.goto_self]
    · exact h.reach
    · rw [hp.2]
      exact (congrArg Pc.phase hidle).symm
  posted j hj := by
    have hj' : j ∈ s'.posted := hj
    rw [hposted] at hj'
    exact h.posted j (List.mem_of_mem_erase hj')
  unlowered u j hj := by
    have hj' : (Function.update s'.pc t p u).unlowered = some j := hj
    rcases eq_or_ne u t with rfl | hne
    · rw [Function.update_self, hp.1] at hj'
      cases hj'
      exact h.posted k hk
    · rw [Function.update_of_ne hne, hpc] at hj'
      exact h.unlowered u j hj'
  outstanding hopen j hj := by
    show j ∈ s'.posted ∨ ∃ u, (Function.update s'.pc t p u).unlowered = some j
    rcases eq_or_ne j k with rfl | hjk
    · exact Or.inr ⟨t, by rw [Function.update_self, hp.1]⟩
    · rcases h.outstanding (hclosed ▸ hopen) j hj with hin | ⟨u, hu⟩
      · exact Or.inl (by rw [hposted]; exact (List.mem_erase_of_ne hjk).mpr hin)
      · refine Or.inr ⟨u, ?_⟩
        rcases eq_or_ne u t with rfl | hne
        · rw [hidle] at hu
          cases hu
        · rw [Function.update_of_ne hne, hpc, hu]

/-- The same of every step of a run, until the link is unloaded. -/
theorem step_gated (h : Gated s f) (hc : Custody L s) (hun : Unloading s)
    (hu : s.unloaded = false) {a : Action τ} (ha : Enabled s a) :
    Yields (fun s' => s'.unloaded = false → ∃ f', Gated s' f') (step L s a) := by
  cases a with
  -- a call starts outside of the gate
  | call t =>
    have hidle : s.pc t = .idle := ha
    rw [step]
    dsimp only
    split
    · exact fun _ => ⟨f, h.reach, h.posted, h.unlowered, h.outstanding⟩
    · exact fun _ => ⟨f, h.stay { s with calls := s.calls + 1 } rfl (by rw [hidle]; rfl)
        rfl rfl rfl (by rw [hidle]; rfl)⟩
  | run t o =>
    have hnot : (s.pc t).unloads = false := by
      refine Bool.eq_false_of_not_eq_true fun ht => ?_
      rw [hun.begun t ht] at hu
      cases hu
    have hexec := exec_gated h hc t o hnot ha.2.1 fun hr => (ha.2.2 hr).1
    rw [step]
    cases heq : exec L t o s (s.pc t) with
    | error e => trivial
    | ok s' => exact fun _ => hexec.of_ok heq
  -- what the transport takes is no step of the gate
  | take k =>
    refine .bind_any fun pk _ => .bind_any fun b _ => ?_
    split <;> exact fun _ => ⟨f, h.reach, h.posted, h.unlowered, h.outstanding⟩
  | complete t k status =>
    refine .bind_any fun pk _ _ => ⟨f, ?_⟩
    exact h.complete { s.setPacket k (.live { pk with sizeForTranslation := s.taken k }) with
        posted := s.posted.erase k, completions := s.completions ++ [(k, status)] }
      ha.1 ha.2 rfl rfl rfl rfl (dispatchIoEvent_unlowered k status _)
  -- a closed link has nothing outstanding to account for
  | close =>
    exact fun _ => ⟨f, h.reach, h.posted, h.unlowered, fun hopen => by cases hopen⟩
  | unload t => exact fun hno => by cases hno

/-- **The link refines the gate.** Until it is unloaded, its queue is a reachable gate. -/
theorem SendReachable.gated (h : SendReachable L s) :
    s.unloaded = false → ∃ f, Gated s f := by
  induction h with
  | refl => exact fun _ => ⟨[], Gated.start⟩
  | @tail s₁ s₂ hreach hstep ih =>
    obtain ⟨a, ha, heq⟩ := hstep
    intro hu
    have hu₁ : s₁.unloaded = false := by
      refine Bool.eq_false_of_not_eq_true fun hu₁ => ?_
      rw [(step_unloaded L a hu₁).of_ok heq] at hu
      cases hu
    have hr : SendReachable L s₁ := hreach
    obtain ⟨f, hg⟩ := ih hu₁
    exact (step_gated hg hr.custody hr.unloading hu₁ ha).of_ok heq hu

/-- When no thread is at work on an open link and the transport has nothing, the queue is empty
and everything that was sent is back. -/
theorem Gated.at_rest (h : Gated s f) (hopen : s.closed = false) (hidle : ∀ t, s.pc t = .idle)
    (hposted : s.posted = []) : s.sent = s.appended ∧ s.lowered = s.sent := by
  obtain ⟨c, hinv⟩ := h.inv
  have hout : ∀ t, (s.gate f).phase t = .out := by
    intro t
    show (s.pc t).phase = .out
    rw [hidle t]
    rfl
  -- nothing flies, nothing is carried, and so nothing may be left in the queue
  have hflying : f = [] := by
    refine List.eq_nil_iff_forall_not_mem.mpr fun k hk => ?_
    rcases h.outstanding hopen k hk with hp | ⟨t, ht⟩
    · rw [hposted] at hp
      cases hp
    · rw [hidle t] at ht
      cases ht
  have hcarrier : c.items = [] := by
    cases c with
    | none => rfl
    | some u =>
      have hcarries := (hinv.mutex.carrier u.1 u.2).mpr rfl
      rw [hout] at hcarries
      cases hcarries
  have hqueue : s.tcpSenderCache = [] := by
    by_contra hne
    rcases hinv.awake hne with ⟨k, hk | ⟨t, ht⟩⟩ | ⟨t, ht⟩
    · have hk' : k ∈ f := hk
      rw [hflying] at hk'
      cases hk'
    · rw [hout] at ht
      cases ht
    · rw [hout] at ht
      cases ht
  have horder : s.appended = s.sent ++ c.items ++ s.tcpSenderCache := hinv.flow.order
  have hback : s.sent = s.lowered ++ f := hinv.sent_eq
  rw [hcarrier, hqueue, List.append_nil, List.append_nil] at horder
  rw [hflying, List.append_nil] at hback
  exact ⟨horder.symm, hback.symm⟩

/-! ## The send queue -/

omit [DecidableEq τ] in
/-- A packet between its removal from the queue and the lowering of `tcp_write_pending_`. -/
def Sender.Outgoing (s : Sender τ) (k : Nat) : Prop :=
  k ∈ s.posted ∨ ∃ t, (s.pc t).phase.carries = some k ∨ (s.pc t).unlowered = some k

/-- The thread is about to serve the queue: a handler on its way into `tcp_try_write`, or a
thread inside it that has not given up. -/
def Pc.willTry (p : Pc) : Bool := p.phase.onDuty

end

/-- **The send queue, for any number of threads.** On a link that is open, whatever the order
of their steps: one packet at most is outgoing and sends go out in the order of the queue;
with the lock free the list size is exact and below the limit, the pending count is never
negative and the head is only taken from a queue that has one; and a queue that holds a
packet has an outgoing packet before it or a thread about to serve it. -/
theorem tcpTryWrite_protocol {τ : Type} [DecidableEq τ] (L : SendLink) (s : Sender τ)
    (h : SendReachable L s) (hopen : s.closed = false) :
    ((∀ k j, s.Outgoing k → s.Outgoing j → k = j) ∧ s.posted.length ≤ 1
        ∧ s.sent <+: s.appended)
      ∧ ((s.tcpSenderLocker = none → s.tcpSenderListSize = s.tcpSenderCache.length
            ∧ s.tcpSenderListSize < tcpMaximumSenderCachedCntPreLink)
        ∧ 0 ≤ s.tcpWritePending ∧ ∀ t c, s.pc t = .first c → s.tcpSenderCache ≠ [])
      ∧ (s.tcpSenderCache ≠ [] →
          (∃ k, s.Outgoing k) ∨ ∃ t, (s.pc t).willTry = true) := by
  have hu : s.unloaded = false := by
    refine Bool.eq_false_of_not_eq_true fun hu => ?_
    rw [h.unloading.closed hu] at hopen
    cases hopen
  obtain ⟨f, hg⟩ := h.gated hu
  obtain ⟨c, hinv⟩ := hg.inv
  -- what is outgoing on the link is out in the gate
  have hout : ∀ k, s.Outgoing k →
      k ∈ (s.gate f).flying ∨ ∃ t, ((s.gate f).phase t).carries = some k := by
    rintro k (hk | ⟨t, hk | hk⟩)
    · exact Or.inl (hg.posted k hk)
    · exact Or.inr ⟨t, hk⟩
    · exact Or.inl (hg.unlowered t k hk)
  refine ⟨⟨fun k j hk hj => hinv.one_out (hout k hk) (hout j hj), ?_, hinv.sent_prefix⟩,
    ⟨fun hl => hinv.size_of_unlocked hl, hinv.pending_nonneg, fun t c ht => ?_⟩, fun hq => ?_⟩
  · rcases hposted : s.posted with - | ⟨k, - | ⟨j, js⟩⟩
    · exact Nat.zero_le _
    · exact Nat.le_refl _
    · -- two posted packets would be the same one, posted twice
      have hk : k ∈ s.posted := by rw [hposted]; exact List.mem_cons_self ..
      have hj : j ∈ s.posted := by
        rw [hposted]
        exact List.mem_cons_of_mem _ (List.mem_cons_self ..)
      have heq : k = j := hinv.one_out (hout k (Or.inl hk)) (hout j (Or.inl hj))
      obtain ⟨-, -, -, -, hcount⟩ := h.custody.of_posted hk
      rw [hposted, ← heq, List.count_cons_self, List.count_cons_self] at hcount
      omega
  · exact hinv.queue_ne_nil (congrArg Pc.phase ht)
  · rcases hinv.awake hq with ⟨k, hk | ⟨t, ht⟩⟩ | ⟨t, ht⟩
    · refine Or.inl ⟨k, ?_⟩
      rcases hg.outstanding hopen k hk with hp | ⟨t, ht⟩
      · exact Or.inl hp
      · exact Or.inr ⟨t, Or.inr ht⟩
    · exact Or.inl ⟨k, Or.inr ⟨t, Or.inl ht⟩⟩
    · exact Or.inr ⟨t, ht⟩

/-- One packet is with the transport, a second one is queued behind it. -/
theorem tcpTryWrite_protocol_twoWrites : ∃ s : Sender Unit,
    s.posted = [0] ∧ s.tcpSenderCache = [1]
      ∧ ((∀ k j, s.Outgoing k → s.Outgoing j → k = j) ∧ s.posted.length ≤ 1
          ∧ s.sent <+: s.appended)
      ∧ ((s.tcpSenderLocker = none → s.tcpSenderListSize = s.tcpSenderCache.length
            ∧ s.tcpSenderListSize < tcpMaximumSenderCachedCntPreLink)
        ∧ 0 ≤ s.tcpWritePending ∧ ∀ t c, s.pc t = .first c → s.tcpSenderCache ≠ [])
      ∧ (s.tcpSenderCache ≠ [] →
          (∃ k, s.Outgoing k) ∨ ∃ t, (s.pc t).willTry = true) := by
  obtain ⟨s, hs, hposted, hcache, hclosed⟩ := exists_of_play (L := rawLink [[1, 2], [3]])
    (P := fun s => s.posted = [0] ∧ s.tcpSenderCache = [1] ∧ s.closed = false)
    (writeSteps 15 ++ writeSteps 13) (by decide)
  exact ⟨s, hposted, hcache, tcpTryWrite_protocol (rawLink [[1, 2], [3]]) s hs hclosed⟩

end Swnet
