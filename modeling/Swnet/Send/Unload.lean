import Swnet.Send.Custody

/-!
# Swnet — the end of a link

A link is unloaded when nobody references it any more. From then on no thread is inside the
sending code (`Unloading`), `tcp_unload` frees what is still queued, and what the transport
still has is freed by the handlers of its completions, which cannot reference the link.

* `outgoing_disposed` — every outgoing packet is in one place at every moment, is freed
  once, and is not touched afterwards; none is left when all is over.

`Unloading` holds along every run: a link that is unloaded is closed, no thread has a reference to
it, and its queue is empty unless a thread is about to empty it. With the custody of the packets it
leaves a packet two places only, the transport and the handler that is to free it.
-/

namespace Swnet

open CMem

/-- The thread runs `tcp_unload`. -/
def Pc.unloads : Pc → Bool
  | .unloadSize | .unloadEnter | .unloadDrain | .unloadFree _ | .unloadLeave => true
  | _ => false

/-- The thread runs `tcp_unload` and has not found the queue empty yet. -/
def Pc.drains : Pc → Bool
  | .unloadSize | .unloadEnter | .unloadDrain | .unloadFree _ => true
  | _ => false

/-- What holds around the unloading of a link. -/
structure Unloading {τ : Type} (s : Sender τ) : Prop where
  closed : s.unloaded = true → s.closed = true
  noRef : s.unloaded = true → ∀ t, (s.pc t).holdsRef = false
  drained : s.unloaded = true → s.tcpSenderCache = [] ∨ ∃ t, (s.pc t).drains = true
  begun : ∀ t, (s.pc t).unloads = true → s.unloaded = true

section

variable {τ : Type} [DecidableEq τ] {L : SendLink} {s s' : Sender τ} {t : τ} {p : Pc}

omit [DecidableEq τ] in
theorem Unloading.start : Unloading (Sender.start : Sender τ) :=
  ⟨fun h => (Bool.false_ne_true h).elim, fun h => (Bool.false_ne_true h).elim,
    fun h => (Bool.false_ne_true h).elim, fun _ h => (Bool.false_ne_true h).elim⟩

omit [DecidableEq τ] in
/-- A thread with a reference works on a link that is not unloaded. -/
theorem Unloading.not_unloaded (h : Unloading s) (ht : (s.pc t).holdsRef = true) :
    s.unloaded = false := by
  refine Bool.eq_false_of_not_eq_true fun hu => ?_
  rw [h.noRef hu t] at ht
  cases ht

/-- A thread moves on a link that is not unloaded. -/
theorem Unloading.ofLoaded (h : Unloading s) (hu : s.unloaded = false)
    (hu' : s'.unloaded = s.unloaded) (hpc : s'.pc = s.pc) (hp : p.unloads = false) :
    Unloading (s'.goto t p) := by
  have hu'' : (s'.goto t p).unloaded = false := hu'.trans hu
  refine ⟨fun hc => ?_, fun hc => ?_, fun hc => ?_, fun u hun => ?_⟩
  · rw [hu''] at hc; cases hc
  · rw [hu''] at hc; cases hc
  · rw [hu''] at hc; cases hc
  · have hpu : (Function.update s'.pc t p u).unloads = true := hun
    rcases eq_or_ne u t with rfl | hne
    · rw [Function.update_self, hp] at hpu
      cases hpu
    · rw [Function.update_of_ne hne, hpc] at hpu
      rw [h.begun u hpu] at hu
      cases hu

/-- A thread moves without a reference. -/
theorem Unloading.noRefMove (h : Unloading s) (s' : Sender τ)
    (hclosed : s.closed = true → s'.closed = true)
    (hu : s'.unloaded = s.unloaded) (hpc : s'.pc = s.pc) (hp : p.holdsRef = false)
    (hcache : s.tcpSenderCache = [] → s'.tcpSenderCache = [])
    (hdrains : (s.pc t).drains = true → p.drains = true ∨ s'.tcpSenderCache = [])
    (hunloads : p.unloads = true → (s.pc t).unloads = true) : Unloading (s'.goto t p) where
  closed hc := hclosed (h.closed (hu ▸ hc))
  noRef hc u := by
    show (Function.update s'.pc t p u).holdsRef = false
    rcases eq_or_ne u t with rfl | hne
    · rw [Function.update_self, hp]
    · rw [Function.update_of_ne hne, hpc]
      exact h.noRef (hu ▸ hc) u
  drained hc := by
    rcases h.drained (hu ▸ hc) with hempty | ⟨u, hud⟩
    · exact Or.inl (hcache hempty)
    · rcases eq_or_ne u t with rfl | hne
      · rcases hdrains hud with hpd | hempty
        · exact Or.inr ⟨u, by
            show (Function.update s'.pc u p u).drains = true
            rw [Function.update_self, hpd]⟩
        · exact Or.inl hempty
      · exact Or.inr ⟨u, by
          show (Function.update s'.pc t p u).drains = true
          rw [Function.update_of_ne hne, hpc, hud]⟩
  begun u hun := by
    have hpu : (Function.update s'.pc t p u).unloads = true := hun
    rcases eq_or_ne u t with rfl | hne
    · rw [Function.update_self] at hpu
      exact hu.trans (h.begun u (hunloads hpu))
    · rw [Function.update_of_ne hne, hpc] at hpu
      exact hu.trans (h.begun u hpu)

theorem Caller.resume_unloads (c : Caller) (retval : Int) : (c.resume retval).unloads = false := by
  rcases c with k | k | _ <;> rfl

/-- A step of a thread keeps what holds around unloading. -/
theorem exec_unloading (h : Unloading s) (t : τ) (o : SendOutcome)
    (hrefr : (s.pc t).refers = true → s.unloaded = true → o.refr = false) :
    Yields Unloading (exec L t o s (s.pc t)) := by
  -- with a reference, all there is to see is that the thread does not start to unload
  have href : (s.pc t).holdsRef = true → ∀ {s₁ : Sender τ} {p : Pc}, s₁.unloaded = s.unloaded →
      s₁.pc = s.pc → p.unloads = false → Unloading (s₁.goto t p) :=
    fun ht _ _ hu hpc hpu => h.ofLoaded (h.not_unloaded ht) hu hpc hpu
  -- the same where it frees a packet on the way
  have hfree : (s.pc t).holdsRef = true → ∀ {p : Pc} (k : Nat), p.unloads = false →
      Yields Unloading (s.freepkt k >>= fun s => (.ok (s.goto t p) : Exec (Sender τ))) := by
    refine fun ht p k hpu => (s.freepkt_yields k).bind fun s₁ hs₁ => ?_
    obtain ⟨b, pk, rfl⟩ := hs₁
    exact href ht rfl rfl hpu
  -- a link that can be referenced was not unloaded
  have hloaded : (s.pc t).refers = true → o.refr = true → s.unloaded = false := by
    refine fun hr hok => Bool.eq_false_of_not_eq_true fun hu => ?_
    rw [hrefr hr hu] at hok
    cases hok
  cases hp : s.pc t with
  | idle => exact h
  | refer k =>
    rw [exec]
    split
    · rename_i hok
      exact h.ofLoaded (hloaded (by rw [hp]; rfl) hok) rfl rfl rfl
    · exact h.noRefMove { s with results := s.results ++ [(k, -2)] } id rfl rfl rfl id
        (by rw [hp]; exact fun h => by cases h) fun h => by cases h
  | check k =>
    rw [exec]
    split <;> exact href (by rw [hp]; rfl) rfl rfl rfl
  | malloc k =>
    rw [exec]
    split <;> exact href (by rw [hp]; rfl) rfl rfl rfl
  | fill k =>
    refine .bind_any fun b _ => .bind_any fun r _ => ?_
    cases r <;> exact href (by rw [hp]; rfl) rfl rfl rfl
  | wrap k =>
    rw [exec]
    split <;> exact href (by rw [hp]; rfl) rfl rfl rfl
  | written k retval =>
    rw [exec]
    split
    · exact hfree (by rw [hp]; rfl) k rfl
    · exact href (by rw [hp]; rfl) rfl rfl rfl
  | giveUp k buffer =>
    rw [exec]
    split
    · exact .bind_any fun cell _ => href (by rw [hp]; rfl) rfl rfl rfl
    · exact href (by rw [hp]; rfl) rfl rfl rfl
  | defer k retval => exact href (by rw [hp]; rfl) rfl rfl rfl
  | enter c => cases c <;> exact href (by rw [hp]; rfl) rfl rfl rfl
  | grow k =>
    rw [exec]
    split <;> exact href (by rw [hp]; rfl) rfl rfl rfl
  | shrink k => exact href (by rw [hp]; rfl) rfl rfl rfl
  | append k => exact .bind_any fun _ _ => href (by rw [hp]; rfl) rfl rfl rfl
  | look c =>
    rw [exec]
    split <;> exact href (by rw [hp]; rfl) rfl rfl rfl
  | raise c =>
    rw [exec]
    split <;> exact href (by rw [hp]; rfl) rfl rfl rfl
  | lower c =>
    rw [exec]
    split <;> exact href (by rw [hp]; rfl) rfl rfl rfl
  | first c =>
    rw [exec]
    split
    · trivial
    · exact .bind_any fun _ _ => href (by rw [hp]; rfl) rfl rfl rfl
  | drop c next => exact href (by rw [hp]; rfl) rfl rfl rfl
  | leave c next retval =>
    cases next with
    | none => exact href (by rw [hp]; rfl) rfl rfl (c.resume_unloads retval)
    | some next => exact href (by rw [hp]; rfl) rfl rfl rfl
  | send c next =>
    refine .bind_any fun _ _ => ?_
    dsimp only
    split
    · exact href (by rw [hp]; rfl) rfl rfl (c.resume_unloads 0)
    · exact href (by rw [hp]; rfl) rfl rfl rfl
  | sendClose c next => exact href (by rw [hp]; rfl) rfl rfl rfl
  | sendFree c next => exact hfree (by rw [hp]; rfl) next (c.resume_unloads 0)
  | shutClose k ref =>
    -- an IO thread closes the link with a reference or, where there was none, without
    cases ref with
    | true => exact href (by rw [hp]; rfl) rfl rfl rfl
    | false =>
      exact h.noRefMove { s with closed := true } (fun _ => rfl) rfl rfl rfl id
        (by rw [hp]; exact fun h => by cases h) fun h => by cases h
  | shutFree k ref =>
    cases ref with
    | true => exact hfree (by rw [hp]; rfl) k rfl
    | false =>
      refine (s.freepkt_yields k).bind fun s₁ hs₁ => ?_
      obtain ⟨b, pk, rfl⟩ := hs₁
      exact h.noRefMove ((s.setBuffer k b).setPacket k pk) id rfl rfl rfl id
        (by rw [hp]; exact fun h => by cases h) fun h => by cases h
  | discard k =>
    refine (s.freepkt_yields k).bind fun s₁ hs₁ => ?_
    obtain ⟨b, pk, rfl⟩ := hs₁
    exact h.noRefMove ((s.setBuffer k b).setPacket k pk) id rfl rfl rfl id
      (by rw [hp]; exact fun h => by cases h) fun h => by cases h
  | ioRefer k =>
    rw [exec]
    split
    · rename_i hok
      exact h.ofLoaded (hloaded (by rw [hp]; rfl) hok) rfl rfl rfl
    · exact h.noRefMove _ id rfl rfl rfl id (by rw [hp]; exact fun h => by cases h)
        fun h => by cases h
  | ioLower k => exact href (by rw [hp]; rfl) rfl rfl rfl
  | ioFree k => exact hfree (by rw [hp]; rfl) k rfl
  | exRefer k status =>
    rw [exec]
    split
    · exact h.noRefMove _ id rfl rfl rfl id (by rw [hp]; exact fun h => by cases h)
        fun h => by cases h
    · rename_i hok
      have hu := hloaded (by rw [hp]; rfl) (Decidable.not_not.mp hok)
      split <;> exact h.ofLoaded hu rfl rfl rfl
  | exLower k => exact href (by rw [hp]; rfl) rfl rfl rfl
  | exFree k => exact hfree (by rw [hp]; rfl) k rfl
  | ioDefer => exact href (by rw [hp]; rfl) rfl rfl rfl
  | unloadSize =>
    exact h.noRefMove { s with tcpSenderListSize := 0 } id rfl rfl rfl id
      (fun _ => Or.inl rfl) (by rw [hp]; exact fun _ => rfl)
  | unloadEnter =>
    exact h.noRefMove { s with tcpSenderLocker := some t } id rfl rfl rfl id
      (fun _ => Or.inl rfl) (by rw [hp]; exact fun _ => rfl)
  | unloadDrain =>
    -- this is where the queue is found empty, and not before
    rw [exec]
    split
    · rename_i hempty
      exact h.noRefMove _ id rfl rfl rfl id (fun _ => Or.inr hempty)
        (by rw [hp]; exact fun _ => rfl)
    · rename_i k rest hq
      refine .bind_any fun _ _ => ?_
      exact h.noRefMove { s with tcpSenderCache := rest } id rfl rfl rfl
        (fun hempty => by rw [hq] at hempty; cases hempty) (fun _ => Or.inl rfl)
        (by rw [hp]; exact fun _ => rfl)
  | unloadFree k =>
    refine (s.freepkt_yields k).bind fun s₁ hs₁ => ?_
    obtain ⟨b, pk, rfl⟩ := hs₁
    exact h.noRefMove ((s.setBuffer k b).setPacket k pk) id rfl rfl rfl id
      (fun _ => Or.inl rfl) (by rw [hp]; exact fun _ => rfl)
  | unloadLeave =>
    exact h.noRefMove { s with tcpSenderLocker := none } id rfl rfl rfl id
      (by rw [hp]; exact fun h => by cases h) fun h => by cases h

/-- The same of every step of a run. -/
theorem step_unloading (h : Unloading s) {a : Action τ} (ha : Enabled s a) :
    Yields Unloading (step L s a) := by
  cases a with
  -- a call may begin on a link that is unloaded; it gets no reference
  | call t =>
    have hidle : s.pc t = .idle := ha
    rw [step]
    dsimp only
    split
    · exact ⟨h.closed, h.noRef, h.drained, h.begun⟩
    · exact h.noRefMove { s with calls := s.calls + 1 } id rfl rfl rfl id
        (by rw [hidle]; exact fun h => by cases h) fun h => by cases h
  | run t o => exact exec_unloading h t o fun hr => (ha.2.2 hr).2
  | take k =>
    refine .bind_any fun pk _ => .bind_any fun b _ => ?_
    split
    · exact ⟨h.closed, h.noRef, h.drained, h.begun⟩
    · exact h
  | complete t k status =>
    refine .bind_any fun pk _ => ?_
    have hp : (dispatchIoEvent k status (s.taken k)).holdsRef = false
        ∧ (dispatchIoEvent k status (s.taken k)).unloads = false := by
      unfold dispatchIoEvent
      split
      · exact ⟨rfl, rfl⟩
      · split <;> exact ⟨rfl, rfl⟩
    exact h.noRefMove { s.setPacket k (.live { pk with sizeForTranslation := s.taken k }) with
        posted := s.posted.erase k, completions := s.completions ++ [(k, status)] }
      id rfl rfl hp.1 id (by rw [ha.1]; exact fun h => by cases h)
      fun hun => (Bool.false_ne_true (hp.2.symm.trans hun)).elim
  | close => exact ⟨fun _ => rfl, h.noRef, h.drained, h.begun⟩
  -- the link is closed and nobody has a reference: that lets `tcp_unload` begin
  | unload t =>
    obtain ⟨hidle, hclosed, hu, hnone⟩ := ha
    refine ⟨fun _ => hclosed, fun _ u => ?_, fun _ => Or.inr ⟨t, ?_⟩, fun u hun => rfl⟩
    · show (Function.update s.pc t .unloadSize u).holdsRef = false
      rcases eq_or_ne u t with rfl | hne
      · rw [Function.update_self]
        rfl
      · rw [Function.update_of_ne hne]
        exact hnone u
    · show (Function.update s.pc t .unloadSize t).drains = true
      rw [Function.update_self]
      rfl

theorem SendReachable.unloading (h : SendReachable L s) : Unloading s := by
  induction h with
  | refl => exact Unloading.start
  | tail _ hstep ih =>
    obtain ⟨a, ha, heq⟩ := hstep
    exact (step_unloading ih ha).of_ok heq

/-! ## Disposal -/

end

/-- Where the memory of a call can be. -/
inductive Place (τ : Type) where
  | absent
  | held (t : τ)
  | queued
  | inFlight
  | freed

/-- Who has packet `k`: a thread, the queue or the transport. -/
def Sender.Resides {τ : Type} (s : Sender τ) (k : Nat) : Place τ → Prop
  | .held t => (s.pc t).holds k ≠ []
  | .queued => k ∈ s.tcpSenderCache
  | .inFlight => k ∈ s.posted
  | _ => False

/-- The place of the memory of call `k`, which stands in cell `c`. -/
def Sender.At {τ α : Type} (s : Sender τ) (c : Cell α) (k : Nat) (pl : Place τ) : Prop :=
  match c with
  | .absent => pl = .absent
  | .live _ => s.Resides k pl
  | .freed => pl = .freed

section

variable {τ : Type} {L : SendLink} {s : Sender τ} {k : Nat}

theorem Sender.at_unique_of_dead {α : Type} {c : Cell α} (h : c.Dead) : ∃! pl, s.At c k pl := by
  cases c with
  | absent => exact ⟨.absent, rfl, fun _ h => h⟩
  | live a => exact h.elim
  | freed => exact ⟨.freed, rfl, fun _ h => h⟩

theorem Sender.at_unique_of_resides {α : Type} (c : Cell α) (h : ∃! pl, s.Resides k pl) :
    ∃! pl, s.At c k pl := by
  cases c with
  | absent => exact s.at_unique_of_dead trivial
  | live a => exact h
  | freed => exact s.at_unique_of_dead trivial

/-- A packet whose memory is alive is in one place. -/
theorem Custody.resides (h : Custody L s) (k : Nat) :
    (∃! pl, s.Resides k pl) ∨ ((s.buffers k).Dead ∧ (s.packets k).Dead) := by
  have hcount : ∀ {xs : List Nat}, xs.count k = 0 → k ∉ xs := fun h => List.count_eq_zero.mp h
  -- the place in which the custody finds the packet is the only one
  cases h k with
  | fresh hf hS hb hp => exact Or.inr ⟨by rw [hb]; trivial, by rw [hp]; trivial⟩
  | gone hf hS hb hp => exact Or.inr ⟨hb, hp⟩
  | held t st hf ht hS hm hq hl =>
    have hhas : s.Resides k (.held t) := by
      show (s.pc t).holds k ≠ []
      rw [ht]
      exact List.cons_ne_nil _ _
    refine Or.inl ⟨.held t, hhas, ?_⟩
    intro pl hpl
    cases pl with
    | held u =>
      by_contra hne
      exact hpl (hS u fun heq => hne (by rw [heq]))
    | queued => exact absurd hpl (hcount hq)
    | inFlight => exact absurd hpl (hcount hl)
    | absent => exact hpl.elim
    | freed => exact hpl.elim
  | queued hf hS hm hq hl =>
    refine Or.inl ⟨.queued, List.count_pos_iff.mp (by omega), ?_⟩
    intro pl hpl
    cases pl with
    | held u => exact absurd (hS u) hpl
    | queued => rfl
    | inFlight => exact absurd hpl (hcount hl)
    | absent => exact hpl.elim
    | freed => exact hpl.elim
  | flying hf hS hm hq hl =>
    refine Or.inl ⟨.inFlight, List.count_pos_iff.mp (by omega), ?_⟩
    intro pl hpl
    cases pl with
    | held u => exact absurd (hS u) hpl
    | queued => exact absurd hpl (hcount hq)
    | inFlight => rfl
    | absent => exact hpl.elim
    | freed => exact hpl.elim

/-- When nobody has a packet any more, its memory is gone. -/
theorem Custody.dead_of_none (h : Custody L s) (hidle : ∀ t, s.pc t = .idle)
    (hqueue : s.tcpSenderCache = []) (hposted : s.posted = []) (k : Nat) :
    (s.buffers k).Dead ∧ (s.packets k).Dead := by
  rcases h.resides k with ⟨pl, hpl, -⟩ | hdead
  · cases pl with
    | held t =>
      have hholds : (s.pc t).holds k ≠ [] := hpl
      rw [hidle t] at hholds
      exact absurd rfl hholds
    | queued =>
      have hmem : k ∈ s.tcpSenderCache := hpl
      rw [hqueue] at hmem
      cases hmem
    | inFlight =>
      have hmem : k ∈ s.posted := hpl
      rw [hposted] at hmem
      cases hmem
    | absent => exact hpl.elim
    | freed => exact hpl.elim
  · exact hdead

end

/-- **Every outgoing packet is disposed of once.** In every state of every run the buffer of
a call of `tcp_write`, and the packet around it, are in one place each; no step frees them
twice or uses them after they were freed; and when the link is unloaded, no completion is
outstanding and no thread is at work, nothing is left. -/
theorem outgoing_disposed {τ : Type} [DecidableEq τ] (L : SendLink) (s : Sender τ)
    (h : SendReachable L s) :
    (∀ k, (∃! pl, s.At (s.buffers k) k pl) ∧ ∃! pl, s.At (s.packets k) k pl)
      ∧ (∀ a e, Enabled s a → step L s a = .error e → e ≠ .doubleFree ∧ e ≠ .useAfterFree)
      ∧ (s.unloaded = true → (∀ t, s.pc t = .idle) → s.posted = [] →
          ∀ k, (s.buffers k).Dead ∧ (s.packets k).Dead) := by
  have hc := h.custody
  refine ⟨fun k => ?_, fun a e ha herr => (step_custody hc ha).of_error herr,
    fun hu hidle hposted => ?_⟩
  · rcases hc.resides k with hres | ⟨hb, hp⟩
    · exact ⟨s.at_unique_of_resides _ hres, s.at_unique_of_resides _ hres⟩
    · exact ⟨s.at_unique_of_dead hb, s.at_unique_of_dead hp⟩
  · -- an unloaded link whose threads are idle has drained its queue
    rcases h.unloading.drained hu with hqueue | ⟨t, ht⟩
    · exact hc.dead_of_none hidle hqueue hposted
    · rw [hidle t] at ht
      cases ht

/-- A packet is sent, its completion closes the link, and the link is unloaded. -/
def oneLife : List (Action Unit) :=
  writeSteps 15 ++ .complete () 0 0 :: List.replicate 2 (.run () ⟨false, false⟩)
    ++ .unload () :: List.replicate 4 (.run () ⟨false, false⟩)

theorem outgoing_disposed_oneLife : ∃ s : Sender Unit, s.unloaded = true ∧ s.calls = 1
    ∧ (∀ k, (∃! pl, s.At (s.buffers k) k pl) ∧ ∃! pl, s.At (s.packets k) k pl)
    ∧ (∀ a e, Enabled s a → step (rawLink [[1, 2]]) s a = .error e →
        e ≠ .doubleFree ∧ e ≠ .useAfterFree)
    ∧ (s.unloaded = true → (∀ t, s.pc t = .idle) → s.posted = [] →
        ∀ k, (s.buffers k).Dead ∧ (s.packets k).Dead) := by
  obtain ⟨s, hs, hunloaded, hcalls⟩ := exists_of_play (L := rawLink [[1, 2]])
    (P := fun s => s.unloaded = true ∧ s.calls = 1) oneLife (by decide)
  exact ⟨s, hunloaded, hcalls, outgoing_disposed (rawLink [[1, 2]]) s hs⟩

end Swnet
