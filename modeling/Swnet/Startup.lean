import Swnet.Packet

/-!
# Swnet — starting and stopping the library (`network.c`)

`so_init` starts the network on the first call and notes the protocol, `so_uninit` stops it when
no protocol is noted any more. The note of TCP is never made: its test lacks the `0 ==` that the
one of UDP has. And the count of starts is never taken back.

* `startupKept_iff` — the sequences of calls for which the network follows the protocols in use;
* `startup_torn_down` — the last user of UDP stops the network under TCP.

What is in use is kept beside the state (`InUse`), and `SoState.Knows` ties the two together: the
flags of UDP are right, that of TCP is never up. A call within the condition keeps this, and after
any other the network does not follow the protocols any more, so that the equivalence is an
induction on the calls.
-/

namespace Swnet

/-! ## The code -/

/-- `__so_startup` and `__so_protocol_initialized`, and what they are about: how often Winsock was
started and cleaned up, and whether the IO threads and the object table are there. -/
structure SoState where
  soStartup : Int
  initialized : ProtoType → Bool
  wsaStartups : Nat
  wsaCleanups : Nat
  io : Bool
  obj : Bool

namespace SoState

def start : SoState where
  soStartup := 0
  initialized _ := false
  wsaStartups := 0
  wsaCleanups := 0
  io := false
  obj := false

/-- The network is up: Winsock is started, and so are the IO threads and the object table. -/
def Up (s : SoState) : Prop := s.wsaCleanups < s.wsaStartups ∧ s.io = true ∧ s.obj = true

end SoState

/-- `so_init`. `wsaStartup` and `ioinit` tell whether these calls succeed. -/
def soInit (s : SoState) (protoType : ProtoType) (wsaStartup ioinit : Bool) : Int × SoState :=
  let note (s : SoState) : Int × SoState :=
    let s := if protoType = .tcp ∧ s.initialized .tcp = true then
        { s with initialized := Function.update s.initialized .tcp true } else s
    let s := if protoType = .udp ∧ s.initialized .udp = false then
        { s with initialized := Function.update s.initialized .udp true } else s
    (0, s)
  if s.soStartup + 1 = 1 then
    if ¬ wsaStartup then (-1, s)
    else if ¬ ioinit then
      (-1, { s with wsaStartups := s.wsaStartups + 1, wsaCleanups := s.wsaCleanups + 1 })
    else
      note { s with
        soStartup := s.soStartup + 1
        wsaStartups := s.wsaStartups + 1
        io := true
        obj := true }
  else note s

/-- `so_uninit`. -/
def soUninit (s : SoState) (protoType : ProtoType) : SoState :=
  if protoType ≠ .tcp ∧ protoType ≠ .udp then s
  else
    let s := { s with initialized := Function.update s.initialized protoType false }
    if s.initialized .ip || s.initialized .udp || s.initialized .tcp || s.initialized .pipe then s
    else { s with obj := false, io := false, wsaCleanups := s.wsaCleanups + 1 }

def tcpInit (s : SoState) (wsaStartup ioinit : Bool) : Int × SoState :=
  soInit s .tcp wsaStartup ioinit

def udpInit (s : SoState) (wsaStartup ioinit : Bool) : Int × SoState :=
  soInit s .udp wsaStartup ioinit

def tcpUninit (s : SoState) : SoState := soUninit s .tcp

def udpUninit (s : SoState) : SoState := soUninit s .udp

/-! ## Sequences of calls -/

inductive SoOp where
  | tcpInit
  | udpInit
  | tcpUninit
  | udpUninit
  deriving DecidableEq

/-- A call whose system calls succeed. -/
def soStep (s : SoState) : SoOp → SoState
  | .tcpInit => (tcpInit s true true).2
  | .udpInit => (udpInit s true true).2
  | .tcpUninit => tcpUninit s
  | .udpUninit => udpUninit s

/-- The protocols that were initialised and not since uninitialised, and whether any ever was. -/
structure InUse where
  tcp : Bool
  udp : Bool
  ever : Bool
  deriving DecidableEq

def InUse.step (p : InUse) : SoOp → InUse
  | .tcpInit => { p with tcp := true, ever := true }
  | .udpInit => { p with udp := true, ever := true }
  | .tcpUninit => { p with tcp := false }
  | .udpUninit => { p with udp := false }

/-- The network is up exactly when a protocol is in use, and was not cleaned up more often than
it was started. -/
def SoState.Follows (s : SoState) (p : InUse) : Prop :=
  (s.Up ↔ p.tcp = true ∨ p.udp = true) ∧ s.wsaCleanups ≤ s.wsaStartups

/-- The promise after each call of a sequence. -/
def StartupKept (s : SoState) (p : InUse) : List SoOp → Prop
  | [] => s.Follows p
  | op :: ops => s.Follows p ∧ StartupKept (soStep s op) (p.step op) ops

/-- What a call must respect: when no protocol is in use it is the first initialisation of all,
and UDP is uninitialised only when it is in use and TCP is not. -/
def SoOp.Clean (p : InUse) : SoOp → Prop
  | .tcpInit | .udpInit => p.ever = true → p.tcp = true ∨ p.udp = true
  | .tcpUninit => p.tcp = true ∨ p.udp = true
  | .udpUninit => p.udp = true ∧ p.tcp = false

instance (p : InUse) (op : SoOp) : Decidable (op.Clean p) := by
  cases op <;> unfold SoOp.Clean <;> infer_instance

def StartupClean (p : InUse) : List SoOp → Prop
  | [] => True
  | op :: ops => op.Clean p ∧ StartupClean (p.step op) ops

/-! ## When the network follows -/

section

variable {s : SoState} {p : InUse} {op : SoOp}

/-- What the code knows of the protocols in use: UDP is noted, TCP is not, and the network was
started once, if ever. -/
structure SoState.Knows (s : SoState) (p : InUse) : Prop where
  startup : s.soStartup = if p.ever then 1 else 0
  ip : s.initialized .ip = false
  udp : s.initialized .udp = p.udp
  tcp : s.initialized .tcp = false
  pipe : s.initialized .pipe = false
  started : s.wsaStartups = if p.ever then 1 else 0
  cleaned : s.wsaCleanups = if p.ever && !(p.tcp || p.udp) then 1 else 0
  io : s.io = (p.tcp || p.udp)
  obj : s.obj = (p.tcp || p.udp)
  used : p.tcp = true ∨ p.udp = true → p.ever = true

/-- The flags of UDP follow its calls as long as all is known. -/
theorem SoState.Knows.follows (h : s.Knows p) : s.Follows p := by
  obtain ⟨-, -, -, -, -, hst, hcl, hio, hobj, hused⟩ := h
  obtain ⟨tcp, udp, ever⟩ := p
  unfold Follows Up
  rw [hst, hcl, hio, hobj]
  revert hused
  cases tcp <;> cases udp <;> cases ever <;> simp

/-- The state after `so_init` of TCP (`noted` is what was noted before) or UDP has started the
network. -/
theorem SoState.Knows.init_first (h : s.Knows p) (hever : p.ever = false) {t : ProtoType}
    (ht : t = .tcp ∨ t = .udp) : (soInit s t true true).2 = { s with
      soStartup := 1
      initialized := if t = .udp then Function.update s.initialized .udp true else s.initialized
      wsaStartups := 1
      io := true
      obj := true } := by
  have hstartup : s.soStartup = 0 := by
    rw [h.startup, hever]
    rfl
  have hstarted : s.wsaStartups = 0 := by
    rw [h.started, hever]
    rfl
  have hudp : s.initialized .udp = false := by
    rw [h.udp]
    by_contra hno
    have hever' := h.used (.inr (Bool.eq_true_of_not_eq_false hno))
    rw [hever] at hever'
    cases hever'
  unfold soInit
  rcases ht with rfl | rfl
  · simp [hstartup, hstarted, h.tcp]
  · simp [hstartup, hstarted, hudp]

/-- Once it was started, `so_init` does not start it again. -/
theorem SoState.Knows.init_later (h : s.Knows p) (hever : p.ever = true) {t : ProtoType}
    (ht : t = .tcp ∨ t = .udp) : (soInit s t true true).2 = { s with
      initialized :=
        if t = .udp then Function.update s.initialized .udp true else s.initialized } := by
  have hstartup : s.soStartup ≠ 0 := by
    rw [h.startup, hever]
    decide
  unfold soInit
  rcases ht with rfl | rfl
  · simp [hstartup, h.tcp]
  · cases hudp : s.initialized .udp with
    | false => simp [hstartup, hudp]
    | true =>
      have hnoted : Function.update s.initialized .udp true = s.initialized := by
        rw [← hudp, Function.update_eq_self]
      simp [hstartup, hudp, hnoted]

/-- As TCP is never noted, its last `so_uninit` stops the network unless UDP is noted. -/
theorem SoState.Knows.tcpUninit_eq (h : s.Knows p) : tcpUninit s =
    if p.udp then { s with initialized := Function.update s.initialized .tcp false }
    else { s with
      initialized := Function.update s.initialized .tcp false
      obj := false
      io := false
      wsaCleanups := s.wsaCleanups + 1 } := by
  simp [tcpUninit, soUninit, h.ip, h.udp, h.pipe]

/-- And any `so_uninit` of UDP stops it. -/
theorem SoState.Knows.udpUninit_eq (h : s.Knows p) : udpUninit s = { s with
    initialized := Function.update s.initialized .udp false
    obj := false
    io := false
    wsaCleanups := s.wsaCleanups + 1 } := by
  simp [udpUninit, soUninit, h.ip, h.tcp, h.pipe]

/-- An initialisation that keeps to the condition. -/
theorem SoState.Knows.init_step {p' : InUse} (h : s.Knows p)
    (hc : p.ever = true → p.tcp = true ∨ p.udp = true) (hever' : p'.ever = true)
    (hused' : (p'.tcp || p'.udp) = true) {t : ProtoType} (ht : t = .tcp ∨ t = .udp)
    (hudp' : p'.udp = (p.udp || decide (t = .udp))) : (soInit s t true true).2.Knows p' := by
  have hother : ∀ x, x ≠ .udp → (if t = .udp then Function.update s.initialized .udp true
      else s.initialized) x = s.initialized x := by
    intro x hx
    split
    · exact Function.update_of_ne hx ..
    · rfl
  have hnoted : (if t = .udp then Function.update s.initialized .udp true else s.initialized) .udp
      = p'.udp := by
    rw [hudp', ← h.udp]
    rcases ht with rfl | rfl
    · simp
    · simp
  have hip := (hother .ip (by decide)).trans h.ip
  have htcp := (hother .tcp (by decide)).trans h.tcp
  have hpipe := (hother .pipe (by decide)).trans h.pipe
  cases hever : p.ever with
  | false =>
    have hcleaned : s.wsaCleanups = 0 := by
      rw [h.cleaned, hever]
      rfl
    rw [h.init_first hever ht]
    refine ⟨?_, hip, hnoted, htcp, hpipe, ?_, ?_, hused'.symm, hused'.symm, fun _ => hever'⟩
    · rw [hever']
      rfl
    · rw [hever']
      rfl
    · rw [hever', hused']
      exact hcleaned
  | true =>
    -- a protocol is in use, so the network is up and was not cleaned up
    have hused : (p.tcp || p.udp) = true := (Bool.or_eq_true _ _).mpr (hc hever)
    have hup : (p.tcp || p.udp) = (p'.tcp || p'.udp) := hused.trans hused'.symm
    have hsame : p'.ever = p.ever := hever'.trans hever.symm
    rw [h.init_later hever ht]
    refine ⟨?_, hip, hnoted, htcp, hpipe, ?_, ?_, h.io.trans hup, h.obj.trans hup, fun _ => hever'⟩
    · rw [hsame]
      exact h.startup
    · rw [hsame]
      exact h.started
    · rw [hsame, ← hup]
      exact h.cleaned

/-- The network stops with the last protocol in use. -/
theorem SoState.Knows.stop_step {p' : InUse} (h : s.Knows p) (hused : p.tcp = true ∨ p.udp = true)
    (hever' : p'.ever = p.ever) (hused' : (p'.tcp || p'.udp) = false) (t : ProtoType)
    (hudp : t = .udp ∨ p.udp = false) : SoState.Knows { s with
      initialized := Function.update s.initialized t false
      obj := false
      io := false
      wsaCleanups := s.wsaCleanups + 1 } p' := by
  have hever : p.ever = true := h.used hused
  have hcleaned : s.wsaCleanups = 0 := by
    rw [h.cleaned, hever, (Bool.or_eq_true _ _).mpr hused]
    rfl
  obtain ⟨-, hudp'⟩ := Bool.or_eq_false_iff.mp hused'
  have hnone : ∀ x, t = x ∨ s.initialized x = false →
      Function.update s.initialized t false x = false := by
    rintro x (rfl | hx)
    · exact Function.update_self ..
    · rw [Function.update_apply, hx, ite_self]
  have hnoted : Function.update s.initialized t false .udp = p'.udp := by
    rw [hudp']
    exact hnone .udp (hudp.imp_right h.udp.trans)
  refine ⟨?_, hnone .ip (.inr h.ip), hnoted, hnone .tcp (.inr h.tcp), hnone .pipe (.inr h.pipe), ?_,
    ?_, hused'.symm, hused'.symm, fun _ => hever'.trans hever⟩
  · rw [hever']
    exact h.startup
  · rw [hever']
    exact h.started
  · rw [hever', hever, hused']
    exact congrArg (· + 1) hcleaned

/-- A call that keeps to the condition. -/
theorem SoState.Knows.step (h : s.Knows p) (hc : op.Clean p) : (soStep s op).Knows (p.step op) := by
  cases op with
  | tcpInit => exact h.init_step hc rfl rfl (.inl rfl) (by simp [InUse.step])
  | udpInit => exact h.init_step hc rfl (Bool.or_true _) (.inr rfl) (by simp [InUse.step])
  | tcpUninit =>
    show (tcpUninit s).Knows _
    rw [h.tcpUninit_eq]
    cases hudp : p.udp with
    | false =>
      rw [if_neg Bool.false_ne_true]
      refine h.stop_step hc ?_ ?_ .tcp (.inr hudp)
      · rfl
      · exact hudp
    | true =>
      -- UDP keeps the network up
      have hup : (p.tcp || p.udp) = (false || p.udp) := by rw [hudp, Bool.or_true, Bool.or_true]
      have hnoted : Function.update s.initialized .tcp false .tcp = false := Function.update_self ..
      rw [if_pos rfl]
      refine ⟨h.startup, h.ip, h.udp, hnoted, h.pipe, h.started, ?_,
        h.io.trans hup, h.obj.trans hup, fun _ => h.used hc⟩
      show s.wsaCleanups = if p.ever && !(false || p.udp) then 1 else 0
      rw [← hup]
      exact h.cleaned
  | udpUninit =>
    show (udpUninit s).Knows _
    rw [h.udpUninit_eq]
    refine h.stop_step (.inr hc.1) ?_ ?_ .udp (.inl rfl)
    · rfl
    · show (p.tcp || false) = false
      rw [hc.2, Bool.or_false]

/-- A protocol that is initialised again finds the network down. -/
theorem SoState.Knows.init_breaks {p' : InUse} (h : s.Knows p)
    (hno : ¬ (p.ever = true → p.tcp = true ∨ p.udp = true)) (hused' : p'.tcp = true ∨ p'.udp = true)
    {t : ProtoType} (ht : t = .tcp ∨ t = .udp) : ¬ (soInit s t true true).2.Follows p' := by
  obtain ⟨hever, hunused⟩ := Classical.not_imp.mp hno
  have hdown : s.io = false := by
    rw [h.io, Bool.or_eq_false_iff]
    exact ⟨Bool.eq_false_of_not_eq_true fun htcp => hunused (.inl htcp),
      Bool.eq_false_of_not_eq_true fun hudp => hunused (.inr hudp)⟩
  rw [h.init_later hever ht]
  intro hf
  have hio : s.io = true := (hf.1.mpr hused').2.1
  rw [hdown] at hio
  cases hio

/-- Where no protocol is in use, everything that was started is cleaned up. -/
theorem SoState.Knows.cleaned_up (h : s.Knows p) (hunused : ¬ (p.tcp = true ∨ p.udp = true)) :
    s.wsaCleanups = s.wsaStartups := by
  have hnone : (p.tcp || p.udp) = false := by simpa using hunused
  rw [h.cleaned, h.started, hnone, Bool.not_false, Bool.and_true]

/-- A call that does not: the network does not follow after it. -/
theorem SoState.Knows.broken (h : s.Knows p) (hc : ¬ op.Clean p) :
    ¬ (soStep s op).Follows (p.step op) := by
  cases op with
  | tcpInit => exact h.init_breaks hc (.inl rfl) (.inl rfl)
  | udpInit => exact h.init_breaks hc (.inr rfl) (.inr rfl)
  | tcpUninit =>
    show ¬ (tcpUninit s).Follows _
    have hudp : ¬ p.udp = true := fun hudp => hc (.inr hudp)
    rw [h.tcpUninit_eq, if_neg hudp]
    intro hf
    have hle : s.wsaCleanups + 1 ≤ s.wsaStartups := hf.2
    rw [h.cleaned_up hc] at hle
    omega
  | udpUninit =>
    show ¬ (udpUninit s).Follows _
    rw [h.udpUninit_eq]
    intro hf
    by_cases htcp : p.tcp = true
    · -- TCP is in use, and the network is down
      have hup := hf.1.mpr (.inl htcp)
      exact Bool.false_ne_true hup.2.1
    · have hunused : ¬ (p.tcp = true ∨ p.udp = true) := fun hused =>
        hc ⟨hused.resolve_left htcp, Bool.eq_false_of_not_eq_true htcp⟩
      have hle : s.wsaCleanups + 1 ≤ s.wsaStartups := hf.2
      rw [h.cleaned_up hunused] at hle
      omega

/-- From any state in which that is so. Induction on the calls. -/
theorem startupKept_iff_of_knows (h : s.Knows p) (ops : List SoOp) :
    StartupKept s p ops ↔ StartupClean p ops := by
  induction ops generalizing s p with
  | nil => exact iff_of_true h.follows trivial
  | cons op ops ih =>
    by_cases hc : op.Clean p
    · rw [StartupKept, StartupClean, ih (h.step hc)]
      exact ⟨fun hk => ⟨hc, hk.2⟩, fun hk => ⟨h.follows, hk.2⟩⟩
    · refine iff_of_false (fun hk => ?_) fun hk => hc hk.1
      have hnext : (soStep s op).Follows (p.step op) := by
        cases ops with
        | nil => exact hk.2
        | cons op' ops => exact hk.2.1
      exact h.broken hc hnext

end

/-- **When the network follows the protocols in use**, after each call of every sequence. -/
theorem startupKept_iff (ops : List SoOp) :
    StartupKept .start ⟨false, false, false⟩ ops ↔ StartupClean ⟨false, false, false⟩ ops :=
  startupKept_iff_of_knows ⟨rfl, rfl, rfl, rfl, rfl, rfl, rfl, rfl, rfl, by simp⟩ ops

/-- Both protocols are initialised, UDP is uninitialised: the network is down, and TCP is in
use. -/
theorem startup_torn_down :
    ¬ StartupKept .start ⟨false, false, false⟩ [.tcpInit, .udpInit, .udpUninit] := by
  rintro ⟨-, -, -, h, -⟩
  have hup := h.mpr (.inl rfl)
  exact absurd hup.2.1 (by decide)

end Swnet
