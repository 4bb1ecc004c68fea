import Swnet.Basic

/-!
# Swnet — the registers of a link (`mxx.c`, `tcp.c`)

`nis_cntl` reads and writes the attributes, the context and the template of a link, and
`tcp_settst` and `tcp_gettst` the template. The exchange primitives return the old value:
`tcp_settst_r` stores it back over the new one, and `NI_GETCTX` stores what was in an
uninitialised variable to `prcontext`.

* `registersKept_iff` — the sequences of calls for which these are independent registers;
* `registers_settst_lost` — a template that is set, and is not there.

What the calls that succeeded have set is kept beside the link (`RegSet`). A get has to yield that
value, a set has to change its register and nothing else. Each call keeps its part of the promise
exactly when it is within the condition (`RegOp.frame_iff`, `RegSet.Of.yields`), and the equivalence
follows call by call.
-/

namespace Swnet

/-! ## The code -/

/-- `tst_t`, its callbacks as the pointers they are. -/
structure TstValue where
  cb : Int32
  builder : Nat
  parser : Nat
  deriving DecidableEq

/-- The fields of a link the calls are about. -/
structure Registers where
  attr : Int32
  context : Nat
  prcontext : Nat
  tcpTst : TstValue
  deriving DecidableEq

/-- `InterlockedExchange`, on a target that holds `old`: the value returned, and the new one of the
target. -/
def interlockedExchange {α : Type} (old new : α) : α × α := (old, new)

/-- `tcp_settst`, on a link that can be referenced. -/
def tcpSettst (s : Registers) (tst : Option TstValue) : Int × Registers :=
  match tst with
  | none => (-1, s)
  | some tst => (0, { s with tcpTst := ⟨tst.cb, tst.builder, tst.parser⟩ })

/-- `tcp_settst_r`: the exchange writes the new value, the assignment what it returned. -/
def tcpSettstR (s : Registers) (tst : Option TstValue) : Int × Registers :=
  match tst with
  | none => (-einval, s)
  | some tst =>
    if tcpMaximumTemplateSize < tst.cb.toInt then (-einval, s)
    else
      let (cb, target) := interlockedExchange s.tcpTst.cb tst.cb
      let s := { s with tcpTst := { s.tcpTst with cb := target } }
      let s := { s with tcpTst := { s.tcpTst with cb := cb } }
      let (builder, target) := interlockedExchange s.tcpTst.builder tst.builder
      let s := { s with tcpTst := { s.tcpTst with builder := target } }
      let s := { s with tcpTst := { s.tcpTst with builder := builder } }
      let (parser, target) := interlockedExchange s.tcpTst.parser tst.parser
      let s := { s with tcpTst := { s.tcpTst with parser := target } }
      let s := { s with tcpTst := { s.tcpTst with parser := parser } }
      (0, s)

/-- `tcp_gettst`, and `tcp_gettst_r` for a pointer that is not `NULL`: what is put behind it. -/
def tcpGettst (s : Registers) : TstValue := ⟨s.tcpTst.cb, s.tcpTst.builder, s.tcpTst.parser⟩

/-- `tcp_gettst_r`. -/
def tcpGettstR (s : Registers) (tst : Bool) : Int × Option TstValue :=
  if ¬ tst then (-einval, none) else (0, some (tcpGettst s))

/-- The commands of `nis_cntl` with their arguments, and the two calls of the other path.
`garbage` is what the uninitialised variable of `NI_GETCTX` holds, and `tst` in a get tells
whether the pointer for the result is not `NULL`. -/
inductive RegOp where
  | setattr (value : Int32)
  | getattr
  | setctx (value : Nat)
  | getctx (garbage : Nat)
  | settst (tst : Option TstValue)
  | gettst (tst : Bool)
  | tcpSettst (tst : Option TstValue)
  | tcpGettst

/-- What a call yields: its return value, and the register it was asked for. -/
inductive RegValue where
  | none
  | attr (value : Int32)
  | ctx (value : Nat)
  | tst (value : TstValue)
  deriving DecidableEq

/-- `nis_cntl`, and the calls beside it: the return value, the value yielded and the link after
it. `NI_GETATTR` yields the attributes as its return value. -/
def regStep (s : Registers) : RegOp → Int × RegValue × Registers
  | .setattr value => (0, .none, { s with attr := (interlockedExchange s.attr value).2 })
  | .getattr =>
    let retval := (interlockedExchange (0 : Int32) s.attr).2
    (retval.toInt, .attr retval, s)
  | .setctx value =>
    let (old, context) := interlockedExchange s.context value
    (0, .none, { s with prcontext := old, context })
  | .getctx garbage =>
    let (old, context) := interlockedExchange garbage s.context
    (0, .ctx context, { s with prcontext := old })
  | .settst tst => ((tcpSettstR s tst).1, .none, (tcpSettstR s tst).2)
  | .gettst tst =>
    ((tcpGettstR s tst).1, ((tcpGettstR s tst).2.map RegValue.tst).getD .none, s)
  | .tcpSettst tst => ((Swnet.tcpSettst s tst).1, .none, (Swnet.tcpSettst s tst).2)
  | .tcpGettst => (0, .tst (Swnet.tcpGettst s), s)

/-! ## Registers -/

/-- The registers as the calls that succeeded have set them. -/
structure RegSet where
  attr : Int32
  context : Nat
  tcpTst : TstValue

/-- A set that returned `retval`. -/
def RegOp.sets (retval : Int) (v : RegSet) : RegOp → RegSet
  | .setattr value => { v with attr := value }
  | .setctx value => { v with context := value }
  | .settst (some tst) | .tcpSettst (some tst) => if retval < 0 then v else { v with tcpTst := tst }
  | _ => v

/-- What a call does to the fields of the link: a set that is rejected and a get change nothing, a
set changes its register, and `NI_SETCTX` keeps the context it replaces. The two ways to set an
admissible template leave the link in the same state. -/
def RegOp.Frame (s : Registers) : RegOp → Prop
  | .setattr value => (regStep s (.setattr value)).2.2 = { s with attr := value }
  | .setctx value =>
    (regStep s (.setctx value)).2.2 = { s with context := value, prcontext := s.context }
  | .settst tst =>
    if (regStep s (.settst tst)).1 < 0 then (regStep s (.settst tst)).2.2 = s
    else (∃ value, tst = some value
        ∧ (regStep s (.settst tst)).2.2 = { s with tcpTst := value })
      ∧ (regStep s (.settst tst)).2.2 = (regStep s (.tcpSettst tst)).2.2
  | .tcpSettst tst =>
    if (regStep s (.tcpSettst tst)).1 < 0 then (regStep s (.tcpSettst tst)).2.2 = s
    else ∃ value, tst = some value ∧ (regStep s (.tcpSettst tst)).2.2 = { s with tcpTst := value }
  | op => (regStep s op).2.2 = s

/-- What a get yields: the value of the last successful set. -/
def RegOp.Yields (s : Registers) (v : RegSet) : RegOp → Prop
  | .getattr => (regStep s .getattr).2.1 = .attr v.attr
  | .getctx garbage => (regStep s (.getctx garbage)).2.1 = .ctx v.context
  | .gettst true => (regStep s (.gettst true)).2.1 = .tst v.tcpTst
  | .tcpGettst => (regStep s .tcpGettst).2.1 = .tst v.tcpTst
  | _ => True

/-- The promise over a sequence of calls. -/
def RegistersKept (s : Registers) (v : RegSet) : List RegOp → Prop
  | [] => True
  | op :: ops => op.Frame s ∧ op.Yields s v
    ∧ RegistersKept (regStep s op).2.2 (op.sets (regStep s op).1 v) ops

/-- What a call must respect: `NI_GETCTX` finds in its variable what `prcontext` holds already,
and `NI_SETTST`, if the size of the template is admissible, is for the template in force. -/
def RegOp.Clean (s : Registers) : RegOp → Prop
  | .getctx garbage => garbage = s.prcontext
  | .settst (some tst) => tst.cb.toInt ≤ tcpMaximumTemplateSize → tst = s.tcpTst
  | _ => True

def RegistersClean (s : Registers) : List RegOp → Prop
  | [] => True
  | op :: ops => op.Clean s ∧ RegistersClean (regStep s op).2.2 ops

/-! ## When they are registers -/

section

variable {s : Registers} {v : RegSet} {op : RegOp}

/-- `tcp_settst_r` leaves every link as it was. -/
theorem tcpSettstR_state (s : Registers) (tst : Option TstValue) : (tcpSettstR s tst).2 = s := by
  cases tst with
  | none => rfl
  | some tst =>
    unfold tcpSettstR
    dsimp only
    split <;> rfl

/-- It accepts the templates of an admissible size. -/
theorem tcpSettstR_retval (s : Registers) (tst : TstValue) :
    (tcpSettstR s (some tst)).1 < 0 ↔ tcpMaximumTemplateSize < tst.cb.toInt := by
  unfold tcpSettstR
  dsimp only
  split <;> simp_all [einval]

/-- The link holds the values of the sets. -/
structure RegSet.Of (v : RegSet) (s : Registers) : Prop where
  attr : s.attr = v.attr
  context : s.context = v.context
  tcpTst : s.tcpTst = v.tcpTst

/-- A call keeps the promise exactly if it keeps to the condition. -/
theorem RegOp.frame_iff (op : RegOp) (s : Registers) : op.Frame s ↔ op.Clean s := by
  cases op with
  | getctx garbage =>
    obtain ⟨attr, context, prcontext, tcpTst⟩ := s
    simp [RegOp.Frame, RegOp.Clean, regStep, interlockedExchange]
  | settst tst =>
    cases tst with
    | none => simp [RegOp.Frame, RegOp.Clean, regStep, tcpSettstR, einval]
    | some tst =>
      have hret := tcpSettstR_retval s tst
      obtain ⟨cb, builder, parser⟩ := tst
      obtain ⟨attr, context, prcontext, tcpTst⟩ := s
      by_cases hbig : (tcpMaximumTemplateSize : Int) < cb.toInt
      · simp [RegOp.Frame, RegOp.Clean, regStep, tcpSettstR_state, hret, hbig, not_le.mpr hbig]
      · simp [RegOp.Frame, RegOp.Clean, regStep, tcpSettstR_state, hret, hbig, not_lt.mp hbig,
          Swnet.tcpSettst, eq_comm]
  | tcpSettst tst =>
    cases tst <;> simp [RegOp.Frame, RegOp.Clean, regStep, Swnet.tcpSettst]
  | _ => simp [RegOp.Frame, RegOp.Clean, regStep, interlockedExchange]

/-- What a get yields is what was set. -/
theorem RegSet.Of.yields (h : v.Of s) (op : RegOp) : op.Yields s v := by
  obtain ⟨hattr, hctx, htst⟩ := h
  cases op with
  | gettst tst =>
    cases tst with
    | false => trivial
    | true => simp [RegOp.Yields, regStep, tcpGettstR, Swnet.tcpGettst, htst]
  | _ => simp [RegOp.Yields, regStep, interlockedExchange, Swnet.tcpGettst, hattr, hctx, htst]

/-- A call within the condition sets what it reports. -/
theorem RegSet.Of.step (h : v.Of s) (hc : op.Clean s) :
    (op.sets (regStep s op).1 v).Of (regStep s op).2.2 := by
  obtain ⟨hattr, hctx, htst⟩ := h
  cases op with
  | settst tst =>
    cases tst with
    | none => exact ⟨hattr, hctx, htst⟩
    | some tst =>
      have hret := tcpSettstR_retval s tst
      refine ⟨?_, ?_, ?_⟩ <;> simp only [RegOp.sets, regStep, tcpSettstR_state, hret]
      · split <;> exact hattr
      · split <;> exact hctx
      · split
        · exact htst
        · exact (hc (by omega)).symm
  | tcpSettst tst =>
    cases tst with
    | none => exact ⟨hattr, hctx, htst⟩
    | some tst => exact ⟨hattr, hctx, rfl⟩
  | setattr value => exact ⟨rfl, hctx, htst⟩
  | setctx value => exact ⟨hattr, rfl, htst⟩
  | _ => exact ⟨hattr, hctx, htst⟩

/-- From any state. Induction on the calls. -/
theorem registersKept_iff_of (h : v.Of s) (ops : List RegOp) :
    RegistersKept s v ops ↔ RegistersClean s ops := by
  induction ops generalizing s v with
  | nil => exact Iff.rfl
  | cons op ops ih =>
    rw [RegistersKept, RegistersClean, op.frame_iff s]
    constructor
    · rintro ⟨hc, -, hrest⟩
      exact ⟨hc, (ih (h.step hc)).mp hrest⟩
    · rintro ⟨hc, hrest⟩
      exact ⟨hc, h.yields op, (ih (h.step hc)).mpr hrest⟩

end

/-- **When the calls behave as independent registers**, for every link and every sequence. -/
theorem registersKept_iff (s : Registers) (ops : List RegOp) :
    RegistersKept s ⟨s.attr, s.context, s.tcpTst⟩ ops ↔ RegistersClean s ops :=
  registersKept_iff_of ⟨rfl, rfl, rfl⟩ ops

/-- `NI_SETTST` with a template of four bytes returns 0, and `NI_GETTST` yields the old one. -/
theorem registers_settst_lost :
    (regStep ⟨0, 0, 0, ⟨0, 0, 0⟩⟩ (.settst (some ⟨4, 1, 2⟩))).1 = 0
      ∧ ¬ RegistersKept ⟨0, 0, 0, ⟨0, 0, 0⟩⟩ ⟨0, 0, ⟨0, 0, 0⟩⟩
          [.settst (some ⟨4, 1, 2⟩), .gettst true] := by
  refine ⟨by decide, ?_⟩
  rintro ⟨-, -, -, hget, -⟩
  have hvalue : RegValue.tst ⟨0, 0, 0⟩ = .tst ⟨4, 1, 2⟩ := hget
  exact absurd hvalue (by decide)

end Swnet
