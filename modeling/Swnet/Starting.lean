import Swnet.Lib.Replay
import Swnet.Startup

/-!
# Swnet — starting the library from several threads (`network.c`)

`tcp_init` and `udp_init` are exported, and nothing keeps two threads from calling them at once.
What `so_init` has for that is its count of starts: the thread that raises it to 1 does the start,
every other takes its step back and goes on.

* `reaches_of_sequence` — calls that do not overlap are those of `Startup`;
* `start_once` — however the calls overlap, the library is started once at most.

The calls are programs over the shared counters, one atomic operation at a time. For the first
result a call that runs alone is unfolded into its answers (`Alone`), which gives the function of
`Startup`. For the second the ledger `stages` says how far a thread is with the start, and the
invariant `OneStart` counts: what the threads have raised the count by, with the start that was
done, is the count, and one start is under way or done.
-/

namespace Swnet.Starting

open Jobs Jobs.Prog

/-! ## The calls of `so_init` and `so_uninit` -/

/-- What they do to what they share. A negative answer of `wsaStartup` or `ioinit` is a failure; a
flag that is set answers 1. -/
inductive SoCall where
  | increment
  | decrement
  | wsaStartup
  | wsaCleanup
  | ioinit
  | iouninit
  | objinit
  | objuninit
  | isInitialized (t : ProtoType)
  | setInitialized (t : ProtoType) (value : Bool)
  deriving DecidableEq

abbrev SoProg := Prog SoCall Int Int

/-- The end of `so_init`. -/
def noteProtocol (protoType : ProtoType) : SoProg :=
  if protoType = .tcp then do
    let set ← perform (.isInitialized .tcp)
    if set = 1 then
      let _ ← perform (.setInitialized .tcp true)
      return 0
    else return 0
  else if protoType = .udp then do
    let set ← perform (.isInitialized .udp)
    if set = 0 then
      let _ ← perform (.setInitialized .udp true)
      return 0
    else return 0
  else return 0

/-- `so_init`. -/
def soInit (protoType : ProtoType) : SoProg := do
  let count ← perform .increment
  if count = 1 then do
    let started ← perform .wsaStartup
    if started < 0 then do
      let _ ← perform .decrement
      return -1
    else do
      let made ← perform .ioinit
      if made < 0 then do
        let _ ← perform .wsaCleanup
        let _ ← perform .decrement
        return -1
      else do
        let _ ← perform .objinit
        noteProtocol protoType
  else do
    let _ ← perform .decrement
    noteProtocol protoType

/-- `so_uninit`. -/
def soUninit (protoType : ProtoType) : SoProg :=
  if protoType ≠ .tcp ∧ protoType ≠ .udp then return 0
  else do
    let _ ← perform (.setInitialized protoType false)
    let ip ← perform (.isInitialized .ip)
    if ip = 1 then return 0
    else do
      let udp ← perform (.isInitialized .udp)
      if udp = 1 then return 0
      else do
        let tcp ← perform (.isInitialized .tcp)
        if tcp = 1 then return 0
        else do
          let pipe ← perform (.isInitialized .pipe)
          if pipe = 1 then return 0
          else do
            let _ ← perform .objuninit
            let _ ← perform .iouninit
            let _ ← perform .wsaCleanup
            return 0

/-! ## The threads -/

inductive SoJob where
  | init (protoType : ProtoType)
  | uninit (protoType : ProtoType)
  deriving DecidableEq

def SoJob.prog : SoJob → SoProg
  | .init t => soInit t
  | .uninit t => soUninit t

/-- The state of the library, and how often the IO threads and the object table were made. -/
structure SoWorld where
  so : SoState
  ioinits : Nat
  objinits : Nat

namespace SoWorld

def initial : SoWorld := ⟨.start, 0, 0⟩

/-- What each call does when it answers `a`; `none` when it cannot answer so. -/
def answer (w : SoWorld) (c : SoCall) (a : Int) : Option SoWorld :=
  match c with
  | .increment =>
    if a = w.so.soStartup + 1 then some { w with so := { w.so with soStartup := a } } else none
  | .decrement =>
    if a = w.so.soStartup - 1 then some { w with so := { w.so with soStartup := a } } else none
  | .wsaStartup =>
    some (if a < 0 then w else { w with so := { w.so with wsaStartups := w.so.wsaStartups + 1 } })
  | .wsaCleanup => some { w with so := { w.so with wsaCleanups := w.so.wsaCleanups + 1 } }
  | .ioinit =>
    some (if a < 0 then w else { w with so := { w.so with io := true }, ioinits := w.ioinits + 1 })
  | .iouninit => some { w with so := { w.so with io := false } }
  | .objinit => some { w with so := { w.so with obj := true }, objinits := w.objinits + 1 }
  | .objuninit => some { w with so := { w.so with obj := false } }
  | .isInitialized t => if a = (w.so.initialized t).toNat then some w else none
  | .setInitialized t value =>
    some { w with so := { w.so with initialized := Function.update w.so.initialized t value } }

end SoWorld

/-- Every thread may call them at any time. -/
def startup : System SoWorld SoJob SoCall Int Int Empty where
  prog := SoJob.prog
  answer := SoWorld.answer
  start w _ := some w
  finish w _ _ := w
  env _ e := nomatch e

abbrev SoThreads (τ : Type) := Jobs.State τ SoWorld SoJob SoCall Int Int

def anyCalls : Guard SoWorld SoJob SoCall Int where
  start _ _ := True
  call _ _ _ _ _ := True

/-- The states of the runs from the start. -/
abbrev SoReaches {τ : Type} [DecidableEq τ] (s : SoThreads τ) : Prop :=
  Reaches startup anyCalls (State.rest SoWorld.initial) s

/-! ## One call at a time -/

section

/-- The answers are those of the world. -/
@[simp] theorem startup_answer (w : SoWorld) (c : SoCall) (a : Int) :
    startup.answer w c a = w.answer c a := rfl

/-- The program can return `r` and leave `so`, when nobody else does anything. -/
def Alone (w : SoWorld) (p : SoProg) (r : Int) (so : SoState) : Prop :=
  ∃ calls w', p.Runs calls r ∧ startup.answers w calls = some w' ∧ w'.so = so

/-- A call, and the rest of the program. -/
theorem Alone.call {w w₁ : SoWorld} {c : SoCall} {k : Int → SoProg} {a r : Int} {so : SoState}
    (hc : w.answer c a = some w₁) (hk : Alone w₁ (k a) r so) : Alone w (perform c >>= k) r so := by
  obtain ⟨calls, w', hruns, hw, hso⟩ := hk
  refine ⟨(c, a) :: calls, w', ⟨rfl, hruns⟩, ?_, hso⟩
  rw [answers_cons, startup_answer, hc, Option.bind_some, hw]

theorem Alone.done {w : SoWorld} {r : Int} : Alone w (.done r) r w.so :=
  ⟨[], w, rfl, rfl, rfl⟩

/-- The protocol as `so_init` notes it. -/
def noted (s : SoState) (protoType : ProtoType) : SoState :=
  let s := if protoType = .tcp ∧ s.initialized .tcp = true then
      { s with initialized := Function.update s.initialized .tcp true } else s
  if protoType = .udp ∧ s.initialized .udp = false then
    { s with initialized := Function.update s.initialized .udp true } else s

theorem answer_isInitialized {w : SoWorld} {t : ProtoType} {set : Bool}
    (hset : w.so.initialized t = set) : w.answer (.isInitialized t) set.toNat = some w :=
  if_pos (by rw [hset])

theorem noteProtocol_alone (w : SoWorld) (t : ProtoType) :
    Alone w (noteProtocol t) 0 (noted w.so t) := by
  cases t with
  | tcp =>
      cases hset : w.so.initialized .tcp with
      | true =>
          have hnoted : noted w.so .tcp
              = { w.so with initialized := Function.update w.so.initialized .tcp true } := by
            simp [noted, hset]
          rw [hnoted]
          exact .call (answer_isInitialized hset) (.call (a := 0) rfl .done)
      | false =>
          have hnoted : noted w.so .tcp = w.so := by simp [noted, hset]
          rw [hnoted]
          exact .call (answer_isInitialized hset) .done
  | udp =>
      cases hset : w.so.initialized .udp with
      | true =>
          have hnoted : noted w.so .udp = w.so := by simp [noted, hset]
          rw [hnoted]
          exact .call (answer_isInitialized hset) .done
      | false =>
          have hnoted : noted w.so .udp
              = { w.so with initialized := Function.update w.so.initialized .udp true } := by
            simp [noted, hset]
          rw [hnoted]
          exact .call (answer_isInitialized hset) (.call (a := 0) rfl .done)
  | _ => exact .done

/-- Winsock is started, or not. -/
theorem answer_wsaStartup (w : SoWorld) : w.answer .wsaStartup (-1) = some w
    ∧ w.answer .wsaStartup 0
      = some { w with so := { w.so with wsaStartups := w.so.wsaStartups + 1 } } := ⟨rfl, rfl⟩

/-- The IO threads are made, or not. -/
theorem answer_ioinit (w : SoWorld) : w.answer .ioinit (-1) = some w
    ∧ w.answer .ioinit 0
      = some { w with so := { w.so with io := true }, ioinits := w.ioinits + 1 } := ⟨rfl, rfl⟩

theorem answer_decrement {w : SoWorld} {count : Int} (hcount : w.so.soStartup = count + 1) :
    w.answer .decrement count = some { w with so := { w.so with soStartup := count } } :=
  if_pos (by omega)

/-- **A call of `so_init` on its own.** -/
theorem soInit_alone (w : SoWorld) (t : ProtoType) (wsaStartup ioinit : Bool) :
    Alone w (soInit t) (Swnet.soInit w.so t wsaStartup ioinit).1
      (Swnet.soInit w.so t wsaStartup ioinit).2 := by
  unfold soInit Swnet.soInit
  refine .call (if_pos rfl) ?_
  dsimp only
  by_cases hfirst : w.so.soStartup + 1 = 1
  · rw [if_pos hfirst, if_pos hfirst]
    cases wsaStartup with
    | false => exact .call (answer_wsaStartup _).1 (.call (answer_decrement rfl) .done)
    | true =>
        refine .call (answer_wsaStartup _).2 ?_
        cases ioinit with
        | false =>
            exact .call (answer_ioinit _).1
              (.call (a := 0) rfl (.call (answer_decrement rfl) .done))
        | true =>
            refine .call (answer_ioinit _).2 (.call (a := 0) rfl ?_)
            exact noteProtocol_alone _ t
  · rw [if_neg hfirst, if_neg hfirst]
    exact .call (answer_decrement rfl) (noteProtocol_alone w t)

/-- The rounds of the loop of `so_uninit`, from the second on. -/
theorem uninit_round {w : SoWorld} {t : ProtoType} {rest : SoProg} {so : SoState}
    (hset : w.so.initialized t = true → so = w.so)
    (hclear : w.so.initialized t = false → Alone w rest 0 so) :
    Alone w (perform (.isInitialized t) >>= fun set => if set = 1 then return 0 else rest)
      0 so := by
  cases h : w.so.initialized t with
  | true =>
      rw [hset h]
      exact .call (answer_isInitialized h) .done
  | false => exact .call (answer_isInitialized h) (hclear h)

/-- **A call of `so_uninit` on its own.** -/
theorem soUninit_alone (w : SoWorld) (t : ProtoType) :
    Alone w (soUninit t) 0 (Swnet.soUninit w.so t) := by
  unfold soUninit Swnet.soUninit
  split
  · exact .done
  refine .call (a := 0) rfl ?_
  generalize Function.update w.so.initialized t false = flags
  refine uninit_round (fun (h : flags .ip = true) => by simp [h])
    fun (hip : flags .ip = false) => ?_
  refine uninit_round (fun (h : flags .udp = true) => by simp [h])
    fun (hudp : flags .udp = false) => ?_
  refine uninit_round (fun (h : flags .tcp = true) => by simp [h])
    fun (htcp : flags .tcp = false) => ?_
  refine uninit_round (fun (h : flags .pipe = true) => by simp [h])
    fun (hpipe : flags .pipe = false) => ?_
  dsimp only
  rw [if_neg (by simp [hip, hudp, htcp, hpipe])]
  exact .call (a := 0) rfl (.call (a := 0) rfl (.call (a := 0) rfl .done))

/-- The job of a call. -/
def soJob : SoOp → SoJob
  | .tcpInit => .init .tcp
  | .udpInit => .init .udp
  | .tcpUninit => .uninit .tcp
  | .udpUninit => .uninit .udp

/-- **A call that nobody disturbs** does what `Startup` says. -/
theorem soJob_alone (w : SoWorld) (op : SoOp) :
    ∃ r, Alone w (soJob op).prog r (soStep w.so op) := by
  cases op with
  | tcpInit => exact ⟨_, soInit_alone w .tcp true true⟩
  | udpInit => exact ⟨_, soInit_alone w .udp true true⟩
  | tcpUninit => exact ⟨_, soUninit_alone w .tcp⟩
  | udpUninit => exact ⟨_, soUninit_alone w .udp⟩

/-- **One after the other.** The sequences of calls of `Startup` are runs of one thread. -/
theorem reaches_of_sequence {τ : Type} [DecidableEq τ] {u : τ} (ops : List SoOp) :
    ∀ {s : SoThreads τ}, SoReaches s → s.thread u = .idle →
      ∃ w, SoReaches { s with world := w } ∧ w.so = ops.foldl soStep s.world.so := by
  induction ops with
  | nil => exact fun {s} hs _ => ⟨s.world, hs, rfl⟩
  | cons op ops ih =>
      intro s hs hu
      obtain ⟨r, calls, w, hruns, hw, hso⟩ := soJob_alone s.world op
      have hstep : SoReaches { s with world := w } :=
        reaches_of_runs (S := startup) (j := soJob op) hs hu rfl trivial (fun _ _ _ _ => trivial)
          hruns hw
      obtain ⟨w', hs', hw'⟩ := ih hstep hu
      exact ⟨w', hs', by rw [hw', List.foldl_cons, ← hso]⟩

end

/-! ## How far a thread is with the start -/

/-- Where a thread is in `so_init`: it has not raised the count, or has taken it back; it was not
the first and has still to take it back; it does the start, and has made nothing yet, Winsock, or
the IO threads too. The thread that makes the object table leaves the count raised. -/
inductive Stage where
  | away
  | passing
  | first
  | winsock
  | engine
  deriving DecidableEq

namespace Stage

/-- The call made next, answered so. -/
def after (g : Stage) (c : SoCall) (a : Int) : Stage :=
  match c with
  | .increment => if a = 1 then first else passing
  | .decrement => away
  | .wsaStartup => if a < 0 then g else winsock
  | .ioinit => if a < 0 then g else engine
  | .wsaCleanup => if g = winsock then first else g
  | .objinit => away
  | _ => g

/-- Where a call is made. -/
def Need (g : Stage) (c : SoCall) : Prop :=
  match c with
  | .increment => g = away
  | .decrement => g = passing ∨ g = first
  | .wsaStartup => g = first
  | .ioinit => g = winsock
  | .wsaCleanup => g = winsock ∨ g = away
  | .objinit => g = engine
  | _ => True

/-- The thread has raised the count. -/
def counted : Stage → Nat
  | away => 0
  | passing | first | winsock | engine => 1

/-- The thread does the start. -/
def starting : Stage → Nat
  | away | passing => 0
  | first | winsock | engine => 1

/-- It has started Winsock. -/
def winsockUp : Stage → Nat
  | away | passing | first => 0
  | winsock | engine => 1

/-- It has made the IO threads. -/
def engineUp : Stage → Nat
  | away | passing | first | winsock => 0
  | engine => 1

theorem engineUp_le (g : Stage) : g.engineUp ≤ g.starting := by cases g <;> decide

theorem winsockUp_le (g : Stage) : g.winsockUp ≤ g.starting := by cases g <;> decide

theorem starting_le (g : Stage) : g.starting ≤ g.counted := by cases g <;> decide

end Stage

def stages : Ledger SoJob SoCall Int Int Stage where
  idle := .away
  init _ := .away
  upd := Stage.after
  need := Stage.Need
  ok _ _ _ := True
  post _ g _ := g = .away

/-- A program that keeps to the stages. -/
abbrev Staged (p : SoProg) (g : Stage) : Prop :=
  p.Meets Stage.after Stage.Need (fun _ _ _ => True) g fun g' _ => g' = .away

theorem noteProtocol_staged (t : ProtoType) : Staged (noteProtocol t) .away := by
  cases t <;> simp [noteProtocol, Stage.after, Stage.Need]

theorem job_staged (j : SoJob) : Staged j.prog .away := by
  have hnote := noteProtocol_staged
  cases j with
  | init t =>
      refine meets_bind.mpr ⟨rfl, fun count _ => meets_ite.mpr ⟨fun hfirst => ?_, fun hother => ?_⟩⟩
      · simp +contextual [hfirst, Stage.after, Stage.Need, hnote]
      · simp [hother, Stage.after, Stage.Need, hnote]
  | uninit t => simp [SoJob.prog, soUninit, Stage.after, Stage.Need]

/-! ## One start -/

section

variable {τ : Type} [DecidableEq τ] [Fintype τ]

/-- The count is the threads that have raised it, and the start that was done; there is one start
at most, under way or done. -/
structure OneStart (w : SoWorld) (rec : τ → Stage) : Prop where
  count : w.so.soStartup = w.objinits + ∑ u, (rec u).counted
  one : w.objinits + ∑ u, (rec u).starting ≤ 1
  engines : w.ioinits = w.objinits + ∑ u, (rec u).engineUp
  winsock : w.so.wsaStartups ≤ w.so.wsaCleanups + w.objinits + ∑ u, (rec u).winsockUp

omit [DecidableEq τ] in
theorem OneStart.initial : OneStart SoWorld.initial fun _ : τ => Stage.away := by
  constructor <;> simp [SoWorld.initial, SoState.start, Stage.counted, Stage.starting,
    Stage.engineUp]

/-- A thread goes from one stage to another. What the others have done is told by `n`, `m`, `i`
and `k`. -/
theorem OneStart.move {w w' : SoWorld} {rec : τ → Stage} {u : τ} {g g' : Stage} (h : OneStart w rec)
    (hg : rec u = g)
    (hw : ∀ n m i k : Nat, n ≤ m → w.so.soStartup = w.objinits + (g.counted + m) →
      w.objinits + (g.starting + n) ≤ 1 → w.ioinits = w.objinits + (g.engineUp + i) →
      w.so.wsaStartups ≤ w.so.wsaCleanups + w.objinits + (g.winsockUp + k) →
      w'.so.soStartup = w'.objinits + (g'.counted + m) ∧ w'.objinits + (g'.starting + n) ≤ 1
        ∧ w'.ioinits = w'.objinits + (g'.engineUp + i)
        ∧ w'.so.wsaStartups ≤ w'.so.wsaCleanups + w'.objinits + (g'.winsockUp + k)) :
    OneStart w' (Function.update rec u g') := by
  subst hg
  have hsplit : ∀ (f : Stage → Nat) (rec : τ → Stage),
      ∑ v, f (rec v) = f (rec u) + ∑ v ∈ Finset.univ.erase u, f (rec v) := fun f rec =>
    (Finset.add_sum_erase _ _ (Finset.mem_univ u)).symm
  have hothers : ∀ f : Stage → Nat, ∑ v ∈ Finset.univ.erase u, f (Function.update rec u g' v)
      = ∑ v ∈ Finset.univ.erase u, f (rec v) := fun f =>
    Finset.sum_congr rfl fun v hv => by rw [Function.update_of_ne (Finset.ne_of_mem_erase hv)]
  obtain ⟨hcount, hone, hengines, hwinsock⟩ := h
  rw [hsplit] at hone hengines hwinsock
  rw [hsplit, Nat.cast_add] at hcount
  obtain ⟨hcount', hone', hengines', hwinsock'⟩ := hw _ _ _ _
    (Finset.sum_le_sum fun v _ => (rec v).starting_le) hcount hone hengines hwinsock
  constructor
  case count => rw [hsplit, hothers, Function.update_self, hcount', Nat.cast_add]
  case one => rwa [hsplit, hothers, Function.update_self]
  case engines => rwa [hsplit, hothers, Function.update_self]
  case winsock => rwa [hsplit, hothers, Function.update_self]

/-- Nothing of it moves. -/
theorem OneStart.stay {w w' : SoWorld} {rec : τ → Stage} {u : τ} {g : Stage}
    (h : OneStart w rec) (hg : rec u = g) (hcount : w'.so.soStartup = w.so.soStartup)
    (hobj : w'.objinits = w.objinits) (hio : w'.ioinits = w.ioinits)
    (hups : w'.so.wsaStartups = w.so.wsaStartups) (hdowns : w'.so.wsaCleanups = w.so.wsaCleanups) :
    OneStart w' (Function.update rec u g) := by
  rw [← hg, Function.update_eq_self]
  constructor
  case count => rw [hcount, hobj, h.count]
  case one => rw [hobj]; exact h.one
  case engines => rw [hio, hobj, h.engines]
  case winsock => rw [hups, hdowns, hobj]; exact h.winsock

/-- **One call keeps the count.** By the stage of the thread that makes it. -/
theorem OneStart.call {w w' : SoWorld} {rec : τ → Stage} {u : τ} {c : SoCall} {a : Int}
    (h : OneStart w rec) (hw : w.answer c a = some w') (hn : (rec u).Need c) :
    OneStart w' (Function.update rec u ((rec u).after c a)) := by
  cases c with
  -- the count goes up with the thread that raises it
  | increment =>
      simp only [SoWorld.answer, Option.ite_none_right_eq_some, Option.some.injEq] at hw
      obtain ⟨ha, rfl⟩ := hw
      have hg : rec u = .away := hn
      refine h.move hg fun n m i k hle hcount hone hengines hwinsock => ?_
      rw [hg]
      by_cases hfirst : a = 1
      · -- the count was 0: nobody is in between, and nothing was started
        simp only [Stage.after, hfirst, if_true, Stage.counted, Stage.starting, Stage.engineUp,
          Stage.winsockUp] at *
        omega
      · simp only [Stage.after, hfirst, if_false, Stage.counted, Stage.starting, Stage.engineUp,
          Stage.winsockUp] at *
        omega
  -- and down with it, after a failed start as after one that was not the first
  | decrement =>
      simp only [SoWorld.answer, Option.ite_none_right_eq_some, Option.some.injEq] at hw
      obtain ⟨ha, rfl⟩ := hw
      rcases hn with hg | hg <;>
        refine h.move hg fun n m i k hle hcount hone hengines hwinsock => ?_ <;>
        simp only [Stage.after, Stage.counted, Stage.starting, Stage.engineUp,
          Stage.winsockUp] at * <;>
        omega
  -- the one thread that starts goes from stage to stage, or turns back
  | wsaStartup =>
      cases hw
      have hg : rec u = .first := hn
      refine h.move hg fun n m i k hle hcount hone hengines hwinsock => ?_
      rw [hg]
      by_cases hfailed : a < 0 <;>
        simp only [Stage.after, hfailed, if_true, if_false, Stage.counted, Stage.starting,
          Stage.engineUp, Stage.winsockUp] at * <;>
        omega
  | ioinit =>
      cases hw
      have hg : rec u = .winsock := hn
      refine h.move hg fun n m i k hle hcount hone hengines hwinsock => ?_
      rw [hg]
      by_cases hfailed : a < 0 <;>
        simp only [Stage.after, hfailed, if_true, if_false, Stage.counted, Stage.starting,
          Stage.engineUp, Stage.winsockUp] at * <;>
        omega
  | wsaCleanup =>
      cases hw
      rcases hn with hg | hg <;>
        refine h.move hg fun n m i k hle hcount hone hengines hwinsock => ?_ <;>
        simp only [hg, Stage.after, reduceCtorEq, if_true, if_false, Stage.counted, Stage.starting,
          Stage.engineUp, Stage.winsockUp] at * <;>
        omega
  -- the start is done: its count is passed on from the thread to the library
  | objinit =>
      cases hw
      have hg : rec u = .engine := hn
      refine h.move hg fun n m i k hle hcount hone hengines hwinsock => ?_
      simp only [Stage.after, Stage.counted, Stage.starting, Stage.engineUp, Stage.winsockUp] at *
      omega
  -- the flags of the protocols have no part in it
  | isInitialized t =>
      simp only [SoWorld.answer, Option.ite_none_right_eq_some, Option.some.injEq] at hw
      obtain ⟨-, rfl⟩ := hw
      exact h.stay rfl rfl rfl rfl rfl rfl
  | _ =>
      cases hw
      exact h.stay rfl rfl rfl rfl rfl rfl

/-- In every run. -/
theorem reached_oneStart {s : SoThreads τ} (hr : SoReaches s) :
    OneStart s.world (s.records stages) ∧ s.Meets stages := by
  have hkept : Kept stages startup anyCalls (State.rest SoWorld.initial) (OneStart (τ := τ)) := by
    constructor
    case env =>
      intro s e
      exact e.elim
    case start =>
      intro s u j w hs h hu hw hG
      cases hw
      exact ⟨job_staged j, h.stay (State.records_idle hu) rfl rfl rfl rfl rfl⟩
    case call =>
      intro s u j t c k a w hs h hu hw hG hn
      exact ⟨trivial, h.call hw hn⟩
    case finish =>
      intro s u j t r hs h hu hp
      exact h.stay hp rfl rfl rfl rfl rfl
  exact hr.kept hkept .initial (State.meets_rest _)

/-- The calls that start the library. -/
def SoCall.Starts : SoCall → Prop
  | .wsaStartup | .ioinit | .objinit => True
  | _ => False

/-- A call that starts something is made by a thread that is starting. -/
theorem starting_of_starts {g : Stage} {c : SoCall} (hn : g.Need c) (hc : c.Starts) :
    g.starting = 1 := by
  cases c with
  | wsaStartup | ioinit | objinit =>
      obtain rfl : g = _ := hn
      rfl
  | _ => exact hc.elim

/-- **The library is started once.** However many threads call `so_init` and `so_uninit`, and
however they take turns: the IO threads and the object table are made once at most, Winsock is
never started more than once beyond what was cleaned up, the count is the threads on their way
through `so_init` and one more once the start is done, and a thread that starts the library is the
only one and the first. The answers may be any numbers. `WSAStartup` fails with a positive one,
which the test of the code for one below 0 never finds: such a start counts as done here. -/
theorem start_once {s : SoThreads τ} (hr : SoReaches s) :
    s.world.objinits ≤ 1 ∧ s.world.ioinits ≤ 1
      ∧ s.world.so.wsaStartups ≤ s.world.so.wsaCleanups + 1
      ∧ s.world.so.soStartup = s.world.objinits + ∑ u, (s.records stages u).counted
      ∧ ∀ u j t c k, s.thread u = .running j t (.call c k) → c.Starts → s.world.objinits = 0
        ∧ ∀ v j' t' c' k', s.thread v = .running j' t' (.call c' k') → c'.Starts → v = u := by
  obtain ⟨⟨hcount, hone, hengines, hwinsock⟩, hmeets⟩ := reached_oneStart hr
  have hengine : ∑ u, (s.records stages u).engineUp ≤ ∑ u, (s.records stages u).starting :=
    Finset.sum_le_sum fun u _ => Stage.engineUp_le _
  have hwin : ∑ u, (s.records stages u).winsockUp ≤ ∑ u, (s.records stages u).starting :=
    Finset.sum_le_sum fun u _ => Stage.winsockUp_le _
  have hstarts : ∀ {u j t c k}, s.thread u = .running j t (.call c k) → c.Starts →
      (s.records stages u).starting = 1 := fun hu hc => starting_of_starts (hmeets _ _ _ _ hu).1 hc
  have hfirst : ∑ u, (s.records stages u).starting ≤ 1 := by omega
  refine ⟨by omega, by omega, by omega, hcount, fun u j t c k hu hc => ⟨?_, ?_⟩⟩
  -- a thread that starts is the one start there may be
  · have hle := Finset.single_le_sum (f := fun v => (s.records stages v).starting)
      (fun _ _ => Nat.zero_le _) (Finset.mem_univ u)
    rw [hstarts hu hc] at hle
    omega
  -- and two of them would be two
  · intro v j' t' c' k' hv hc'
    refine (Finset.sum_le_one_iff.mp hfirst v u (Finset.mem_univ v) (Finset.mem_univ u) ?_ ?_).1
    · rw [hstarts hv hc']
      decide
    · rw [hstarts hu hc]
      decide

/-- What a thread is about to return. -/
def returned (s : SoThreads τ) (u : τ) : Option (SoJob × Int) :=
  match s.thread u with
  | .running j _ (.done r) => some (j, r)
  | _ => none

instance (w : SoWorld) (j : SoJob) : Decidable (anyCalls.start w j) := instDecidableTrue

instance (w : SoWorld) (j : SoJob) (t : Trace SoCall Int) (c : SoCall) (a : Int) :
    Decidable (anyCalls.call w j t c a) := instDecidableTrue

/-- A call that came second returns 0, and then the start it has seen fails: `ioinit` cannot make
the IO threads, and Winsock is cleaned up again. -/
theorem start_once_failed : ∃ s : SoThreads Bool, SoReaches s
    ∧ returned s false = some (.init .udp, 0) ∧ returned s true = some (.init .tcp, -1)
    ∧ s.world.so.wsaStartups = s.world.so.wsaCleanups ∧ s.world.objinits ≤ 1
    ∧ s.world.so.soStartup = s.world.objinits + ∑ u, (s.records stages u).counted := by
  obtain ⟨s, hs, hpassed, hfailed, hnone⟩ : ∃ s : SoThreads Bool, SoReaches s ∧ _ :=
    Jobs.exists_of_play
    (P := fun s => returned s false = some (.init .udp, 0) ∧ returned s true = some (.init .tcp, -1)
      ∧ s.world.so.wsaStartups = s.world.so.wsaCleanups)
    ([.start true (.init .tcp), .call true 1, .call true 0, .start false (.init .udp)]
      ++ Move.calls false [2, 1, 0, 0] ++ Move.calls true [-1, 0, 0]) (by decide +kernel)
  have honce := start_once hs
  exact ⟨s, hs, hpassed, hfailed, hnone, honce.1, honce.2.2.2.1⟩

end

end Swnet.Starting
