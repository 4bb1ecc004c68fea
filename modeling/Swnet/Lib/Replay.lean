import Swnet.Lib.Jobs

/-!
# Replay — a job done from a list of answers

What a program does when its calls are answered by a list, first answer first, and what that does
to the world. `reaches_of_runs` puts the two together: a thread that has nothing to do can do the
whole job, and the system is where the list leads.
-/

namespace Jobs

variable {Op Ans Res α β : Type}

namespace Prog

/-- Answered so, the program makes these calls and returns `r`. -/
def Runs : Prog Op Ans α → List (Op × Ans) → α → Prop
  | done r', [], r => r' = r
  | done _, _ :: _, _ => False
  | call _ _, [], _ => False
  | call o k, (o', a) :: calls, r => o = o' ∧ (k a).Runs calls r

/-- One part after the other. -/
theorem Runs.bind {p : Prog Op Ans α} {f : α → Prog Op Ans β} {calls calls' : List (Op × Ans)}
    {r : α} {r' : β} (hp : p.Runs calls r) (hf : (f r).Runs calls' r') :
    (p >>= f).Runs (calls ++ calls') r' := by
  induction p generalizing calls with
  | done r₀ =>
      cases calls with
      | nil =>
          cases hp
          exact hf
      | cons c calls => exact hp.elim
  | call o k ih =>
      cases calls with
      | nil => exact hp.elim
      | cons c calls => exact ⟨hp.1, ih c.2 hp.2⟩

end Prog

/-! ## In the system -/

variable {τ World Job Env : Type} [DecidableEq τ] {S : System World Job Op Ans Res Env}

/-- What calls do that are answered so, one after the other; `none` when one of them cannot be. -/
def System.answers (S : System World Job Op Ans Res Env) (w : World) :
    List (Op × Ans) → Option World
  | [] => some w
  | (o, a) :: calls => (S.answer w o a).bind fun w => S.answers w calls

@[simp] theorem answers_nil {w : World} : S.answers w [] = some w := rfl

@[simp] theorem answers_cons {w : World} {o : Op} {a : Ans} {calls : List (Op × Ans)} :
    S.answers w ((o, a) :: calls) = (S.answer w o a).bind fun w => S.answers w calls := rfl

theorem answers_append {w w' : World} {calls calls' : List (Op × Ans)}
    (h : S.answers w calls = some w') : S.answers w (calls ++ calls') = S.answers w' calls' := by
  induction calls generalizing w with
  | nil =>
      cases h
      rfl
  | cons c calls ih =>
      obtain ⟨w₁, hc, hrest⟩ := Option.bind_eq_some_iff.mp h
      rw [List.cons_append, answers_cons, hc, Option.bind_some, ih hrest]

section

variable {G : Guard World Job Op Ans} {s₀ : State τ World Job Op Ans Res} {w' : World} {u : τ}
  {j : Job}
  {calls : List (Op × Ans)} {r : Res}

/-- A thread makes the calls it has left. -/
theorem reaches_of_rest (hG : ∀ w t o a, G.call w j t o a) {p : Prog Op Ans Res}
    (hp : p.Runs calls r) {w : World} {t : Trace Op Ans} {thread : τ → Thread Job Op Ans Res}
    (hs : Reaches S G s₀ ⟨w, Function.update thread u (.running j t p)⟩)
    (hw : S.answers w calls = some w') :
    Reaches S G s₀ ⟨w', Function.update thread u (.running j (calls.reverse ++ t) (.done r))⟩ := by
  induction p generalizing w t calls with
  | done r₀ =>
      cases calls with
      | nil =>
          cases hp
          cases hw
          exact hs
      | cons c calls => exact hp.elim
  | call o k ih =>
      cases calls with
      | nil => exact hp.elim
      | cons c calls =>
          obtain ⟨o', a⟩ := c
          obtain ⟨rfl, hk⟩ := hp
          obtain ⟨w₁, hc, hrest⟩ := Option.bind_eq_some_iff.mp hw
          have hstep :=
            hs.step (.call u j t o k a (Function.update_self u _ thread) hc (hG w t o a))
          rw [Function.update_idem] at hstep
          have hreach := ih a hk hstep hrest
          rw [List.reverse_cons, List.append_assoc]
          exact hreach

/-- **A job done at once.** -/
theorem reaches_of_runs {s : State τ World Job Op Ans Res} {w : World} (hs : Reaches S G s₀ s)
    (hu : s.thread u = .idle) (hstart : S.start s.world j = some w) (hGs : G.start s.world j)
    (hGc : ∀ w t o a, G.call w j t o a) (hp : (S.prog j).Runs calls r)
    (hw : S.answers w calls = some w') :
    Reaches S G s₀ { s with world := S.finish w' j r } := by
  have hdone := reaches_of_rest hGc hp (hs.step (.start u j hu hstart hGs)) hw
  have hfinish := hdone.step (.finish u j _ r (Function.update_self u _ s.thread))
  rw [Function.update_idem, ← hu, Function.update_eq_self] at hfinish
  exact hfinish

end

end Jobs
