import Mathlib.Tactic

/-!
# Places — tokens that are in one place at a time

Every place holds a list of tokens. Tokens are made, go from one place to another, and get
lost; none is ever in two places, or twice in one.

* `Apart` — every token is in one place at most, and there once;
* `Apart.nodup`, `Apart.disjoint` — what it says of the lists;
* `Shift` — what a step does with the tokens; `Apart.shift` — it keeps them apart.
-/

namespace Places

variable {Place Token : Type} [DecidableEq Token] {f f' : Place → List Token} {t : Token}

/-- Token `t` is in one place at most, and there once. -/
structure Single (f : Place → List Token) (t : Token) : Prop where
  once : ∀ x, (f x).count t ≤ 1
  one : ∀ x y, t ∈ f x → t ∈ f y → x = y

/-- So is every token. -/
def Apart (f : Place → List Token) : Prop := ∀ t, Single f t

theorem Apart.nodup (h : Apart f) (x : Place) : (f x).Nodup :=
  List.nodup_iff_count_le_one.mpr fun t => (h t).once x

theorem Apart.disjoint (h : Apart f) {x y : Place} (hne : x ≠ y) (hx : t ∈ f x) : t ∉ f y :=
  fun hy => hne ((h t).one x y hx hy)

/-- The token stays where it is, or gets lost. -/
theorem Single.fewer (h : Single f t) (hle : ∀ x, (f' x).count t ≤ (f x).count t) :
    Single f' t := by
  have hmem : ∀ x, t ∈ f' x → t ∈ f x := fun x hx =>
    List.count_pos_iff.mp ((List.count_pos_iff.mpr hx).trans_le (hle x))
  exact ⟨fun x => (hle x).trans (h.once x), fun x y hx hy => h.one x y (hmem x hx) (hmem y hy)⟩

/-- The token is in place `y` only. -/
theorem Single.only (y : Place) (hy : (f' y).count t ≤ 1) (hothers : ∀ z, z ≠ y → t ∉ f' z) :
    Single f' t := by
  have hmem : ∀ z, t ∈ f' z → z = y := fun z hz => by
    by_contra hne
    exact hothers z hne hz
  refine ⟨fun z => ?_, fun x z hx hz => (hmem x hx).trans (hmem z hz).symm⟩
  by_cases hz : z = y
  · rw [hz]
    exact hy
  · rw [List.count_eq_zero.mpr (hothers z hz)]
    exact Nat.zero_le 1

/-! ## Steps -/

/-- What a step does with the tokens: some get lost, or some go from one place to another, or a
token is made. `made` are the tokens it makes. -/
inductive Shift (f f' : Place → List Token) : (made : List Token) → Prop where
  | lost (h : ∀ x, (f' x).Sublist (f x)) : Shift f f' []
  | moved {x y : Place} (ks : List Token) (hne : x ≠ y) (hx : (f' x ++ ks).Perm (f x))
      (hy : (f' y).Perm (ks ++ f y)) (hothers : ∀ z, z ≠ x → z ≠ y → f' z = f z) : Shift f f' []
  | made {y : Place} (k : Token) (hy : f' y = k :: f y) (hothers : ∀ z, z ≠ y → f' z = f z) :
      Shift f f' [k]

variable {made : List Token}

omit [DecidableEq Token] in
theorem Shift.same (h : f' = f) : Shift f f' [] := .lost fun x => by rw [h]

/-- A token that is moved is where it goes, and nowhere else. -/
theorem Single.moves (h : Single f t) {x y : Place} {ks : List Token} (hne : x ≠ y)
    (hx : (f' x ++ ks).Perm (f x)) (hy : (f' y).Perm (ks ++ f y))
    (hothers : ∀ z, z ≠ x → z ≠ y → f' z = f z) (ht : t ∈ ks) : Single f' t := by
  have hleft := hx.count_eq t
  have hright := hy.count_eq t
  rw [List.count_append] at hleft hright
  have honce := h.once x
  have hsome := List.count_pos_iff.mpr ht
  have hfrom : t ∈ f x := List.count_pos_iff.mp (by omega)
  have hnone : ∀ z, z ≠ x → t ∉ f z := fun z hz hmem => hz (h.one z x hmem hfrom)
  refine .only y ?_ fun z hz => ?_
  · have hzero := List.count_eq_zero.mpr (hnone y hne.symm)
    omega
  · by_cases hzx : z = x
    · rw [hzx, ← List.count_eq_zero]
      omega
    · rw [hothers z hzx hz]
      exact hnone z hzx

/-- **One place at a time.** A token that is made was nowhere. -/
theorem Apart.shift (h : Apart f) (hs : Shift f f' made) (hmade : ∀ k ∈ made, ∀ x, k ∉ f x) :
    Apart f' := by
  intro t
  cases hs with
  -- lost tokens are in fewer places than before
  | lost hle => exact (h t).fewer fun x => (hle x).count_le t
  -- a token that moved is at the new place alone, any other where it was
  | @moved x y ks hne hx hy hothers =>
    by_cases ht : t ∈ ks
    · exact (h t).moves hne hx hy hothers ht
    · have hzero := List.count_eq_zero.mpr ht
      refine (h t).fewer fun z => ?_
      by_cases hzx : z = x
      · have hcount := hx.count_eq t
        rw [List.count_append] at hcount
        rw [hzx]
        omega
      · by_cases hzy : z = y
        · have hcount := hy.count_eq t
          rw [List.count_append] at hcount
          rw [hzy]
          omega
        · rw [hothers z hzx hzy]
  -- a new token is at its place alone, as it was nowhere
  | @made y k hy hothers =>
    have hnone := hmade k (List.mem_singleton_self k)
    by_cases ht : t = k
    · subst ht
      refine .only y ?_ fun z hz => ?_
      · rw [hy, List.count_cons_self, List.count_eq_zero.mpr (hnone y)]
      · rw [hothers z hz]
        exact hnone z
    · refine (h t).fewer fun z => ?_
      by_cases hz : z = y
      · rw [hz, hy, List.count_cons_of_ne (Ne.symm ht)]
      · rw [hothers z hz]

omit [DecidableEq Token] in
/-- What is anywhere was somewhere before, or was made. -/
theorem Shift.mem (hs : Shift f f' made) {x : Place} (ht : t ∈ f' x) :
    t ∈ made ∨ ∃ y, t ∈ f y := by
  cases hs with
  | lost hle => exact .inr ⟨x, (hle x).subset ht⟩
  | @moved y z ks hne hy hz hothers =>
    by_cases hxy : x = y
    · subst hxy
      exact .inr ⟨x, hy.mem_iff.mp (List.mem_append_left ks ht)⟩
    · by_cases hxz : x = z
      · subst hxz
        rcases List.mem_append.mp (hz.mem_iff.mp ht) with hks | hf
        · exact .inr ⟨y, hy.mem_iff.mp (List.mem_append_right (f' y) hks)⟩
        · exact .inr ⟨x, hf⟩
      · rw [hothers x hxy hxz] at ht
        exact .inr ⟨x, ht⟩
  | @made y k hy hothers =>
    by_cases hxy : x = y
    · subst hxy
      rw [hy] at ht
      exact (List.mem_cons.mp ht).imp List.mem_singleton.mpr fun hf => ⟨x, hf⟩
    · rw [hothers x hxy] at ht
      exact .inr ⟨x, ht⟩

end Places
