import Mathlib.Tactic

/-!
# Framing — the stream decoder of a length-prefixed format

A `Format` cuts a symbol stream into frames: a header of fixed positive length, from which
the length of the body that follows is computed, or which is refused. `decode` is the
reference decoder: the frames that are complete in a stream, in order, and what is left,
which is either the undecoded tail or the verdict that a header was refused.

* `decode_append` is what makes the decoder incremental: decoding a longer stream is
  decoding the tail of the shorter one, extended. Every receiver that keeps the tail and
  decodes what arrives refines `decode` by it, however the stream is cut.
* `decode_encode` is the round trip: the frames a sender writes are the frames decoded.
-/

namespace Framing

/-- A framing with headers of `headerLen` symbols; `bodyLen` gives the length of the body
a header announces, `none` when it refuses the header. -/
structure Format (α : Type) where
  headerLen : Nat
  headerLen_pos : 0 < headerLen
  bodyLen : List α → Option Nat

/-- One frame of a stream. -/
structure Frame (α : Type) where
  header : List α
  body : List α
  deriving DecidableEq, Repr

/-- The symbols a frame takes in the stream. -/
def Frame.symbols {α : Type} (f : Frame α) : List α := f.header ++ f.body

/-- What the front of a stream amounts to. -/
inductive Front (α : Type) where
  | wait
  | refused
  | frame (f : Frame α) (rest : List α)

variable {α : Type}

namespace Format

variable (F : Format α)

/-- Look for one frame at the front of `s`. -/
def front (s : List α) : Front α :=
  if s.length < F.headerLen then .wait
  else match F.bodyLen (s.take F.headerLen) with
    | none => .refused
    | some n =>
      if s.length < F.headerLen + n then .wait
      else .frame ⟨s.take F.headerLen, (s.drop F.headerLen).take n⟩ (s.drop (F.headerLen + n))

/-- A frame found at the front leaves a shorter stream behind it. -/
theorem length_lt_of_front_frame {s rest : List α} {f : Frame α}
    (h : F.front s = .frame f rest) : rest.length < s.length := by
  have hpos := F.headerLen_pos
  unfold front at h
  split at h
  · cases h
  · split at h
    · cases h
    · split at h
      · cases h
      · cases h
        rw [List.length_drop]
        omega

/-- What is left behind a frame is a part of the stream. -/
theorem rest_of_front_frame {s rest : List α} {f : Frame α} (h : F.front s = .frame f rest) :
    ∃ k, s.length = k + rest.length ∧ s.drop k = rest := by
  unfold front at h
  split at h
  · cases h
  · split at h
    · cases h
    · rename_i n _
      split at h
      · cases h
      · cases h
        refine ⟨F.headerLen + n, ?_, rfl⟩
        rw [List.length_drop]
        omega

/-- The reference decoder: the complete frames of `s`, and the tail that holds no complete
frame, `none` when a header was refused. -/
def decode (s : List α) : List (Frame α) × Option (List α) :=
  match h : F.front s with
  | .wait => ([], some s)
  | .refused => ([], none)
  | .frame f rest =>
    have := F.length_lt_of_front_frame h
    (f :: (decode rest).1, (decode rest).2)
  termination_by s.length

theorem decode_of_wait {s : List α} (h : F.front s = .wait) : F.decode s = ([], some s) := by
  rw [decode]
  split <;> simp_all

theorem decode_of_refused {s : List α} (h : F.front s = .refused) : F.decode s = ([], none) := by
  rw [decode]
  split <;> simp_all

theorem decode_of_frame {s rest : List α} {f : Frame α} (h : F.front s = .frame f rest) :
    F.decode s = (f :: (F.decode rest).1, (F.decode rest).2) := by
  rw [decode]
  split <;> simp_all

/-! ## The front of a stream, by what is there -/

theorem front_of_short {s : List α} (h : s.length < F.headerLen) : F.front s = .wait := by
  simp [front, h]

theorem front_of_refused {s : List α} (h : F.headerLen ≤ s.length)
    (hb : F.bodyLen (s.take F.headerLen) = none) : F.front s = .refused := by
  simp [front, Nat.not_lt.mpr h, hb]

theorem front_of_partial {s : List α} {n : Nat} (h : F.headerLen ≤ s.length)
    (hb : F.bodyLen (s.take F.headerLen) = some n) (hs : s.length < F.headerLen + n) :
    F.front s = .wait := by
  simp [front, Nat.not_lt.mpr h, hb, hs]

theorem front_of_complete {s : List α} {n : Nat} (hb : F.bodyLen (s.take F.headerLen) = some n)
    (hs : F.headerLen + n ≤ s.length) :
    F.front s
      = .frame ⟨s.take F.headerLen, (s.drop F.headerLen).take n⟩ (s.drop (F.headerLen + n)) := by
  simp [front, hb, show ¬ s.length < F.headerLen by omega, Nat.not_lt.mpr hs]

theorem front_cases (s : List α) :
    s.length < F.headerLen
      ∨ (F.headerLen ≤ s.length ∧ F.bodyLen (s.take F.headerLen) = none)
      ∨ ∃ n, F.headerLen ≤ s.length ∧ F.bodyLen (s.take F.headerLen) = some n := by
  rcases Nat.lt_or_ge s.length F.headerLen with h | h
  · exact Or.inl h
  · cases hb : F.bodyLen (s.take F.headerLen) with
    | none => exact Or.inr (Or.inl ⟨h, rfl⟩)
    | some n => exact Or.inr (Or.inr ⟨n, h, rfl⟩)

/-- A frame that is complete stays the front of every longer stream. -/
theorem front_append_of_frame {s rest : List α} {f : Frame α} (t : List α)
    (h : F.front s = .frame f rest) : F.front (s ++ t) = .frame f (rest ++ t) := by
  unfold front at h
  split at h
  · cases h
  · rename_i hlen
    split at h
    · cases h
    · rename_i n hb
      split at h
      · cases h
      · rename_i hn
        cases h
        have htake : (s ++ t).take F.headerLen = s.take F.headerLen :=
          List.take_append_of_le_length (by omega)
        have hlen' : F.headerLen + n ≤ (s ++ t).length := by
          simp only [List.length_append]
          omega
        rw [F.front_of_complete (htake ▸ hb) hlen']
        rw [htake, List.drop_append_of_le_length (by omega),
          List.drop_append_of_le_length (by omega),
          List.take_append_of_le_length (by rw [List.length_drop]; omega)]

/-- A refused header stays refused in every longer stream. -/
theorem front_append_of_refused {s : List α} (t : List α) (h : F.front s = .refused) :
    F.front (s ++ t) = .refused := by
  unfold front at h
  split at h
  · cases h
  · rename_i hlen
    split at h
    · rename_i hb
      apply front_of_refused _ (by simp only [List.length_append]; omega)
      rw [List.take_append_of_le_length (by omega)]
      exact hb
    · split at h <;> cases h

/-! ## The decoder is incremental -/

/-- What arrives behind a refused header does not matter. -/
theorem decode_append_of_refused {s : List α} (t : List α) (h : (F.decode s).2 = none) :
    F.decode (s ++ t) = F.decode s := by
  induction s using decode.induct F with
  | case1 s hf => rw [F.decode_of_wait hf] at h; cases h
  | case2 s hf =>
    rw [F.decode_of_refused hf, F.decode_of_refused (F.front_append_of_refused t hf)]
  | case3 s f rest hf _ ih =>
    rw [F.decode_of_frame hf] at h
    rw [F.decode_of_frame hf, F.decode_of_frame (F.front_append_of_frame t hf), ih h]

/-- **Decoding is incremental.** When `s` leaves the tail `r`, the stream `s ++ t` gives the
frames of `s` and then what `r ++ t` gives. -/
theorem decode_append {s r : List α} (t : List α) (h : (F.decode s).2 = some r) :
    F.decode (s ++ t)
      = ((F.decode s).1 ++ (F.decode (r ++ t)).1, (F.decode (r ++ t)).2) := by
  induction s using decode.induct F with
  | case1 s hf =>
    rw [F.decode_of_wait hf] at h ⊢
    cases h
    simp
  | case2 s hf => rw [F.decode_of_refused hf] at h; cases h
  | case3 s f rest hf _ ih =>
    rw [F.decode_of_frame hf] at h
    rw [F.decode_of_frame hf, F.decode_of_frame (F.front_append_of_frame t hf), ih h]
    simp

/-- What is left undecoded holds no frame. -/
theorem front_of_decode_tail {s r : List α} (h : (F.decode s).2 = some r) :
    F.front r = .wait := by
  induction s using decode.induct F with
  | case1 s hf => rw [F.decode_of_wait hf] at h; cases h; exact hf
  | case2 s hf => rw [F.decode_of_refused hf] at h; cases h
  | case3 s f rest hf _ ih => rw [F.decode_of_frame hf] at h; exact ih h

/-- What is left over is no longer than the stream. -/
theorem length_decode_tail_le {s r : List α} (h : (F.decode s).2 = some r) :
    r.length ≤ s.length := by
  induction s using decode.induct F with
  | case1 s hf => rw [F.decode_of_wait hf] at h; cases h; exact Nat.le_refl _
  | case2 s hf => rw [F.decode_of_refused hf] at h; cases h
  | case3 s f rest hf hlt ih =>
    rw [F.decode_of_frame hf] at h
    exact Nat.le_trans (ih h) (Nat.le_of_lt hlt)

/-- The tail is the end of the stream. -/
theorem drop_decode_tail {s r : List α} (h : (F.decode s).2 = some r) :
    s.drop (s.length - r.length) = r := by
  induction s using decode.induct F with
  | case1 s hf => rw [F.decode_of_wait hf] at h; cases h; simp
  | case2 s hf => rw [F.decode_of_refused hf] at h; cases h
  | case3 s f rest hf hlt ih =>
    rw [F.decode_of_frame hf] at h
    have hle := F.length_decode_tail_le h
    obtain ⟨k, hk, hrest⟩ := F.rest_of_front_frame hf
    rw [show s.length - r.length = k + (rest.length - r.length) by omega, ← List.drop_drop, hrest]
    exact ih h

@[simp] theorem decode_nil : F.decode [] = ([], some []) :=
  F.decode_of_wait (F.front_of_short F.headerLen_pos)

/-! ## Round trip -/

/-- A frame the format can carry: its header has the header's length and announces exactly
its body. -/
structure Carries (f : Frame α) : Prop where
  header : f.header.length = F.headerLen
  body : F.bodyLen f.header = some f.body.length

/-- A frame that is carried is found at the front of whatever follows it. -/
theorem front_symbols_append {f : Frame α} (hf : F.Carries f) (t : List α) :
    F.front (f.symbols ++ t) = .frame f t := by
  have htake : (f.symbols ++ t).take F.headerLen = f.header := by
    rw [Frame.symbols, List.append_assoc, List.take_left' hf.header]
  have hlen : F.headerLen + f.body.length ≤ (f.symbols ++ t).length := by
    simp only [Frame.symbols, List.length_append, hf.header]
    omega
  have hdrop : (f.symbols ++ t).drop F.headerLen = f.body ++ t := by
    rw [Frame.symbols, List.append_assoc, List.drop_left' hf.header]
  rw [F.front_of_complete (htake ▸ hf.body) hlen, htake, ← List.drop_drop, hdrop,
    List.take_left, List.drop_left]

/-- **Round trip.** Frames written one behind the other are decoded to these frames, and
what follows them is decoded on its own. -/
theorem decode_encode {fs : List (Frame α)} (hfs : ∀ f ∈ fs, F.Carries f) (t : List α) :
    F.decode (fs.flatMap Frame.symbols ++ t) = (fs ++ (F.decode t).1, (F.decode t).2) := by
  induction fs with
  | nil => simp
  | cons f fs ih =>
    have hf := hfs f (List.mem_cons_self ..)
    rw [List.flatMap_cons, List.append_assoc,
      F.decode_of_frame (F.front_symbols_append hf _),
      ih fun g hg => hfs g (List.mem_cons_of_mem _ hg)]
    simp

/-- A frame that has not arrived whole is waited for. -/
theorem front_take_symbols {f : Frame α} (hf : F.Carries f) {n : Nat} (hn : n < f.symbols.length) :
    F.front (f.symbols.take n) = .wait := by
  have hlen : (f.symbols.take n).length = n := List.length_take_of_le (by omega)
  rw [Frame.symbols, List.length_append, hf.header] at hn
  rcases Nat.lt_or_ge n F.headerLen with hshort | hhead
  · exact F.front_of_short (by omega)
  · have htake : (f.symbols.take n).take F.headerLen = f.header := by
      rw [List.take_take, Nat.min_eq_left hhead, Frame.symbols, List.take_left' hf.header]
    exact F.front_of_partial (by omega) (htake ▸ hf.body) (by omega)

/-- Frames, and the beginning of one more. -/
theorem decode_encode_take {fs : List (Frame α)} (hfs : ∀ f ∈ fs, F.Carries f) {f : Frame α}
    (hf : F.Carries f) {n : Nat} (hn : n < f.symbols.length) :
    F.decode (fs.flatMap Frame.symbols ++ f.symbols.take n) = (fs, some (f.symbols.take n)) := by
  rw [F.decode_encode hfs, F.decode_of_wait (F.front_take_symbols hf hn), List.append_nil]

end Format

end Framing
