import Mathlib.Tactic

/-!
# CMem — bounded memory blocks with checked accesses

The memory a C program works on, at the level its copies need: a `Block` is a run of
cells with a fixed size, addressed by offset. Every access is checked, so that a program
written over this interface either runs or stops with the `Fault` that says which rule of
the language it broke.

* `Block.read`, `Block.write` are the total operations on cells, with the laws a proof
  about a buffer needs (`read_write_self`, `read_write_before`, `read_append`);
* `Block.load`, `Block.store` check their bounds, and `Block.copy` is `memcpy` or
  `memmove`: a load followed by a store. Their `_eq_ok` lemmas say when they succeed and
  what they yield;
* a `Heap` gives each address a lifetime: what is freed twice, or used outside its
  lifetime, is a fault. `LifetimeSafe` is the judgement that a computation breaks neither
  rule, and `Heap.Owns` the account of a heap with one object alive, or none.

Offsets and counts are `Int`, as a C caller computes them: a negative count is a fault,
never an empty copy.
-/

namespace CMem

/-- The ways a run leaves the defined behaviour of the language. -/
inductive Fault where
  | outOfBounds
  | nullPointer
  | assertion
  | diverged
  | doubleFree
  | useAfterFree
  deriving DecidableEq, Repr

/-- A computation that may stop with a fault. -/
abbrev Exec (α : Type) := Except Fault α

/-- What succeeds hands on its value. -/
@[simp] theorem ok_bind {α β : Type} (a : α) (f : α → Exec β) :
    (Except.ok a >>= f) = f a := rfl

@[simp] theorem error_bind {α β : Type} (e : Fault) (f : α → Exec β) :
    ((Except.error e : Exec α) >>= f) = Except.error e := rfl

@[simp] theorem pure_eq_ok {α : Type} (a : α) : (pure a : Exec α) = Except.ok a := rfl

@[simp] theorem throw_eq_error {α : Type} (e : Fault) :
    (throw e : Exec α) = Except.error e := rfl

/-- `assert(cond)`: a fault when the condition fails, unless assertions are compiled out. -/
def assert (ndebug : Bool) (cond : Prop) [Decidable cond] : Exec Unit :=
  if ndebug ∨ cond then .ok () else .error .assertion

/-- An assertion that holds passes, with or without `NDEBUG`. -/
@[simp] theorem assert_eq_ok {ndebug : Bool} {cond : Prop} [Decidable cond] (h : cond) :
    assert ndebug cond = .ok () := by
  simp [assert, h]

/-- Dereferencing a pointer that may be `NULL`. -/
def deref {α : Type} : Option α → Exec α
  | some a => .ok a
  | none => .error .nullPointer

/-- A pointer that is not `NULL` can be followed. -/
@[simp] theorem deref_some {α : Type} (a : α) : deref (some a) = .ok a := rfl

/-- A run of `size` cells. Only the cells below `size` can be loaded or stored. -/
structure Block (α : Type) where
  size : Nat
  cell : Nat → α

namespace Block

variable {α : Type}

/-- The `n` cells from `off` on. -/
def read (b : Block α) (off n : Nat) : List α :=
  (List.range n).map fun i => b.cell (off + i)

/-- The block with `data` put at `off`. -/
def write (b : Block α) (off : Nat) (data : List α) : Block α where
  size := b.size
  cell i := if i < off then b.cell i else (data[i - off]?).getD (b.cell i)

/-! ## Laws of `read` and `write` -/

/-- As many bytes are read as were asked for. -/
@[simp] theorem length_read (b : Block α) (off n : Nat) : (b.read off n).length = n := by
  simp [read]

@[simp] theorem size_write (b : Block α) (off : Nat) (data : List α) :
    (b.write off data).size = b.size := rfl

theorem getElem_read (b : Block α) (off n i : Nat) (h : i < (b.read off n).length) :
    (b.read off n)[i] = b.cell (off + i) := by
  simp [read]

/-- A read of `m + n` cells is the read of the first `m` and the read of the next `n`. -/
theorem read_append (b : Block α) (off m n : Nat) :
    b.read off (m + n) = b.read off m ++ b.read (off + m) n := by
  simp only [read, List.range_add, List.map_append, List.map_map, List.append_cancel_left_eq]
  apply List.map_congr_left
  intro i _
  simp [Nat.add_assoc]

theorem take_read (b : Block α) (off n k : Nat) (h : k ≤ n) :
    (b.read off n).take k = b.read off k := by
  obtain ⟨m, rfl⟩ := Nat.exists_eq_add_of_le h
  rw [read_append, List.take_left' (by simp)]

theorem drop_read (b : Block α) (off n k : Nat) (h : k ≤ n) :
    (b.read off n).drop k = b.read (off + k) (n - k) := by
  obtain ⟨m, rfl⟩ := Nat.exists_eq_add_of_le h
  rw [read_append, List.drop_left' (by simp), Nat.add_sub_cancel_left]

/-- Two reads agree when the cells they cover do. -/
theorem read_congr {b b' : Block α} {off off' n : Nat}
    (h : ∀ i, i < n → b.cell (off + i) = b'.cell (off' + i)) :
    b.read off n = b'.read off' n := by
  apply List.map_congr_left
  intro i hi
  exact h i (List.mem_range.mp hi)

/-- What was written is what is read back. -/
@[simp] theorem read_write_self (b : Block α) (off : Nat) (data : List α) :
    (b.write off data).read off data.length = data := by
  apply List.ext_getElem (by simp)
  intro i h₁ h₂
  rw [getElem_read]
  simp [write, List.getElem?_eq_getElem h₂]

/-- What was written is read again, where the length is known in another form. -/
theorem read_write_self' (b : Block α) (off n : Nat) (data : List α) (h : data.length = n) :
    (b.write off data).read off n = data := by
  subst h
  exact read_write_self b off data

/-- Cells before the write are untouched. -/
theorem read_write_before (b : Block α) (off k n : Nat) (data : List α) (h : k + n ≤ off) :
    (b.write off data).read k n = b.read k n := by
  apply read_congr
  intro i hi
  simp [write, show k + i < off by omega]

/-- Writing right behind a prefix extends what the prefix reads. -/
theorem read_write_extend (b : Block α) (off : Nat) (data : List α) :
    (b.write off data).read 0 (off + data.length) = b.read 0 off ++ data := by
  rw [read_append, read_write_before _ _ _ _ _ (by omega), Nat.zero_add, read_write_self]

/-! ## Checked accesses -/

/-- Load `n` cells from `off`. -/
def load (b : Block α) (off n : Int) : Exec (List α) :=
  if 0 ≤ off ∧ 0 ≤ n ∧ off + n ≤ b.size then .ok (b.read off.toNat n.toNat)
  else .error .outOfBounds

/-- Store `data` at `off`. -/
def store (b : Block α) (off : Int) (data : List α) : Exec (Block α) :=
  if 0 ≤ off ∧ off + data.length ≤ b.size then .ok (b.write off.toNat data)
  else .error .outOfBounds

/-- `memcpy`/`memmove` of `n` cells from `src + srcOff` to `dst + dstOff`. -/
def copy (dst : Block α) (dstOff : Int) (src : Block α) (srcOff n : Int) :
    Exec (Block α) := do
  let data ← src.load srcOff n
  dst.store dstOff data

theorem load_eq_ok {b : Block α} {o n : Nat} (h : o + n ≤ b.size) :
    b.load o n = .ok (b.read o n) := by
  simp [load, show (o : Int) + n ≤ b.size by exact_mod_cast h]

theorem store_eq_ok {b : Block α} {o : Nat} {data : List α}
    (h : o + data.length ≤ b.size) : b.store o data = .ok (b.write o data) := by
  simp [store, show (o : Int) + data.length ≤ b.size by exact_mod_cast h]

theorem copy_eq_ok {dst src : Block α} {d o n : Nat} (hs : o + n ≤ src.size)
    (hd : d + n ≤ dst.size) : dst.copy d src o n = .ok (dst.write d (src.read o n)) := by
  rw [copy, load_eq_ok hs]
  exact store_eq_ok (by simpa using hd)

end Block

/-! ## Lifetimes -/

/-- An address before, during and after the life of the object it is given to. -/
inductive Cell (α : Type) where
  | absent
  | live (a : α)
  | freed
  deriving DecidableEq

namespace Cell

variable {α : Type}

/-- The object, if it is alive. -/
def get : Cell α → Exec α
  | live a => .ok a
  | _ => .error .useAfterFree

/-- `free`. -/
def free : Cell α → Exec (Cell α)
  | live _ => .ok freed
  | absent => .error .useAfterFree
  | freed => .error .doubleFree

def Dead : Cell α → Prop
  | live _ => False
  | _ => True

@[simp] theorem get_live (a : α) : (live a).get = .ok a := rfl

@[simp] theorem free_live (a : α) : (live a).free = .ok freed := rfl

@[simp] theorem dead_absent : (absent : Cell α).Dead := trivial

@[simp] theorem dead_freed : (freed : Cell α).Dead := trivial

@[simp] theorem not_dead_live (a : α) : ¬ (live a).Dead := fun h => h

end Cell

/-- The objects at each address. -/
abbrev Heap (α : Type) := Nat → Cell α

/-- Of the addresses handed out, those below `n`, only that of `own` is alive; the others were
freed, and nothing has been at the addresses to come. -/
structure Heap.Owns {α : Type} (h : Heap α) (n : Nat) (own : Option (Nat × α)) : Prop where
  live : ∀ a x, own = some (a, x) → a < n ∧ h a = .live x
  freed : ∀ a, a < n → (∀ x, own ≠ some (a, x)) → h a = .freed
  absent : ∀ a, n ≤ a → h a = .absent

namespace Heap.Owns

variable {α : Type} {h : Heap α} {n a : Nat} {x y : α}

theorem empty : Heap.Owns (fun _ => .absent : Heap α) 0 none where
  live _ _ heq := by cases heq
  freed _ hlt := absurd hlt (Nat.not_lt_zero _)
  absent _ _ := rfl

/-- An object is put at the next address. -/
theorem alloc (hown : h.Owns n none) (x : α) :
    Heap.Owns (Function.update h n (.live x)) (n + 1) (some (n, x)) where
  live b y heq := by
    cases heq
    exact ⟨Nat.lt_succ_self _, Function.update_self ..⟩
  freed b hlt hne := by
    have hb : b ≠ n := fun heq => hne x (by rw [heq])
    rw [Function.update_of_ne hb]
    exact hown.freed b (by omega) fun y heq => by cases heq
  absent b hle := by
    rw [Function.update_of_ne (by omega)]
    exact hown.absent b (by omega)

/-- The object is freed. -/
theorem free (hown : h.Owns n (some (a, x))) :
    Heap.Owns (Function.update h a .freed) n none where
  live _ _ heq := by cases heq
  freed b hlt _ := by
    rcases eq_or_ne b a with rfl | hne
    · exact Function.update_self ..
    · rw [Function.update_of_ne hne]
      exact hown.freed b hlt fun y heq => hne (by cases heq; rfl)
  absent b hle := by
    have hlt := (hown.live a x rfl).1
    rw [Function.update_of_ne (by omega)]
    exact hown.absent b hle

/-- The object is changed. -/
theorem write (hown : h.Owns n (some (a, x))) (y : α) :
    Heap.Owns (Function.update h a (.live y)) n (some (a, y)) where
  live b z heq := by
    cases heq
    exact ⟨(hown.live a x rfl).1, Function.update_self ..⟩
  freed b hlt hne := by
    have hb : b ≠ a := fun heq => hne y (by rw [heq])
    rw [Function.update_of_ne hb]
    exact hown.freed b hlt fun z heq => hb (by cases heq; rfl)
  absent b hle := by
    have hlt := (hown.live a x rfl).1
    rw [Function.update_of_ne (by omega)]
    exact hown.absent b hle

/-- The cell that is owned is live. -/
theorem eq_live (hown : h.Owns n (some (a, x))) : h a = .live x := (hown.live a x rfl).2

/-- With nothing alive, every pointer dangles. -/
theorem dead (hown : h.Owns n none) (a : Nat) : (h a).Dead := by
  rcases Nat.lt_or_ge a n with hlt | hge
  · rw [hown.freed a hlt fun _ heq => by cases heq]
    trivial
  · rw [hown.absent a hge]
    trivial

end Heap.Owns

/-- The computation frees nothing twice and uses nothing outside its lifetime, and what it
yields satisfies `P`. -/
def LifetimeSafe {α : Type} (P : α → Prop) : Exec α → Prop
  | .ok a => P a
  | .error e => e ≠ .doubleFree ∧ e ≠ .useAfterFree

namespace LifetimeSafe

variable {α β : Type} {P : α → Prop} {Q : β → Prop}

/-- What returns is safe if its value is as it should be. -/
theorem ok {a : α} (h : P a) : LifetimeSafe P (.ok a) := h

theorem bind {x : Exec α} {f : α → Exec β} (hx : LifetimeSafe P x)
    (hf : ∀ a, P a → LifetimeSafe Q (f a)) : LifetimeSafe Q (x >>= f) := by
  cases x with
  | error e => exact hx
  | ok a => exact hf a hx

/-- The value of an execution that succeeds. -/
theorem of_ok {x : Exec α} {a : α} (hx : LifetimeSafe P x) (h : x = .ok a) : P a := by
  rw [h] at hx
  exact hx

/-- What goes wrong in a safe execution is no use of dead memory. -/
theorem of_error {x : Exec α} {e : Fault} (hx : LifetimeSafe P x) (h : x = .error e) :
    e ≠ .doubleFree ∧ e ≠ .useAfterFree := by
  rw [h] at hx
  exact hx

end LifetimeSafe

theorem Cell.free_of_dead {α : Type} {c : Cell α} (h : c.Dead) : ∃ e, c.free = .error e := by
  cases c with
  | absent => exact ⟨_, rfl⟩
  | live a => exact h.elim
  | freed => exact ⟨_, rfl⟩

/-- What the computation yields, if it yields anything, satisfies `P`. -/
def Yields {α : Type} (P : α → Prop) : Exec α → Prop
  | .ok a => P a
  | .error _ => True

namespace Yields

variable {α β : Type} {P : α → Prop} {Q : β → Prop}

theorem bind {x : Exec α} {f : α → Exec β} (hx : Yields P x) (hf : ∀ a, P a → Yields Q (f a)) :
    Yields Q (x >>= f) := by
  cases x with
  | error e => trivial
  | ok a => exact hf a hx

/-- Whatever the first part yields. -/
theorem bind_any {x : Exec α} {f : α → Exec β} (hf : ∀ a, x = .ok a → Yields Q (f a)) :
    Yields Q (x >>= f) := by
  cases x with
  | error e => trivial
  | ok a => exact hf a rfl

theorem mono {R : α → Prop} {x : Exec α} (hx : Yields P x) (hPR : ∀ a, P a → R a) :
    Yields R x := by
  cases x with
  | error e => trivial
  | ok a => exact hPR a hx

theorem of_ok {x : Exec α} {a : α} (hx : Yields P x) (h : x = .ok a) : P a := by
  rw [h] at hx
  exact hx

end Yields

/-- If the computation stops, it stops with one of these faults. -/
def Stops {α : Type} (P : Fault → Prop) (x : Exec α) : Prop := ∀ e, x = .error e → P e

theorem Stops.ok {α : Type} {P : Fault → Prop} (a : α) : Stops P (.ok a) := fun _ h => by cases h

/-- A fault of a part is a fault of the whole. -/
theorem Stops.bind {α β : Type} {P : Fault → Prop} {x : Exec α} {f : α → Exec β} (hx : Stops P x)
    (hf : ∀ a, Stops P (f a)) : Stops P (x >>= f) := by
  cases x with
  | error e => exact fun _ h => by cases h; exact hx e rfl
  | ok a => exact hf a

/-- A use of memory outside of its lifetime. -/
def Stray (e : Fault) : Prop := e = .doubleFree ∨ e = .useAfterFree

theorem Cell.get_stops {α : Type} (c : Cell α) : Stops Stray c.get := by
  cases c with
  | live a => exact .ok a
  | absent | freed => exact fun e h => by cases h; exact Or.inr rfl

theorem Cell.free_stops {α : Type} (c : Cell α) : Stops Stray c.free := by
  cases c with
  | live a => exact .ok _
  | absent => exact fun e h => by cases h; exact Or.inr rfl
  | freed => exact fun e h => by cases h; exact Or.inl rfl

/-- What is safe in its lifetimes and stops only outside of them does not stop. -/
theorem Stops.runs {α : Type} {P : α → Prop} {x : Exec α} (hx : Stops Stray x)
    (hsafe : LifetimeSafe P x) : ∃ a, x = .ok a := by
  cases heq : x with
  | ok a => exact ⟨a, rfl⟩
  | error e =>
    obtain ⟨hdouble, hafter⟩ := hsafe.of_error heq
    rcases hx e heq with he | he
    · exact absurd he hdouble
    · exact absurd he hafter

/-- The accesses of a block that exists have no lifetime to break. -/
theorem Block.load_safe {α : Type} (b : Block α) (off n : Int) :
    LifetimeSafe (fun _ => True) (b.load off n) := by
  unfold load
  split
  · exact .ok trivial
  · exact ⟨by decide, by decide⟩

/-- A write into a live block is safe wherever it goes: it may be out of bounds, but not after a
free. -/
theorem Block.store_safe {α : Type} (b : Block α) (off : Int) (data : List α) :
    LifetimeSafe (fun _ => True) (b.store off data) := by
  unfold store
  split
  · exact .ok trivial
  · exact ⟨by decide, by decide⟩

theorem Block.copy_safe {α : Type} (b src : Block α) (d o n : Int) :
    LifetimeSafe (fun _ => True) (b.copy d src o n) :=
  (src.load_safe o n).bind fun data _ => b.store_safe d data

theorem deref_safe {α : Type} (p : Option α) : LifetimeSafe (fun _ => True) (deref p) := by
  cases p with
  | none => exact ⟨by decide, by decide⟩
  | some a => exact .ok trivial

end CMem
