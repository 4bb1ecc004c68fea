import Swnet.Basic

/-!
# Swnet — the user context of a link (`mxx.c`)

`nis_setctx`, `nis_getctx`, `nis_refctx` and `nis_ctxsize`, and the end of the context in
`tcp_unload`. A link keeps a pointer and a length, and frees by the one what it skips by the
other: clearing leaves the pointer to the freed block, and a `malloc` that fails leaves the
new length without a block. A caller may also hand over bytes of the context itself, from the
pointer that `nis_refctx` returned; when the length changes, their block is freed before it is read.

* `ctxKept_iff` — when the store keeps its promise, for every sequence of calls;
* `ctxKept_clearSet` — the context is cleared and set again: a block is freed twice.

The datum that is promised is kept beside the link, and `Ctx.Keeps` says that the block, the pointer
and the length are those of the datum, and the heap owns that block alone. A call within the
condition keeps it with the datum it makes (`ctxStep_keeps`); any other faults, returns a lie or
leaves a link that keeps no datum (`ctxStep_breaks`). The equivalence is by induction on the calls.
-/

namespace Swnet

open CMem

/-! ## The calls -/

/-- `ncb_ctx_` and `ncb_ctx_size_`, and the memory they are about. `allocated` counts the
blocks allocated so far and is the address of the next one. -/
structure Ctx where
  ncbCtx : Option Nat
  ncbCtxSize : Int
  heap : Heap (Block Byte)
  allocated : Nat
  unloaded : Bool

namespace Ctx

def start : Ctx where
  ncbCtx := none
  ncbCtxSize := 0
  heap _ := .absent
  allocated := 0
  unloaded := false

/-- `if (ncb->ncb_ctx_) free(ncb->ncb_ctx_);` -/
def freeCtx (s : Ctx) : Exec Ctx :=
  match s.ncbCtx with
  | none => return s
  | some a => do
    let cell ← (s.heap a).free
    return { s with heap := Function.update s.heap a cell }

end Ctx

/-- What `ncb_ctx` points to: bytes of the caller, or a place inside of a block of the context,
`offset` bytes behind its start. -/
inductive CtxPtr where
  | bytes (cell : Nat → Byte)
  | inside (a offset : Nat)

/-- The memory `n` bytes are read from, and where in it they stand. A block of the context has to
be there still. -/
def CtxPtr.source (s : Ctx) (n : Int) : CtxPtr → Exec (Block Byte × Int)
  | .bytes cell => return (⟨n.toNat, cell⟩, 0)
  | .inside a offset => do
    let b ← (s.heap a).get
    return (b, offset)

/-- `memcpy( ncb->ncb_ctx_, ncb_ctx, ncb->ncb_ctx_size_ )`. A block that is copied onto itself
stays as it is. -/
def Ctx.copyCtx (s : Ctx) (ncbCtx : Option CtxPtr) : Exec (Int × Ctx) := do
  let a ← deref s.ncbCtx
  let b ← (s.heap a).get
  let ptr ← deref ncbCtx
  let (src, off) ← ptr.source s s.ncbCtxSize
  let b ← b.copy 0 src off s.ncbCtxSize
  return (0, { s with heap := Function.update s.heap a (.live b) })

/-- The answer of `malloc( ncb_ctx_size )`: a negative length is a request beyond the address
space, which is never granted. -/
def mallocCtx (ncbCtxSize : Int) (malloc : Option (Nat → Byte)) : Option (Block Byte) :=
  if ncbCtxSize < 0 then none else malloc.map fun cell => ⟨ncbCtxSize.toNat, cell⟩

/-- The middle of `nis_setctx`: the block is converted to one of another length. -/
def convertCtx (s : Ctx) (ncbCtxSize : Int) (malloc : Option (Nat → Byte)) : Exec (Int × Ctx) := do
  let s ← s.freeCtx
  let s := { s with ncbCtxSize := ncbCtxSize }
  -- the old block is gone and the length is the new one, whether there is memory or not
  match mallocCtx ncbCtxSize malloc with
  | none => return (-1, s)
  | some b =>
    let s := { s with
      ncbCtx := some s.allocated
      heap := Function.update s.heap s.allocated (.live b)
      allocated := s.allocated + 1 }
    return (0, s)

/-- `nis_setctx`. The caller passes `NULL`, or a pointer to the bytes it announces. -/
def nisSetctx (s : Ctx) (ncbCtx : Option CtxPtr) (ncbCtxSize : Int)
    (malloc : Option (Nat → Byte)) : Exec (Int × Ctx) :=
  if s.unloaded then return (-1, s)
  else if ncbCtx.isNone ∨ ncbCtxSize = 0 then do
    let s ← s.freeCtx
    -- the pointer stays what it was
    return (0, { s with ncbCtxSize := 0 })
  else if ncbCtxSize ≠ s.ncbCtxSize then do
    let (retval, s) ← convertCtx s ncbCtxSize malloc
    if retval < 0 then return (-1, s) else s.copyCtx ncbCtx
  else s.copyCtx ncbCtx

/-- `nis_getctx`: the return value, the bytes copied to `user_context` and the size
reported. -/
def nisGetctx (s : Ctx) (userContext : Bool) : Exec (Int × List Byte × Option Int) :=
  if ¬ userContext then return (-1, [], none)
  else if s.unloaded then return (-1, [], none)
  else if s.ncbCtx.isSome ∧ s.ncbCtxSize ≠ 0 then do
    let a ← deref s.ncbCtx
    let b ← (s.heap a).get
    let copied ← b.load 0 s.ncbCtxSize
    return (0, copied, some s.ncbCtxSize)
  else return (0, [], some s.ncbCtxSize)

/-- `nis_refctx`: the pointer and the size reported. -/
def nisRefctx (s : Ctx) : Option Nat × Option Int :=
  if s.unloaded then (none, none)
  else (if s.ncbCtx.isSome ∧ s.ncbCtxSize ≠ 0 then s.ncbCtx else none, some s.ncbCtxSize)

/-- `nis_ctxsize`. -/
def nisCtxsize (s : Ctx) : Int := if s.unloaded then -1 else s.ncbCtxSize

/-- What `tcp_unload` does to the context. It runs once. -/
def tcpUnloadCtx (s : Ctx) : Exec Ctx :=
  if s.unloaded then return s
  else if s.ncbCtx.isSome ∧ s.ncbCtxSize ≠ 0 then do
    let s ← s.freeCtx
    return { s with unloaded := true }
  else return { s with unloaded := true }

/-! ## Sequences of calls -/

/-- The buffer a caller passes to `nis_setctx`: `NULL`, bytes of its own, or the bytes `offset`
behind the pointer that `nis_refctx` returns, which is `NULL` where there is no context. -/
inductive CtxBuffer where
  | null
  | bytes (cell : Nat → Byte)
  | refctx (offset : Nat)

def CtxBuffer.ptr (s : Ctx) : CtxBuffer → Option CtxPtr
  | .null => none
  | .bytes cell => some (.bytes cell)
  | .refctx offset => (nisRefctx s).1.map fun a => .inside a offset

inductive CtxOp where
  | setctx (ncbCtx : CtxBuffer) (ncbCtxSize : Int) (malloc : Option (Nat → Byte))
  | getctx (userContext : Bool)
  | refctx
  | ctxsize
  | unload

inductive CtxReturn where
  | setctx (retval : Int)
  | getctx (retval : Int) (copied : List Byte) (size : Option Int)
  | refctx (ctxptr : Option Nat) (size : Option Int)
  | ctxsize (size : Int)
  | unload

def ctxStep (s : Ctx) : CtxOp → Exec (CtxReturn × Ctx)
  | .setctx ncbCtx ncbCtxSize malloc => do
    let (retval, s) ← nisSetctx s (ncbCtx.ptr s) ncbCtxSize malloc
    return (.setctx retval, s)
  | .getctx userContext => do
    let (retval, copied, size) ← nisGetctx s userContext
    return (.getctx retval copied size, s)
  | .refctx => return (.refctx (nisRefctx s).1 (nisRefctx s).2, s)
  | .ctxsize => return (.ctxsize (nisCtxsize s), s)
  | .unload => do
    let s ← tcpUnloadCtx s
    return (.unload, s)

def ctxRun (s : Ctx) : List CtxOp → Exec Ctx
  | [] => return s
  | op :: ops => do
    let (_, s) ← ctxStep s op
    ctxRun s ops

/-! ## What the store is for -/

/-- The `n` bytes a pointer points to. -/
def CtxPtr.data (s : Ctx) (n : Nat) : CtxPtr → List Byte
  | .bytes cell => (⟨n, cell⟩ : Block Byte).read 0 n
  | .inside a offset =>
    match s.heap a with
    | .live b => b.read offset n
    | _ => []

/-- The data a call of `nis_setctx` hands over, as it is at the call; none when it clears the
context. -/
def ctxDatum (s : Ctx) (ncbCtx : Option CtxPtr) (ncbCtxSize : Int) : Option (List Byte) :=
  match ncbCtx with
  | none => none
  | some ptr => if ncbCtxSize = 0 then none else some (ptr.data s ncbCtxSize.toNat)

/-- The context after a call in `s` that found `d`: a successful `nis_setctx` replaces it, and
every other call, a failed `nis_setctx` among them, leaves it. -/
def CtxOp.kept (s : Ctx) : CtxOp → CtxReturn → Option (List Byte) → Option (List Byte)
  | .setctx ncbCtx ncbCtxSize _, .setctx retval, d =>
    if retval = 0 then ctxDatum s (ncbCtx.ptr s) ncbCtxSize else d
  | _, _, d => d

/-- The link keeps the context `d`: with none, the length is zero and no block is alive; with
one, the pointer and the length are those of the one block that is alive. All other blocks
were freed, and so are all of them once the link is unloaded. -/
inductive Ctx.Keeps (s : Ctx) : Option (List Byte) → Prop
  | clear (hu : s.unloaded = false) (hsize : s.ncbCtxSize = 0)
      (hown : s.heap.Owns s.allocated none) : Keeps s none
  | held (hu : s.unloaded = false) (a : Nat) (b : Block Byte) (hctx : s.ncbCtx = some a)
      (hown : s.heap.Owns s.allocated (some (a, b))) (hsize : s.ncbCtxSize = b.size)
      (hpos : 0 < b.size) : Keeps s (some (b.read 0 b.size))
  | gone (d : Option (List Byte)) (hu : s.unloaded = true)
      (hown : s.heap.Owns s.allocated none) : Keeps s d

/-- What a call returns on a link that keeps the context `d`. -/
def CtxOp.Reports (s : Ctx) (d : Option (List Byte)) : CtxOp → CtxReturn → Prop
  | .getctx userContext, .getctx retval copied size => s.unloaded = false → userContext = true →
      retval = 0 ∧ copied = d.getD [] ∧ size = some ((d.getD []).length : Int)
  | .refctx, .refctx ctxptr size => s.unloaded = false → size = some ((d.getD []).length : Int)
      ∧ match d with
        | none => ctxptr = none
        | some data => ∃ a b, ctxptr = some a ∧ s.heap a = .live b ∧ b.read 0 b.size = data
  | .ctxsize, .ctxsize size => s.unloaded = false → size = ((d.getD []).length : Int)
  | .setctx _ _ _, .setctx retval => retval = 0 ∨ retval = -1
  | .unload, .unload => True
  | _, _ => False

/-- The promise over a sequence of calls: no call stops with a fault, in every state the
context is the data of the last successful `nis_setctx`, and it is what the calls report. -/
def CtxKept (s : Ctx) (d : Option (List Byte)) : List CtxOp → Prop
  | [] => s.Keeps d
  | op :: ops => s.Keeps d ∧ ∃ r s', ctxStep s op = .ok (r, s') ∧ op.Reports s d r
      ∧ CtxKept s' (op.kept s r d) ops

/-- What a call of `nis_setctx` must respect. -/
structure SetctxClean (s : Ctx) (ncbCtx : Option CtxPtr) (ncbCtxSize : Int)
    (malloc : Option (Nat → Byte)) : Prop where
  /-- It is not called while the pointer of a cleared context is still set. -/
  cleared : ¬ (s.ncbCtx.isSome ∧ s.ncbCtxSize = 0)
  /-- It gets the memory for a context of a new length. -/
  granted : ncbCtx.isSome → ncbCtxSize ≠ 0 → ncbCtxSize ≠ s.ncbCtxSize →
    0 < ncbCtxSize ∧ malloc.isSome
  /-- Bytes of the context are not handed over with another length, for then their block is freed
  before they are read; with the present length they are the whole of it. -/
  apart : ∀ a offset, ncbCtx = some (.inside a offset) → ncbCtxSize ≠ 0 →
    ncbCtxSize = s.ncbCtxSize ∧ offset = 0

/-- What a call must respect. -/
def CtxOp.Clean (s : Ctx) : CtxOp → Prop
  | .setctx ncbCtx ncbCtxSize malloc =>
      s.unloaded = false → SetctxClean s (ncbCtx.ptr s) ncbCtxSize malloc
  | _ => True

/-- Every call of the sequence respects it. -/
def CtxClean (s : Ctx) : List CtxOp → Prop
  | [] => True
  | op :: ops => op.Clean s ∧ ∀ r s', ctxStep s op = .ok (r, s') → CtxClean s' ops

/-! ## The pieces of a call -/

namespace Ctx

variable {s : Ctx} {a : Nat} {b : Block Byte} {d : Option (List Byte)}

/-- Freeing the context of a link that keeps one, or none behind a `NULL` pointer. -/
theorem freeCtx_spec (h : s.Keeps d) (hu : s.unloaded = false)
    (hclean : ¬ (s.ncbCtx.isSome ∧ s.ncbCtxSize = 0)) :
    ∃ s', s.freeCtx = .ok s' ∧ s'.unloaded = false ∧ s'.heap.Owns s'.allocated none := by
  cases h with
  | clear _ hsize hown =>
    have hctx : s.ncbCtx = none :=
      Option.not_isSome_iff_eq_none.mp fun hsome => hclean ⟨hsome, hsize⟩
    exact ⟨s, by rw [freeCtx, hctx]; rfl, hu, hown⟩
  | held _ a b hctx hown hsize hpos =>
    refine ⟨{ s with heap := Function.update s.heap a .freed }, ?_, hu, hown.free⟩
    rw [freeCtx, hctx]
    dsimp only
    rw [hown.eq_live]
    rfl
  | gone d hu' => rw [hu] at hu'; cases hu'

/-- With no block alive, a pointer that is not `NULL` cannot be freed. -/
theorem freeCtx_of_dangling (hctx : s.ncbCtx.isSome) (hown : s.heap.Owns s.allocated none) :
    ∃ e, s.freeCtx = .error e := by
  obtain ⟨a, ha⟩ := Option.isSome_iff_exists.mp hctx
  obtain ⟨e, he⟩ := Cell.free_of_dead (hown.dead a)
  refine ⟨e, ?_⟩
  rw [freeCtx, ha]
  dsimp only
  rw [he]
  rfl

/-- The bytes the caller points to are copied into the block of the context. -/
theorem copyCtx_spec {ptr : CtxPtr} {src : Block Byte} {off : Nat} (hu : s.unloaded = false)
    (hctx : s.ncbCtx = some a) (hown : s.heap.Owns s.allocated (some (a, b)))
    (hsize : s.ncbCtxSize = b.size) (hpos : 0 < b.size)
    (hsrc : ptr.source s s.ncbCtxSize = .ok (src, (off : Int))) (hfit : off + b.size ≤ src.size) :
    ∃ s', s.copyCtx (some ptr) = .ok (0, s') ∧ s'.Keeps (some (src.read off b.size)) := by
  let data := src.read off b.size
  let s' : Ctx := { s with heap := Function.update s.heap a (.live (b.write 0 data)) }
  have hcopy : b.copy 0 src off b.size = .ok (b.write 0 data) :=
    Block.copy_eq_ok (d := 0) hfit (by omega)
  have hkeeps : s'.Keeps (some ((b.write 0 data).read 0 (b.write 0 data).size)) :=
    Keeps.held (s := s') hu a _ hctx (hown.write _) hsize hpos
  rw [Block.size_write, Block.read_write_self' _ _ _ _ (Block.length_read ..)] at hkeeps
  refine ⟨s', ?_, hkeeps⟩
  rw [copyCtx, hctx, deref_some, ok_bind, hown.eq_live, Cell.get_live, ok_bind, deref_some, ok_bind,
    hsrc, ok_bind]
  dsimp only
  rw [hsize, hcopy]
  simp [s', hctx, hsize]

/-- Bytes that cannot be read stop the call. -/
theorem copyCtx_of_unreadable {ptr : CtxPtr} {e : Fault} (hctx : s.ncbCtx = some a)
    (hown : s.heap.Owns s.allocated (some (a, b)))
    (hsrc : (do
      let (src, off) ← ptr.source s s.ncbCtxSize
      src.load off s.ncbCtxSize) = .error e) : s.copyCtx (some ptr) = .error e := by
  rw [copyCtx, hctx, deref_some, ok_bind, hown.eq_live, Cell.get_live, ok_bind, deref_some, ok_bind]
  cases hs : ptr.source s s.ncbCtxSize with
  | error e' =>
    rw [hs] at hsrc
    cases hsrc
    rfl
  | ok r =>
    rw [hs, ok_bind] at hsrc
    rw [ok_bind]
    dsimp only at hsrc ⊢
    rw [Block.copy, hsrc]
    rfl

theorem Keeps.size_eq (h : s.Keeps d) (hu : s.unloaded = false) :
    s.ncbCtxSize = ((d.getD []).length : Int) := by
  cases h with
  | clear _ hsize => exact hsize
  | held _ a b _ _ hsize => rw [hsize, Option.getD_some, Block.length_read]
  | gone d hu' => rw [hu] at hu'; cases hu'

theorem Keeps.owns_of_unloaded (h : s.Keeps d) (hu : s.unloaded = true) :
    s.heap.Owns s.allocated none := by
  cases h with
  | clear hu' => rw [hu] at hu'; cases hu'
  | held hu' => rw [hu] at hu'; cases hu'
  | gone d _ hown => exact hown

/-- A state with a length and no block keeps nothing. -/
theorem not_keeps (hu : s.unloaded = false) (hown : s.heap.Owns s.allocated none)
    (hsize : s.ncbCtxSize ≠ 0) : ¬ s.Keeps d := by
  intro h
  cases h with
  | clear _ hzero => exact hsize hzero
  | held _ a b _ hown' =>
    have hdead := hown.dead a
    rw [hown'.eq_live] at hdead
    exact hdead
  | gone d hu' => rw [hu] at hu'; cases hu'

end Ctx

/-! ## One call -/

section

variable {s : Ctx} {d : Option (List Byte)}

/-- The block is converted when the memory for the new one is there. -/
theorem convertCtx_spec (h : s.Keeps d) (hu : s.unloaded = false)
    (hclean : ¬ (s.ncbCtx.isSome ∧ s.ncbCtxSize = 0)) {n : Nat} (fill : Nat → Byte) :
    ∃ s' a, convertCtx s n (some fill) = .ok (0, s') ∧ s'.unloaded = false ∧ s'.ncbCtx = some a
      ∧ s'.heap.Owns s'.allocated (some (a, ⟨n, fill⟩)) ∧ s'.ncbCtxSize = n := by
  obtain ⟨s₁, hfree, hu₁, hown₁⟩ := Ctx.freeCtx_spec h hu hclean
  have hmalloc : mallocCtx (n : Int) (some fill) = some ⟨n, fill⟩ := by
    rw [mallocCtx, if_neg (by omega)]
    rfl
  rw [convertCtx, hfree, ok_bind, hmalloc]
  exact ⟨_, _, rfl, hu₁, rfl, hown₁.alloc _, rfl⟩

/-- A call of `nis_setctx` that meets the condition keeps the promise. -/
theorem nisSetctx_keeps (h : s.Keeps d) {ncbCtx : Option CtxPtr} {n : Int}
    {malloc : Option (Nat → Byte)} (hclean : s.unloaded = false → SetctxClean s ncbCtx n malloc)
    (hptr : ∀ a offset, ncbCtx = some (.inside a offset) → s.ncbCtx = some a) :
    ∃ retval s', nisSetctx s ncbCtx n malloc = .ok (retval, s') ∧ (retval = 0 ∨ retval = -1)
      ∧ s'.Keeps (if retval = 0 then ctxDatum s ncbCtx n else d) := by
  cases hu : s.unloaded with
  | true =>
    refine ⟨-1, s, ?_, Or.inr rfl, .gone _ hu (h.owns_of_unloaded hu)⟩
    rw [nisSetctx, if_pos hu]
    rfl
  | false =>
    obtain ⟨hnodangling, hgranted, hapart⟩ := hclean hu
    rw [nisSetctx, if_neg (by rw [hu]; decide)]
    by_cases hclear : ncbCtx.isNone ∨ n = 0
    · -- the context is cleared
      obtain ⟨s₁, hfree, hu₁, hown₁⟩ := Ctx.freeCtx_spec h hu hnodangling
      have hnone : ctxDatum s ncbCtx n = none := by
        cases ncbCtx with
        | none => rfl
        | some ptr => exact if_pos (hclear.resolve_left (by simp))
      rw [if_pos hclear, hfree, ok_bind]
      exact ⟨0, _, rfl, Or.inl rfl, by rw [if_pos rfl, hnone]; exact .clear hu₁ rfl hown₁⟩
    · obtain ⟨hsome, hn⟩ := not_or.mp hclear
      rw [if_neg hclear]
      cases ncbCtx with
      | none => exact absurd rfl hsome
      | some ptr =>
        have hdatum : ctxDatum s (some ptr) n = some (ptr.data s n.toNat) := if_neg hn
        by_cases hnew : n ≠ s.ncbCtxSize
        · -- a block of a new length, filled with bytes of the caller
          obtain ⟨hpos, hmalloc⟩ := hgranted rfl hn hnew
          obtain ⟨fill, rfl⟩ := Option.isSome_iff_exists.mp hmalloc
          obtain ⟨m, rfl⟩ := Int.eq_ofNat_of_zero_le (Int.le_of_lt hpos)
          obtain ⟨s₁, a, hconvert, hu₁, hctx, hown, hsize⟩ :=
            convertCtx_spec h hu hnodangling (n := m) fill
          cases ptr with
          | inside a' offset => exact absurd (hapart a' offset rfl hn).1 hnew
          | bytes cell =>
            have hsrc : (CtxPtr.bytes cell).source s₁ s₁.ncbCtxSize
                = .ok (⟨s₁.ncbCtxSize.toNat, cell⟩, ((0 : Nat) : Int)) := rfl
            obtain ⟨s', hcopy, hkeeps⟩ :=
              Ctx.copyCtx_spec hu₁ hctx hown hsize (show 0 < m by omega) hsrc (by simp [hsize])
            refine ⟨0, s', ?_, Or.inl rfl, ?_⟩
            · rw [if_pos hnew, hconvert, ok_bind]
              exact hcopy
            · rw [if_pos rfl, hdatum]
              simpa [CtxPtr.data, hsize] using hkeeps
        · -- the block is written over
          rw [if_neg hnew]
          have heq := Decidable.not_not.mp hnew
          cases h with
          | clear _ hsize => exact absurd (heq.trans hsize) hn
          | held _ a b hctx hown hsize hpos =>
            obtain rfl : n = b.size := heq.trans hsize
            obtain ⟨src, hsrc, hread, hfit⟩ : ∃ src,
              ptr.source s s.ncbCtxSize = .ok (src, ((0 : Nat) : Int))
                ∧ src.read 0 b.size = ptr.data s b.size ∧ 0 + b.size ≤ src.size := by
              cases ptr with
              | bytes cell =>
                refine ⟨⟨b.size, cell⟩, ?_, rfl, by simp⟩
                rw [hsize]
                rfl
              | inside a' offset =>
                -- the block of the context, onto itself
                obtain ⟨-, rfl⟩ := hapart a' offset rfl hn
                obtain rfl : a' = a := Option.some.inj ((hptr a' 0 rfl).symm.trans hctx)
                refine ⟨b, ?_, ?_, by simp⟩
                · rw [CtxPtr.source, hown.eq_live]
                  rfl
                · rw [CtxPtr.data, hown.eq_live]
            obtain ⟨s', hcopy, hkeeps⟩ := Ctx.copyCtx_spec hu hctx hown hsize hpos hsrc hfit
            refine ⟨0, s', hcopy, Or.inl rfl, ?_⟩
            rw [if_pos rfl, hdatum, Int.toNat_natCast, ← hread]
            exact hkeeps
          | gone d hu' => rw [hu] at hu'; cases hu'

/-- Bytes of the context that are not the whole of it: with another length the block is freed before
it is read, with the present one they end behind it. -/
theorem setctx_inside {a offset : Nat} {b : Block Byte} {n : Int} {malloc : Option (Nat → Byte)}
    (hctx : s.ncbCtx = some a) (hown : s.heap.Owns s.allocated (some (a, b)))
    (hlen : s.ncbCtxSize = b.size) (hgrant : n ≠ s.ncbCtxSize → 0 < n ∧ malloc.isSome)
    (hother : ¬ (n = s.ncbCtxSize ∧ offset = 0)) :
    ∃ e, (if n ≠ s.ncbCtxSize then do
        let (retval, s) ← convertCtx s n malloc
        if retval < 0 then return (-1, s) else s.copyCtx (some (.inside a offset))
      else s.copyCtx (some (.inside a offset))) = Except.error e := by
  -- the length changes: the block is freed, and then read
  by_cases hnew : n ≠ s.ncbCtxSize
  · obtain ⟨hpos, hmalloc⟩ := hgrant hnew
    obtain ⟨fill, rfl⟩ := Option.isSome_iff_exists.mp hmalloc
    have hfree : s.freeCtx = .ok { s with heap := Function.update s.heap a .freed } := by
      rw [Ctx.freeCtx, hctx]
      dsimp only
      rw [hown.eq_live]
      rfl
    have halloc : mallocCtx n (some fill) = some ⟨n.toNat, fill⟩ := if_neg (by omega)
    have hne : a ≠ s.allocated := Nat.ne_of_lt (hown.live a b rfl).1
    refine ⟨.useAfterFree, ?_⟩
    rw [if_pos hnew, convertCtx, hfree, ok_bind]
    simp only [halloc, pure_eq_ok, ok_bind]
    rw [if_neg (by decide), Ctx.copyCtx_of_unreadable rfl (hown.free.alloc _) (e := .useAfterFree)]
    dsimp only [CtxPtr.source]
    rw [Function.update_of_ne hne, Function.update_self]
    rfl
  -- the length stays: the bytes asked for reach behind the block
  · have heq := Decidable.not_not.mp hnew
    have hoffset : offset ≠ 0 := fun hzero => hother ⟨heq, hzero⟩
    refine ⟨.outOfBounds, ?_⟩
    rw [if_neg hnew, Ctx.copyCtx_of_unreadable hctx hown (e := .outOfBounds)]
    rw [CtxPtr.source, hown.eq_live, hlen]
    exact if_neg (by omega)

/-- A call that does not meet it breaks the promise: a block is freed twice, or read when it was
freed, or a length is left without a block. -/
theorem nisSetctx_breaks (h : s.Keeps d) {ncbCtx : Option CtxPtr} {n : Int}
    {malloc : Option (Nat → Byte)} (hu : s.unloaded = false) (hno : ¬ SetctxClean s ncbCtx n malloc)
    (hptr : ∀ a offset, ncbCtx = some (.inside a offset) → s.ncbCtx = some a ∧ s.ncbCtxSize ≠ 0)
    {retval : Int} {s' : Ctx} (heq : nisSetctx s ncbCtx n malloc = .ok (retval, s')) :
    ¬ s'.Keeps (if retval = 0 then ctxDatum s ncbCtx n else d) := by
  rw [nisSetctx, if_neg (by rw [hu]; decide)] at heq
  by_cases hdangling : s.ncbCtx.isSome ∧ s.ncbCtxSize = 0
  · -- every branch frees the dangling pointer first
    have hown : s.heap.Owns s.allocated none := by
      cases h with
      | clear _ _ hown => exact hown
      | held _ a b _ _ hsize hpos => exact absurd (hsize.symm.trans hdangling.2) (by omega)
      | gone d hu' => rw [hu] at hu'; cases hu'
    obtain ⟨e, hfree⟩ := Ctx.freeCtx_of_dangling hdangling.1 hown
    split at heq
    · rw [hfree] at heq
      cases heq
    · rename_i hclear
      rw [if_pos (by rw [hdangling.2]; exact (not_or.mp hclear).2), convertCtx, hfree] at heq
      cases heq
  have hclear : ¬ (ncbCtx.isNone ∨ n = 0) := by
    -- a call that clears asks for nothing
    refine fun hclear => hno ⟨hdangling, fun hsome hn => ?_, fun a offset heq hn => ?_⟩
    · cases ncbCtx with
      | none => cases hsome
      | some ptr => exact absurd (hclear.resolve_left (by simp)) hn
    · subst heq
      exact absurd (hclear.resolve_left (by simp)) hn
  obtain ⟨hsome, hn⟩ := not_or.mp hclear
  rw [if_neg hclear] at heq
  by_cases hgrant : n ≠ s.ncbCtxSize → 0 < n ∧ malloc.isSome
  · -- the bytes are those of the context, and not the whole of it
    obtain ⟨a', offset, rfl, hother⟩ : ∃ a' offset, ncbCtx = some (.inside a' offset)
        ∧ ¬ (n = s.ncbCtxSize ∧ offset = 0) := by
      by_contra hnone
      refine hno ⟨hdangling, fun _ _ => hgrant, fun a offset heq _ => ?_⟩
      by_contra hother
      exact hnone ⟨a, offset, heq, hother⟩
    obtain ⟨hctx, hsize⟩ := hptr a' offset rfl
    cases h with
    | clear _ hzero => exact absurd hzero hsize
    | gone d hu' => rw [hu] at hu'; cases hu'
    | held _ a b hctx' hown hlen hpos =>
      obtain rfl : a' = a := Option.some.inj (hctx.symm.trans hctx')
      obtain ⟨e, herror⟩ := setctx_inside hctx hown hlen hgrant hother
      rw [herror] at heq
      cases heq
  · -- the memory is not granted
    obtain ⟨hnew, hnot⟩ := Classical.not_imp.mp hgrant
    obtain ⟨s₁, hfree, hu₁, hown₁⟩ := Ctx.freeCtx_spec h hu hdangling
    have hmalloc : mallocCtx n malloc = none := by
      rw [mallocCtx]
      split
      · rfl
      · cases malloc with
        | none => rfl
        | some fill => exact absurd ⟨by omega, rfl⟩ hnot
    rw [if_pos hnew, convertCtx, hfree, ok_bind, hmalloc] at heq
    cases heq
    exact Ctx.not_keeps hu₁ hown₁ hn

/-- A pointer of `nis_refctx` is into the block of the context. -/
theorem CtxBuffer.ptr_inside {ncbCtx : CtxBuffer} {a offset : Nat}
    (hptr : ncbCtx.ptr s = some (.inside a offset)) : s.ncbCtx = some a ∧ s.ncbCtxSize ≠ 0 := by
  cases ncbCtx with
  | null => cases hptr
  | bytes cell => cases hptr
  | refctx k =>
    obtain ⟨a', href, hinside⟩ := Option.map_eq_some_iff.mp hptr
    cases hinside
    rw [nisRefctx] at href
    split at href
    · cases href
    · dsimp only at href
      split at href
      next hset => exact ⟨href, hset.2⟩
      · cases href

/-- Every call that meets the condition keeps the promise. -/
theorem ctxStep_keeps (h : s.Keeps d) {op : CtxOp} (hclean : op.Clean s) :
    ∃ r s', ctxStep s op = .ok (r, s') ∧ op.Reports s d r ∧ s'.Keeps (op.kept s r d) := by
  cases op with
  | setctx ncbCtx n malloc =>
    obtain ⟨retval, s', heq, hretval, hkeeps⟩ := nisSetctx_keeps h hclean
      fun a offset hptr => (CtxBuffer.ptr_inside hptr).1
    exact ⟨.setctx retval, s', by rw [ctxStep, heq]; rfl, hretval, hkeeps⟩
  | getctx userContext =>
    cases userContext with
    | false =>
      refine ⟨.getctx (-1) [] none, s, rfl, ?_, h⟩
      exact fun _ hno => absurd hno (by decide)
    | true =>
      cases hu : s.unloaded with
      | true =>
        refine ⟨.getctx (-1) [] none, s, ?_, ?_, h⟩
        · rw [ctxStep, nisGetctx, if_neg (by decide), if_pos hu]
          rfl
        · intro hu'
          rw [hu] at hu'
          cases hu'
      | false =>
        refine ⟨.getctx 0 (d.getD []) (some s.ncbCtxSize), s, ?_,
          fun _ _ => ⟨rfl, rfl, congrArg some (h.size_eq hu)⟩, h⟩
        rw [ctxStep, nisGetctx, if_neg (by decide), if_neg (by rw [hu]; decide)]
        cases h with
        | clear _ hsize => rw [if_neg fun hset => hset.2 hsize]; rfl
        | held _ a b hctx hown hsize hpos =>
          have hload : b.load 0 b.size = .ok (b.read 0 b.size) :=
            Block.load_eq_ok (o := 0) (Nat.le_of_eq (Nat.zero_add _))
          rw [if_pos ⟨by rw [hctx]; rfl, by omega⟩, hctx, deref_some, ok_bind, hown.eq_live,
            Cell.get_live, ok_bind, hsize, hload]
          rfl
        | gone d hu' => rw [hu] at hu'; cases hu'
  | refctx =>
    refine ⟨_, s, rfl, fun hu => ?_, h⟩
    rw [nisRefctx, if_neg (by rw [hu]; decide)]
    refine ⟨congrArg some (h.size_eq hu), ?_⟩
    cases h with
    | clear _ hsize => exact if_neg fun hset => hset.2 hsize
    | held _ a b hctx hown hsize hpos =>
      refine ⟨a, b, ?_, hown.eq_live, rfl⟩
      rw [← hctx]
      exact if_pos ⟨by rw [hctx]; rfl, by omega⟩
    | gone d hu' => rw [hu] at hu'; cases hu'
  | ctxsize =>
    refine ⟨_, s, rfl, fun hu => ?_, h⟩
    rw [nisCtxsize, if_neg (by rw [hu]; decide)]
    exact h.size_eq hu
  | unload =>
    rw [ctxStep, tcpUnloadCtx]
    cases hu : s.unloaded with
    | true => exact ⟨.unload, s, by rw [if_pos rfl]; rfl, trivial, h⟩
    | false =>
      rw [if_neg (by decide)]
      -- a link without a context has a length of 0, and nothing is freed
      by_cases hset : s.ncbCtx.isSome ∧ s.ncbCtxSize ≠ 0
      · obtain ⟨s', hfree, hu', hown⟩ := Ctx.freeCtx_spec h hu fun hno => hset.2 hno.2
        rw [if_pos hset, hfree, ok_bind]
        exact ⟨.unload, _, rfl, trivial, .gone _ rfl hown⟩
      · rw [if_neg hset]
        refine ⟨.unload, _, rfl, trivial, .gone _ rfl ?_⟩
        cases h with
        | clear _ _ hown => exact hown
        | held _ a b hctx hown hsize hpos => exact absurd ⟨by rw [hctx]; rfl, by omega⟩ hset
        | gone d hu' => rw [hu] at hu'; cases hu'

/-- A call that does not respect the condition breaks the promise. -/
theorem ctxStep_breaks (h : s.Keeps d) {op : CtxOp} (hno : ¬ op.Clean s) {r : CtxReturn} {s' : Ctx}
    (heq : ctxStep s op = .ok (r, s')) : ¬ s'.Keeps (op.kept s r d) := by
  cases op with
  | setctx ncbCtx n malloc =>
    obtain ⟨hu, hunclean⟩ := Classical.not_imp.mp hno
    rw [ctxStep] at heq
    cases hset : nisSetctx s (ncbCtx.ptr s) n malloc with
    | error e => rw [hset] at heq; cases heq
    | ok res =>
      obtain ⟨retval, s₁⟩ := res
      rw [hset] at heq
      cases heq
      exact nisSetctx_breaks h hu hunclean (fun a offset => CtxBuffer.ptr_inside) hset
  | getctx userContext => exact absurd trivial hno
  | refctx => exact absurd trivial hno
  | ctxsize => exact absurd trivial hno
  | unload => exact absurd trivial hno

theorem CtxKept.keeps {ops : List CtxOp} (h : CtxKept s d ops) : s.Keeps d := by
  cases ops with
  | nil => exact h
  | cons op ops => exact h.1

theorem CtxKept.run_ok {ops : List CtxOp} (h : CtxKept s d ops) : ∃ s', ctxRun s ops = .ok s' := by
  induction ops generalizing s d with
  | nil => exact ⟨s, rfl⟩
  | cons op ops ih =>
    obtain ⟨-, r, s₁, hstep, -, hrest⟩ := h
    obtain ⟨s', hrun⟩ := ih hrest
    exact ⟨s', by rw [ctxRun, hstep]; exact hrun⟩

/-- The promise is kept over a sequence exactly when every call meets the condition: by
`ctxStep_keeps` and `ctxStep_breaks`, one call at a time. -/
theorem ctxKept_iff_of_keeps (h : s.Keeps d) (ops : List CtxOp) :
    CtxKept s d ops ↔ CtxClean s ops := by
  induction ops generalizing s d with
  | nil => exact ⟨fun _ => trivial, fun _ => h⟩
  | cons op ops ih =>
    constructor
    · rintro ⟨-, r, s₁, hstep, -, hrest⟩
      refine ⟨?_, fun r' s' hstep' => ?_⟩
      · by_contra hno
        exact ctxStep_breaks h hno hstep hrest.keeps
      · rw [hstep] at hstep'
        cases hstep'
        exact (ih hrest.keeps).mp hrest
    · rintro ⟨hclean, hrest⟩
      obtain ⟨r, s', hstep, hreports, hkeeps⟩ := ctxStep_keeps h hclean
      exact ⟨h, r, s', hstep, hreports, (ih hkeeps).mpr (hrest r s' hstep)⟩

end

/-! ## Every sequence of calls -/

/-- **When the user context is kept.** Over any sequence of calls on a new link, unloading
included, the context is the data of the last successful `nis_setctx`, is reported as such,
and every block is freed once, if and only if `nis_setctx` is never called while the pointer
of a cleared context is set, never fails to get memory for a new length, and never replaces the
block that its bytes are in. One call at a time: `ctxStep_keeps` and `ctxStep_breaks`. -/
theorem ctxKept_iff (ops : List CtxOp) : CtxKept .start none ops ↔ CtxClean .start ops :=
  ctxKept_iff_of_keeps (.clear rfl rfl .empty) ops

/-- A context of one byte is set, cleared and set again. -/
def clearSet : List CtxOp :=
  [.setctx (.bytes fun _ => 1) 1 (some fun _ => 0), .setctx .null 0 none,
    .setctx (.bytes fun _ => 2) 1 (some fun _ => 0)]

/-- The block is freed when the context is cleared, and again when it is set. -/
theorem ctxKept_clearSet :
    ctxRun .start clearSet = .error .doubleFree ∧ ¬ CtxKept .start none clearSet := by
  have hrun : ctxRun .start clearSet = .error .doubleFree := rfl
  refine ⟨hrun, fun h => ?_⟩
  obtain ⟨s', hok⟩ := h.run_ok
  rw [hrun] at hok
  cases hok

end Swnet
