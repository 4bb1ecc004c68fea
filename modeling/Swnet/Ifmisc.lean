import Swnet.Basic

/-!
# Swnet — the list of interfaces (`mxx.c`)

`nis_getifmisc` asks the system for its adapters, in a buffer it allocates again as long as it is
too small, and copies them to the caller, or tells him the size he needs. The size of
`ifmisc_t` and of its `interface_` are defined by `nis.h` and stay parameters, and so does
`posix__makeerror`.

* `nisGetifmisc_spec` — the two calls of the protocol, and what is left allocated;
* `nisGetifmisc_fails` — a size without a buffer, a buffer that is too small, a long name.

The loop that asks for the adapters is followed by `QueryAt`: which answer is next, and that the one
buffer allocated so far is the one the query holds. It ends with a list, or without one
(`QueryEnds`), and each case of `copyIfmisc` then frees that buffer once.
-/

namespace Swnet

open CMem

/-! ## The answers of the system -/

def errorBufferOverflow : UInt32 := 111

/-- `IP_ADAPTER_INFO`: the characters of `Description`, and what `inet_addr` makes of the address
and the mask. -/
structure Adapter where
  description : List Byte
  ipAddress : UInt32
  ipMask : UInt32
  deriving DecidableEq

/-- What a call of `GetAdaptersInfo` answers: the buffer it was given holds `first`, with `next`
behind it on the list, when it succeeds. -/
structure InfoAnswer where
  dwRetVal : UInt32
  outBufLen : UInt32
  first : Adapter
  next : List Adapter

/-- The answers to a call of `nis_getifmisc`: to each call of `GetAdaptersInfo`, and to each
request for a buffer of some size. -/
structure AdapterAnswers where
  getAdaptersInfo : Nat → InfoAnswer
  malloc : Nat → UInt32 → Bool

/-! ## The code -/

/-- The variables of the loop, with the buffers: what each address holds, and the next address.
`asked` counts the calls of `GetAdaptersInfo`. -/
structure Query where
  dwRetVal : UInt32
  outBufLen : UInt32
  pAddresses : Option Nat
  heap : Heap (List Adapter)
  allocated : Nat
  asked : Nat

namespace Query

/-- The first call, without a buffer. -/
def start (o : AdapterAnswers) : Query where
  dwRetVal := (o.getAdaptersInfo 0).dwRetVal
  outBufLen := (o.getAdaptersInfo 0).outBufLen
  pAddresses := none
  heap _ := .absent
  allocated := 0
  asked := 1

/-- `if (pAddresses) free(pAddresses);` -/
def freeAddresses (q : Query) : Exec Query :=
  match q.pAddresses with
  | none => return q
  | some a => do
    let cell ← (q.heap a).free
    return { q with heap := Function.update q.heap a cell }

/-- The call with a new buffer. -/
def ask (q : Query) (answer : InfoAnswer) : Query where
  dwRetVal := answer.dwRetVal
  outBufLen := answer.outBufLen
  pAddresses := some q.allocated
  heap := Function.update q.heap q.allocated (.live (answer.first :: answer.next))
  allocated := q.allocated + 1
  asked := q.asked + 1

/-- The list that starts at `pAddresses`. -/
def addresses (q : Query) : Exec (List Adapter) :=
  match q.pAddresses with
  | none => return []
  | some a => (q.heap a).get

end Query

/-- The loop that asks, with `n` turns left, and whether there was memory. -/
def queryLoop (o : AdapterAnswers) : Nat → Query → Exec (Query × Bool)
  | 0, q => return (q, true)
  | n + 1, q =>
    if q.dwRetVal ≠ errorBufferOverflow then return (q, true)
    else do
      let q ← q.freeAddresses
      if o.malloc q.allocated q.outBufLen then queryLoop o n (q.ask (o.getAdaptersInfo q.asked))
      else return ({ q with pAddresses := none }, false)

/-- The first traversal counts. -/
def countAdapters : Int → List Adapter → Int
  | i, [] => i
  | i, _ :: next => countAdapters (i32 (i + 1)) next

/-- `ifmisc_t`. -/
structure Ifmisc where
  interface : List Byte
  addr : UInt32
  netmask : UInt32
  boardcast : UInt32
  deriving DecidableEq

/-- `strncpy_s`: what does not fit with its terminator is an invalid parameter, which stops the
process. -/
def strncpyS (numberOfElements : Nat) (src : List Byte) (count : Nat) : Exec (List Byte) :=
  if min count src.length < numberOfElements then return src.take (min count src.length)
  else throw .assertion

section

variable (sizeofInterface : Nat)

/-- The entry of an adapter. -/
def ifmiscOf (a : Adapter) : Exec Ifmisc := do
  let interface ← strncpyS (sizeofInterface - 1) a.description (sizeofInterface - 1)
  return ⟨interface, a.ipAddress, a.ipMask, 0⟩

/-- The second traversal copies. -/
def copyAdapters (ifv : Block Ifmisc) : Int → List Adapter → Exec (Block Ifmisc)
  | _, [] => return ifv
  | i, a :: next => do
    let entry ← ifmiscOf sizeofInterface a
    let ifv ← ifv.store i [entry]
    copyAdapters ifv (i32 (i + 1)) next

end

/-- What a call returns, and leaves: the buffer and the size of the caller, and its own buffers. -/
structure IfmiscReturn where
  retval : Int
  ifv : Option (Block Ifmisc)
  cbifv : Option Int
  heap : Heap (List Adapter)
  allocated : Nat

/-- The call returns, with the buffers it has at this point. -/
def Query.result (q : Query) (retval : Int) (ifv : Option (Block Ifmisc)) (cbifv : Int) :
    IfmiscReturn :=
  ⟨retval, ifv, some cbifv, q.heap, q.allocated⟩

section

variable (posixMakeerror : UInt32 → Int) (sizeofIfmisc sizeofInterface : Nat)

/-- `nis_getifmisc`, once the loop has ended with a list. -/
def copyIfmisc (q : Query) (ifv : Option (Block Ifmisc)) (cbifv : Int) : Exec IfmiscReturn := do
  let addresses ← q.addresses
  let cbacquire := i32 (countAdapters 0 addresses * sizeofIfmisc)
  match ifv with
  | none => return q.result (-eagain) ifv cbacquire
  | some block =>
    if cbifv < cbacquire then return q.result (-eagain) ifv cbacquire
    else do
      let block ← copyAdapters sizeofInterface block 0 addresses
      let q ← q.freeAddresses
      return q.result 0 (some block) cbifv

/-- `nis_getifmisc`. -/
def nisGetifmisc (o : AdapterAnswers) (ifv : Option (Block Ifmisc)) (cbifv : Option Int) :
    Exec IfmiscReturn :=
  match cbifv with
  | none => return ⟨-einval, ifv, none, fun _ => .absent, 0⟩
  | some cbifv =>
    if 0 < cbifv ∧ ifv.isNone then
      return ⟨-einval, ifv, some cbifv, fun _ => .absent, 0⟩
    else do
      let (q, granted) ← queryLoop o 10 (.start o)
      if ¬ granted then return q.result (-enomem) ifv cbifv
      else if q.dwRetVal ≠ 0 then do
        let q ← q.freeAddresses
        return q.result (posixMakeerror q.dwRetVal) ifv cbifv
      else copyIfmisc sizeofIfmisc sizeofInterface q ifv cbifv

end

/-! ## What is promised -/

/-- The first `k` calls of `GetAdaptersInfo` want a larger buffer, and get one. -/
def AdapterAnswers.Enlarges (o : AdapterAnswers) (k : Nat) : Prop :=
  ∀ i < k, (o.getAdaptersInfo i).dwRetVal = errorBufferOverflow
    ∧ o.malloc i (o.getAdaptersInfo i).outBufLen = true

/-- The list that is there after `k` buffers: none is, where none was needed. -/
def AdapterAnswers.listAt (o : AdapterAnswers) : Nat → List Adapter
  | 0 => []
  | k + 1 => (o.getAdaptersInfo (k + 1)).first :: (o.getAdaptersInfo (k + 1)).next

/-- `GetAdaptersInfo` yields the list `l`, after some calls that want a larger buffer. -/
def AdapterAnswers.Yields (o : AdapterAnswers) (l : List Adapter) : Prop :=
  ∃ k ≤ 10, o.Enlarges k ∧ (o.getAdaptersInfo k).dwRetVal = 0 ∧ l = o.listAt k

/-- The entry that is to be written. -/
def Adapter.entry (a : Adapter) : Ifmisc := ⟨a.description, a.ipAddress, a.ipMask, 0⟩

/-- The caller has a buffer, and it is large enough. -/
def IfmiscFits (sizeofIfmisc : Nat) (l : List Adapter) (ifv : Option (Block Ifmisc)) (cbifv : Int) :
    Prop :=
  ifv.isSome = true ∧ (l.length * sizeofIfmisc : Int) ≤ cbifv

/-- The caller announces a size, and has no buffer. -/
def IfmiscRefused (ifv : Option (Block Ifmisc)) (cbifv : Int) : Prop :=
  0 < cbifv ∧ ifv.isNone = true

/-! ## The loop -/

section

variable {o : AdapterAnswers} {q : Query} {l : List Adapter} {k n : Nat}

/-- The list `l` is in the buffer, which is the only one that is left; or there is none. -/
def Query.Holds (q : Query) (l : List Adapter) : Prop :=
  q.pAddresses = none ∧ l = [] ∧ q.heap.Owns q.allocated none
    ∨ ∃ a, q.pAddresses = some a ∧ q.heap.Owns q.allocated (some (a, l))

theorem Query.Holds.addresses_eq (h : q.Holds l) : q.addresses = .ok l := by
  unfold addresses
  rcases h with ⟨hnull, rfl, -⟩ | ⟨a, ha, hown⟩
  · rw [hnull]
    rfl
  · rw [ha]
    show (q.heap a).get = .ok l
    rw [hown.eq_live]
    rfl

theorem Query.Holds.freeAddresses_eq (h : q.Holds l) :
    ∃ heap, q.freeAddresses = .ok { q with heap := heap } ∧ heap.Owns q.allocated none := by
  rcases h with ⟨hnull, -, hown⟩ | ⟨a, ha, hown⟩
  · refine ⟨q.heap, ?_, hown⟩
    unfold freeAddresses
    split
    next => rfl
    next a ha =>
      rw [hnull] at ha
      cases ha
  · refine ⟨Function.update q.heap a .freed, ?_, hown.free⟩
    unfold freeAddresses
    split
    next hnull =>
      rw [ha] at hnull
      cases hnull
    next b hb =>
      rw [ha] at hb
      cases hb
      rw [hown.eq_live]
      rfl

/-- The loop has been given `k` buffers, and its last call was the one after that. -/
structure QueryAt (o : AdapterAnswers) (k : Nat) (q : Query) : Prop where
  enlarged : o.Enlarges k
  dwRetVal : q.dwRetVal = (o.getAdaptersInfo k).dwRetVal
  outBufLen : q.outBufLen = (o.getAdaptersInfo k).outBufLen
  asked : q.asked = k + 1
  allocated : q.allocated = k
  holds : q.Holds (o.listAt k)

theorem QueryAt.start (o : AdapterAnswers) : QueryAt o 0 (.start o) where
  enlarged i hi := absurd hi (Nat.not_lt_zero i)
  dwRetVal := rfl
  outBufLen := rfl
  asked := rfl
  allocated := rfl
  holds := .inl ⟨rfl, rfl, .empty⟩

/-- A buffer that was too small is enlarged once more. -/
theorem AdapterAnswers.Enlarges.succ (h : o.Enlarges k)
    (hover : (o.getAdaptersInfo k).dwRetVal = errorBufferOverflow)
    (hmalloc : o.malloc k (o.getAdaptersInfo k).outBufLen = true) : o.Enlarges (k + 1) := by
  intro i hi
  rcases Nat.lt_succ_iff_lt_or_eq.mp hi with hlt | rfl
  · exact h i hlt
  · exact ⟨hover, hmalloc⟩

/-- A turn that gets its buffer. -/
theorem QueryAt.ask (hat : QueryAt o k q) {heap : Heap (List Adapter)}
    (hown : heap.Owns q.allocated none)
    (hover : (o.getAdaptersInfo k).dwRetVal = errorBufferOverflow)
    (hmalloc : o.malloc k (o.getAdaptersInfo k).outBufLen = true) :
    QueryAt o (k + 1) (({ q with heap := heap } : Query).ask (o.getAdaptersInfo q.asked)) := by
  have hanswer : o.getAdaptersInfo q.asked = o.getAdaptersInfo (k + 1) := by rw [hat.asked]
  rw [hanswer]
  refine ⟨hat.enlarged.succ hover hmalloc, rfl, rfl, ?_, ?_, .inr ⟨q.allocated, rfl, hown.alloc _⟩⟩
  · show q.asked + 1 = k + 1 + 1
    rw [hat.asked]
  · show q.allocated + 1 = k + 1
    rw [hat.allocated]

/-- How the loop ends. -/
inductive QueryEnds (o : AdapterAnswers) : Query → Bool → Prop
  | answered (k : Nat) (q : Query) (hk : k ≤ 10) (hat : QueryAt o k q)
      (hlast : (o.getAdaptersInfo k).dwRetVal = errorBufferOverflow → k = 10) : QueryEnds o q true
  | starved (k : Nat) (q : Query) (hown : q.heap.Owns q.allocated none) (henl : o.Enlarges k)
      (hover : (o.getAdaptersInfo k).dwRetVal = errorBufferOverflow)
      (hmalloc : o.malloc k (o.getAdaptersInfo k).outBufLen = false) : QueryEnds o q false

/-- The loop ends, with all buffers freed but the one it has. -/
theorem queryLoop_ends (hat : QueryAt o k q) (hk : k + n = 10) :
    ∃ q' granted, queryLoop o n q = .ok (q', granted) ∧ QueryEnds o q' granted := by
  induction n generalizing k q with
  | zero => exact ⟨q, true, rfl, .answered k q (by omega) hat fun _ => hk⟩
  | succ n ih =>
    unfold queryLoop
    by_cases hover : q.dwRetVal = errorBufferOverflow
    · rw [if_neg (not_not.mpr hover)]
      obtain ⟨heap, hfree, hown⟩ := hat.holds.freeAddresses_eq
      rw [hfree, ok_bind]
      have hover' := hat.dwRetVal.symm.trans hover
      by_cases hmalloc : o.malloc q.allocated q.outBufLen = true
      · rw [if_pos hmalloc]
        rw [hat.allocated, hat.outBufLen] at hmalloc
        exact ih (hat.ask hown hover' hmalloc) (by omega)
      · rw [if_neg hmalloc]
        rw [hat.allocated, hat.outBufLen, Bool.not_eq_true] at hmalloc
        exact ⟨_, false, rfl, .starved k _ hown hat.enlarged hover' hmalloc⟩
    · rw [if_pos hover]
      refine ⟨q, true, rfl, .answered k q (by omega) hat fun hover' => ?_⟩
      exact absurd (hat.dwRetVal.trans hover') hover

/-- Where a list is yielded, that is what the loop ends with. -/
theorem QueryEnds.of_yields {granted : Bool} (h : QueryEnds o q granted) (hl : o.Yields l) :
    granted = true ∧ q.dwRetVal = 0 ∧ q.Holds l := by
  obtain ⟨m, hm, henl, hzero, rfl⟩ := hl
  have hnot : ∀ {i}, (o.getAdaptersInfo i).dwRetVal = errorBufferOverflow → i ≠ m := by
    rintro i hover rfl
    rw [hzero] at hover
    exact absurd hover (by decide)
  cases h with
  | answered k q hk hat hlast =>
    have hkm : k = m := by
      rcases Nat.lt_trichotomy k m with hlt | heq | hlt
      · have hten := hlast (henl k hlt).1
        omega
      · exact heq
      · exact absurd rfl (hnot (hat.enlarged m hlt).1)
    subst hkm
    exact ⟨rfl, hat.dwRetVal.trans hzero, hat.holds⟩
  | starved k q hown henl' hover hmalloc =>
    rcases Nat.lt_trichotomy k m with hlt | heq | hlt
    · have hgranted := (henl k hlt).2
      rw [hmalloc] at hgranted
      cases hgranted
    · exact absurd heq (hnot hover)
    · exact absurd rfl (hnot (henl' m hlt).1)

/-- And only there it ends with a list. -/
theorem QueryEnds.yields (h : QueryEnds o q true) (hzero : q.dwRetVal = 0) :
    ∃ l, o.Yields l ∧ q.Holds l := by
  cases h with
  | answered k q hk hat hlast =>
    exact ⟨o.listAt k, ⟨k, hk, hat.enlarged, hat.dwRetVal.symm.trans hzero, rfl⟩, hat.holds⟩

end

/-! ## The traversals -/

section

variable {l : List Adapter} {i : Int} {n sizeofInterface : Nat} {b : Block Ifmisc}

/-- The first traversal counts the list. -/
theorem countAdapters_eq (hi : 0 ≤ i) (hl : i + l.length < 2147483648) :
    countAdapters i l = i + l.length := by
  induction l generalizing i with
  | nil =>
    show i = i + 0
    rw [add_zero]
  | cons a next ih =>
    rw [List.length_cons, Nat.cast_add, Nat.cast_one] at hl
    have hnext : i32 (i + 1) = i + 1 := i32_of_bounds (by omega) (by omega)
    rw [countAdapters, hnext, ih (by omega) (by omega), List.length_cons, Nat.cast_add,
      Nat.cast_one]
    omega

/-- A name that leaves room for two more characters is copied. -/
theorem ifmiscOf_eq {a : Adapter} (ha : a.description.length + 1 < sizeofInterface) :
    ifmiscOf sizeofInterface a = .ok a.entry := by
  have hmin : min (sizeofInterface - 1) a.description.length = a.description.length := by omega
  unfold ifmiscOf strncpyS
  rw [hmin, if_pos (by omega), List.take_length]
  rfl

/-- A longer one stops the process. -/
theorem ifmiscOf_stops {a : Adapter} (ha : sizeofInterface ≤ a.description.length + 1) :
    ifmiscOf sizeofInterface a = .error .assertion := by
  have hmin : min (sizeofInterface - 1) a.description.length = sizeofInterface - 1 := by omega
  unfold ifmiscOf strncpyS
  rw [hmin, if_neg (Nat.lt_irrefl _)]
  rfl

/-- The second traversal writes the entries, in order, behind those that are there. -/
theorem copyAdapters_eq (hnames : ∀ a ∈ l, a.description.length + 1 < sizeofInterface)
    (hroom : n + l.length ≤ b.size) (hsmall : n + l.length < 2147483648) :
    ∃ b', copyAdapters sizeofInterface b n l = .ok b' ∧ b'.size = b.size
      ∧ b'.read 0 (n + l.length) = b.read 0 n ++ l.map Adapter.entry
      ∧ ∀ j, n + l.length ≤ j → b'.cell j = b.cell j := by
  induction l generalizing n b with
  | nil => exact ⟨b, rfl, rfl, (List.append_nil _).symm, fun _ _ => rfl⟩
  | cons a next ih =>
    rw [List.length_cons] at hroom hsmall
    have hstore : b.store n [a.entry] = .ok (b.write n [a.entry]) :=
      Block.store_eq_ok (by rw [List.length_singleton]; omega)
    have hturn : i32 ((n : Int) + 1) = ((n + 1 : Nat) : Int) := by
      rw [i32_of_bounds (by omega) (by omega)]
      rfl
    obtain ⟨b', hcopy, hsize, hread, hafter⟩ := ih (n := n + 1) (b := b.write n [a.entry])
      (fun a' ha' => hnames a' (List.mem_cons_of_mem a ha')) (by rw [Block.size_write]; omega)
      (by omega)
    have hlength : n + (a :: next).length = n + 1 + next.length := by
      rw [List.length_cons]
      omega
    refine ⟨b', ?_, hsize, ?_, fun j hj => ?_⟩
    · rw [copyAdapters, ifmiscOf_eq (hnames a List.mem_cons_self), ok_bind, hstore, ok_bind, hturn]
      exact hcopy
    · have hfirst : (b.write n [a.entry]).read 0 (n + 1) = b.read 0 n ++ [a.entry] :=
        Block.read_write_extend b n [a.entry]
      rw [hlength, hread, hfirst, List.append_assoc]
      rfl
    · rw [hafter j (by omega)]
      have hbehind : ¬ j < n := by omega
      have hnone : [a.entry][j - n]? = none :=
        List.getElem?_eq_none (by rw [List.length_singleton]; omega)
      simp only [Block.write, if_neg hbehind, hnone, Option.getD_none]

/-- The second traversal uses no buffer that was freed. -/
theorem copyAdapters_safe :
    LifetimeSafe (fun _ => True) (copyAdapters sizeofInterface b i l) := by
  induction l generalizing i b with
  | nil => exact trivial
  | cons a next ih =>
    refine LifetimeSafe.bind (P := fun _ => True) ?_ fun entry _ =>
      LifetimeSafe.bind (P := fun _ => True) ?_ fun b' _ => ih
    · by_cases ha : a.description.length + 1 < sizeofInterface
      · rw [ifmiscOf_eq ha]
        exact trivial
      · rw [ifmiscOf_stops (not_lt.mp ha)]
        exact ⟨by decide, by decide⟩
    · unfold Block.store
      split
      · exact trivial
      · exact ⟨by decide, by decide⟩

end

/-! ## The call -/

section

variable {posixMakeerror : UInt32 → Int} {sizeofIfmisc sizeofInterface : Nat} {o : AdapterAnswers}
  {q : Query} {l : List Adapter} {ifv : Option (Block Ifmisc)} {cbifv : Int}

/-- What is promised of a call on the list `l`: it writes the entries, it refuses, or it tells the
size, with which the next call on the same list succeeds. -/
structure IfmiscKept (posixMakeerror : UInt32 → Int) (sizeofIfmisc sizeofInterface : Nat)
    (l : List Adapter) (ifv : Option (Block Ifmisc)) (cbifv : Int) (r : IfmiscReturn) : Prop where
  succeeds : r.retval = 0 ↔ IfmiscFits sizeofIfmisc l ifv cbifv
  written : IfmiscFits sizeofIfmisc l ifv cbifv → r.cbifv = some cbifv
    ∧ ∃ b b', ifv = some b ∧ r.ifv = some b' ∧ b'.size = b.size
      ∧ b'.read 0 l.length = l.map Adapter.entry ∧ ∀ j, l.length ≤ j → b'.cell j = b.cell j
  refused : IfmiscRefused ifv cbifv → r.retval = -einval ∧ r.cbifv = some cbifv
  sized : ¬ IfmiscFits sizeofIfmisc l ifv cbifv → ¬ IfmiscRefused ifv cbifv →
    r.retval = -eagain ∧ r.cbifv = some (l.length * sizeofIfmisc)
  retried : ¬ IfmiscFits sizeofIfmisc l ifv cbifv → ¬ IfmiscRefused ifv cbifv →
    ∀ (o : AdapterAnswers) (b : Block Ifmisc), o.Yields l → l.length ≤ b.size →
      ∃ r', nisGetifmisc posixMakeerror sizeofIfmisc sizeofInterface o (some b) r.cbifv = .ok r'
        ∧ r'.retval = 0
  untouched : ¬ IfmiscFits sizeofIfmisc l ifv cbifv → r.ifv = ifv

/-- Where no size is to be told, nothing is left of what a call allocated. -/
def IfmiscFreed (sizeofIfmisc : Nat) (o : AdapterAnswers) (ifv : Option (Block Ifmisc))
    (cbifv : Option Int) (r : IfmiscReturn) : Prop :=
  (∀ l n, o.Yields l → cbifv = some n → l.length * sizeofIfmisc < 2147483648
      ∧ (IfmiscFits sizeofIfmisc l ifv n ∨ IfmiscRefused ifv n)) →
    r.heap.Owns r.allocated none

/-- The size of a list that an `int` can hold. -/
theorem cbacquire_eq (hsize : 0 < sizeofIfmisc)
    (hneed : l.length * sizeofIfmisc < 2147483648) :
    i32 (countAdapters 0 l * sizeofIfmisc) = l.length * sizeofIfmisc := by
  have hle : l.length ≤ l.length * sizeofIfmisc := Nat.le_mul_of_pos_right _ hsize
  rw [countAdapters_eq le_rfl (by omega), zero_add, ← Nat.cast_mul]
  exact i32_of_bounds (by omega) (by omega)

/-- The call with a buffer that is large enough. -/
theorem copyIfmisc_fits (hsize : 0 < sizeofIfmisc) (hq : q.Holds l)
    (hneed : l.length * sizeofIfmisc < 2147483648)
    (hnames : ∀ a ∈ l, a.description.length + 1 < sizeofInterface) {b : Block Ifmisc}
    (hroom : l.length ≤ b.size) (hfits : (l.length * sizeofIfmisc : Int) ≤ cbifv) :
    ∃ b' heap, copyIfmisc sizeofIfmisc sizeofInterface q (some b) cbifv
        = .ok ⟨0, some b', some cbifv, heap, q.allocated⟩
      ∧ heap.Owns q.allocated none ∧ b'.size = b.size
      ∧ b'.read 0 l.length = l.map Adapter.entry ∧ ∀ j, l.length ≤ j → b'.cell j = b.cell j := by
  have hle : l.length ≤ l.length * sizeofIfmisc := Nat.le_mul_of_pos_right _ hsize
  obtain ⟨b', hcopy, hsame, hread, hafter⟩ := copyAdapters_eq (n := 0) (b := b) hnames (by omega)
    (by omega)
  obtain ⟨heap, hfree, hown⟩ := hq.freeAddresses_eq
  rw [Nat.zero_add] at hread hafter
  refine ⟨b', heap, ?_, hown, hsame, hread, hafter⟩
  have hcopy : copyAdapters sizeofInterface b 0 l = .ok b' := hcopy
  unfold copyIfmisc
  rw [hq.addresses_eq, ok_bind]
  dsimp only
  rw [cbacquire_eq hsize hneed, if_neg (not_lt.mpr hfits), hcopy, ok_bind, hfree]
  rfl

/-- The call without one. -/
theorem copyIfmisc_sized (sizeofInterface : Nat) (hsize : 0 < sizeofIfmisc) (hq : q.Holds l)
    (hneed : l.length * sizeofIfmisc < 2147483648)
    (hno : ¬ IfmiscFits sizeofIfmisc l ifv cbifv) :
    copyIfmisc sizeofIfmisc sizeofInterface q ifv cbifv
      = .ok (q.result (-eagain) ifv (l.length * sizeofIfmisc)) := by
  unfold copyIfmisc
  rw [hq.addresses_eq, ok_bind]
  dsimp only
  rw [cbacquire_eq hsize hneed]
  cases ifv with
  | none => rfl
  | some b =>
    have hless : cbifv < l.length * sizeofIfmisc := not_le.mp fun hle => hno ⟨rfl, hle⟩
    exact if_pos hless

/-- A call that is not refused comes to the list. -/
theorem nisGetifmisc_of_yields (posixMakeerror : UInt32 → Int) (sizeofIfmisc sizeofInterface : Nat)
    (hl : o.Yields l) (hno : ¬ IfmiscRefused ifv cbifv) :
    ∃ q : Query, q.Holds l ∧ nisGetifmisc posixMakeerror sizeofIfmisc sizeofInterface o ifv
      (some cbifv)
      = copyIfmisc sizeofIfmisc sizeofInterface q ifv cbifv := by
  obtain ⟨q, granted, hloop, hends⟩ := queryLoop_ends (n := 10) (.start o) rfl
  obtain ⟨rfl, hzero, hq⟩ := hends.of_yields hl
  refine ⟨q, hq, ?_⟩
  unfold nisGetifmisc
  dsimp only
  rw [if_neg (show ¬ (0 < cbifv ∧ ifv.isNone = true) from hno), hloop, ok_bind]
  dsimp only
  rw [if_neg (by decide), if_neg (not_not.mpr hzero)]

/-- A call without a pointer for the size is refused. -/
theorem nisGetifmisc_refused (h : IfmiscRefused ifv cbifv) :
    nisGetifmisc posixMakeerror sizeofIfmisc sizeofInterface o ifv (some cbifv)
      = .ok ⟨-einval, ifv, some cbifv, fun _ => .absent, 0⟩ := by
  unfold nisGetifmisc
  dsimp only
  rw [if_pos (show 0 < cbifv ∧ ifv.isNone = true from h)]
  rfl

/-- What a call on a list comes to. -/
theorem nisGetifmisc_kept (hsize : 0 < sizeofIfmisc) (hl : o.Yields l)
    (hneed : l.length * sizeofIfmisc < 2147483648)
    (hnames : ∀ a ∈ l, a.description.length + 1 < sizeofInterface)
    (hbuffer : ∀ b, ifv = some b → cbifv < (b.size + 1) * sizeofIfmisc) :
    ∃ r, nisGetifmisc posixMakeerror sizeofIfmisc sizeofInterface o ifv (some cbifv) = .ok r
      ∧ IfmiscKept posixMakeerror sizeofIfmisc sizeofInterface l ifv cbifv r := by
  by_cases hrefused : IfmiscRefused ifv cbifv
  · -- a size without a buffer
    have hno : ¬ IfmiscFits sizeofIfmisc l ifv cbifv := by
      rintro ⟨hsome, -⟩
      rw [Option.isNone_iff_eq_none.mp hrefused.2] at hsome
      cases hsome
    refine ⟨_, nisGetifmisc_refused hrefused, ?_⟩
    exact {
      succeeds := iff_of_false (show -einval ≠ 0 by decide) hno
      written := fun h => absurd h hno
      refused := fun _ => ⟨rfl, rfl⟩
      sized := fun _ h => absurd hrefused h
      retried := fun _ h => absurd hrefused h
      untouched := fun _ => rfl }
  obtain ⟨q, hq, heq⟩ :=
    nisGetifmisc_of_yields posixMakeerror sizeofIfmisc sizeofInterface hl hrefused
  by_cases hfits : IfmiscFits sizeofIfmisc l ifv cbifv
  · -- the entries are written
    obtain ⟨b, rfl⟩ := Option.isSome_iff_exists.mp hfits.1
    have hroom : l.length ≤ b.size := by
      by_contra hmore
      have hle : (b.size + 1) * sizeofIfmisc ≤ l.length * sizeofIfmisc :=
        Nat.mul_le_mul_right _ (by omega)
      have hcbifv := hbuffer b rfl
      have hneeded := hfits.2
      have hcast : ((b.size : Int) + 1) * sizeofIfmisc ≤ l.length * sizeofIfmisc := by
        exact_mod_cast hle
      omega
    obtain ⟨b', heap, hcopy, -, hsame, hread, hafter⟩ := copyIfmisc_fits hsize hq hneed hnames hroom
      hfits.2
    refine ⟨_, heq.trans hcopy, ?_⟩
    exact {
      succeeds := iff_of_true rfl hfits
      written := fun _ => ⟨rfl, b, b', rfl, rfl, hsame, hread, hafter⟩
      refused := fun h => absurd h hrefused
      sized := fun h => absurd hfits h
      retried := fun h => absurd hfits h
      untouched := fun h => absurd hfits h }
  · -- the size is told
    have hsized := copyIfmisc_sized sizeofInterface hsize hq hneed hfits
    -- the next call, with the size it was told
    have hretried : ∀ (o' : AdapterAnswers) (b : Block Ifmisc), o'.Yields l → l.length ≤ b.size →
        ∃ r', nisGetifmisc posixMakeerror sizeofIfmisc sizeofInterface o' (some b)
          (some (l.length * sizeofIfmisc)) = .ok r' ∧ r'.retval = 0 := by
      intro o' b hl' hroom
      have hno : ¬ IfmiscRefused (some b) (l.length * sizeofIfmisc : Int) := by
        rintro ⟨-, hnone⟩
        cases hnone
      obtain ⟨q', hq', heq'⟩ :=
        nisGetifmisc_of_yields posixMakeerror sizeofIfmisc sizeofInterface hl' hno
      obtain ⟨b', heap, hcopy, -⟩ := copyIfmisc_fits hsize hq' hneed hnames hroom le_rfl
      exact ⟨_, heq'.trans hcopy, rfl⟩
    refine ⟨_, heq.trans hsized, ?_⟩
    exact {
      succeeds := iff_of_false (show -eagain ≠ 0 by decide) hfits
      written := fun h => absurd h hfits
      refused := fun h => absurd h hrefused
      sized := fun _ _ => ⟨rfl, rfl⟩
      retried := fun _ _ => hretried
      untouched := fun _ => rfl }

/-- The traversals free the buffer, unless they tell the size. -/
theorem copyIfmisc_freed (hsize : 0 < sizeofIfmisc) (hl : o.Yields l) (hq : q.Holds l)
    (hno : ¬ IfmiscRefused ifv cbifv) :
    LifetimeSafe (IfmiscFreed sizeofIfmisc o ifv (some cbifv))
      (copyIfmisc sizeofIfmisc sizeofInterface q ifv cbifv) := by
  -- where the buffer is kept, no promise was made
  have hkept : ¬ (IfmiscFits sizeofIfmisc l ifv cbifv ∧ l.length * sizeofIfmisc < 2147483648) →
      ∀ r, IfmiscFreed sizeofIfmisc o ifv (some cbifv) r := by
    intro hunfit r hall
    obtain ⟨hneed, hfits | hrefused⟩ := hall l cbifv hl rfl
    · exact absurd ⟨hfits, hneed⟩ hunfit
    · exact absurd hrefused hno
  unfold copyIfmisc
  rw [hq.addresses_eq, ok_bind]
  dsimp only
  cases ifv with
  | none =>
    refine hkept ?_ _
    rintro ⟨⟨hsome, -⟩, -⟩
    cases hsome
  | some b =>
    dsimp only
    by_cases hless : cbifv < i32 (countAdapters 0 l * sizeofIfmisc)
    · rw [if_pos hless]
      refine hkept ?_ _
      rintro ⟨hfits, hneed⟩
      rw [cbacquire_eq hsize hneed] at hless
      exact absurd hfits.2 (not_le.mpr hless)
    · rw [if_neg hless]
      obtain ⟨heap, hfree, hown⟩ := hq.freeAddresses_eq
      refine copyAdapters_safe.bind fun b' _ => ?_
      rw [hfree]
      exact fun _ => hown

/-- What every call, with whatever answers, leaves of its buffers. -/
theorem nisGetifmisc_freed (hsize : 0 < sizeofIfmisc) (o : AdapterAnswers)
    (ifv : Option (Block Ifmisc)) (cbifv : Option Int) :
    LifetimeSafe (IfmiscFreed sizeofIfmisc o ifv cbifv)
      (nisGetifmisc posixMakeerror sizeofIfmisc sizeofInterface o ifv cbifv) := by
  cases cbifv with
  | none => exact fun _ => .empty
  | some cbifv =>
    by_cases hrefused : IfmiscRefused ifv cbifv
    · rw [nisGetifmisc_refused hrefused]
      exact fun _ => .empty
    obtain ⟨q, granted, hloop, hends⟩ := queryLoop_ends (n := 10) (.start o) rfl
    unfold nisGetifmisc
    dsimp only
    rw [if_neg (show ¬ (0 < cbifv ∧ ifv.isNone = true) from hrefused), hloop, ok_bind]
    dsimp only
    cases granted with
    -- no memory for a larger buffer: the smaller one is freed
    | false =>
      rw [if_pos Bool.false_ne_true]
      cases hends with
      | starved k _ hown => exact fun _ => hown
    | true =>
      rw [if_neg (not_not.mpr rfl)]
      by_cases hzero : q.dwRetVal = 0
      · rw [if_neg (not_not.mpr hzero)]
        obtain ⟨l, hl, hq⟩ := hends.yields hzero
        exact copyIfmisc_freed hsize hl hq hrefused
      · -- the last answer is an error
        rw [if_pos hzero]
        cases hends with
        | answered k _ hk hat hlast =>
          obtain ⟨heap, hfree, hown⟩ := hat.holds.freeAddresses_eq
          rw [hfree]
          exact fun _ => hown

/-- **The list of interfaces in two calls.** On every list that the system yields, whose size an
`int` can hold and whose names have room for two more characters: the call writes the entries and
returns 0 if and only if the buffer is there and large enough, refuses a size without a buffer, and
otherwise tells the size, with which the next call succeeds. And every call, whatever it is
answered, frees each of its buffers once, unless it tells the size. -/
theorem nisGetifmisc_spec (posixMakeerror : UInt32 → Int) (sizeofIfmisc sizeofInterface : Nat)
    (ifv : Option (Block Ifmisc)) (cbifv : Int) (hsize : 0 < sizeofIfmisc) (hl : o.Yields l)
    (hneed : l.length * sizeofIfmisc < 2147483648)
    (hnames : ∀ a ∈ l, a.description.length + 1 < sizeofInterface)
    (hbuffer : ∀ b, ifv = some b → cbifv < (b.size + 1) * sizeofIfmisc) :
    (∃ r, nisGetifmisc posixMakeerror sizeofIfmisc sizeofInterface o ifv (some cbifv) = .ok r
      ∧ IfmiscKept posixMakeerror sizeofIfmisc sizeofInterface l ifv cbifv r)
    ∧ ∀ (o : AdapterAnswers) (ifv : Option (Block Ifmisc)) (cbifv : Option Int),
        LifetimeSafe (IfmiscFreed sizeofIfmisc o ifv cbifv)
          (nisGetifmisc posixMakeerror sizeofIfmisc sizeofInterface o ifv cbifv) :=
  ⟨nisGetifmisc_kept hsize hl hneed hnames hbuffer, nisGetifmisc_freed hsize⟩

end

/-! ## One adapter -/

/-- A system with one adapter of this name. -/
def oneAdapter (description : List Byte) : AdapterAnswers where
  getAdaptersInfo i := ⟨if i = 0 then errorBufferOverflow else 0, 704, ⟨description, 1, 255⟩, []⟩
  malloc _ _ := true

/-- A buffer of some entries. -/
def ifmiscBuffer (size : Nat) : Block Ifmisc := ⟨size, fun _ => ⟨[], 0, 0, 0⟩⟩

theorem oneAdapter_yields (description : List Byte) :
    (oneAdapter description).Yields [⟨description, 1, 255⟩] := by
  refine ⟨1, by decide, fun i hi => ?_, rfl, rfl⟩
  obtain rfl : i = 0 := by omega
  exact ⟨rfl, rfl⟩

/-- It yields no other list. -/
theorem eq_of_oneAdapter_yields {description : List Byte} {l : List Adapter}
    (hl : (oneAdapter description).Yields l) : l = [⟨description, 1, 255⟩] := by
  obtain ⟨k, -, henl, hzero, rfl⟩ := hl
  match k with
  | 0 => exact absurd hzero (show errorBufferOverflow ≠ 0 by decide)
  | 1 => rfl
  | k + 2 => exact absurd (henl 1 (by omega)).1 (show (0 : UInt32) ≠ 111 by decide)

/-- A call with room for one entry, of 76 bytes: it is written, and the buffer of the call freed. -/
theorem nisGetifmisc_spec_one : ∃ r b', nisGetifmisc (fun _ => 1) 76 64 (oneAdapter [101])
      (some (ifmiscBuffer 1)) (some 80) = .ok r
    ∧ r.retval = 0 ∧ r.ifv = some b' ∧ b'.read 0 1 = [⟨[101], 1, 255, 0⟩]
    ∧ r.heap.Owns r.allocated none := by
  have hfits : IfmiscFits 76 [⟨[101], 1, 255⟩] (some (ifmiscBuffer 1)) 80 := ⟨rfl, by decide⟩
  obtain ⟨⟨r, hrun, hkept⟩, hfreed⟩ := nisGetifmisc_spec (fun _ => 1) 76 64
    (some (ifmiscBuffer 1)) 80 (by decide) (oneAdapter_yields [101]) (by decide) (by decide)
    (fun b hb => by cases hb; decide)
  obtain ⟨-, b, b', -, hb', -, hread, -⟩ := hkept.written hfits
  refine ⟨r, b', hrun, hkept.succeeds.mpr hfits, hb', hread, ?_⟩
  refine (hfreed _ _ _).of_ok hrun fun l n hl hn => ?_
  cases hn
  rw [eq_of_oneAdapter_yields hl]
  exact ⟨by decide, .inl hfits⟩

/-- The protocol to the letter, on the list `l`. -/
def IfmiscStrict (sizeofIfmisc sizeofInterface : Nat) (o : AdapterAnswers) (l : List Adapter)
    (ifv : Option (Block Ifmisc)) (cbifv : Int) : Prop :=
  o.Yields l → ∀ posixMakeerror : UInt32 → Int,
    ∃ r, nisGetifmisc posixMakeerror sizeofIfmisc sizeofInterface o ifv (some cbifv) = .ok r
      ∧ (r.retval = 0 ↔ IfmiscFits sizeofIfmisc l ifv cbifv)
      ∧ (r.retval ≠ 0 → r.retval = -eagain ∧ r.cbifv = some (l.length * sizeofIfmisc))
      ∧ r.heap.Owns r.allocated none

/-- A size without a buffer is refused, a buffer that is too small leaves that of the call
allocated, and a name of 63 characters does not fit in 64. -/
theorem nisGetifmisc_fails :
    ¬ IfmiscStrict 76 64 (oneAdapter [101]) [⟨[101], 1, 255⟩] none 4
    ∧ ¬ IfmiscStrict 76 64 (oneAdapter [101]) [⟨[101], 1, 255⟩] (some (ifmiscBuffer 0)) 0
    ∧ ¬ IfmiscStrict 76 64 (oneAdapter (List.replicate 63 101))
        [⟨List.replicate 63 101, 1, 255⟩] (some (ifmiscBuffer 1)) 76 := by
  refine ⟨fun h => ?_, fun h => ?_, fun h => ?_⟩
  · obtain ⟨r, hrun, -, hsized, -⟩ := h (oneAdapter_yields _) fun _ => 1
    rw [nisGetifmisc_refused ⟨by decide, rfl⟩] at hrun
    cases hrun
    exact absurd (hsized (by decide)).1 (by decide)
  · obtain ⟨r, hrun, -, -, hown⟩ := h (oneAdapter_yields _) fun _ => 1
    have htold : nisGetifmisc (fun _ => 1) 76 64 (oneAdapter [101]) (some (ifmiscBuffer 0)) (some 0)
        = .ok ⟨-eagain, some (ifmiscBuffer 0), some 76,
          Function.update (fun _ => .absent) 0 (.live [⟨[101], 1, 255⟩]), 1⟩ := rfl
    rw [htold] at hrun
    cases hrun
    exact hown.dead 0
  · obtain ⟨r, hrun, -⟩ := h (oneAdapter_yields _) fun _ => 1
    have hstops : nisGetifmisc (fun _ => 1) 76 64 (oneAdapter (List.replicate 63 101))
        (some (ifmiscBuffer 1)) (some 76) = .error .assertion := rfl
    rw [hstops] at hrun
    cases hrun

end Swnet
