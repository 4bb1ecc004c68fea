import Swnet.Packet

/-!
# Swnet — groups of datagrams (`udp.c`, `packet.c`)

`udp_initialize_grp` allocates the buffers of a group, `udp_write_grp` sends the group in one
call, and `udp_release_grp` frees the buffers. `MTU` is defined by `nis.h` and stays a parameter.
The `Length` of an item is an integer of any sign: `malloc` is never granted a negative one.

* `grpKept_iff` — when `udp_initialize_grp` is all or nothing;
* `grp_frees_foreign` — a length that is too large, on an item that was used before;
* `writeGrpKept_iff` — when `udp_write_grp` reports success only for what was sent;
* `write_grp_unsent` — no memory for the elements: success, and nothing is sent.

The first loop is followed by induction on the items: a prefix got its blocks, and the loop stopped
at the first item that did not (`fillGrp_spec`). The second frees what is recorded in the items, and
in those the loop did not reach that is whatever the caller left there. A group that failed is as
promised exactly when these are empty.
-/

namespace Swnet

/-! ## The buffers of a group -/

/-- An item of a `packet_grp_t`; a pointer is an address. -/
structure GrpItem where
  data : Option Nat
  length : Int
  deriving DecidableEq

/-- The memory of a call: whether its `malloc`s are granted, one after the other, the address of
the next block, and the blocks it has allocated and freed. -/
structure GrpMem where
  granted : Nat → Bool
  asked : Nat
  next : Nat
  allocs : List (Nat × Int)
  frees : List Nat

namespace GrpMem

def malloc (m : GrpMem) (length : Int) : Option Nat × GrpMem :=
  if 0 ≤ length ∧ m.granted m.asked then
    (some m.next, { m with
      asked := m.asked + 1
      next := m.next + 1
      allocs := m.allocs ++ [(m.next, length)] })
  else (none, { m with asked := m.asked + 1 })

def free (m : GrpMem) (a : Nat) : GrpMem := { m with frees := m.frees ++ [a] }

def start (granted : Nat → Bool) (next : Nat) : GrpMem := ⟨granted, 0, next, [], []⟩

end GrpMem

section

variable (mtu : Int)

/-- `( 0 == Length ) || ( Length > MTU )`. -/
def badLength (length : Int) : Prop := length = 0 ∨ mtu < length

instance (length : Int) : Decidable (badLength mtu length) := inferInstanceAs (Decidable (_ ∨ _))

/-- The loop of `udp_initialize_grp` that allocates, and whether it came to the end. -/
def fillGrp (m : GrpMem) : List GrpItem → List GrpItem × GrpMem × Bool
  | [] => ([], m, true)
  | it :: rest =>
    if badLength mtu it.length then (it :: rest, m, false)
    else match m.malloc it.length with
      | (none, m) => ({ it with data := none } :: rest, m, false)
      | (some a, m) =>
        let (rest, m, full) := fillGrp m rest
        ({ it with data := some a } :: rest, m, full)

/-- The loop that frees, of `udp_initialize_grp` and of `udp_release_grp`. -/
def freeGrp (m : GrpMem) : List GrpItem → List GrpItem × GrpMem
  | [] => ([], m)
  | it :: rest =>
    match it.data with
    | none => (it :: rest, m)
    | some a =>
      let (rest, m) := freeGrp (m.free a) rest
      ({ it with data := none } :: rest, m)

/-- `udp_initialize_grp`. `prefr` is the answer of `udprefr`, `connected` the flag of the link. -/
def udpInitializeGrp (prefr connected : Int) (m : GrpMem) (grp : Option (List GrpItem)) :
    Int × Option (List GrpItem) × GrpMem :=
  match grp with
  | none => (-1, none, m)
  | some items =>
    if items.length ≤ 0 then (-1, some items, m)
    else if prefr < 0 then (-1, some items, m)
    else if connected = 0 then (-1, some items, m)
    else match fillGrp mtu m items with
      | (items, m, true) => (0, some items, m)
      | (items, m, false) =>
        let (items, m) := freeGrp m items
        (-1, some items, m)

end

/-- `udp_release_grp`. -/
def udpReleaseGrp (m : GrpMem) (grp : Option (List GrpItem)) : Option (List GrpItem) × GrpMem :=
  match grp with
  | none => (none, m)
  | some items =>
    if items.length ≤ 0 then (some items, m)
    else
      let (items, m) := freeGrp m items
      (some items, m)

/-! ## All or nothing -/

/-- The items with new blocks, from the address `a` on. -/
def filledGrp : Nat → List GrpItem → List GrpItem
  | _, [] => []
  | a, it :: rest => { it with data := some a } :: filledGrp (a + 1) rest

/-- The blocks of these items. -/
def blocksGrp : Nat → List GrpItem → List (Nat × Int)
  | _, [] => []
  | a, it :: rest => (a, it.length) :: blocksGrp (a + 1) rest

/-- What a call for `items` on a pseudo-connected link comes to, when it leaves `items'` and the
memory `m`: with every length in range and every allocation granted, each item has a new block of
its length, and releasing the group frees these blocks, the second time nothing. Otherwise the
blocks that were allocated have been freed, each once, nothing else has, and no item points to
one of them. -/
structure GrpOutcome (mtu : Int) (granted : Nat → Bool) (items : List GrpItem) (retval : Int)
    (items' : List GrpItem) (m : GrpMem) : Prop where
  succeeds : retval = 0 ↔ (∀ it ∈ items, 0 < it.length ∧ it.length ≤ mtu)
    ∧ ∀ i < items.length, granted i = true
  full : retval = 0 → ∃ blocks : List (Nat × Int), m.allocs = blocks ∧ m.frees = []
    ∧ (blocks.map Prod.fst).Nodup ∧ items'.map GrpItem.data = blocks.map fun b => some b.1
  lengths : items'.map GrpItem.length = items.map GrpItem.length
    ∧ (retval = 0 → m.allocs.map Prod.snd = items.map GrpItem.length)
  released : retval = 0 → ∃ items'' m', udpReleaseGrp m (some items') = (some items'', m')
    ∧ m'.frees = m.allocs.map Prod.fst ∧ udpReleaseGrp m' (some items'') = (some items'', m')
  undone : retval ≠ 0 → m.frees = m.allocs.map Prod.fst ∧ m.frees.Nodup
    ∧ ∀ it ∈ items', ∀ a, it.data = some a → a ∉ m.frees

/-- The outcome of every call for these items on a pseudo-connected link. -/
def GrpKept (mtu : Int) (granted : Nat → Bool) (next : Nat) (items : List GrpItem) : Prop :=
  items ≠ [] → ∀ prefr connected : Int, 0 ≤ prefr → connected ≠ 0 →
    ∃ retval items' m, udpInitializeGrp mtu prefr connected (.start granted next) (some items)
      = (retval, some items', m) ∧ GrpOutcome mtu granted items retval items' m

/-- An item that gets its block. -/
def GrpItem.Fills (mtu : Int) (granted : Nat → Bool) (i : Nat) (it : GrpItem) : Prop :=
  0 < it.length ∧ it.length ≤ mtu ∧ granted i = true

/-- The first item that does not get its block: if that is for its length, its `Data` is `NULL`.
And no item after it holds, by chance, the address of one of the new blocks. -/
def GrpClean (mtu : Int) (granted : Nat → Bool) (next : Nat) (items : List GrpItem) : Prop :=
  ∀ pre it rest, items = pre ++ it :: rest →
    (∀ i (h : i < pre.length), (pre[i]).Fills mtu granted i) → ¬ it.Fills mtu granted pre.length →
    (badLength mtu it.length → it.data = none)
      ∧ ∀ other ∈ rest, ∀ a, other.data = some a → ¬ (next ≤ a ∧ a < next + pre.length)

section

variable {mtu : Int} {granted : Nat → Bool} {next a : Nat} {m : GrpMem}
  {items pre post rest : List GrpItem} {it : GrpItem}

@[simp] theorem filledGrp_data (a : Nat) (items : List GrpItem) :
    (filledGrp a items).map GrpItem.data = (blocksGrp a items).map fun b => some b.1 := by
  induction items generalizing a with
  | nil => rfl
  | cons it rest ih => simp [filledGrp, blocksGrp, ih]

@[simp] theorem filledGrp_length (a : Nat) (items : List GrpItem) :
    (filledGrp a items).map GrpItem.length = items.map GrpItem.length := by
  induction items generalizing a with
  | nil => rfl
  | cons it rest ih => simp [filledGrp, ih]

@[simp] theorem blocksGrp_length (a : Nat) (items : List GrpItem) :
    (blocksGrp a items).map Prod.snd = items.map GrpItem.length := by
  induction items generalizing a with
  | nil => rfl
  | cons it rest ih => simp [blocksGrp, ih]

@[simp] theorem blocksGrp_addresses (a : Nat) (items : List GrpItem) :
    (blocksGrp a items).map Prod.fst = List.range' a items.length := by
  induction items generalizing a with
  | nil => rfl
  | cons it rest ih => simp [blocksGrp, ih, List.range'_succ]

/-- The items in front of the first that does not get its block, and the rest. -/
theorem fillGrp_spec (mtu : Int) (m : GrpMem) (items : List GrpItem) :
    ∃ pre post m' full, items = pre ++ post
      ∧ (∀ i (h : i < pre.length), (pre[i]).Fills mtu m.granted (m.asked + i))
      ∧ m'.allocs = m.allocs ++ blocksGrp m.next pre ∧ m'.frees = m.frees
      ∧ (full = true ∧ post = [] ∧ fillGrp mtu m items = (filledGrp m.next pre, m', full)
        ∨ full = false ∧ ∃ it it' rest, post = it :: rest
          ∧ ¬ it.Fills mtu m.granted (m.asked + pre.length) ∧ it'.length = it.length
          ∧ (badLength mtu it.length → it'.data = it.data)
          ∧ (¬ badLength mtu it.length → it'.data = none)
          ∧ fillGrp mtu m items = (filledGrp m.next pre ++ it' :: rest, m', full)) := by
  induction items generalizing m with
  -- every item got its block
  | nil => exact ⟨[], [], m, true, rfl, fun i h =>
      absurd h (Nat.not_lt_zero i), by simp [blocksGrp], rfl, .inl ⟨rfl, rfl, rfl⟩⟩
  | cons it rest ih =>
    have hno : ∀ i (h : i < ([] : List GrpItem).length),
        (([] : List GrpItem)[i]).Fills mtu m.granted (m.asked + i) :=
      fun i h => absurd h (Nat.not_lt_zero i)
    by_cases hbad : badLength mtu it.length
    · -- the length is out of range
      refine ⟨[], it :: rest, m, false, rfl, hno, by simp [blocksGrp], rfl, .inr ⟨rfl, it, it, rest,
        rfl, fun h => ?_, rfl, fun _ => rfl, fun h => absurd hbad h, ?_⟩⟩
      · obtain ⟨hpos, hle, -⟩ := h
        rcases hbad with h | h <;> omega
      · simp [fillGrp, hbad, filledGrp]
    -- the length is fine; the items that follow go by induction, if there is memory for this one
    · by_cases hgrant : 0 ≤ it.length ∧ m.granted m.asked = true
      · obtain ⟨pre, post, m', full, hitems, hfills, hallocs, hfrees, hcase⟩ :=
          ih (m.malloc it.length).2
        have hmalloc : m.malloc it.length = (some m.next, { m with
            asked := m.asked + 1
            next := m.next + 1
            allocs := m.allocs ++ [(m.next, it.length)] }) := by
          rw [GrpMem.malloc, if_pos hgrant]
        rw [hmalloc] at hfills hallocs hfrees hcase
        have hfirst : it.Fills mtu m.granted m.asked := by
          refine ⟨?_, ?_, hgrant.2⟩
          · have hne : it.length ≠ 0 := fun h => hbad (.inl h)
            have hpos := hgrant.1
            omega
          · exact not_lt.mp fun h => hbad (.inr h)
        have hfills' : ∀ i (h : i < (it :: pre).length),
            ((it :: pre)[i]).Fills mtu m.granted (m.asked + i) := by
          intro i h
          cases i with
          | zero => exact hfirst
          | succ i =>
            have := hfills i (by simpa using h)
            simpa [Nat.add_assoc, Nat.add_comm 1 i] using this
        refine ⟨it :: pre, post, m', full, by rw [hitems]; rfl, hfills', ?_, hfrees, ?_⟩
        · rw [hallocs]
          simp [blocksGrp]
        · rcases hcase with ⟨hfull, hpost, hrun⟩ | ⟨hfull, it₁, it', rest', hpost, hnot, hlen, hb,
            hn, hrun⟩
          · exact .inl ⟨hfull, hpost, by simp [fillGrp, hbad, hmalloc, hrun, filledGrp]⟩
          · refine .inr ⟨hfull, it₁, it', rest', hpost, ?_, hlen, hb, hn,
              by simp [fillGrp, hbad, hmalloc, hrun, filledGrp]⟩
            simpa [Nat.add_assoc, Nat.add_comm 1] using hnot
      · -- there is no memory for it
        refine ⟨[], it :: rest, { m with asked := m.asked + 1 }, false, rfl, hno,
          by simp [blocksGrp], rfl, .inr ⟨rfl, it, { it with data := none }, rest, rfl,
            fun h => ?_, rfl, fun h => absurd h hbad, fun _ => rfl, ?_⟩⟩
        · exact hgrant ⟨h.1.le, h.2.2⟩
        · simp [fillGrp, hbad, GrpMem.malloc, hgrant, filledGrp]

/-- The items without their blocks. -/
def clearedGrp (items : List GrpItem) : List GrpItem := items.map fun it => { it with data := none }

/-- The blocks that were allocated are freed, and the loop goes on behind them. -/
theorem freeGrp_filled (m : GrpMem) (a : Nat) (pre post : List GrpItem) :
    freeGrp m (filledGrp a pre ++ post)
      = (clearedGrp pre ++ (freeGrp { m with frees := m.frees ++ List.range' a pre.length } post).1,
        (freeGrp { m with frees := m.frees ++ List.range' a pre.length } post).2) := by
  induction pre generalizing m a with
  | nil => simp [filledGrp, clearedGrp]
  | cons it pre ih => simp [filledGrp, clearedGrp, freeGrp, ih, GrpMem.free, List.range'_succ]

theorem freeGrp_frees (m : GrpMem) (items : List GrpItem) :
    ∃ freed, (freeGrp m items).2.frees = m.frees ++ freed := by
  induction items generalizing m with
  | nil => exact ⟨[], by simp [freeGrp]⟩
  | cons it rest ih =>
    cases hd : it.data with
    | none => exact ⟨[], by simp [freeGrp, hd]⟩
    | some a =>
      obtain ⟨freed, hfreed⟩ := ih (m.free a)
      refine ⟨a :: freed, ?_⟩
      simp only [freeGrp, hd, hfreed]
      simp [GrpMem.free]

theorem freeGrp_allocs (m : GrpMem) (items : List GrpItem) :
    (freeGrp m items).2.allocs = m.allocs := by
  induction items generalizing m with
  | nil => rfl
  | cons it rest ih =>
    cases hd : it.data with
    | none => simp [freeGrp, hd]
    | some a => simp [freeGrp, hd, ih, GrpMem.free]

/-- Items without blocks stay as they are. -/
theorem freeGrp_cleared (m : GrpMem) (items : List GrpItem) :
    freeGrp m (clearedGrp items) = (clearedGrp items, m) := by
  cases items with
  | nil => rfl
  | cons it rest => rfl

/-- What a call on a pseudo-connected link computes. -/
theorem udpInitializeGrp_eq {prefr connected : Int} (m : GrpMem) (hitems : items ≠ [])
    (hprefr : 0 ≤ prefr) (hconn : connected ≠ 0) :
    udpInitializeGrp mtu prefr connected m (some items)
      = match fillGrp mtu m items with
        | (items, m, true) => (0, some items, m)
        | (items, m, false) => (-1, some (freeGrp m items).1, (freeGrp m items).2) := by
  have hcount : ¬ items.length ≤ 0 := by
    simpa using hitems
  simp only [udpInitializeGrp, hcount, if_false, not_lt.mpr hprefr, hconn]

/-- A call all of whose items get their blocks. -/
theorem GrpOutcome.of_full {m' : GrpMem}
    (hfills : ∀ i (h : i < items.length), (items[i]).Fills mtu granted i)
    (hallocs : m'.allocs = blocksGrp next items) (hfrees : m'.frees = []) :
    GrpOutcome mtu granted items 0 (filledGrp next items) m' where
  succeeds := by
    refine ⟨fun _ => ⟨fun it hit => ?_, fun i hi => (hfills i hi).2.2⟩, fun _ => rfl⟩
    obtain ⟨i, hi, rfl⟩ := List.mem_iff_getElem.mp hit
    exact ⟨(hfills i hi).1, (hfills i hi).2.1⟩
  full _ := ⟨_, hallocs, hfrees, by simp [List.nodup_range'], by simp⟩
  lengths := ⟨by simp, fun _ => by rw [hallocs]; simp⟩
  released _ := by
    have hfree := freeGrp_filled m' next items []
    simp only [List.append_nil, freeGrp, hfrees, List.nil_append] at hfree
    cases items with
    | nil => exact ⟨[], m', rfl, by simp [hfrees, hallocs, blocksGrp], rfl⟩
    | cons it rest =>
      refine ⟨clearedGrp (it :: rest), { m' with frees := List.range' next (it :: rest).length },
        ?_, by rw [hallocs]; simp, ?_⟩
      · have hlen : ¬ (filledGrp next (it :: rest)).length ≤ 0 := by simp [filledGrp]
        simp only [udpReleaseGrp, hlen, if_false, hfree]
      · have hlen : ¬ (clearedGrp (it :: rest)).length ≤ 0 := by simp [clearedGrp]
        simp only [udpReleaseGrp, hlen, if_false, freeGrp_cleared]
  undone h := absurd rfl h

/-- A call that stops at an item: when it undoes what it did. -/
theorem grpOutcome_stopped_iff (next : Nat) {it' : GrpItem} {m' : GrpMem}
    (hitems : items = pre ++ it :: rest)
    (hnot : ¬ it.Fills mtu granted pre.length) (hlen : it'.length = it.length)
    (hallocs : m'.allocs = blocksGrp next pre) (hfrees : m'.frees = []) :
    GrpOutcome mtu granted items (-1) (freeGrp m' (filledGrp next pre ++ it' :: rest)).1
        (freeGrp m' (filledGrp next pre ++ it' :: rest)).2
      ↔ it'.data = none
        ∧ ∀ other ∈ rest, ∀ a, other.data = some a → ¬ (next ≤ a ∧ a < next + pre.length) := by
  have hfree := freeGrp_filled m' next pre (it' :: rest)
  rw [hfrees, List.nil_append] at hfree
  cases hd : it'.data with
  | none =>
    have hstop : freeGrp { m' with frees := List.range' next pre.length } (it' :: rest)
        = (it' :: rest, { m' with frees := List.range' next pre.length }) := by
      simp [freeGrp, hd]
    rw [hfree, hstop]
    constructor
    · intro h
      refine ⟨rfl, fun other hother a ha hin => ?_⟩
      refine (h.undone (by decide)).2.2 other ?_ a ha ?_
      · exact List.mem_append_right _ (List.mem_cons_of_mem _ hother)
      · exact List.mem_range'_1.mpr hin
    · rintro ⟨-, hrest⟩
      refine ⟨?_, fun h => absurd h (by decide), ⟨?_, fun h => absurd h (by decide)⟩,
        fun h => absurd h (by decide), fun _ => ⟨?_, List.nodup_range', ?_⟩⟩
      · refine ⟨fun h => absurd h (by decide), fun ⟨hlens, hgranted⟩ => absurd ?_ hnot⟩
        have hit := hlens it (by rw [hitems]; simp)
        exact ⟨hit.1, hit.2, hgranted pre.length (by rw [hitems]; simp)⟩
      · rw [hitems]
        simp [clearedGrp, hlen]
      · simp [hallocs]
      · intro other hother a ha hin
        rcases List.mem_append.mp hother with hcleared | hcons
        · obtain ⟨it₀, -, rfl⟩ := List.mem_map.mp hcleared
          cases ha
        · rcases List.mem_cons.mp hcons with rfl | hmem
          · rw [hd] at ha
            cases ha
          · exact hrest other hmem a ha (List.mem_range'_1.mp hin)
  | some a =>
    -- a pointer that this call did not allocate is freed
    refine ⟨fun h => absurd (h.undone (by decide)).1 ?_, fun h => nomatch h.1⟩
    rw [hfree]
    let m₁ : GrpMem := { m' with frees := List.range' next pre.length }
    obtain ⟨freed, hfreed⟩ := freeGrp_frees (m₁.free a) rest
    have hrun : freeGrp m₁ (it' :: rest)
        = ({ it' with data := none } :: (freeGrp (m₁.free a) rest).1,
          (freeGrp (m₁.free a) rest).2) := by
      simp [freeGrp, hd]
    have hall : (freeGrp (m₁.free a) rest).2.allocs = blocksGrp next pre :=
      (freeGrp_allocs _ _).trans hallocs
    intro heq
    rw [hrun] at heq
    dsimp only at heq
    rw [hall, hfreed] at heq
    simpa [m₁, GrpMem.free] using congrArg List.length heq

end

theorem getElem_of_append_eq {α : Type} {l l' r r' : List α} {x y : α}
    (h : l ++ x :: r = l' ++ y :: r') (hlt : l.length < l'.length) : l'[l.length] = x := by
  have hget := congrArg (fun k => k[l.length]?) h
  simp only [List.getElem?_append_left hlt, List.getElem?_append_right (Nat.le_refl l.length),
    Nat.sub_self, List.getElem?_cons_zero, List.getElem?_eq_getElem hlt] at hget
  exact (Option.some.inj hget).symm

/-- **When `udp_initialize_grp` is all or nothing.** For every group and every pattern of failing
allocations. -/
theorem grpKept_iff (mtu : Int) (granted : Nat → Bool) (next : Nat) (items : List GrpItem) :
    GrpKept mtu granted next items ↔ GrpClean mtu granted next items := by
  obtain ⟨pre, post, m', full, hitems, hfills, hallocs, hfrees, hcase⟩ :=
    fillGrp_spec mtu (.start granted next) items
  replace hallocs : m'.allocs = blocksGrp next pre := hallocs.trans (List.nil_append _)
  replace hfrees : m'.frees = [] := hfrees
  replace hfills : ∀ i (h : i < pre.length), (pre[i]).Fills mtu granted i := by
    intro i h
    simpa [GrpMem.start] using hfills i h
  rcases hcase with ⟨rfl, rfl, hrun⟩ | ⟨rfl, it, it', rest, rfl, hnot, hlen, hbad, hgood, hrun⟩
  · -- every item got its block
    rw [List.append_nil] at hitems
    subst hitems
    refine ⟨fun _ pre it rest hitems _ hnot => ?_, fun _ hne prefr connected hprefr hconn => ?_⟩
    · subst hitems
      have hit := hfills pre.length (by simp)
      rw [List.getElem_append_right (Nat.le_refl _)] at hit
      exact absurd (by simpa using hit) hnot
    · refine ⟨_, _, _, ?_, GrpOutcome.of_full hfills hallocs hfrees⟩
      rw [udpInitializeGrp_eq _ hne hprefr hconn, hrun]
      rfl
  · replace hnot : ¬ it.Fills mtu granted pre.length := by
      simpa [GrpMem.start] using hnot
    have hne : items ≠ [] := by simp [hitems]
    have hiff := grpOutcome_stopped_iff next hitems hnot hlen hallocs hfrees
    have hstop : ∀ prefr connected : Int, 0 ≤ prefr → connected ≠ 0 →
        udpInitializeGrp mtu prefr connected (.start granted next) (some items)
          = (-1, some (freeGrp m' (filledGrp next pre ++ it' :: rest)).1,
            (freeGrp m' (filledGrp next pre ++ it' :: rest)).2) := by
      intro prefr connected hprefr hconn
      rw [udpInitializeGrp_eq _ hne hprefr hconn, hrun]
      rfl
    have hdata : it'.data = none ↔ (badLength mtu it.length → it.data = none) := by
      by_cases hb : badLength mtu it.length
      · simp [hb, hbad hb]
      · simp [hb, hgood hb]
    constructor
    · intro hkept pre₁ it₁ rest₁ hitems₁ hfills₁ hnot₁
      -- the stop is the same
      have hsame : pre₁ = pre ∧ it₁ = it ∧ rest₁ = rest := by
        have hlength : pre₁.length = pre.length := by
          by_contra hne
          rcases Nat.lt_or_gt_of_ne hne with hlt | hlt
          · refine hnot₁ ?_
            rw [← getElem_of_append_eq (hitems₁.symm.trans hitems) hlt]
            exact hfills _ hlt
          · refine hnot ?_
            rw [← getElem_of_append_eq (hitems.symm.trans hitems₁) hlt]
            exact hfills₁ _ hlt
        have happ := List.append_inj (hitems₁.symm.trans hitems) hlength
        exact ⟨happ.1, List.cons.inj happ.2⟩
      obtain ⟨rfl, rfl, rfl⟩ := hsame
      obtain ⟨retval, items', m, hret, hout⟩ := hkept hne 0 1 (by decide) (by decide)
      rw [hstop 0 1 (by decide) (by decide)] at hret
      cases hret
      exact ⟨hdata.mp (hiff.mp hout).1, (hiff.mp hout).2⟩
    · intro hclean _ prefr connected hprefr hconn
      obtain ⟨hb, hrest⟩ := hclean pre it rest hitems hfills hnot
      exact ⟨_, _, _, hstop prefr connected hprefr hconn, hiff.mpr ⟨hdata.mpr hb, hrest⟩⟩

/-- The second item is too long and was used before: its old pointer, 7, is freed. -/
theorem grp_frees_foreign :
    (udpInitializeGrp 1472 0 1 (.start (fun _ => true) 100)
        (some [⟨none, 10⟩, ⟨some 7, 2000⟩])).2.2.frees = [100, 7]
      ∧ ¬ GrpKept 1472 (fun _ => true) 100 [⟨none, 10⟩, ⟨some 7, 2000⟩] := by
  refine ⟨by decide, fun h => ?_⟩
  obtain ⟨retval, items', m, hrun, hout⟩ := h (by decide) 0 1 (by decide) (by decide)
  have hm : m.frees = [100, 7] ∧ m.allocs = [(100, 10)] ∧ retval ≠ 0 := by
    cases hrun
    decide
  have hundone := (hout.undone hm.2.2).1
  rw [hm.1, hm.2.1] at hundone
  exact absurd hundone (by decide)

/-! ## Sending a group -/

/-- `TRANSMIT_PACKETS_ELEMENT`, as far as it is filled in. -/
structure TransmitPacketsElement where
  pBuffer : Option Nat
  cLength : Int
  dwElFlags : UInt32
  deriving DecidableEq

/-- `TP_ELEMENT_MEMORY | TP_ELEMENT_EOP`. -/
def tpElementMemoryEop : UInt32 := 1 ||| 4

/-- The part of a `packet_t` that `freepkt` reads, and its own address. -/
structure GrpPacket where
  address : Nat
  pageStyle : PageStyle
  oriBuffer : Option Nat
  grpPackets : Option Nat
  grpPacketsCnt : Int

/-- `freepkt`: the blocks it frees. -/
def GrpPacket.freepkt (p : GrpPacket) : List Nat :=
  (match p.pageStyle with
    | .noAccess =>
      match p.grpPackets with
      | some elements => if 0 < p.grpPacketsCnt then [elements] else p.oriBuffer.toList
      | none => p.oriBuffer.toList
    | .nonPagedPool | .virtualHeap => p.oriBuffer.toList) ++ [p.address]

/-- The answers to a call of `udp_write_grp`: to `udprefr`, the flag of the link, the blocks for
the packet and for the elements, whether `syio_grp_send` can reference the link, whether it has
`WSATransmitPackets` or else the status of the `WSAIoctl` that looks it up, and whether the
transmission succeeds. -/
structure WriteGrp where
  prefr : Int
  connected : Int
  packet : Option Nat
  elements : Option Nat
  objrefr : Bool
  transmitPackets : Bool
  wsaIoctl : NtStatus
  transmitted : Bool

namespace WriteGrp

variable (c : WriteGrp)

/-- What a call does: the arrays it hands to `WSATransmitPackets`, and the blocks it allocates and
frees. -/
structure Log where
  transmits : List (List TransmitPacketsElement)
  allocs : List Nat
  frees : List Nat
  deriving DecidableEq

/-- `syio_grp_send`: its return value and the arrays it transmits. -/
def syioGrpSend (elements : List TransmitPacketsElement) :
    Int × List (List TransmitPacketsElement) :=
  if ¬ c.objrefr then (-1, [])
  else if ¬ c.transmitPackets ∧ ¬ ntSuccess c.wsaIoctl then (-1, [])
  else if ¬ c.transmitted then (-1, [elements])
  else (0, [elements])

/-- The element of an item. -/
def element (it : GrpItem) : TransmitPacketsElement :=
  ⟨it.data, it.length, tpElementMemoryEop⟩

/-- `udp_write_grp`. -/
def udpWriteGrp (grp : Option (List GrpItem)) : Int × Log :=
  match grp with
  | none => (-1, ⟨[], [], []⟩)
  | some items =>
    if items.length ≤ 0 then (-1, ⟨[], [], []⟩)
    else if c.prefr < 0 then (-1, ⟨[], [], []⟩)
    else if c.connected = 0 then (-1, ⟨[], [], []⟩)
    else match c.packet with
      | none => (-1, ⟨[], [], []⟩)
      | some address =>
        -- `allocate_packet` has returned 0
        let packet : GrpPacket := ⟨address, .noAccess, none, c.elements, items.length⟩
        let (retval, transmits) := match c.elements with
          | none => (0, [])
          | some _ => c.syioGrpSend (items.map element)
        (retval, ⟨transmits, address :: c.elements.toList, packet.freepkt⟩)

/-- Success is reported exactly when the whole group was handed to `WSATransmitPackets`, which
succeeded; and the blocks the call allocated are freed, each once, and no others. -/
def Kept (items : List GrpItem) : Prop :=
  (0 ≤ (c.udpWriteGrp (some items)).1 ↔
      (c.udpWriteGrp (some items)).2.transmits = [items.map element] ∧ c.transmitted = true)
    ∧ (c.udpWriteGrp (some items)).2.frees.Perm (c.udpWriteGrp (some items)).2.allocs

/-- There is memory for the elements, unless the call ends before it asks for it. -/
def Clean : Prop :=
  0 ≤ c.prefr → c.connected ≠ 0 → c.packet.isSome → c.elements.isSome

/-- The elements go out in one call, or none does. -/
theorem syioGrpSend_spec (elements : List TransmitPacketsElement) :
    0 ≤ (c.syioGrpSend elements).1 ↔
      (c.syioGrpSend elements).2 = [elements] ∧ c.transmitted = true := by
  unfold syioGrpSend
  split_ifs with h₁ h₂ h₃ <;> simp_all

/-- The packet and its elements are freed. -/
theorem freepkt_perm (address : Nat) (elements : Option Nat) (cnt : Int) (hcnt : 0 < cnt) :
    (GrpPacket.freepkt ⟨address, .noAccess, none, elements, cnt⟩).Perm
      (address :: elements.toList) := by
  cases elements with
  | none => exact List.Perm.refl _
  | some a =>
    simp only [GrpPacket.freepkt, if_pos hcnt]
    exact List.Perm.swap _ _ _

end WriteGrp

/-- **When `udp_write_grp` reports success only for a complete transmission.** For every group
that is not empty and every answer of the system. -/
theorem writeGrpKept_iff (c : WriteGrp) (items : List GrpItem) (hitems : items ≠ []) :
    c.Kept items ↔ c.Clean := by
  have hcount : ¬ items.length ≤ 0 := by simpa using hitems
  have hpos : (0 : Int) < items.length := by omega
  by_cases hprefr : c.prefr < 0
  · -- the link is closed, or is no UDP link
    refine iff_of_true ?_ fun h => absurd h (by omega)
    simp [WriteGrp.Kept, WriteGrp.udpWriteGrp, hitems, hprefr]
  by_cases hconn : c.connected = 0
  · refine iff_of_true ?_ fun _ h => absurd hconn h
    simp [WriteGrp.Kept, WriteGrp.udpWriteGrp, hitems, hprefr, hconn]
  cases hpacket : c.packet with
  | none =>
    refine iff_of_true ?_ fun _ _ h => by simp [hpacket] at h
    simp [WriteGrp.Kept, WriteGrp.udpWriteGrp, hitems, hprefr, hconn, hpacket]
  | some address =>
    have hperm := WriteGrp.freepkt_perm address c.elements items.length hpos
    cases helem : c.elements with
    | none =>
      -- success, and nothing was sent
      refine iff_of_false ?_ fun h => ?_
      · simp [WriteGrp.Kept, WriteGrp.udpWriteGrp, hitems, hprefr, hconn, hpacket, helem]
      · simpa [helem] using h (by omega) hconn (by simp [hpacket])
    | some elements =>
      refine iff_of_true ?_ fun _ _ _ => by simp [helem]
      have hsend := c.syioGrpSend_spec (items.map WriteGrp.element)
      rw [helem] at hperm
      have hrun : c.udpWriteGrp (some items)
          = ((c.syioGrpSend (items.map WriteGrp.element)).1,
            ⟨(c.syioGrpSend (items.map WriteGrp.element)).2, [address, elements],
              GrpPacket.freepkt ⟨address, .noAccess, none, some elements, items.length⟩⟩) := by
        simp [WriteGrp.udpWriteGrp, hitems, hprefr, hconn, hpacket, helem]
      exact ⟨by rw [hrun]; exact hsend, by rw [hrun]; exact hperm⟩

/-- Three datagrams, with all memory granted. -/
theorem writeGrpKept_sent :
    (⟨0, 3, some 1, some 2, true, true, 0, true⟩ : WriteGrp).Kept
      [⟨some 9, 10⟩, ⟨some 11, 1⟩, ⟨some 12, 1472⟩] :=
  (writeGrpKept_iff _ _ (by decide)).mpr fun _ _ _ => rfl

/-- There is no memory for the elements: 0 is returned, and nothing is sent. -/
theorem write_grp_unsent :
    (⟨0, 1, some 1, none, true, true, 0, true⟩ : WriteGrp).udpWriteGrp (some [⟨some 9, 10⟩])
        = (0, ⟨[], [1], [1]⟩)
      ∧ ¬ (⟨0, 1, some 1, none, true, true, 0, true⟩ : WriteGrp).Kept [⟨some 9, 10⟩] := by
  refine ⟨by decide, fun h => ?_⟩
  exact absurd (h.1.mp (by decide)).1 (by decide)

end Swnet
