import Mathlib.Data.Nat.Count
import Swnet.Basic

/-!
# Swnet — pages locked into memory (`os.c`)

`os_lock_virtual_pages` asks for its pages to be locked until the system agrees or an error
cannot be helped. Two errors can: the working set is too small, and is enlarged; the pages were
only reserved, and are committed. A flag sees to it that they are committed once. The handle of
the process was to do the same for the working set, and only keeps it from being opened twice.

* `lockKept_iff` — when the loop ends, and leaves nothing behind, for every answer of the system;
* `lock_never_ends` — the quota is never enough: the working set grows in every round.

The answers are a function of the round, so that the loop has one course for each of them. Where it
stands after `n` rounds is `LockAt`, by induction on `n`; it goes on from a round (`goesOn`) or
leaves with it (`leaves`), and what it has asked for by then is counted along the way.
-/

namespace Swnet

/-! ## The code -/

def errorWorkingSetQuota : UInt32 := 1453

def errorNoaccess : UInt32 := 998

def invalidHandleValue : Int := -1

/-- `os_is_page_aligned`. -/
def osIsPageAligned (size : Nat) : Bool := size % pageSize = 0

/-- The page an address is in: what `VirtualAlloc` returns for pages it commits. -/
def pageBase (a : Nat) : Nat := a / pageSize * pageSize

/-- The answer of a `VirtualAlloc` that commits pages. -/
inductive Commit where
  | done
  | null
  | raised
  deriving DecidableEq

/-- The answers to the calls one round of the loop can make. `virtualLock` is the error, `none`
when the pages are locked. -/
structure Round where
  virtualLock : Option UInt32
  virtualAlloc : Commit
  getProcessWorkingSetSize : Option (Nat × Nat)
  setProcessWorkingSetSize : Bool

/-- The answers to a call of `os_lock_virtual_pages`: the page a new block starts at, the handle
of the process, which is opened at most once, and the rounds. -/
structure Answers where
  virtualAllocEx : Option Nat
  openProcess : Int
  round : Nat → Round

/-- The calls that change something. -/
inductive OsCall where
  | virtualLock (block : Option Nat) (successful : Bool)
  | virtualAlloc (block : Option Nat)
  | setProcessWorkingSetSize (minimum maximum : Nat) (successful : Bool)
  | closeHandle (handle : Int)
  | virtualFree (block : Option Nat)
  deriving DecidableEq

/-- The variables of the loop, and the calls so far, the last one first. -/
structure Locking where
  block : Option Nat
  handleProcess : Int
  loopFlag : Bool
  successful : Bool
  calls : List OsCall

/-- One round of the loop, and whether there is another. -/
def lockRound (openProcess : Int) (size : Nat) (s : Locking) (r : Round) : Locking × Bool :=
  match r.virtualLock with
  | none => ({ s with successful := true, calls := .virtualLock s.block true :: s.calls }, false)
  | some errorCode =>
    let s := { s with successful := false, calls := .virtualLock s.block false :: s.calls }
    if errorCode ≠ errorWorkingSetQuota then
      if errorCode = errorNoaccess ∧ s.loopFlag then
        let s' := { s with calls := .virtualAlloc s.block :: s.calls }
        match r.virtualAlloc with
        | .done => ({ s' with block := s.block.map pageBase, loopFlag := false }, true)
        | .null => ({ s' with block := none }, false)
        | .raised => (s', false)
      else (s, false)
    else
      let s := { s with handleProcess :=
        if s.handleProcess = invalidHandleValue then openProcess else s.handleProcess }
      if s.handleProcess = invalidHandleValue then (s, false)
      else match r.getProcessWorkingSetSize with
        | none => (s, false)
        | some (minimum, maximum) =>
          ({ s with
            successful := r.setProcessWorkingSetSize
            calls := .setProcessWorkingSetSize (minimum + size) (maximum + size)
              r.setProcessWorkingSetSize :: s.calls }, r.setProcessWorkingSetSize)

/-- The loop from round `i` on; `none` when it does not end within the fuel. -/
def lockLoop (o : Answers) (size : Nat) : Nat → Nat → Locking → Option Locking
  | 0, _, _ => none
  | fuel + 1, i, s =>
    match lockRound o.openProcess size s (o.round i) with
    | (s, true) => lockLoop o size fuel (i + 1) s
    | (s, false) => some s

/-- What follows the loop: the block returned, and all calls. -/
def lockDone (s : Locking) : Option Nat × List OsCall :=
  let calls := if s.handleProcess ≠ invalidHandleValue then .closeHandle s.handleProcess :: s.calls
    else s.calls
  if ¬ s.successful then (none, .virtualFree s.block :: calls) else (s.block, calls)

def lockStart (block : Nat) : Locking where
  block := some block
  handleProcess := invalidHandleValue
  loopFlag := true
  successful := false
  calls := []

/-- `os_allocate_block`, for the current process. -/
def osAllocateBlock (o : Answers) (size : Nat) : Option Nat :=
  if ¬ osIsPageAligned size then none
  else if size = 0 then none
  else o.virtualAllocEx.map (· * pageSize)

/-- `os_lock_virtual_pages`. -/
def osLockVirtualPages (o : Answers) (memoryBlock : Option Nat) (size fuel : Nat) :
    Option (Option Nat × List OsCall) :=
  match memoryBlock with
  | none =>
    match osAllocateBlock o size with
    | none => some (none, [])
    | some block => (lockLoop o size fuel 0 (lockStart block)).map lockDone
  | some block =>
    if ¬ osIsPageAligned size then some (none, [])
    else (lockLoop o size fuel 0 (lockStart block)).map lockDone

/-! ## What is promised -/

/-- The times the working set was enlarged. -/
def enlargements (calls : List OsCall) : Nat :=
  calls.countP fun c => match c with
    | .setProcessWorkingSetSize _ _ successful => successful
    | _ => false

/-- The times pages were committed. -/
def recommits (calls : List OsCall) : Nat :=
  calls.countP fun c => match c with
    | .virtualAlloc _ => true
    | _ => false

/-- The blocks that were freed. -/
def freed (calls : List OsCall) : List Nat :=
  calls.filterMap fun c => match c with
    | .virtualFree block => block
    | _ => none

/-- The block the last `VirtualLock` succeeded on. -/
def lastLocked : List OsCall → Option Nat
  | [] => none
  | .virtualLock block successful :: _ => if successful then block else none
  | _ :: calls => lastLocked calls

section

variable (block : Option Nat) (successful : Bool) (minimum maximum : Nat) (calls : List OsCall)

@[simp] theorem enlargements_virtualLock :
    enlargements (.virtualLock block successful :: calls) = enlargements calls := by
  simp [enlargements]

@[simp] theorem enlargements_virtualAlloc :
    enlargements (.virtualAlloc block :: calls) = enlargements calls := by
  simp [enlargements]

/-- The working set is enlarged if the system agrees. -/
@[simp] theorem enlargements_setProcessWorkingSetSize :
    enlargements (.setProcessWorkingSetSize minimum maximum successful :: calls)
      = enlargements calls + if successful then 1 else 0 := by
  simp [enlargements, List.countP_cons]

@[simp] theorem recommits_virtualLock :
    recommits (.virtualLock block successful :: calls) = recommits calls := by
  simp [recommits]

@[simp] theorem recommits_virtualAlloc :
    recommits (.virtualAlloc block :: calls) = recommits calls + 1 := by
  simp [recommits]

@[simp] theorem recommits_setProcessWorkingSetSize :
    recommits (.setProcessWorkingSetSize minimum maximum successful :: calls)
      = recommits calls := by
  simp [recommits]

end

/-- The block a call allocates itself. -/
def ownBlock (o : Answers) (memoryBlock : Option Nat) (size : Nat) : Option Nat :=
  match memoryBlock with
  | none => osAllocateBlock o size
  | some _ => none

/-- The call ends, having enlarged the working set and committed the block at most once; it
returns the block that was locked last; and if it fails, of all blocks its own is freed, once. -/
def LockKept (o : Answers) (memoryBlock : Option Nat) (size : Nat) : Prop :=
  ∃ fuel block calls, osLockVirtualPages o memoryBlock size fuel = some (block, calls)
    ∧ enlargements calls ≤ 1 ∧ recommits calls ≤ 1 ∧ block = lastLocked calls
    ∧ (block = none → freed calls = (ownBlock o memoryBlock size).toList)

/-! ## The answers that go on -/

namespace Answers

variable (o : Answers)

/-- The quota was too small, and is enlarged. -/
def Enlarges (i : Nat) : Prop :=
  (o.round i).virtualLock = some errorWorkingSetQuota ∧ o.openProcess ≠ invalidHandleValue
    ∧ (o.round i).getProcessWorkingSetSize.isSome ∧ (o.round i).setProcessWorkingSetSize = true

instance (i : Nat) : Decidable (o.Enlarges i) := inferInstanceAs (Decidable (_ ∧ _ ∧ _ ∧ _))

/-- The pages are not accessible, for the first time. -/
def Denies (i : Nat) : Prop :=
  (o.round i).virtualLock = some errorNoaccess
    ∧ ∀ j < i, (o.round j).virtualLock ≠ some errorNoaccess

def GoesOn (i : Nat) : Prop := o.Enlarges i ∨ o.Denies i ∧ (o.round i).virtualAlloc = .done

def Reaches (n : Nat) : Prop := ∀ i < n, o.GoesOn i

/-- The working set is not enlarged again when that did not help, and a call that fails has its
block at hand exactly if it is its own: `VirtualAlloc` did not replace it by `NULL`. -/
structure Settles (own : Bool) : Prop where
  once : ∀ i j, i < j → o.Reaches j → o.Enlarges i → ¬ o.Enlarges j
  ends : ∀ n, o.Reaches n → ¬ o.GoesOn n → (o.round n).virtualLock ≠ none →
    (own = true ↔ ¬ (o.Denies n ∧ (o.round n).virtualAlloc = .null))

variable {o}

/-- A round that is reached and does not go on is the last one. -/
theorem Reaches.unique {m n : Nat} (hm : o.Reaches m) (hm' : ¬ o.GoesOn m) (hn : o.Reaches n)
    (hn' : ¬ o.GoesOn n) : m = n := by
  rcases Nat.lt_trichotomy m n with hlt | rfl | hlt
  · exact absurd (hn m hlt) hm'
  · rfl
  · exact absurd (hm n hlt) hn'

/-- There is a last round: three that go on would enlarge the working set twice, or be denied
twice. -/
theorem exists_last (h : ∀ i j, i < j → o.Reaches j → o.Enlarges i → ¬ o.Enlarges j) :
    ∃ n, o.Reaches n ∧ ¬ o.GoesOn n := by
  by_contra hall
  simp only [not_exists, not_and, not_not] at hall
  have hgo : ∀ n, o.GoesOn n := fun n =>
    Nat.strong_induction_on n fun n ih => hall n ih
  have hreach : ∀ n, o.Reaches n := fun n i _ => hgo i
  have hdeny : ∀ i j, i < j → o.Denies i → ¬ o.Denies j := fun i j hij hi hj => hj.2 i hij hi.1
  have h01 := h 0 1 (by decide) (hreach 1)
  have h02 := h 0 2 (by decide) (hreach 2)
  have h12 := h 1 2 (by decide) (hreach 2)
  rcases hgo 0 with h0 | ⟨h0, -⟩ <;> rcases hgo 1 with h1 | ⟨h1, -⟩ <;>
    rcases hgo 2 with h2 | ⟨h2, -⟩
  · exact h01 h0 h1
  · exact h01 h0 h1
  · exact h02 h0 h2
  · exact hdeny 1 2 (by decide) h1 h2
  · exact h12 h1 h2
  · exact hdeny 0 2 (by decide) h0 h2
  · exact hdeny 0 1 (by decide) h0 h1
  · exact hdeny 0 1 (by decide) h0 h1

end Answers

/-! ## The loop -/

section

variable {o : Answers} (size : Nat) {a i n fuel : Nat} {s r : Locking}

/-- The loop has come to round `i`, with the block `a`. -/
structure LockAt (o : Answers) (a i : Nat) (s : Locking) : Prop where
  block : s.block = some a ∨ s.block = some (pageBase a)
  handle : s.handleProcess = invalidHandleValue ∨ s.handleProcess = o.openProcess
  flag : s.loopFlag = true ↔ ∀ j < i, (o.round j).virtualLock ≠ some errorNoaccess
  enlarged : enlargements s.calls = Nat.count o.Enlarges i
  committed : recommits s.calls = if s.loopFlag then 0 else 1
  freed : freed s.calls = []

/-- The loop has been left in round `n`. -/
structure LockLeft (o : Answers) (a n : Nat) (r : Locking) : Prop where
  reached : o.Reaches n
  last : ¬ o.GoesOn n
  enlarged : enlargements r.calls = Nat.count o.Enlarges n
  committed : recommits r.calls ≤ 1
  freed : freed r.calls = []
  locked : (o.round n).virtualLock = none → r.successful = true
    ∧ (r.block = some a ∨ r.block = some (pageBase a)) ∧ lastLocked r.calls = r.block
  failed : (o.round n).virtualLock ≠ none → r.successful = false ∧ lastLocked r.calls = none
    ∧ (o.Denies n ∧ (o.round n).virtualAlloc = .null → r.block = none)
    ∧ (¬ (o.Denies n ∧ (o.round n).virtualAlloc = .null) →
        r.block = some a ∨ r.block = some (pageBase a))

theorem LockAt.start (o : Answers) (a : Nat) : LockAt o a 0 (lockStart a) where
  block := .inl rfl
  handle := .inl rfl
  flag := ⟨fun _ _ hj => absurd hj (Nat.not_lt_zero _), fun _ => rfl⟩
  enlarged := by simp [lockStart, enlargements]
  committed := rfl
  freed := rfl

/-- The handle the round works with. -/
theorem LockAt.handle_eq (hat : LockAt o a i s) :
    (if s.handleProcess = invalidHandleValue then o.openProcess else s.handleProcess)
      = o.openProcess := by
  rcases hat.handle with h | h <;> simp [h]

/-- A round that goes on. -/
theorem LockAt.goesOn (hat : LockAt o a i s) (hgo : o.GoesOn i) :
    ∃ s', lockRound o.openProcess size s (o.round i) = (s', true) ∧ LockAt o a (i + 1) s' := by
  -- the flag is up until the first round with `ERROR_NOACCESS`, this one included
  have hflag : ∀ {e : UInt32}, (o.round i).virtualLock = some e → e ≠ errorNoaccess →
      (s.loopFlag = true ↔ ∀ j < i + 1, (o.round j).virtualLock ≠ some errorNoaccess) := by
    intro e he hne
    rw [hat.flag]
    refine ⟨fun h j hj => ?_, fun h j hj => h j (by omega)⟩
    rcases Nat.lt_succ_iff_lt_or_eq.mp hj with hlt | rfl
    · exact h j hlt
    · rw [he]
      simpa using hne
  by_cases henl : o.Enlarges i
  · -- the working set is enlarged
    obtain ⟨hlock, hopen, hget, hset⟩ := henl
    obtain ⟨⟨minimum, maximum⟩, hsize⟩ := Option.isSome_iff_exists.mp hget
    have hhandle := hat.handle_eq
    have henl : o.Enlarges i := ⟨hlock, hopen, hget, hset⟩
    refine ⟨{ s with
      handleProcess := o.openProcess
      successful := true
      calls := .setProcessWorkingSetSize (minimum + size) (maximum + size) true
        :: .virtualLock s.block false :: s.calls },
      by simp [lockRound, hlock, hsize, hset, hhandle, hopen], ?_⟩
    exact {
      block := hat.block
      handle := .inr rfl
      flag := hflag hlock (by decide)
      enlarged := by simp [hat.enlarged, Nat.count_succ, henl]
      committed := by simpa using hat.committed
      freed := hat.freed }
  · -- the block is committed
    obtain ⟨⟨hlock, hfirst⟩, halloc⟩ := hgo.resolve_left henl
    have hloop : s.loopFlag = true := hat.flag.mpr hfirst
    refine ⟨{ s with
      block := s.block.map pageBase
      loopFlag := false
      successful := false
      calls := .virtualAlloc s.block :: .virtualLock s.block false :: s.calls },
      by simp [lockRound, hlock, hloop, halloc,
        show errorNoaccess ≠ errorWorkingSetQuota by decide],
      ?_⟩
    exact {
      block := by
        rcases hat.block with h | h
        · exact .inr (by rw [h]; rfl)
        · refine .inr ?_
          rw [h, Option.map_some, pageBase, pageBase,
            Nat.mul_div_cancel _ (show 0 < pageSize by decide)]
      handle := hat.handle
      flag := by
        refine ⟨fun h => ?_, fun h => absurd hlock (h i (by omega))⟩
        cases h
      enlarged := by simp [hat.enlarged, Nat.count_succ, henl]
      committed := by simpa [hloop] using hat.committed
      freed := hat.freed }

/-- A round that does not. -/
theorem LockAt.leaves (hat : LockAt o a i s) (hreach : o.Reaches i) (hgo : ¬ o.GoesOn i) :
    ∃ r, lockRound o.openProcess size s (o.round i) = (r, false) ∧ LockLeft o a i r := by
  -- the block was committed once at most so far
  have hcommits : recommits s.calls ≤ 1 := by
    rw [hat.committed]
    split <;> omega
  have hdenied : ∀ {e : UInt32}, (o.round i).virtualLock = some e → e ≠ errorNoaccess →
      ¬ o.Denies i := by
    intro e he hne hd
    exact hne (Option.some.inj (he.symm.trans hd.1))
  -- what a round that leaves without the lock has in common, whatever the reason
  have hleft : ∀ r : Locking, (o.round i).virtualLock ≠ none → r.successful = false →
      enlargements r.calls = enlargements s.calls → recommits r.calls ≤ 1 →
        Swnet.freed r.calls = [] →
      lastLocked r.calls = none →
      (o.Denies i ∧ (o.round i).virtualAlloc = .null → r.block = none) →
      (¬ (o.Denies i ∧ (o.round i).virtualAlloc = .null) → r.block = s.block) →
      LockLeft o a i r := by
    intro r hlock hfail henl hcom hfree hlast hnull hkept
    exact {
      reached := hreach
      last := hgo
      enlarged := henl.trans hat.enlarged
      committed := hcom
      freed := hfree
      locked := fun h => absurd h hlock
      failed := fun _ => ⟨hfail, hlast, hnull, fun h => by rw [hkept h]; exact hat.block⟩ }
  cases hlock : (o.round i).virtualLock with
  -- the pages are locked
  | none =>
    refine ⟨{ s with successful := true, calls := .virtualLock s.block true :: s.calls },
      by simp [lockRound, hlock], ?_⟩
    exact {
      reached := hreach
      last := hgo
      enlarged := by simpa using hat.enlarged
      committed := by simpa using hcommits
      freed := hat.freed
      locked := fun _ => ⟨rfl, hat.block, rfl⟩
      failed := fun h => absurd hlock h }
  | some e =>
    have hne : (o.round i).virtualLock ≠ none := by simp [hlock]
    by_cases hquota : e = errorWorkingSetQuota
    · -- the working set could not be enlarged
      subst hquota
      have hno := hdenied hlock (by decide)
      have hhandle := hat.handle_eq
      let s₁ : Locking := { s with
        handleProcess := o.openProcess
        successful := false
        calls := .virtualLock s.block false :: s.calls }
      have hleft₁ : LockLeft o a i s₁ :=
        hleft s₁ hne rfl (by simp [s₁]) (by simpa [s₁] using hcommits)
        hat.freed rfl (fun h => absurd h.1 hno) fun _ => rfl
      by_cases hopen : o.openProcess = invalidHandleValue
      · have hclosed : s.handleProcess = invalidHandleValue :=
          hat.handle.elim id fun h => h.trans hopen
        exact ⟨s₁, by simp [lockRound, hlock, s₁, hclosed, hopen], hleft₁⟩
      · cases hsize : (o.round i).getProcessWorkingSetSize with
        | none => exact ⟨s₁, by simp [lockRound, hlock, hsize, s₁, hhandle], hleft₁⟩
        | some sizes =>
          obtain ⟨minimum, maximum⟩ := sizes
          have hset : (o.round i).setProcessWorkingSetSize = false := by
            by_contra hset
            exact hgo (.inl ⟨hlock, hopen, by simp [hsize], by simpa using hset⟩)
          let s₂ : Locking := { s₁ with
            calls := .setProcessWorkingSetSize (minimum + size) (maximum + size) false :: s₁.calls }
          exact ⟨s₂, by simp [lockRound, hlock, hsize, hset, s₁, s₂, hhandle, hopen],
            hleft s₂ hne rfl (by simp [s₁, s₂]) (by simpa [s₁, s₂] using hcommits) hat.freed rfl
              (fun h => absurd h.1 hno) fun _ => rfl⟩
    · let s₁ : Locking := { s with
        successful := false
        calls := .virtualLock s.block false :: s.calls }
      by_cases hfirst : e = errorNoaccess ∧ s.loopFlag = true
      · -- the block could not be committed
        obtain ⟨rfl, hloop⟩ := hfirst
        have hdenies : o.Denies i := ⟨hlock, hat.flag.mp hloop⟩
        have hzero : recommits s.calls = 0 := by simpa [hloop] using hat.committed
        cases halloc : (o.round i).virtualAlloc with
        | done => exact absurd (.inr ⟨hdenies, halloc⟩) hgo
        | null =>
          let s₂ : Locking := { s₁ with block := none, calls := .virtualAlloc s.block :: s₁.calls }
          exact ⟨s₂, by simp [lockRound, hlock, hquota, hloop, halloc, s₁, s₂],
            hleft s₂ hne rfl (by simp [s₁, s₂]) (by simp [s₁, s₂, hzero]) hat.freed rfl
              (fun _ => rfl) fun h => absurd ⟨hdenies, halloc⟩ h⟩
        | raised =>
          let s₂ : Locking := { s₁ with calls := .virtualAlloc s.block :: s₁.calls }
          exact ⟨s₂, by simp [lockRound, hlock, hquota, hloop, halloc, s₁, s₂],
            hleft s₂ hne rfl (by simp [s₁, s₂]) (by simp [s₁, s₂, hzero]) hat.freed rfl
              (fun h => nomatch halloc.symm.trans h.2) fun _ => rfl⟩
      -- any other error, or the block was committed before
      · have hno : ¬ o.Denies i := fun h =>
          hfirst ⟨Option.some.inj (hlock.symm.trans h.1), hat.flag.mpr h.2⟩
        exact ⟨s₁, by simp [lockRound, hlock, hquota, hfirst, s₁],
          hleft s₁ hne rfl (by simp [s₁]) (by simpa [s₁] using hcommits) hat.freed rfl
            (fun h => absurd h.1 hno) fun _ => rfl⟩

/-- What the loop comes to, if it ends. -/
theorem LockAt.left (hat : LockAt o a i s) (hreach : o.Reaches i)
    (h : lockLoop o size fuel i s = some r) : ∃ n, LockLeft o a n r := by
  induction fuel generalizing i s with
  | zero => cases h
  | succ fuel ih =>
    rw [lockLoop] at h
    by_cases hgo : o.GoesOn i
    · obtain ⟨s', hs', hat'⟩ := hat.goesOn size hgo
      rw [hs'] at h
      refine ih hat' (fun j hj => ?_) h
      rcases Nat.lt_succ_iff_lt_or_eq.mp hj with hlt | rfl
      · exact hreach j hlt
      · exact hgo
    · obtain ⟨r', hr', hleft⟩ := hat.leaves size hreach hgo
      rw [hr'] at h
      cases h
      exact ⟨i, hleft⟩

/-- The loop ends in the first round that does not go on. -/
theorem LockAt.ends (hat : LockAt o a i s) (hn : o.Reaches n) (hlast : ¬ o.GoesOn n) (hi : i ≤ n) :
    ∃ fuel r, lockLoop o size fuel i s = some r := by
  induction hd : n - i generalizing i s with
  | zero =>
    obtain rfl : i = n := by omega
    obtain ⟨r, hr, -⟩ := hat.leaves size hn hlast
    exact ⟨1, r, by rw [lockLoop, hr]⟩
  | succ d ih =>
    obtain ⟨s', hs', hat'⟩ := hat.goesOn size (hn i (by omega))
    obtain ⟨fuel, r, hr⟩ := ih hat' (by omega) (by omega)
    exact ⟨fuel + 1, r, by rw [lockLoop, hs']; exact hr⟩

theorem enlargements_lockDone (s : Locking) :
    enlargements (lockDone s).2 = enlargements s.calls := by
  unfold lockDone
  dsimp only
  split_ifs <;> simp [enlargements]

theorem recommits_lockDone (s : Locking) : recommits (lockDone s).2 = recommits s.calls := by
  unfold lockDone
  dsimp only
  split_ifs <;> simp [recommits]

theorem lastLocked_lockDone (s : Locking) : lastLocked (lockDone s).2 = lastLocked s.calls := by
  unfold lockDone
  dsimp only
  split_ifs <;> rfl

theorem freed_lockDone (s : Locking) :
    freed (lockDone s).2 = if s.successful then freed s.calls
      else s.block.toList ++ freed s.calls := by
  unfold lockDone
  dsimp only
  cases s.block <;> split_ifs <;> simp_all [Swnet.freed]

/-- The rounds that enlarge are one at most where no two of them do. -/
theorem Answers.count_enlarges (h : ∀ i j, i < j → o.Reaches j → o.Enlarges i → ¬ o.Enlarges j)
    (hn : o.Reaches n) : Nat.count o.Enlarges n ≤ 1 := by
  rw [Nat.count_eq_card_filter_range, Finset.card_le_one]
  intro i hi j hj
  simp only [Finset.mem_filter, Finset.mem_range] at hi hj
  have hreach : ∀ k, k < n → o.Reaches k := fun k hk l hl => hn l (by omega)
  rcases Nat.lt_trichotomy i j with hlt | heq | hlt
  · exact absurd hj.2 (h i j hlt (hreach j hj.1) hi.2)
  · exact heq
  · exact absurd hi.2 (h j i hlt (hreach i hi.1) hj.2)

/-- The loop keeps the promise, for a block of its own or of the caller. -/
theorem lockLoop_kept_iff (o : Answers) (size a : Nat) (own : Option Nat)
    (hown : own = none ∨ own = some a ∧ pageBase a = a) :
    (∃ fuel block calls, (lockLoop o size fuel 0 (lockStart a)).map lockDone = some (block, calls)
      ∧ enlargements calls ≤ 1 ∧ recommits calls ≤ 1 ∧ block = lastLocked calls
      ∧ (block = none → freed calls = own.toList)) ↔ o.Settles own.isSome := by
  have hat := LockAt.start o a
  have h₀ : o.Reaches 0 := fun i hi => absurd hi (Nat.not_lt_zero i)
  -- what is freed when the call fails
  have hfree : ∀ {n : Nat} {r : Locking}, LockLeft o a n r → (o.round n).virtualLock ≠ none →
      (freed (lockDone r).2 = own.toList ↔
        (own.isSome = true ↔ ¬ (o.Denies n ∧ (o.round n).virtualAlloc = .null))) := by
    intro n r hleft hlock
    obtain ⟨hfail, -, hnull, hkept⟩ := hleft.failed hlock
    rw [freed_lockDone, hleft.freed, hfail]
    by_cases hd : o.Denies n ∧ (o.round n).virtualAlloc = .null
    · rw [hnull hd]
      rcases hown with rfl | ⟨rfl, -⟩ <;> simp [hd]
    · rcases hown with rfl | ⟨rfl, hbase⟩
      · rcases hkept hd with h | h <;> simp [h, hd]
      · have hblock : r.block = some a := by
          rcases hkept hd with h | h
          · exact h
          · rw [h, hbase]
        simp [hblock, hd]
  constructor
  · rintro ⟨fuel, block, calls, hrun, henl, -, -, hfreed⟩
    obtain ⟨r, hr, hdone⟩ := Option.map_eq_some_iff.mp hrun
    obtain ⟨n, hleft⟩ := hat.left size h₀ hr
    obtain ⟨rfl, rfl⟩ : (lockDone r).1 = block ∧ (lockDone r).2 = calls := by simp [hdone]
    refine ⟨fun i j hij hj hi hj' => ?_, fun m hm hlast hlock => ?_⟩
    · -- the working set was enlarged twice
      have hjn : j < n := by
        by_contra hle
        rcases Nat.lt_or_eq_of_le (Nat.not_lt.mp hle) with hlt | rfl
        · exact hleft.last (hj n hlt)
        · exact hleft.last (.inl hj')
      have h₁ := Nat.count_strict_mono hi hij
      have h₂ := Nat.count_strict_mono hj' hjn
      rw [enlargements_lockDone, hleft.enlarged] at henl
      omega
    · obtain rfl : m = n := hm.unique hlast hleft.reached hleft.last
      have hfail := (hleft.failed hlock).1
      exact (hfree hleft hlock).mp (hfreed (by simp [lockDone, hfail]))
  · intro hset
    obtain ⟨n, hn, hlast⟩ := Answers.exists_last hset.once
    obtain ⟨fuel, r, hr⟩ := hat.ends size hn hlast (Nat.zero_le n)
    obtain ⟨m, hleft⟩ := hat.left size h₀ hr
    obtain rfl : m = n := hleft.reached.unique hleft.last hn hlast
    refine ⟨fuel, (lockDone r).1, (lockDone r).2, by rw [hr]; rfl, ?_, ?_, ?_, fun hnone => ?_⟩
    · rw [enlargements_lockDone, hleft.enlarged]
      exact Answers.count_enlarges hset.once hn
    · rw [recommits_lockDone]
      exact hleft.committed
    · rw [lastLocked_lockDone]
      cases hlock : (o.round m).virtualLock with
      | none =>
        obtain ⟨hsucc, -, hlocked⟩ := hleft.locked hlock
        simp [lockDone, hsucc, hlocked]
      | some e =>
        obtain ⟨hfail, hnone, -⟩ := hleft.failed (by simp [hlock])
        simp [lockDone, hfail, hnone]
    · have hlock : (o.round m).virtualLock ≠ none := by
        intro hlock
        obtain ⟨hsucc, hblock, -⟩ := hleft.locked hlock
        rcases hblock with h | h <;> simp [lockDone, hsucc, h] at hnone
      exact (hfree hleft hlock).mpr (hset.ends m hn hlast hlock)

end

/-- The call gets to its loop: a new block was allocated, or the size of the block given is a
whole number of pages. -/
def LockStarts (o : Answers) (memoryBlock : Option Nat) (size : Nat) : Prop :=
  match memoryBlock with
  | none => (osAllocateBlock o size).isSome
  | some _ => osIsPageAligned size = true

/-- **When `os_lock_virtual_pages` keeps its promise.** For every block, every size and all answers
of the system. -/
theorem lockKept_iff (o : Answers) (memoryBlock : Option Nat) (size : Nat) :
    LockKept o memoryBlock size ↔
      (LockStarts o memoryBlock size → o.Settles memoryBlock.isNone) := by
  cases memoryBlock with
  -- a block of the caller, which has to be aligned
  | some a =>
    by_cases halign : osIsPageAligned size = true
    · have h := lockLoop_kept_iff o size a none (.inl rfl)
      simpa [LockKept, osLockVirtualPages, LockStarts, ownBlock, halign] using h
    · have hstart : ¬ LockStarts o (some a) size := halign
      refine ⟨fun _ h => absurd h hstart, fun _ => ⟨0, none, [], ?_, ?_⟩⟩
      · simp [osLockVirtualPages, halign]
      · simp [enlargements, recommits, lastLocked, Swnet.freed, ownBlock]
  -- a block of its own, which was allocated on a page
  | none =>
    cases hown : osAllocateBlock o size with
    | none =>
      refine ⟨fun _ h => by simp [LockStarts, hown] at h, fun _ => ⟨0, none, [], ?_, ?_⟩⟩
      · simp [osLockVirtualPages, hown]
      · simp [enlargements, recommits, lastLocked, Swnet.freed, ownBlock, hown]
    | some a =>
      have hbase : pageBase a = a := by
        unfold osAllocateBlock at hown
        split_ifs at hown
        obtain ⟨page, -, rfl⟩ := Option.map_eq_some_iff.mp hown
        rw [pageBase, Nat.mul_div_cancel _ (show 0 < pageSize by decide)]
      have h := lockLoop_kept_iff o size a (some a) (.inr ⟨rfl, hbase⟩)
      simpa [LockKept, osLockVirtualPages, LockStarts, ownBlock, hown] using h

/-! ## A quota that is never enough -/

/-- The pages cannot be locked for want of quota, and the working set can be enlarged. -/
def quotaAlways : Answers where
  virtualAllocEx := some 16
  openProcess := 4
  round _ := ⟨some errorWorkingSetQuota, .done, some (0, 0), true⟩

/-- The loop does not end. -/
theorem lock_never_ends : (∀ fuel, osLockVirtualPages quotaAlways none 4096 fuel = none)
    ∧ ¬ LockKept quotaAlways none 4096 := by
  have hloop : ∀ fuel i s, lockLoop quotaAlways 4096 fuel i s = none := by
    intro fuel
    induction fuel with
    | zero => exact fun _ _ => rfl
    | succ fuel ih =>
      intro i s
      rw [lockLoop]
      by_cases h : s.handleProcess = invalidHandleValue
      · simp [lockRound, quotaAlways, h, invalidHandleValue]
        exact ih _ _
      · simp [lockRound, quotaAlways, h]
        exact ih _ _
  have hnone : ∀ fuel, osLockVirtualPages quotaAlways none 4096 fuel = none := by
    intro fuel
    have hown : osAllocateBlock quotaAlways 4096 = some 65536 := by decide
    rw [osLockVirtualPages, hown]
    simp [hloop]
  refine ⟨hnone, ?_⟩
  rintro ⟨fuel, block, calls, hrun, -⟩
  rw [hnone] at hrun
  cases hrun

end Swnet
