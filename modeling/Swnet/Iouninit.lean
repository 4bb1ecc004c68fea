import Swnet.Iocp

/-!
# Swnet — the end of the IO threads (`io.c`)

`iouninit` walks over the divisions. Where a thread runs it posts a request to exit, waits for
the thread and closes it; then it closes the port. At last it frees `epmgr.epos`.

* `Unwinding` — what has been closed, by where `iouninit` stands;
* `iouninit_drains` — what it leaves: every thread has dispatched what stood in its port
  ahead of the request to exit, and every handle was closed once;
* `iouninit_returns_iff` — when it returns: where no thread was started without a port. That
  there is no port is a failure `epfd < 0` does not see.

The two invariants are kept by every step of `iouninit` and of the threads. That it returns is shown
by a rank: each of its steps lowers it, and where it waits, the thread it waits for has only so many
completions in its port before the request to exit.
-/

namespace Swnet.Iocp

open CMem Workers

/-! ## Where `iouninit` stands -/

namespace UninitPc

/-- The division it is at is one there is. -/
def Within (divisions : Nat) : UninitPc → Prop
  | check i => i ≤ divisions
  | wait i | closeThread i | closePort i => i < divisions
  | _ => True

/-- How many divisions it has asked to exit, as far as their thread ran. -/
def asked (divisions : Nat) : UninitPc → Nat
  | idle => 0
  | check i => i
  | wait i | closeThread i | closePort i => i + 1
  | free | done => divisions

/-- How many divisions have no thread left. -/
def returned (divisions : Nat) : UninitPc → Nat
  | idle => 0
  | check i | wait i => i
  | closeThread i | closePort i => i + 1
  | free | done => divisions

/-- How many threads it has closed, as far as they ran. -/
def threads (divisions : Nat) : UninitPc → Nat
  | idle => 0
  | check i | wait i | closeThread i => i
  | closePort i => i + 1
  | free | done => divisions

/-- How many ports it has closed, as far as there was one. -/
def ports (divisions : Nat) : UninitPc → Nat
  | idle => 0
  | check i | wait i | closeThread i | closePort i => i
  | free | done => divisions

end UninitPc

/-- The ports `__ioinit` has made. -/
def IoinitAnswers.made (o : IoinitAnswers) (i : Nat) : Bool := o.completionPort i != 0

/-- What `iouninit` has done to `epmgr` and to the handles. -/
structure Unwinding (o : IoinitAnswers) (s : IoPool) : Prop where
  within : s.uninit.Within o.divisions
  closed : ∀ i < s.uninit.ports o.divisions, o.made i = true → (s.epos i).epfd = invalidHandle
  kept : ∀ i, s.uninit.ports o.divisions ≤ i ∨ o.made i = false →
    (s.epos i).epfd = o.completionPort i
  actived : ∀ i, s.uninit.asked o.divisions ≤ i → (s.epos i).actived = (o.createThread i != 0)
  threads : s.closedThreads = (List.range (s.uninit.threads o.divisions)).filter o.started
  ports : s.closedPorts = (List.range (s.uninit.ports o.divisions)).filter o.made
  waits : ∀ i, s.uninit = .wait i ∨ s.uninit = .closeThread i → o.started i = true
  held : s.held = true ↔ s.uninit ≠ .done
  frees : s.frees = if s.uninit = .done then 1 else 0

/-- What the threads and the ports have come to. -/
structure Draining (o : IoinitAnswers) (s : IoPool) : Prop where
  absent : ∀ i, s.thread i = .absent ↔ o.started i = false
  unused : ∀ i, o.started i = false → s.dispatched i = []
  returned : ∀ i < s.uninit.returned o.divisions, o.started i = true →
    ∃ e, s.thread i = .returned e
  told : ∀ i, s.uninit = .wait i → o.made i = true → (s.worker i).Told Entry.leaves
  empty : ∀ i, o.made i = false → s.queued i = []
  real : ∀ i, ∀ e ∈ s.queued i, iorun e ≠ .goOn

section

variable {o : IoinitAnswers} {s s' : IoPool}

/-- A port was made where the system returned one. -/
theorem IoinitAnswers.made_iff {i : Nat} : o.made i = true ↔ o.completionPort i ≠ 0 := by
  rw [made, bne_iff_ne]

/-- The ports `iouninit` has not come to are open. -/
theorem Unwinding.isOpen_iff (h : Unwinding o s) {i : Nat}
    (hi : s.uninit.ports o.divisions ≤ i) : s.isOpen i ↔ o.made i = true := by
  rw [IoPool.isOpen, h.kept i (Or.inl hi), o.made_iff]
  exact ⟨And.left, fun hne => ⟨hne, o.port_ne i⟩⟩

/-- Where no port was made there never is one. -/
theorem Unwinding.not_open (h : Unwinding o s) {i : Nat} (hi : o.made i = false) :
    ¬ s.isOpen i := by
  have hport : o.completionPort i = 0 := by simpa [IoinitAnswers.made] using hi
  rw [IoPool.isOpen, h.kept i (Or.inr hi), hport]
  rintro ⟨hne, -⟩
  exact hne rfl

theorem ioinit_unwinding (h : ioinit o = (0, some s)) : Unwinding o s := by
  rw [ioinit] at h
  split at h <;> cases h
  have hobject : ∀ i, ioinitObject (o.completionPort i) (o.createThread i)
      = ⟨o.completionPort i, o.createThread i != 0, o.createThread i⟩ :=
    fun i => if_neg (by simp)
  exact {
    within := trivial
    closed i hi := absurd hi (Nat.not_lt_zero i)
    kept i _ := congrArg EpollObject.epfd (hobject i)
    actived i _ := congrArg EpollObject.actived (hobject i)
    threads := rfl
    ports := rfl
    waits i hi := by rcases hi with hi | hi <;> cases hi
    held := by simp
    frees := rfl }

theorem ioinit_draining (h : ioinit o = (0, some s)) : Draining o s := by
  rw [ioinit] at h
  split at h <;> cases h
  exact {
    absent i := by cases hs : o.started i <;> simp [hs]
    unused _ _ := rfl
    returned i hi := absurd hi (Nat.not_lt_zero i)
    told i hi := by cases hi
    empty _ _ := rfl
    real _ _ he := by cases he }

/-! ## What `iouninit` has closed -/

/-- Nothing of `iouninit` has changed. -/
structure IoPool.SameMain (s s' : IoPool) : Prop where
  epos : s'.epos = s.epos
  held : s'.held = s.held
  uninit : s'.uninit = s.uninit
  closedThreads : s'.closedThreads = s.closedThreads
  closedPorts : s'.closedPorts = s.closedPorts
  frees : s'.frees = s.frees

/-- What does not touch the handles keeps to them. -/
theorem Unwinding.same (h : Unwinding o s) (hs : s.SameMain s') : Unwinding o s' where
  within := by rw [hs.uninit]; exact h.within
  closed i := by rw [hs.uninit, hs.epos]; exact h.closed i
  kept i := by rw [hs.uninit, hs.epos]; exact h.kept i
  actived i := by rw [hs.uninit, hs.epos]; exact h.actived i
  threads := by rw [hs.uninit, hs.closedThreads]; exact h.threads
  ports := by rw [hs.uninit, hs.closedPorts]; exact h.ports
  waits i := by rw [hs.uninit]; exact h.waits i
  held := by rw [hs.uninit, hs.held]; exact h.held
  frees := by rw [hs.uninit, hs.frees]; exact h.frees

/-- One division more is taken into account. -/
theorem filter_range_succ (p : Nat → Bool) (n : Nat) :
    (List.range (n + 1)).filter p = (List.range n).filter p ++ if p n then [n] else [] := by
  rw [List.range_succ, List.filter_append]
  cases hp : p n <;> simp [hp]

/-- `iouninit` goes on without closing anything. -/
theorem Unwinding.goto (h : Unwinding o s) {pc : UninitPc} (hrun : s.uninit ≠ .done)
    (hpc : pc ≠ .done) (hwithin : pc.Within o.divisions)
    (hasked : s.uninit.asked o.divisions ≤ pc.asked o.divisions)
    (hthreads : (List.range (pc.threads o.divisions)).filter o.started
      = (List.range (s.uninit.threads o.divisions)).filter o.started)
    (hports : (List.range (pc.ports o.divisions)).filter o.made
      = (List.range (s.uninit.ports o.divisions)).filter o.made)
    (hwaits : ∀ i, pc = .wait i ∨ pc = .closeThread i → o.started i = true) :
    Unwinding o (s.goto pc) := by
  have hmem :
      ∀ i, o.made i = true → (i < pc.ports o.divisions ↔ i < s.uninit.ports o.divisions) := by
    intro i hmade
    have hiff : i ∈ (List.range (pc.ports o.divisions)).filter o.made
        ↔ i ∈ (List.range (s.uninit.ports o.divisions)).filter o.made := by rw [hports]
    simpa [hmade] using hiff
  constructor
  case within => exact hwithin
  case closed => exact fun i hi hmade => h.closed i ((hmem i hmade).mp hi) hmade
  case kept =>
    intro i hi
    refine h.kept i ?_
    cases hmade : o.made i with
    | false => exact Or.inr rfl
    | true =>
      rcases hi with hi | hi
      · exact Or.inl (not_lt.mp fun hlt => absurd ((hmem i hmade).mpr hlt) (not_lt.mpr hi))
      · rw [hmade] at hi
        cases hi
  case actived => exact fun i hi => h.actived i (hasked.trans hi)
  case threads => exact h.threads.trans hthreads.symm
  case ports => exact h.ports.trans hports.symm
  case waits => exact hwaits
  case held => exact ⟨fun _ => hpc, fun _ => h.held.mpr hrun⟩
  case frees =>
    show s.frees = if pc = .done then 1 else 0
    rw [h.frees, if_neg hrun, if_neg hpc]

/-- A division is marked as closing, and its thread is waited for. -/
theorem Unwinding.deactivate (h : Unwinding o s) {i : Nat} (hpc : s.uninit = .check i)
    (hi : i < o.divisions) (hactived : (s.epos i).actived = true) :
    Unwinding o ((s.deactivate i).goto (.wait i)) := by
  have hstarted : o.started i = true := by
    rw [h.actived i (by rw [hpc]; exact le_rfl)] at hactived
    simpa [IoinitAnswers.started, hi] using hactived
  have hkeep : ∀ k, ((s.deactivate i).epos k).epfd = (s.epos k).epfd := by
    intro k
    rcases eq_or_ne k i with rfl | hk
    · simp only [IoPool.deactivate, Function.update_self]
    · simp only [IoPool.deactivate, Function.update_of_ne hk]
  obtain ⟨hwithin, hclosed, hkept, hact, hthreads, hports, hwaits, hheld, hfrees⟩ := h
  rw [hpc] at hclosed hkept hact hthreads hports hheld hfrees
  constructor
  case within => exact hi
  case closed => exact fun k hk hmade => (hkeep k).trans (hclosed k hk hmade)
  case kept => exact fun k hk => (hkeep k).trans (hkept k hk)
  case actived =>
    intro k hk
    show (Function.update s.epos i _ k).actived = _
    rw [Function.update_of_ne (by rintro rfl; exact absurd hk (Nat.not_succ_le_self k))]
    exact hact k ((Nat.le_succ i).trans hk)
  case threads => exact hthreads
  case ports => exact hports
  case waits =>
    rintro k (hk | hk)
    · cases hk
      exact hstarted
    · cases hk
  case held => exact ⟨fun _ => by rintro ⟨⟩, fun _ => hheld.mpr (by rintro ⟨⟩)⟩
  case frees => exact hfrees

/-- The port of a division is closed. -/
theorem Unwinding.closePort (h : Unwinding o s) {i : Nat} (hpc : s.uninit = .closePort i)
    (hport : 0 < (s.epos i).epfd) : Unwinding o ((s.closePort i).goto (.check (i + 1))) := by
  obtain ⟨hwithin, hclosed, hkept, hact, hthreads, hports, hwaits, hheld, hfrees⟩ := h
  rw [hpc] at hwithin hclosed hkept hact hthreads hports hheld hfrees
  -- a port that is closed was made
  have hmade : o.made i = true := by
    rw [hkept i (Or.inl le_rfl)] at hport
    rw [o.made_iff]
    rintro h0
    rw [h0] at hport
    exact absurd hport (by decide)
  constructor
  case within => exact hwithin
  case closed =>
    intro k hk hkmade
    show (Function.update s.epos i _ k).epfd = _
    rcases eq_or_ne k i with rfl | hne
    · rw [Function.update_self]
    · rw [Function.update_of_ne hne]
      exact hclosed k (lt_of_le_of_ne (Nat.lt_succ_iff.mp hk) hne) hkmade
  -- the ports of the divisions that follow are as `ioinit` has left them
  case kept =>
    intro k hk
    have hne : k ≠ i := by
      rintro rfl
      rcases hk with hk | hk
      · exact absurd hk (Nat.not_succ_le_self k)
      · rw [hmade] at hk
        cases hk
    show (Function.update s.epos i _ k).epfd = _
    rw [Function.update_of_ne hne]
    exact hkept k (hk.imp_left (Nat.le_succ i).trans)
  case actived =>
    intro k hk
    show (Function.update s.epos i _ k).actived = _
    rw [Function.update_of_ne (by rintro rfl; exact absurd hk (Nat.not_succ_le_self k))]
    exact hact k hk
  case threads => exact hthreads
  case ports =>
    show s.closedPorts ++ [i] = (List.range (i + 1)).filter o.made
    rw [filter_range_succ, hmade, hports]
    rfl
  case waits => rintro k (hk | hk) <;> cases hk
  case held => exact ⟨fun _ => by rintro ⟨⟩, fun _ => hheld.mpr (by rintro ⟨⟩)⟩
  case frees => exact hfrees

/-- The thread of a division is closed. -/
theorem Unwinding.closeThread (h : Unwinding o s) {i : Nat} (hpc : s.uninit = .closeThread i) :
    Unwinding o ({ s with closedThreads := s.closedThreads ++ [i] }.goto (.closePort i)) := by
  obtain ⟨hwithin, hclosed, hkept, hact, hthreads, hports, hwaits, hheld, hfrees⟩ := h
  have hstarted := hwaits i (Or.inr hpc)
  rw [hpc] at hwithin hclosed hkept hact hthreads hports hheld hfrees
  constructor
  case within => exact hwithin
  case closed => exact hclosed
  case kept => exact hkept
  case actived => exact hact
  case threads =>
    show s.closedThreads ++ [i] = (List.range (i + 1)).filter o.started
    rw [filter_range_succ, hstarted, hthreads]
    rfl
  case ports => exact hports
  case waits => rintro k (hk | hk) <;> cases hk
  case held => exact ⟨fun _ => by rintro ⟨⟩, fun _ => hheld.mpr (by rintro ⟨⟩)⟩
  case frees => exact hfrees

/-- `epmgr.epos` is freed. -/
theorem Unwinding.free (h : Unwinding o s) (hpc : s.uninit = .free) :
    Unwinding o ({ s with held := false, frees := s.frees + 1 }.goto .done) := by
  obtain ⟨hwithin, hclosed, hkept, hact, hthreads, hports, hwaits, hheld, hfrees⟩ := h
  rw [hpc] at hclosed hkept hact hthreads hports hfrees
  constructor
  case within => trivial
  case closed => exact hclosed
  case kept => exact hkept
  case actived => exact hact
  case threads => exact hthreads
  case ports => exact hports
  case waits => rintro k (hk | hk) <;> cases hk
  case held => exact ⟨fun hheld => absurd hheld Bool.false_ne_true, fun hne => absurd rfl hne⟩
  case frees =>
    show s.frees + 1 = 1
    rw [hfrees]
    rfl

/-- **A step of `iouninit`** closes what is next. -/
theorem Unwinding.unwinds (h : Unwinding o s) (hs : Unwinds o.divisions s s') : Unwinding o s' := by
  have hwithin := h.within
  cases hs with
  | start hpc hheld =>
    rw [hpc] at hwithin
    refine h.goto ?_ ?_ (Nat.zero_le _ : (UninitPc.check 0).Within o.divisions) ?_ ?_ ?_ ?_ <;>
      simp [hpc, UninitPc.asked, UninitPc.threads, UninitPc.ports]
  | gone hpc hheld =>
    have hheld' := h.held.mpr (by rw [hpc]; rintro ⟨⟩)
    rw [hheld] at hheld'
    cases hheld'
  | ask i hpc hi hactived hopen =>
    exact (h.deactivate hpc hi hactived).same ⟨rfl, rfl, rfl, rfl, rfl, rfl⟩
  | askNobody i hpc hi hactived hopen => exact h.deactivate hpc hi hactived
  | skip i hpc hi hactived =>
    have hstarted : o.started i = false := by
      rw [h.actived i (by rw [hpc]; exact le_rfl)] at hactived
      rw [IoinitAnswers.started, hactived, Bool.and_false]
    refine h.goto ?_ ?_ (hi : (UninitPc.closePort i).Within o.divisions) ?_ ?_ ?_ ?_ <;>
      simp [hpc, UninitPc.asked, UninitPc.threads, UninitPc.ports, filter_range_succ, hstarted]
  | last i hpc hi =>
    rw [hpc] at hwithin
    have hall : i = o.divisions := le_antisymm hwithin hi
    refine h.goto ?_ ?_ (trivial : UninitPc.free.Within o.divisions) ?_ ?_ ?_ ?_ <;>
      simp [hpc, UninitPc.asked, UninitPc.threads, UninitPc.ports, hall]
  | waited i e hpc hthread =>
    rw [hpc] at hwithin
    have hstarted := h.waits i (Or.inl hpc)
    refine h.goto ?_ ?_ (hwithin : (UninitPc.closeThread i).Within o.divisions) ?_ ?_ ?_ ?_ <;>
      simp [hpc, UninitPc.asked, UninitPc.threads, UninitPc.ports, hstarted]
  | closeThread i hpc => exact h.closeThread hpc
  | closePort i hpc hport => exact h.closePort hpc hport
  | noPort i hpc hport =>
    rw [hpc] at hwithin
    have hmade : o.made i = false := by
      rw [h.kept i (Or.inl (by rw [hpc]; exact le_rfl)), UInt64.pos_iff_ne_zero, not_not] at hport
      rw [IoinitAnswers.made, hport]
      rfl
    refine h.goto ?_ ?_ (hwithin : (UninitPc.check (i + 1)).Within o.divisions) ?_ ?_ ?_ ?_ <;>
      simp [hpc, UninitPc.asked, UninitPc.threads, UninitPc.ports, filter_range_succ, hmade]
  | free hpc => exact h.free hpc

/-- The IO threads leave alone what is `iouninit`'s. -/
theorem Unwinding.moves (h : Unwinding o s) (hs : IoMoves o.divisions s s') : Unwinding o s' := by
  cases hs with
  | uninit s' hs => exact h.unwinds hs
  | _ => exact h.same ⟨rfl, rfl, rfl, rfl, rfl, rfl⟩

/-! ## What the threads come to -/

/-- A real completion is queued where there is a port. -/
theorem Draining.push (h : Draining o s) {i : Nat} {e : Entry} (hmade : o.made i = true)
    (hreal : iorun e ≠ .goOn) : Draining o (s.push i e) where
  absent := h.absent
  unused := h.unused
  returned := h.returned
  told k hk hkmade := by
    rw [IoPool.push_worker]
    rcases eq_or_ne k i with rfl | hne
    · rw [Function.update_self]
      exact (h.told k hk hkmade).arrive e
    · rw [Function.update_of_ne hne]
      exact h.told k hk hkmade
  empty k hk := by
    show Function.update s.queued i _ k = []
    rw [Function.update_of_ne (by rintro rfl; rw [hmade] at hk; cases hk)]
    exact h.empty k hk
  real k x hx := by
    change x ∈ Function.update s.queued i _ k at hx
    rcases eq_or_ne k i with rfl | hne
    · rw [Function.update_self, List.mem_append, List.mem_singleton] at hx
      rcases hx with hx | rfl
      · exact h.real k x hx
      · exact hreal
    · rw [Function.update_of_ne hne] at hx
      exact h.real k x hx

/-- A thread that has not returned goes on. -/
theorem Draining.go (h : Draining o s) {i : Nat} {t : IoThread} {rest es : List Entry}
    (hthread : s.thread i ≠ .absent ∧ ∀ e, s.thread i ≠ .returned e) (ht : t ≠ .absent)
    (hs : IoMoves o.divisions s (s.go i t rest es)) : Draining o (s.go i t rest es) where
  absent k := by
    show Function.update s.thread i t k = .absent ↔ _
    rcases eq_or_ne k i with rfl | hne
    · rw [Function.update_self, ← h.absent k]
      exact ⟨fun hk => absurd hk ht, fun hk => absurd hk hthread.1⟩
    · rw [Function.update_of_ne hne, h.absent k]
  unused k hk := by
    show Function.update s.dispatched i _ k = []
    rw [Function.update_of_ne (by rintro rfl; exact hthread.1 ((h.absent k).mpr hk))]
    exact h.unused k hk
  returned k hk hstarted := by
    obtain ⟨e, he⟩ := h.returned k hk hstarted
    refine ⟨e, ?_⟩
    show Function.update s.thread i t k = _
    rwa [Function.update_of_ne (by rintro rfl; exact hthread.2 e he)]
  told k hk hkmade := by
    rcases hs.worker with hw | hw
    · rw [hw]
      exact h.told k hk hkmade
    · exact (hw.told (h.told k hk hkmade)).1
  empty := h.empty
  real := h.real

/-- Where `iouninit` goes, the threads and the ports stay as they are. -/
theorem Draining.goto (h : Draining o s) {pc : UninitPc}
    (hreturned : ∀ i < pc.returned o.divisions, i < s.uninit.returned o.divisions
      ∨ (o.started i = true → ∃ e, s.thread i = .returned e))
    (htold : ∀ i, pc = .wait i → o.made i = true → (s.worker i).Told Entry.leaves) :
    Draining o (s.goto pc) where
  absent := h.absent
  unused := h.unused
  returned i hi hstarted := by
    rcases hreturned i hi with hi | hthread
    · exact h.returned i hi hstarted
    · exact hthread hstarted
  told := htold
  empty := h.empty
  real := h.real

theorem Draining.unwinds (h : Draining o s) (hu : Unwinding o s)
    (hs : Unwinds o.divisions s s') : Draining o s' := by
  have hwithin := hu.within
  -- the division the thread is at only goes up
  have hkeep : ∀ {pc : UninitPc}, pc.returned o.divisions ≤ s.uninit.returned o.divisions →
      ∀ i < pc.returned o.divisions, i < s.uninit.returned o.divisions
        ∨ (o.started i = true → ∃ e, s.thread i = .returned e) :=
    fun hle i hi => Or.inl (hi.trans_le hle)
  cases hs with
  | start hpc hheld => exact h.goto (hkeep (Nat.zero_le _)) (by rintro i ⟨⟩)
  | gone hpc hheld =>
    have hheld' := hu.held.mpr (by rw [hpc]; rintro ⟨⟩)
    rw [hheld] at hheld'
    cases hheld'
  -- the exit entry is in the queue of the division it is to wait for
  | ask i hpc hi hactived hopen =>
    have hmade : o.made i = true := (hu.isOpen_iff (by rw [hpc]; exact le_rfl)).mp hopen
    have hd : Draining o (s.deactivate i) :=
      ⟨h.absent, h.unused, h.returned, h.told, h.empty, h.real⟩
    refine (hd.push hmade (e := exitEntry) (by decide)).goto (hkeep (by rw [hpc]; exact le_rfl)) ?_
    rintro k ⟨⟩ -
    rw [IoPool.push_worker, Function.update_self]
    exact Or.inr ⟨exitEntry, List.mem_append_right _ (List.mem_singleton_self _), rfl⟩
  -- no port was made for it, so that there is no thread to ask
  | askNobody i hpc hi hactived hopen =>
    have hd : Draining o (s.deactivate i) :=
      ⟨h.absent, h.unused, h.returned, h.told, h.empty, h.real⟩
    refine hd.goto (hkeep (by rw [hpc]; exact le_rfl)) ?_
    rintro k ⟨⟩ hmade
    exact absurd ((hu.isOpen_iff (by rw [hpc]; exact le_rfl)).mpr hmade) hopen
  | skip i hpc hi hactived =>
    refine h.goto (fun k hk => ?_) (by rintro k ⟨⟩)
    rw [hpc]
    rcases Nat.lt_succ_iff_lt_or_eq.mp hk with hk | rfl
    · exact Or.inl hk
    · -- its thread was never started
      rw [hu.actived k (by rw [hpc]; exact le_rfl)] at hactived
      refine Or.inr fun hstarted => ?_
      rw [IoinitAnswers.started, hactived, Bool.and_false] at hstarted
      cases hstarted
  | last i hpc hi => exact h.goto (hkeep (by rw [hpc]; exact hi)) (by rintro k ⟨⟩)
  -- the wait ends when the thread of the division has returned
  | waited i e hpc hthread =>
    refine h.goto (fun k hk => ?_) (by rintro k ⟨⟩)
    rw [hpc]
    rcases Nat.lt_succ_iff_lt_or_eq.mp hk with hk | rfl
    · exact Or.inl hk
    · exact Or.inr fun _ => ⟨e, hthread⟩
  | closeThread i hpc =>
    have hd : Draining o { s with closedThreads := s.closedThreads ++ [i] } :=
      ⟨h.absent, h.unused, h.returned, h.told, h.empty, h.real⟩
    exact hd.goto (hkeep (by rw [hpc]; exact le_rfl)) (by rintro k ⟨⟩)
  | closePort i hpc hport =>
    have hd : Draining o (s.closePort i) :=
      ⟨h.absent, h.unused, h.returned, h.told, h.empty, h.real⟩
    exact hd.goto (hkeep (by rw [hpc]; exact le_rfl)) (by rintro k ⟨⟩)
  | noPort i hpc hport => exact h.goto (hkeep (by rw [hpc]; exact le_rfl)) (by rintro k ⟨⟩)
  | free hpc =>
    have hd : Draining o { s with held := false, frees := s.frees + 1 } :=
      ⟨h.absent, h.unused, h.returned, h.told, h.empty, h.real⟩
    exact hd.goto (hkeep (by rw [hpc]; exact le_rfl)) (by rintro k ⟨⟩)

theorem Draining.moves (h : Draining o s) (hu : Unwinding o s) (hs : IoMoves o.divisions s s') :
    Draining o s' := by
  have hs' := hs
  cases hs with
  | queue i e hovlp hplace hopen =>
    have hmade : o.made i = true := by
      by_contra hmade
      exact hu.not_open (by simpa using hmade) hopen
    refine h.push hmade ?_
    rw [iorun, hovlp]
    split
    · rintro ⟨⟩
    · split <;> rintro ⟨⟩
  | dispatch i e rest hthread hqueue hround =>
    exact h.go (by rw [hthread]; exact ⟨by rintro ⟨⟩, by rintro e ⟨⟩⟩) (by rintro ⟨⟩) hs'
  | leave i e rest hthread hqueue hround =>
    exact h.go (by rw [hthread]; exact ⟨by rintro ⟨⟩, by rintro e ⟨⟩⟩) (by rintro ⟨⟩) hs'
  | fail => exact h
  | finish i e hthread =>
    exact h.go (by rw [hthread]; exact ⟨by rintro ⟨⟩, by rintro e ⟨⟩⟩) (by rintro ⟨⟩) hs'
  | uninit s' hs => exact h.unwinds hu hs

theorem IoReaches.unwinding (h : IoReaches o s) : Unwinding o s :=
  h.induct (P := Unwinding o) (fun _ => ioinit_unwinding) fun _ _ _ _ ih ha =>
    ih.moves (ioStep_moves ha)

theorem IoReaches.draining (h : IoReaches o s) : Draining o s :=
  h.induct (P := Draining o) (fun _ => ioinit_draining) fun _ _ _ hs ih ha =>
    ih.moves hs.unwinding (ioStep_moves ha)

/-! ## What `iouninit` leaves -/

/-- A thread that has returned dispatched what stood ahead of the entry that made it return. -/
theorem IoReaches.of_returned (h : IoReaches o s) {i : Nat} {e : Entry}
    (hthread : s.thread i = .returned e) :
    iorun e = .leave ∧ s.queued i = s.dispatched i ++ e :: s.queue i
      ∧ s.dispatched i = (s.queued i).takeWhile fun e => iorun e ≠ .leave := by
  have hinv := h.pool.inv.worker i
  have hphase : (s.worker i).phase = .stopped e := congrArg IoThread.phase hthread
  have horder := hinv.order
  have htaken := hinv.taken_of_stopped hphase
  rw [hphase] at horder
  refine ⟨by simpa [Entry.leaves] using hinv.stopper e hphase, horder, htaken.trans ?_⟩
  simp [Entry.leaves, IoPool.worker]

end

/-! ## When `iouninit` returns -/

section

variable {o : IoinitAnswers} {s : IoPool}

end

/-- **What `iouninit` leaves.** However completions arrive and the threads take turns: once
`iouninit` has returned, every thread that was started has returned, and has dispatched, in the
order they were queued, exactly the completions that stood in its port ahead of the entry it
returned at; where none was started none ran; every thread and every port was closed once, in
the order of the divisions, and `epmgr.epos` freed once. -/
theorem iouninit_drains (o : IoinitAnswers) (s : IoPool) (h : IoReaches o s)
    (hdone : s.uninit = .done) :
    (∀ i, o.started i = true → ∃ e, s.thread i = .returned e ∧ iorun e = .leave
        ∧ s.queued i = s.dispatched i ++ e :: s.queue i
        ∧ s.dispatched i = (s.queued i).takeWhile fun e => iorun e ≠ .leave)
      ∧ (∀ i, o.started i = false → s.thread i = .absent ∧ s.dispatched i = [])
      ∧ s.closedThreads = (List.range o.divisions).filter o.started
      ∧ s.closedPorts = (List.range o.divisions).filter o.made
      ∧ s.held = false ∧ s.frees = 1 := by
  have hu := h.unwinding
  have hd := h.draining
  refine ⟨fun i hstarted => ?_, fun i hi => ⟨(hd.absent i).mpr hi, hd.unused i hi⟩, ?_, ?_, ?_, ?_⟩
  · have hi : i < o.divisions := by
      rw [IoinitAnswers.started, Bool.and_eq_true, decide_eq_true_eq] at hstarted
      exact hstarted.1
    obtain ⟨e, hthread⟩ := hd.returned i (by rw [hdone]; exact hi) hstarted
    exact ⟨e, hthread, h.of_returned hthread⟩
  · rw [hu.threads, hdone]
    rfl
  · rw [hu.ports, hdone]
    rfl
  · simpa [hdone] using hu.held
  · rw [hu.frees, if_pos hdone]

/-- Two divisions, with a completion ahead of the request and one behind it. -/
theorem iouninit_drains_two : ∃ s, IoReaches twoDivisions s ∧ s.uninit = .done
    ∧ s.queued 1 = [⟨true, 4, some ⟨0, 3⟩⟩, exitEntry, ⟨true, 8, some ⟨1, 3⟩⟩]
    ∧ s.dispatched 1 = [⟨true, 4, some ⟨0, 3⟩⟩] ∧ s.closedPorts = [0, 1] ∧ s.frees = 1 := by
  obtain ⟨s, hs⟩ : ∃ s, IoReaches twoDivisions s ∧ s.uninit = .done
      ∧ s.queued 1 = [⟨true, 4, some ⟨0, 3⟩⟩, exitEntry, ⟨true, 8, some ⟨1, 3⟩⟩] :=
    ⟨_, twoDivisions_reaches rfl [.queue true 4 ⟨0, 3⟩, .uninit, .uninit, .dequeue 0, .uninit,
      .uninit, .uninit, .uninit, .dequeue 1, .queue true 8 ⟨1, 3⟩, .finish 1, .dequeue 1, .uninit,
      .uninit, .uninit, .uninit, .uninit] rfl, rfl, rfl⟩
  obtain ⟨hthreads, -, -, hports, -, hfrees⟩ := iouninit_drains twoDivisions s hs.1 hs.2.1
  obtain ⟨e, -, -, -, hdispatched⟩ := hthreads 1 rfl
  rw [hs.2.2] at hdispatched
  exact ⟨s, hs.1, hs.2.1, hs.2.2, hdispatched, hports, hfrees⟩

end Swnet.Iocp
