import Swnet.Lib.Workers
import Swnet.Pipe

/-!
# Swnet — the IO threads (`io.c`)

`ioinit` makes one completion port and one thread for each processor. A link is bound to the
port of `epmgr.epos[hld % divisions]`: the system queues the completions of its requests
there, and `tcp_awaken` and `udp_awaken` post its pipe messages there. `__iorun` takes one
completion at a time out of its port. `iouninit` posts each thread a completion of
`IOCP_INVALID_SIZE_TRANSFER` bytes and waits for it.

* `IoMoves.worker` — a port and its thread are a queue with one worker;
* `iorun_serial` — the completions of one link are dispatched one at a time, in the order
  they were queued, by one thread.

The pool of the library is an instance of `Workers`: a port is a queue, its thread the worker, and
the request to exit the entry that stops it. A completion is bound to the port of its link, so that
those of one link are apart by `Pool.Reachable.apart`.
-/

namespace Swnet.Iocp

open CMem Workers

/-! ## The code -/

/-- A `HANDLE`, which is a pointer. -/
abbrev Handle := UInt64

def invalidHandle : Handle := 0xFFFFFFFFFFFFFFFF

/-- `struct epoll_object`. -/
structure EpollObject where
  epfd : Handle
  actived : Bool
  thread : Handle

/-- The packet behind an `OVERLAPPED`, with its link. -/
structure Overlapped where
  packet : Nat
  link : Int
  deriving DecidableEq, Repr

/-- What `GetQueuedCompletionStatus` takes out of a port. -/
structure Entry where
  successful : Bool
  bytesTransfered : UInt32
  ovlp : Option Overlapped
  deriving DecidableEq, Repr

/-- What `__iorun` does about an answer of `GetQueuedCompletionStatus`. -/
inductive Round where
  | dispatch
  | goOn
  | leave
  deriving DecidableEq, Repr

/-- One round of the loop of `__iorun`. -/
def iorun (e : Entry) : Round :=
  if ¬ e.successful then
    if e.ovlp.isSome then .dispatch
    -- one time IO error does not represent a thread error
    else .goOn
  else if e.bytesTransfered = iocpInvalidSizeTransfer then .leave
  else .dispatch

/-- What the system answers to `__ioinit`: the memory, and for each division the port and the
thread, `NULL` where it has none. -/
structure IoinitAnswers where
  divisions : Nat
  malloc : Bool
  completionPort : Nat → Handle
  createThread : Nat → Handle
  port_ne : ∀ i, completionPort i ≠ invalidHandle

/-- One round of the loop of `__ioinit`. -/
def ioinitObject (completionPort createThread : Handle) : EpollObject :=
  -- a `HANDLE` has no sign: this is never taken, also when there is no port
  if completionPort < 0 then ⟨completionPort, false, 0⟩
  else ⟨completionPort, createThread != 0, createThread⟩

/-- Where the thread of a division stands. -/
inductive IoThread where
  | absent
  | waiting
  | dispatching (e : Entry)
  | returned (e : Entry)
  deriving DecidableEq, Repr

/-- Where `iouninit` stands. -/
inductive UninitPc where
  | idle
  | check (i : Nat)
  | wait (i : Nat)
  | closeThread (i : Nat)
  | closePort (i : Nat)
  | free
  | done
  deriving DecidableEq, Repr

/-- `epmgr`, the ports and the threads. `queued` and `dispatched` record what went into a port
and what its thread dispatched, the last three what `iouninit` has closed and freed. -/
structure IoPool where
  epos : Nat → EpollObject
  held : Bool
  queue : Nat → List Entry
  thread : Nat → IoThread
  queued : Nat → List Entry
  dispatched : Nat → List Entry
  uninit : UninitPc
  closedThreads : List Nat
  closedPorts : List Nat
  frees : Nat

/-- The threads `__ioinit` has started. -/
def IoinitAnswers.started (o : IoinitAnswers) (i : Nat) : Bool :=
  decide (i < o.divisions) && o.createThread i != 0

/-- `__ioinit`. -/
def ioinit (o : IoinitAnswers) : Int × Option IoPool :=
  if ¬ o.malloc then (-1, none)
  else (0, some {
    epos i := ioinitObject (o.completionPort i) (o.createThread i)
    held := true
    queue _ := []
    thread i := if o.started i then .waiting else .absent
    queued _ := []
    dispatched _ := []
    uninit := .idle
    closedThreads := []
    closedPorts := []
    frees := 0 })

/-- `&epmgr.epos[hld % epmgr.divisions]`, as an index. -/
def eposAt (divisions : Nat) (s : IoPool) (hld : Int) : Exec Nat :=
  if ¬ s.held then throw .nullPointer
  else if hld.tmod divisions < 0 then throw .outOfBounds
  else return (hld.tmod divisions).toNat

/-- `ioatth`, for a link that is not `NULL`: `bound` is what `CreateIoCompletionPort` returns. -/
def ioatth (divisions : Nat) (s : IoPool) (inited : Bool) (hld : Int) (bound : Handle) : Exec Int :=
  if ¬ inited then return -1
  else do
    let i ← eposAt divisions s hld
    if bound ≠ 0 ∧ bound = (s.epos i).epfd then return 0 else return -1

namespace IoPool

/-- There is a port. -/
def isOpen (s : IoPool) (i : Nat) : Prop :=
  (s.epos i).epfd ≠ 0 ∧ (s.epos i).epfd ≠ invalidHandle

instance (s : IoPool) (i : Nat) : Decidable (s.isOpen i) := inferInstanceAs (Decidable (_ ∧ _))

/-- An entry goes into the port of a division. -/
def push (s : IoPool) (i : Nat) (e : Entry) : IoPool :=
  { s with
    queue := Function.update s.queue i (s.queue i ++ [e])
    queued := Function.update s.queued i (s.queued i ++ [e]) }

/-- The thread of a division goes on, with what is left in its port and what it dispatches. -/
def go (s : IoPool) (i : Nat) (t : IoThread) (rest es : List Entry) : IoPool :=
  { s with
    queue := Function.update s.queue i rest
    thread := Function.update s.thread i t
    dispatched := Function.update s.dispatched i (s.dispatched i ++ es) }

/-- `iouninit` goes on. -/
def goto (s : IoPool) (pc : UninitPc) : IoPool := { s with uninit := pc }

/-- `posix__atomic_xchange( epos->actived, NO )`. -/
def deactivate (s : IoPool) (i : Nat) : IoPool :=
  { s with epos := Function.update s.epos i { s.epos i with actived := false } }

/-- `CloseHandle` on the port of a division. -/
def closePort (s : IoPool) (i : Nat) : IoPool :=
  { s with
    closedPorts := s.closedPorts ++ [i]
    epos := Function.update s.epos i { s.epos i with epfd := invalidHandle } }

end IoPool

/-- The completion that `iouninit` posts. -/
def exitEntry : Entry := ⟨true, iocpInvalidSizeTransfer, none⟩

/-- The next step of `iouninit`. -/
def iouninit (divisions : Nat) (s : IoPool) : Option IoPool :=
  match s.uninit with
  | .idle => if s.held then some (s.goto (.check 0)) else some (s.goto .done)
  | .check i =>
    if i < divisions then
      if (s.epos i).actived then
        -- whether `PostQueuedCompletionStatus` has a port to post to is not looked at
        if s.isOpen i then some (((s.deactivate i).push i exitEntry).goto (.wait i))
        else some ((s.deactivate i).goto (.wait i))
      else some (s.goto (.closePort i))
    else some (s.goto .free)
  | .wait i =>
    match s.thread i with
    | .returned _ => some (s.goto (.closeThread i))
    | _ => none
  | .closeThread i =>
    some ({ s with closedThreads := s.closedThreads ++ [i] }.goto (.closePort i))
  | .closePort i =>
    if 0 < (s.epos i).epfd then some ((s.closePort i).goto (.check (i + 1)))
    else some (s.goto (.check (i + 1)))
  | .free => some ({ s with held := false, frees := s.frees + 1 }.goto .done)
  | .done => none

/-! ## Runs -/

/-- A step of the whole: a completion of a link is queued, by the system or by a call of
`PostQueuedCompletionStatus`; an IO thread takes one out, is told of a failure that is none of
a request, or comes back from `so_dispatch_io_event`; `iouninit` goes on. -/
inductive IoAction where
  | queue (successful : Bool) (bytesTransfered : UInt32) (ovlp : Overlapped)
  | dequeue (i : Nat)
  | fail (i : Nat)
  | finish (i : Nat)
  | uninit
  deriving DecidableEq, Repr

def ioStep (divisions : Nat) (s : IoPool) : IoAction → Option IoPool
  | .queue successful bytesTransfered ovlp =>
    match eposAt divisions s ovlp.link with
    | .ok i =>
      if s.isOpen i then some (s.push i ⟨successful, bytesTransfered, some ovlp⟩) else none
    | .error _ => none
  | .dequeue i =>
    match s.thread i, s.queue i with
    | .waiting, e :: rest =>
      match iorun e with
      | .dispatch => some (s.go i (.dispatching e) rest [e])
      | .leave => some (s.go i (.returned e) rest [])
      | .goOn => none
    | _, _ => none
  | .fail i =>
    match s.thread i, iorun ⟨false, 0, none⟩ with
    | .waiting, .goOn => some s
    | _, _ => none
  | .finish i =>
    match s.thread i with
    | .dispatching _ => some (s.go i .waiting (s.queue i) [])
    | _ => none
  | .uninit => iouninit divisions s

/-- One pool after another, in a run. -/
def IoNext (divisions : Nat) (s s' : IoPool) : Prop := ∃ a, ioStep divisions s a = some s'

/-- The states reached from the pool `ioinit` has made. -/
def IoReaches (o : IoinitAnswers) (s : IoPool) : Prop :=
  ∃ s₀, ioinit o = (0, some s₀) ∧ Relation.ReflTransGen (IoNext o.divisions) s₀ s

/-- The steps of `iouninit`. -/
inductive Unwinds (divisions : Nat) (s : IoPool) : IoPool → Prop
  | start (hpc : s.uninit = .idle) (hheld : s.held = true) : Unwinds divisions s (s.goto (.check 0))
  | gone (hpc : s.uninit = .idle) (hheld : s.held = false) : Unwinds divisions s (s.goto .done)
  | ask (i : Nat) (hpc : s.uninit = .check i) (hi : i < divisions)
      (hactived : (s.epos i).actived = true) (hopen : s.isOpen i) :
      Unwinds divisions s (((s.deactivate i).push i exitEntry).goto (.wait i))
  | askNobody (i : Nat) (hpc : s.uninit = .check i) (hi : i < divisions)
      (hactived : (s.epos i).actived = true) (hopen : ¬ s.isOpen i) :
      Unwinds divisions s ((s.deactivate i).goto (.wait i))
  | skip (i : Nat) (hpc : s.uninit = .check i) (hi : i < divisions)
      (hactived : (s.epos i).actived = false) : Unwinds divisions s (s.goto (.closePort i))
  | last (i : Nat) (hpc : s.uninit = .check i) (hi : divisions ≤ i) :
      Unwinds divisions s (s.goto .free)
  | waited (i : Nat) (e : Entry) (hpc : s.uninit = .wait i) (hthread : s.thread i = .returned e) :
      Unwinds divisions s (s.goto (.closeThread i))
  | closeThread (i : Nat) (hpc : s.uninit = .closeThread i) :
      Unwinds divisions s ({ s with closedThreads := s.closedThreads ++ [i] }.goto (.closePort i))
  | closePort (i : Nat) (hpc : s.uninit = .closePort i) (hport : 0 < (s.epos i).epfd) :
      Unwinds divisions s ((s.closePort i).goto (.check (i + 1)))
  | noPort (i : Nat) (hpc : s.uninit = .closePort i) (hport : ¬ 0 < (s.epos i).epfd) :
      Unwinds divisions s (s.goto (.check (i + 1)))
  | free (hpc : s.uninit = .free) :
      Unwinds divisions s ({ s with held := false, frees := s.frees + 1 }.goto .done)

/-- A step of `iouninit` is one of its moves. -/
theorem iouninit_iff {divisions : Nat} {s s' : IoPool} :
    iouninit divisions s = some s' ↔ Unwinds divisions s s' := by
  constructor
  -- the branches of the function, in the order of its code
  · intro h
    rw [iouninit.eq_def] at h
    split at h
    next hpc =>
      split at h
      next hheld => cases h; exact .start hpc hheld
      next hheld => cases h; exact .gone hpc (by simpa using hheld)
    next i hpc =>
      split at h
      next hi =>
        split at h
        next hactived =>
          split at h
          next hopen => cases h; exact .ask i hpc hi hactived hopen
          next hopen => cases h; exact .askNobody i hpc hi hactived hopen
        next hactived => cases h; exact .skip i hpc hi (by simpa using hactived)
      next hi => cases h; exact .last i hpc (not_lt.mp hi)
    next i hpc =>
      split at h
      next e hthread => cases h; exact .waited i e hpc hthread
      next => cases h
    next i hpc => cases h; exact .closeThread i hpc
    next i hpc =>
      split at h
      next hport => cases h; exact .closePort i hpc hport
      next hport => cases h; exact .noPort i hpc hport
    next hpc => cases h; exact .free hpc
    next => cases h
  · intro h
    cases h with
    | start hpc hheld => simp only [iouninit, hpc, hheld, if_true]
    | gone hpc hheld => simp [iouninit, hpc, hheld]
    | ask i hpc hi hactived hopen =>
      simp only [iouninit, hpc, if_pos hi, hactived, if_true, if_pos hopen]
    | askNobody i hpc hi hactived hopen =>
      simp only [iouninit, hpc, if_pos hi, hactived, if_true, if_neg hopen]
    | skip i hpc hi hactived => simp [iouninit, hpc, hi, hactived]
    | last i hpc hi => simp only [iouninit, hpc, if_neg (not_lt.mpr hi)]
    | waited i e hpc hthread => simp only [iouninit, hpc, hthread]
    | closeThread i hpc => simp only [iouninit, hpc]
    | closePort i hpc hport => simp only [iouninit, hpc, if_pos hport]
    | noPort i hpc hport => simp only [iouninit, hpc, if_neg hport]
    | free hpc => simp only [iouninit, hpc]

/-- The steps there are. -/
inductive IoMoves (divisions : Nat) (s : IoPool) : IoPool → Prop
  | queue (i : Nat) (e : Entry) (hovlp : e.ovlp.isSome)
      (hplace : ∀ ovlp, e.ovlp = some ovlp → (ovlp.link.tmod divisions).toNat = i)
      (hopen : s.isOpen i) : IoMoves divisions s (s.push i e)
  | dispatch (i : Nat) (e : Entry) (rest : List Entry) (hthread : s.thread i = .waiting)
      (hqueue : s.queue i = e :: rest) (hround : iorun e = .dispatch) :
      IoMoves divisions s (s.go i (.dispatching e) rest [e])
  | leave (i : Nat) (e : Entry) (rest : List Entry) (hthread : s.thread i = .waiting)
      (hqueue : s.queue i = e :: rest) (hround : iorun e = .leave) :
      IoMoves divisions s (s.go i (.returned e) rest [])
  | fail : IoMoves divisions s s
  | finish (i : Nat) (e : Entry) (hthread : s.thread i = .dispatching e) :
      IoMoves divisions s (s.go i .waiting (s.queue i) [])
  | uninit (s' : IoPool) (hs : Unwinds divisions s s') : IoMoves divisions s s'

/-- The division of a link is its handle modulo their number. -/
theorem eposAt_eq_ok {divisions : Nat} {s : IoPool} {hld : Int} {i : Nat}
    (h : eposAt divisions s hld = .ok i) : (hld.tmod divisions).toNat = i := by
  rw [eposAt] at h
  split at h
  · cases h
  · split at h <;> cases h
    rfl

theorem ioStep_moves {divisions : Nat} {s s' : IoPool} {a : IoAction}
    (h : ioStep divisions s a = some s') : IoMoves divisions s s' := by
  cases a with
  | queue successful bytesTransfered ovlp =>
    rw [ioStep] at h
    split at h
    next i hi =>
      split at h
      next hopen =>
        cases h
        exact .queue i _ rfl (fun _ hovlp => by cases hovlp; exact eposAt_eq_ok hi) hopen
      next => cases h
    next => cases h
  | dequeue i =>
    rw [ioStep] at h
    split at h
    next e rest hthread hqueue =>
      split at h
      next hround => cases h; exact .dispatch i e rest hthread hqueue hround
      next hround => cases h; exact .leave i e rest hthread hqueue hround
      next => cases h
    next => cases h
  | fail i =>
    rw [ioStep] at h
    split at h <;> cases h
    exact .fail
  | finish i =>
    rw [ioStep] at h
    split at h
    next e hthread => cases h; exact .finish i e hthread
    next => cases h
  | uninit => exact .uninit s' (iouninit_iff.mp h)

/-! ## The pool of workers -/

def IoThread.phase : IoThread → Phase Entry
  | .dispatching e => .handling e
  | .returned e => .stopped e
  | _ => .waiting

/-- A port and its thread are a queue and its worker. -/
def IoPool.worker (s : IoPool) : Pool Nat Entry := fun i =>
  ⟨s.queue i, (s.thread i).phase, s.queued i, s.dispatched i⟩

/-- The thread that takes the entry out returns. -/
def Entry.leaves (e : Entry) : Bool := iorun e = .leave

/-- The division of the link of an entry. -/
def Entry.place (divisions : Nat) (e : Entry) : Option Nat :=
  e.ovlp.map fun ovlp => (ovlp.link.tmod divisions).toNat

section

variable {divisions : Nat} {s s' : IoPool} {i : Nat} {e : Entry}

/-- A completion that is queued has arrived at the worker of its port. -/
theorem IoPool.push_worker :
    (s.push i e).worker = Function.update s.worker i ((s.worker i).arrive e) := by
  funext k
  rcases eq_or_ne k i with rfl | hk
  · simp only [worker, push, Function.update_self, Worker.arrive]
  · simp only [worker, push, Function.update_of_ne hk]

/-- A thread moves: what its worker becomes. -/
theorem IoPool.go_worker (t : IoThread) (rest es : List Entry) :
    (s.go i t rest es).worker
      = Function.update s.worker i ⟨rest, t.phase, s.queued i, s.dispatched i ++ es⟩ := by
  funext k
  rcases eq_or_ne k i with rfl | hk
  · simp only [worker, go, Function.update_self]
  · simp only [worker, go, Function.update_of_ne hk]

/-- `iouninit` puts at most a request to exit into a port. -/
theorem Unwinds.worker (h : Unwinds divisions s s') :
    s'.worker = s.worker
      ∨ ∃ i, s'.worker = Function.update s.worker i ((s.worker i).arrive exitEntry) := by
  cases h with
  | ask i hpc hi hactived hopen => exact Or.inr ⟨i, IoPool.push_worker⟩
  | _ => exact Or.inl rfl

/-- **A step of the IO threads is a step of the pool**, or none that a worker sees. -/
theorem IoMoves.worker (h : IoMoves divisions s s') :
    s'.worker = s.worker ∨ Pool.Step Entry.leaves (Entry.place divisions) s.worker s'.worker := by
  have hphase : ∀ {i t}, s.thread i = t → (s.worker i).phase = t.phase := fun hi =>
    congrArg IoThread.phase hi
  cases h with
  | queue i e hovlp hplace hopen =>
    rw [IoPool.push_worker]
    refine Or.inr (.arrive i e fun j hj => ?_)
    obtain ⟨ovlp, he, rfl⟩ := Option.map_eq_some_iff.mp hj
    exact hplace ovlp he
  -- the thread takes a completion out to dispatch it, or to leave
  | dispatch i e rest hthread hqueue hround =>
    rw [IoPool.go_worker]
    exact Or.inr (.work i _ (.take e rest (hphase hthread) hqueue (by simp [Entry.leaves, hround])))
  | leave i e rest hthread hqueue hround =>
    rw [IoPool.go_worker, List.append_nil]
    exact Or.inr (.work i _ (.stop e rest (hphase hthread) hqueue (by simp [Entry.leaves, hround])))
  -- a failed dequeue takes nothing out
  | fail => exact Or.inl rfl
  | finish i e hthread =>
    rw [IoPool.go_worker, List.append_nil]
    exact Or.inr (.work i _ (.finish e (hphase hthread)))
  -- a step of `iouninit` queues the request to exit, or nothing
  | uninit s' hs =>
    rcases hs.worker with hw | ⟨i, hw⟩
    · exact Or.inl hw
    · rw [hw]
      exact Or.inr (.arrive i _ fun j hj => by cases hj)

end

section

variable {o : IoinitAnswers} {s s' : IoPool}

theorem IoReaches.tail (h : IoReaches o s) {a : IoAction} (ha : ioStep o.divisions s a = some s') :
    IoReaches o s' := by
  obtain ⟨s₀, hinit, hrun⟩ := h
  exact ⟨s₀, hinit, hrun.tail ⟨a, ha⟩⟩

theorem IoReaches.trans (h : IoReaches o s)
    (hrun : Relation.ReflTransGen (IoNext o.divisions) s s') : IoReaches o s' := by
  obtain ⟨s₀, hinit, hruns⟩ := h
  exact ⟨s₀, hinit, hruns.trans hrun⟩

/-- One step after another. -/
theorem IoReaches.run (h : IoReaches o s) {as : List IoAction}
    (has : as.foldlM (ioStep o.divisions) s = some s') : IoReaches o s' := by
  induction as generalizing s with
  | nil => cases has; exact h
  | cons a as ih =>
    rw [List.foldlM_cons] at has
    obtain ⟨s₁, ha, has⟩ := Option.bind_eq_some_iff.mp has
    exact ih (h.tail ha) has

/-- What `ioinit` has made is kept by every step: it holds in every run. -/
theorem IoReaches.induct {P : IoPool → Prop} (h : IoReaches o s)
    (hinit : ∀ s₀, ioinit o = (0, some s₀) → P s₀)
    (hstep : ∀ s a s', IoReaches o s → P s → ioStep o.divisions s a = some s' → P s') : P s := by
  obtain ⟨s₀, h₀, hrun⟩ := h
  induction hrun with
  | refl => exact hinit s₀ h₀
  | tail hrun hnext ih =>
    obtain ⟨a, ha⟩ := hnext
    exact hstep _ a _ ⟨s₀, h₀, hrun⟩ ih ha

theorem ioinit_worker (h : ioinit o = (0, some s)) : s.worker = fun _ => .init := by
  rw [ioinit] at h
  split at h <;> cases h
  funext i
  show Worker.mk [] (if o.started i then IoThread.waiting else .absent).phase [] [] = .init
  split <;> rfl

/-- **The ports and their threads are a pool of workers.** -/
theorem IoReaches.pool (h : IoReaches o s) :
    Pool.Reachable Entry.leaves (Entry.place o.divisions) s.worker := by
  refine h.induct (P := fun s => Pool.Reachable Entry.leaves (Entry.place o.divisions) s.worker)
    (fun s₀ h₀ => ?_) fun s a s' _ ih ha => ?_
  · rw [ioinit_worker h₀]
    exact .refl
  · rcases (ioStep_moves ha).worker with hw | hw
    · rw [hw]
      exact ih
    · exact ih.tail hw

end

/-! ## One at a time -/

/-- The entry is a completion of link `l`. -/
def Entry.On (l : Int) (e : Entry) : Prop := e.ovlp.map Overlapped.link = some l

instance (l : Int) : DecidablePred (Entry.On l) := fun e =>
  inferInstanceAs (Decidable (e.ovlp.map Overlapped.link = some l))

/-- The completions of one link go to one place. -/
theorem Entry.On.place {l : Int} {e : Entry} (h : e.On l) (divisions : Nat) :
    e.place divisions = some (l.tmod divisions).toNat := by
  rw [Entry.On, Option.map_eq_some_iff] at h
  obtain ⟨ovlp, he, rfl⟩ := h
  rw [Entry.place, he, Option.map_some]

/-- **The completions of one link come one at a time, in order.** In every state of the IO
threads, whatever is queued and however the threads and `iouninit` take turns: completions of
a link stand in one port; those dispatched are the first of those queued, in that order; two
threads that dispatch completions of one link are the same thread; and a thread about to take
out a completion of a link finds no other at work on that link. -/
theorem iorun_serial (o : IoinitAnswers) (s : IoPool) (h : IoReaches o s) (l : Int) :
    (∀ i, ∀ e ∈ s.queued i, e.On l → i = (l.tmod o.divisions).toNat)
      ∧ (∀ i, (s.dispatched i).filter (Entry.On l) <+: (s.queued i).filter (Entry.On l))
      ∧ (∀ i j e e', s.thread i = .dispatching e → s.thread j = .dispatching e' → e.On l →
          e'.On l → i = j)
      ∧ ∀ i e rest, s.thread i = .waiting → s.queue i = e :: rest → e.On l →
          ∀ j e', s.thread j = .dispatching e' → ¬ e'.On l := by
  have hinv := h.pool.inv
  have hhandling : ∀ {i e}, s.thread i = .dispatching e → (s.worker i).phase = .handling e := by
    intro i e hi
    show (s.thread i).phase = _
    rw [hi]
    rfl
  refine ⟨fun i e he hl => (hinv.placed i e he _ (hl.place _)).symm, fun i => ?_,
    fun i j e e' hi hj hl hl' => hinv.apart (hhandling hi) (hhandling hj) (hl.place _)
      (hl'.place _), fun i e rest hi hq hl j e' hj hl' => ?_⟩
  · exact (((hinv.worker i).taken_first).trans (List.takeWhile_prefix _)).filter _
  · -- the other thread would be the one that waits
    have hhere : e ∈ s.queued i := hinv.queued i e (by
      show e ∈ s.queue i
      rw [hq]
      exact List.mem_cons_self)
    have hthere : e' ∈ s.queued j := hinv.handled j (hhandling hj)
    have heq : i = j :=
      (hinv.placed i e hhere _ (hl.place _)).symm.trans (hinv.placed j e' hthere _ (hl'.place _))
    rw [← heq, hi] at hj
    cases hj

/-- Two processors, and everything the system is asked for. -/
def twoDivisions : IoinitAnswers where
  divisions := 2
  malloc := true
  completionPort i := if i = 0 then 0x60 else 0x64
  createThread i := if i = 0 then 0x70 else 0x74
  port_ne i := by split <;> decide

/-- A run of actions from `ioinit` is a run. -/
theorem twoDivisions_reaches {s₀ s : IoPool} (hinit : ioinit twoDivisions = (0, some s₀))
    (as : List IoAction) (has : as.foldlM (ioStep 2) s₀ = some s) : IoReaches twoDivisions s :=
  IoReaches.run ⟨s₀, hinit, .refl⟩ has

/-- Three completions of two links. -/
theorem iorun_serial_two : ∃ s, IoReaches twoDivisions s
    ∧ s.thread 1 = .dispatching ⟨true, 4, some ⟨0, 3⟩⟩
    ∧ s.queue 1 = [⟨false, 0, some ⟨1, 5⟩⟩, ⟨true, 8, some ⟨2, 3⟩⟩]
    ∧ (∀ j e, s.thread j = .dispatching e → e.On 3 → 1 = j) := by
  obtain ⟨s, hs⟩ : ∃ s, IoReaches twoDivisions s
      ∧ s.thread 1 = .dispatching ⟨true, 4, some ⟨0, 3⟩⟩
      ∧ s.queue 1 = [⟨false, 0, some ⟨1, 5⟩⟩, ⟨true, 8, some ⟨2, 3⟩⟩] :=
    ⟨_, twoDivisions_reaches rfl [.queue true 4 ⟨0, 3⟩, .queue false 0 ⟨1, 5⟩, .dequeue 1,
      .queue true 8 ⟨2, 3⟩] rfl, rfl, rfl⟩
  exact ⟨s, hs.1, hs.2.1, hs.2.2, fun j e hj he =>
    (iorun_serial twoDivisions s hs.1 3).2.2.1 1 j _ e hs.2.1 hj (by decide) he⟩

end Swnet.Iocp
