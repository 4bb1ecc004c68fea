import Swnet.Send.Write

/-!
# Swnet — the threads that send on a link (`tcp.c`)

`tcp_write`, `tcp_try_write`, `tcp_dispatch_io_send`, the send branch of
`tcp_dispatch_io_exception`, `tcp_shutdown_by_packet` on a send packet and `tcp_unload`, as
threads over one control block. A `Pc` is a place in that code; `exec` takes a thread from
one place to the next, one interlocked operation, lock operation, list operation,
allocation or free at a time. Steps of different threads come in any order.

Calls of `tcp_write` are numbered as they begin. The number of a call also names its buffer
and the packet wrapped around it: `buffers k` is the memory behind `ori_buffer_` and `irp_`
of packet `k`, which is why `oriBuffer` stays `NULL` in the packets here.

`tcp_sender_locker_` is taken once at a time by each thread, so that its recursion count is
left out.
-/

namespace Swnet

open CMem

/-! ## Places in the code -/

/-- The failures of a send after which `tcp_dispatch_io_exception` closes the link. -/
def endsLink (status : NtStatus) : Bool :=
  status == statusRemoteDisconnect || status == statusConnectionDisconnected
    || status == statusConnectionReset

/-- The completion handlers, which call `tcp_try_write` with `NULL`: `tcp_dispatch_io_send`
for the packet `k` that was sent, and `tcp_dispatch_io_exception`. -/
inductive Handler where
  | ioSend (k : Nat)
  | exception
  deriving DecidableEq, Repr

/-- Who called `tcp_try_write`: `tcp_write` with its packet, or a handler. -/
inductive Caller where
  | write (k : Nat)
  | handler (h : Handler)
  deriving DecidableEq, Repr

/-- Where a thread stands. -/
inductive Pc where
  | idle
  -- `tcp_write`
  | refer (k : Nat)
  | check (k : Nat)
  | malloc (k : Nat)
  | fill (k : Nat)
  | wrap (k : Nat)
  | written (k : Nat) (retval : Int)
  | giveUp (k : Nat) (buffer : Bool)
  | defer (k : Nat) (retval : Int)
  -- `tcp_try_write`
  | enter (c : Caller)
  | grow (k : Nat)
  | shrink (k : Nat)
  | append (k : Nat)
  | look (h : Handler)
  | raise (c : Caller)
  | lower (c : Caller)
  | first (c : Caller)
  | drop (c : Caller) (next : Nat)
  | leave (c : Caller) (next : Option Nat) (retval : Int)
  | send (c : Caller) (next : Nat)
  | sendClose (c : Caller) (next : Nat)
  | sendFree (c : Caller) (next : Nat)
  -- completions; `ref` tells whether the handler holds a reference
  | shutClose (k : Nat) (ref : Bool)
  | shutFree (k : Nat) (ref : Bool)
  | discard (k : Nat)
  | ioRefer (k : Nat)
  | ioLower (k : Nat)
  | ioFree (k : Nat)
  | exRefer (k : Nat) (status : NtStatus)
  | exLower (k : Nat)
  | exFree (k : Nat)
  | ioDefer
  -- `tcp_unload`
  | unloadSize
  | unloadEnter
  | unloadDrain
  | unloadFree (k : Nat)
  | unloadLeave

/-- The place `tcp_try_write` returns to. -/
def Caller.resume : Caller → Int → Pc
  | .write k, retval => .written k retval
  | .handler (.ioSend k), _ => .ioFree k
  | .handler .exception, _ => .ioDefer

/-! ## The state -/

/-- The sender group of `ncb_t`, the reference state of its object, the memory of the
outgoing packets, the transport, and where each thread stands. The last five record what
happened: the packets appended, sent and lowered for, the completions and the results. -/
structure Sender (τ : Type) where
  tcpSenderLocker : Option τ
  tcpSenderListSize : Int
  tcpWritePending : Int
  tcpSenderCache : List Nat
  closed : Bool
  unloaded : Bool
  buffers : Heap (Block Byte)
  packets : Heap Packet
  posted : List Nat
  taken : Nat → Nat
  wire : List Byte
  calls : Nat
  pc : τ → Pc
  appended : List Nat
  sent : List Nat
  lowered : List Nat
  completions : List (Nat × NtStatus)
  results : List (Nat × Int)

/-- What is fixed over a run: the handle of the link and its calls of `tcp_write`. -/
structure SendLink where
  attrs : Linkattr
  hld : Int
  call : Nat → WriteCall

namespace Sender

variable {τ : Type}

def start : Sender τ where
  tcpSenderLocker := none
  tcpSenderListSize := 0
  tcpWritePending := 0
  tcpSenderCache := []
  closed := false
  unloaded := false
  buffers _ := .absent
  packets _ := .absent
  posted := []
  taken _ := 0
  wire := []
  calls := 0
  pc _ := .idle
  appended := []
  sent := []
  lowered := []
  completions := []
  results := []

variable [DecidableEq τ]

def goto (s : Sender τ) (t : τ) (p : Pc) : Sender τ :=
  { s with pc := Function.update s.pc t p }

def setBuffer (s : Sender τ) (k : Nat) (c : Cell (Block Byte)) : Sender τ :=
  { s with buffers := Function.update s.buffers k c }

def setPacket (s : Sender τ) (k : Nat) (c : Cell Packet) : Sender τ :=
  { s with packets := Function.update s.packets k c }

/-- `freepkt` on a packet without access style: its buffer, then the packet. -/
def freepkt (s : Sender τ) (k : Nat) : Exec (Sender τ) := do
  let _ ← (s.packets k).get
  let buffer ← (s.buffers k).free
  let packet ← (s.packets k).free
  return (s.setBuffer k buffer).setPacket k packet

omit [DecidableEq τ] in
/-- Freeing a packet touches its memory only. -/
theorem freepkt_yields (s : Sender τ) (k : Nat) :
    Yields (fun s' => ∃ b p, s' = (s.setBuffer k b).setPacket k p) (s.freepkt k) := by
  refine .bind_any fun _ _ => .bind_any fun b _ => .bind_any fun p _ => ?_
  exact ⟨b, p, rfl⟩

end Sender

/-! ## One step of a thread -/

/-- What the system answers in a step: whether `tcprefr` yields the link, and whether
`asio_tcp_send` posts the packet. -/
structure SendOutcome where
  refr : Bool
  post : Bool
  deriving DecidableEq, Repr

section

variable {τ : Type} [DecidableEq τ]

/-- The step of thread `t` from the place it stands at. -/
def exec (L : SendLink) (t : τ) (o : SendOutcome) (s : Sender τ) : Pc → Exec (Sender τ)
  | .idle => return s
  -- `tcp_write`
  | .refer k =>
    if o.refr then return s.goto t (.check k)
    else return { s with results := s.results ++ [(k, -2)] }.goto t .idle
  | .check k =>
    if tcpMaximumSenderCachedCntPreLink ≤ s.tcpSenderListSize then
      return s.goto t (.giveUp k false)
    else return s.goto t (.malloc k)
  | .malloc k =>
    match (L.call k).malloc with
    | none => return s.goto t (.giveUp k false)
    | some cell =>
      let total := ((L.call k).totalPacketLength L.attrs).toNat
      return (s.setBuffer k (.live ⟨total, cell⟩)).goto t (.fill k)
  | .fill k => do
    let buffer ← (s.buffers k).get
    match ← (L.call k).fill L.attrs buffer with
    | none => return s.goto t (.giveUp k true)
    | some buffer => return (s.setBuffer k (.live buffer)).goto t (.wrap k)
  | .wrap k =>
    match allocatePacket ⟨(L.call k).packet, none⟩ L.hld .tcp .send 0 .noAccess with
    | none => return s.goto t (.giveUp k true)
    | some packet =>
      let packet := { packet with sizeForReq := (L.call k).totalPacketLength L.attrs }
      return (s.setPacket k (.live packet)).goto t (.enter (.write k))
  | .written k retval =>
    if retval < 0 then do
      let s ← s.freepkt k
      return s.goto t (.giveUp k false)
    else return s.goto t (.defer k retval)
  | .giveUp k buffer =>
    if buffer then do
      let cell ← (s.buffers k).free
      return (s.setBuffer k cell).goto t (.defer k (-1))
    else return s.goto t (.defer k (-1))
  | .defer k retval => return { s with results := s.results ++ [(k, retval)] }.goto t .idle
  -- `tcp_try_write`
  | .enter c =>
    let s := { s with tcpSenderLocker := some t }
    match c with
    | .write k => return s.goto t (.grow k)
    | .handler h => return s.goto t (.look h)
  | .grow k =>
    let s := { s with tcpSenderListSize := s.tcpSenderListSize + 1 }
    if tcpMaximumSenderCachedCntPreLink ≤ s.tcpSenderListSize then return s.goto t (.shrink k)
    else return s.goto t (.append k)
  | .shrink k =>
    return { s with tcpSenderListSize := s.tcpSenderListSize - 1 }.goto t
      (.leave (.write k) none (-1))
  | .append k => do
    let _ ← (s.packets k).get
    return { s with
      tcpSenderCache := s.tcpSenderCache ++ [k]
      appended := s.appended ++ [k] }.goto t (.raise (.write k))
  | .look h =>
    if s.tcpSenderCache = [] then return s.goto t (.leave (.handler h) none (-1))
    else return s.goto t (.raise (.handler h))
  | .raise c =>
    let s := { s with tcpWritePending := s.tcpWritePending + 1 }
    if (1 : Int) < s.tcpWritePending then return s.goto t (.lower c) else return s.goto t (.first c)
  | .lower c =>
    let s := { s with tcpWritePending := s.tcpWritePending - 1 }
    -- leaving from inside the loop and leaving with nothing to send are the same steps
    if (0 : Int) < s.tcpWritePending then return s.goto t (.leave c none 0)
    else return s.goto t (.raise c)
  | .first c =>
    match s.tcpSenderCache with
    | [] => throw .nullPointer
    | next :: rest => do
      let _ ← (s.packets next).get
      return { s with tcpSenderCache := rest }.goto t (.drop c next)
  | .drop c next =>
    return { s with tcpSenderListSize := s.tcpSenderListSize - 1 }.goto t (.leave c (some next) 0)
  | .leave c next retval =>
    let s := { s with tcpSenderLocker := none }
    match next with
    | none => return s.goto t (c.resume retval)
    | some next => return s.goto t (.send c next)
  | .send c next => do
    let _ ← (s.packets next).get
    let s := { s with sent := s.sent ++ [next] }
    if o.post then return { s with posted := s.posted ++ [next] }.goto t (c.resume 0)
    else return s.goto t (.sendClose c next)
  | .sendClose c next => return { s with closed := true }.goto t (.sendFree c next)
  | .sendFree c next => do
    let s ← s.freepkt next
    return s.goto t (c.resume 0)
  -- completions
  | .shutClose k ref => return { s with closed := true }.goto t (.shutFree k ref)
  | .shutFree k ref => do
    let s ← s.freepkt k
    return s.goto t (if ref then .ioDefer else .idle)
  | .discard k => do
    let s ← s.freepkt k
    return s.goto t .idle
  | .ioRefer k => if o.refr then return s.goto t (.ioLower k) else return s.goto t (.discard k)
  | .ioLower k =>
    return { s with
      tcpWritePending := s.tcpWritePending - 1
      lowered := s.lowered ++ [k] }.goto t (.enter (.handler (.ioSend k)))
  | .ioFree k => do
    let s ← s.freepkt k
    return s.goto t .ioDefer
  | .exRefer k status =>
    if ¬ o.refr then return s.goto t (.discard k)
    else if endsLink status then return s.goto t (.shutClose k true)
    else return s.goto t (.exLower k)
  | .exLower k =>
    return { s with
      tcpWritePending := s.tcpWritePending - 1
      lowered := s.lowered ++ [k] }.goto t (.exFree k)
  | .exFree k => do
    let s ← s.freepkt k
    return s.goto t (.enter (.handler .exception))
  | .ioDefer => return s.goto t .idle
  -- `tcp_unload`
  | .unloadSize => return { s with tcpSenderListSize := 0 }.goto t .unloadEnter
  | .unloadEnter => return { s with tcpSenderLocker := some t }.goto t .unloadDrain
  | .unloadDrain =>
    match s.tcpSenderCache with
    | [] => return s.goto t .unloadLeave
    | k :: rest => do
      let _ ← (s.packets k).get
      return { s with tcpSenderCache := rest }.goto t (.unloadFree k)
  | .unloadFree k => do
    let s ← s.freepkt k
    return s.goto t .unloadDrain
  | .unloadLeave => return { s with tcpSenderLocker := none }.goto t .idle

/-- What no step of a thread changes. -/
def Sender.Framed (s s' : Sender τ) : Prop :=
  s'.unloaded = s.unloaded ∧ s'.calls = s.calls ∧ s'.wire = s.wire ∧ s'.taken = s.taken
    ∧ s'.completions = s.completions

/-- **A step of one thread changes what is its own**, and what all share. -/
theorem exec_framed (L : SendLink) (t : τ) (o : SendOutcome) (s : Sender τ) (p : Pc) :
    Yields s.Framed (exec L t o s p) := by
  have hfree : ∀ (k : Nat) (q : Pc),
      Yields s.Framed (s.freepkt k >>= fun s => (.ok (s.goto t q) : Exec (Sender τ))) := by
    refine fun k q => (s.freepkt_yields k).bind fun s₁ hs₁ => ?_
    obtain ⟨b, pk, rfl⟩ := hs₁
    exact ⟨rfl, rfl, rfl, rfl, rfl⟩
  rw [exec.eq_def]
  cases p <;> dsimp only <;>
    repeat' first
      | exact hfree _ _
      | exact ⟨rfl, rfl, rfl, rfl, rfl⟩
      | trivial
      | split
      | refine .bind_any fun _ _ => ?_

/-- What is seen of each thread is unchanged when the one that moves shows the same as before. -/
theorem view_update {β : Type} (view : Pc → β) (pc : τ → Pc) (t : τ) {p : Pc}
    (h : view p = view (pc t)) :
    (fun u => view (Function.update pc t p u)) = fun u => view (pc u) := by
  funext u
  rcases eq_or_ne u t with rfl | hne
  · rw [Function.update_self, h]
  · rw [Function.update_of_ne hne]

/-- A view that is the same before and after is the same for all threads. -/
theorem view_update_const {β : Type} (view : Pc → β) {pc : τ → Pc} {t : τ} {p : Pc} {v : β}
    (hp : view p = v) (hothers : ∀ u, u ≠ t → view (pc u) = v) (u : τ) :
    view (Function.update pc t p u) = v := by
  rcases eq_or_ne u t with rfl | hne
  · rw [Function.update_self, hp]
  · rw [Function.update_of_ne hne, hothers u hne]

/-! ## Steps and runs -/

/-- A step of the whole: a thread calls `tcp_write`, a thread takes its next step, the
transport takes the next byte of a posted packet, a thread picks up the completion of a
packet, somebody closes the link, the last reference is gone and a thread unloads it. -/
inductive Action (τ : Type) where
  | call (t : τ)
  | run (t : τ) (o : SendOutcome)
  | take (k : Nat)
  | complete (t : τ) (k : Nat) (status : NtStatus)
  | close
  | unload (t : τ)

/-- Where `tcp_dispatch_io_event` sends the completion of a packet, of which `size` bytes
were transferred. -/
def dispatchIoEvent (k : Nat) (status : NtStatus) (size : Int) : Pc :=
  if ¬ ntSuccess status then .exRefer k status
  else if size ≤ 0 then .shutClose k false
  else .ioRefer k

def step (L : SendLink) (s : Sender τ) : Action τ → Exec (Sender τ)
  | .call t =>
    let k := s.calls
    let s := { s with calls := k + 1 }
    if (L.call k).rejected then return { s with results := s.results ++ [(k, -1)] }
    else return s.goto t (.refer k)
  | .run t o => exec L t o s (s.pc t)
  | .take k => do
    let packet ← (s.packets k).get
    let buffer ← (s.buffers k).get
    if (s.taken k : Int) < packet.sizeForReq then
      return { s with
        wire := s.wire ++ [buffer.cell (s.taken k)]
        taken := Function.update s.taken k (s.taken k + 1) }
    else return s
  | .complete t k status => do
    let packet ← (s.packets k).get
    let s := s.setPacket k (.live { packet with sizeForTranslation := s.taken k })
    return { s with
      posted := s.posted.erase k
      completions := s.completions ++ [(k, status)] }.goto t
        (dispatchIoEvent k status (s.taken k))
  | .close => return { s with closed := true }
  | .unload t => return { s with unloaded := true }.goto t .unloadSize

/-- The thread is at `EnterCriticalSection`. -/
def Pc.locks : Pc → Bool
  | .enter _ | .unloadEnter => true
  | _ => false

/-- The thread is at `tcprefr`. -/
def Pc.refers : Pc → Bool
  | .refer _ | .ioRefer _ | .exRefer _ _ => true
  | _ => false

/-- The thread holds a reference on the link. -/
def Pc.holdsRef : Pc → Bool
  | .idle | .refer _ | .shutClose _ false | .shutFree _ false | .discard _ | .ioRefer _
  | .exRefer _ _ | .unloadSize | .unloadEnter | .unloadDrain | .unloadFree _ | .unloadLeave => false
  | _ => true

/-- When a step can be taken. A lock is waited for; a link that was not closed can be
referenced, and one that is unloaded cannot; a link is unloaded once, closed and without a
reference. -/
def Enabled (s : Sender τ) : Action τ → Prop
  | .call t => s.pc t = .idle
  | .run t o => s.pc t ≠ .idle
      ∧ ((s.pc t).locks = true → s.tcpSenderLocker = none)
      ∧ ((s.pc t).refers = true → (s.closed = false → o.refr = true)
          ∧ (s.unloaded = true → o.refr = false))
  | .take k => k ∈ s.posted
  | .complete t k _ => s.pc t = .idle ∧ k ∈ s.posted
  | .close => True
  | .unload t => s.pc t = .idle ∧ s.closed = true ∧ s.unloaded = false
      ∧ ∀ u, (s.pc u).holdsRef = false

/-- One step of a run. -/
def SendStep (L : SendLink) (s s' : Sender τ) : Prop :=
  ∃ a, Enabled s a ∧ step L s a = .ok s'

/-- The states of a link reached in any run, by any number of threads. -/
def SendReachable (L : SendLink) (s : Sender τ) : Prop :=
  Relation.ReflTransGen (SendStep L) Sender.start s

def Pc.isIdle : Pc → Bool
  | .idle => true
  | _ => false

/-- A thread is idle if it stands nowhere. -/
theorem Pc.isIdle_iff (p : Pc) : p.isIdle = true ↔ p = .idle := by
  cases p <;> simp [Pc.isIdle]

instance (p : Pc) : Decidable (p = .idle) := decidable_of_iff _ p.isIdle_iff

instance [Fintype τ] (s : Sender τ) : (a : Action τ) → Decidable (Enabled s a)
  | .call t => inferInstanceAs (Decidable (s.pc t = .idle))
  | .run t o => inferInstanceAs (Decidable (s.pc t ≠ .idle
      ∧ ((s.pc t).locks = true → s.tcpSenderLocker = none)
      ∧ ((s.pc t).refers = true → (s.closed = false → o.refr = true)
          ∧ (s.unloaded = true → o.refr = false))))
  | .take k => inferInstanceAs (Decidable (k ∈ s.posted))
  | .complete t k _ => inferInstanceAs (Decidable (s.pc t = .idle ∧ k ∈ s.posted))
  | .close => inferInstanceAs (Decidable True)
  | .unload t => inferInstanceAs (Decidable (s.pc t = .idle ∧ s.closed = true ∧ s.unloaded = false
      ∧ ∀ u, (s.pc u).holdsRef = false))

/-- Take the given steps one after the other, as far as they are enabled. -/
def play [Fintype τ] (L : SendLink) (s : Sender τ) : List (Action τ) → Option (Sender τ)
  | [] => some s
  | a :: as =>
    if Enabled s a then
      match step L s a with
      | .ok s' => play L s' as
      | .error _ => none
    else none

theorem play_reachable [Fintype τ] {L : SendLink} {s s' : Sender τ} (h : SendReachable L s)
    {as : List (Action τ)} (heq : play L s as = some s') : SendReachable L s' := by
  induction as generalizing s with
  | nil =>
    cases heq
    exact h
  | cons a as ih =>
    rw [play] at heq
    split at heq
    · rename_i ha
      cases hstep : step L s a with
      | error e => rw [hstep] at heq; cases heq
      | ok s₁ =>
        rw [hstep] at heq
        exact ih (h.tail ⟨a, ha, hstep⟩) heq
    · cases heq

/-- A state with a property that can be computed, reached by the given steps. -/
theorem exists_of_play [Fintype τ] {L : SendLink} {P : Sender τ → Prop} [DecidablePred P]
    (as : List (Action τ)) (h : (play L .start as).any (fun s => decide (P s)) = true) :
    ∃ s, SendReachable L s ∧ P s := by
  rw [Option.any_eq_true] at h
  obtain ⟨s, hs, hP⟩ := h
  exact ⟨s, play_reachable .refl hs, of_decide_eq_true hP⟩

/-- A link whose calls are for `datas`, one after the other. -/
def rawLink (datas : List (List Byte)) : SendLink where
  attrs := ⟨1, 2, 4⟩
  hld := 3
  call k := .raw (datas.getD k [])

/-- A call of `tcp_write` by a lone thread that takes `n` steps: 15 when the packet is sent at
once, 13 when it stays in the queue. -/
def writeSteps (n : Nat) : List (Action Unit) := .call () :: List.replicate n (.run () ⟨true, true⟩)

/-- A link stays unloaded. -/
theorem step_unloaded (L : SendLink) {s : Sender τ} (a : Action τ) (h : s.unloaded = true) :
    Yields (fun s' => s'.unloaded = true) (step L s a) := by
  cases a with
  | call t =>
    rw [step]
    dsimp only
    split <;> exact h
  | run t o =>
    have hframed := exec_framed L t o s (s.pc t)
    rw [step]
    cases hexec : exec L t o s (s.pc t) with
    | error e => trivial
    | ok s' =>
      rw [hexec] at hframed
      exact hframed.1.trans h
  | take k =>
    refine .bind_any fun pk _ => .bind_any fun b _ => ?_
    split <;> exact h
  | complete t k status => exact .bind_any fun pk _ => h
  | close => exact h
  | unload t => rfl

end

end Swnet
