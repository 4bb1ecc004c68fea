import Swnet.Send.Machine

/-!
# Swnet — who holds an outgoing packet

Each call of `tcp_write` has one buffer and one packet, and each of them is in one place: in
the hands of one thread, in the queue, or with the transport; before that it does not
exist, after that it is freed. `Pc.holds` reads off a place in the code which packets a
thread standing there has to dispose of, and in which state their memory is.

* `Custody` — the invariant: every packet is in one of these places;
* `exec_custody` — a step of a thread keeps it, and breaks no lifetime;
* `SendReachable.custody` — it holds in every reachable state.

The proof goes over the steps of `exec`, place by place. Each of them moves one packet along its way
(`Custody.move`, `Custody.give`, `Custody.takeHead`, `Custody.post`, `Custody.dispose`) or none
(`Custody.stay`), and the packets of all others are where they were.
-/

namespace Swnet

open CMem

/-! ## Places -/

/-- The state of the memory of a packet a thread holds. -/
inductive Stage where
  | bare
  | raw
  | filled
  | spare
  | packet
  deriving DecidableEq, Repr

/-- What memory stands behind each state, for call `k`. -/
def Stage.Matches (L : SendLink) (k : Nat) : Stage → Cell (Block Byte) → Cell Packet → Prop
  | .bare, b, p => b = .absent ∧ p = .absent
  | .raw, b, p => p = .absent ∧ ∃ cell, (L.call k).malloc = some cell
      ∧ b = .live ⟨((L.call k).totalPacketLength L.attrs).toNat, cell⟩
  | .filled, b, p => p = .absent ∧ ∃ blk, b = .live blk
      ∧ (L.call k).buffer L.attrs = .ok (some blk)
  | .spare, b, p => p = .absent ∧ ∃ blk, b = .live blk
  | .packet, b, p => ∃ blk pkt, b = .live blk ∧ p = .live pkt
      ∧ (L.call k).buffer L.attrs = .ok (some blk)
      ∧ pkt.sizeForReq = (L.call k).totalPacketLength L.attrs

/-- Packet `j` and no other. -/
def mine (j : Nat) (st : Stage) (k : Nat) : List Stage := if j = k then [st] else []

/-- What the caller of `tcp_try_write` holds on to meanwhile. -/
def Caller.keeps : Caller → Nat → List Stage
  | .handler (.ioSend j) => mine j .packet
  | _ => fun _ => []

/-- The packets a thread has to dispose of, by the place it stands at. A packet given to
`tcp_try_write` is the caller's until it is appended, and again when the call fails. -/
def Pc.holds : Pc → Nat → List Stage
  | .refer j | .check j | .malloc j => mine j .bare
  | .fill j => mine j .raw
  | .wrap j => mine j .filled
  | .giveUp j true => mine j .spare
  | .written j retval => if retval < 0 then mine j .packet else fun _ => []
  | .enter (.write j) | .grow j | .shrink j | .append j => mine j .packet
  | .look h => (Caller.handler h).keeps
  | .enter c | .raise c | .lower c | .first c => c.keeps
  | .drop c next | .send c next | .sendClose c next | .sendFree c next =>
    fun k => mine next .packet k ++ c.keeps k
  | .leave c (some next) _ => fun k => mine next .packet k ++ c.keeps k
  | .leave (.write j) none retval => if retval < 0 then mine j .packet else fun _ => []
  | .leave c none _ => c.keeps
  | .shutClose j _ | .shutFree j _ | .discard j | .ioRefer j | .ioLower j | .ioFree j
  | .exRefer j _ | .exLower j | .exFree j | .unloadFree j => mine j .packet
  | _ => fun _ => []

@[simp] theorem mine_self (j : Nat) (st : Stage) : mine j st j = [st] := if_pos rfl

theorem mine_of_ne {j k : Nat} (h : k ≠ j) (st : Stage) : mine j st k = [] :=
  if_neg fun heq => h heq.symm

/-- Call `k` has one place. `S` says what each thread holds of it, `queued` and `posted` how
often it stands in the queue and with the transport, `fresh` that it has not begun. -/
inductive Located {τ : Type} (L : SendLink) (k : Nat) (S : τ → List Stage)
    (b : Cell (Block Byte)) (p : Cell Packet) (queued posted : Nat) (fresh : Prop) : Prop
  | fresh (hf : fresh) (hS : ∀ u, S u = []) (hb : b = .absent) (hp : p = .absent)
      (hq : queued = 0) (hl : posted = 0)
  | held (t : τ) (st : Stage) (hf : ¬ fresh) (ht : S t = [st]) (hS : ∀ u, u ≠ t → S u = [])
      (hm : st.Matches L k b p) (hq : queued = 0) (hl : posted = 0)
  | queued (hf : ¬ fresh) (hS : ∀ u, S u = []) (hm : Stage.packet.Matches L k b p)
      (hq : queued = 1) (hl : posted = 0)
  | flying (hf : ¬ fresh) (hS : ∀ u, S u = []) (hm : Stage.packet.Matches L k b p)
      (hq : queued = 0) (hl : posted = 1)
  | gone (hf : ¬ fresh) (hS : ∀ u, S u = []) (hb : b.Dead) (hp : p.Dead)
      (hq : queued = 0) (hl : posted = 0)

/-- Every call has one place. -/
def Custody {τ : Type} (L : SendLink) (s : Sender τ) : Prop :=
  ∀ k, Located L k (fun u => (s.pc u).holds k) (s.buffers k) (s.packets k)
    (s.tcpSenderCache.count k) (s.posted.count k) (s.calls ≤ k)

/-- What custody is about. -/
def Sender.ledger {τ : Type} (s : Sender τ) :
    Heap (Block Byte) × Heap Packet × List Nat × List Nat × Nat :=
  (s.buffers, s.packets, s.tcpSenderCache, s.posted, s.calls)

theorem Custody.start (L : SendLink) {τ : Type} : Custody L (Sender.start : Sender τ) :=
  fun _ => .fresh (Nat.zero_le _) (fun _ => rfl) rfl rfl rfl rfl

section

variable {τ : Type} [DecidableEq τ] {L : SendLink} {s s' : Sender τ} {t : τ} {p : Pc} {j : Nat}
  {st : Stage} {rest : List Stage}

/-! ## Reading custody -/

omit [DecidableEq τ] in
/-- What a thread holds is nowhere else, and in the state the thread takes it to be in. -/
theorem Custody.mine (h : Custody L s) (hj : (s.pc t).holds j = st :: rest) :
    rest = [] ∧ ¬ s.calls ≤ j ∧ (∀ u, u ≠ t → (s.pc u).holds j = [])
      ∧ st.Matches L j (s.buffers j) (s.packets j)
      ∧ s.tcpSenderCache.count j = 0 ∧ s.posted.count j = 0 := by
  cases h j with
  | held u st' hf ht hS hm hq hl =>
    rcases eq_or_ne t u with rfl | hne
    · rw [hj] at ht
      cases ht
      exact ⟨rfl, hf, hS, hm, hq, hl⟩
    · have hnone := hS t hne
      rw [hj] at hnone
      cases hnone
  | fresh hf hS => have hnone := hS t; rw [hj] at hnone; cases hnone
  | queued hf hS => have hnone := hS t; rw [hj] at hnone; cases hnone
  | flying hf hS => have hnone := hS t; rw [hj] at hnone; cases hnone
  | gone hf hS => have hnone := hS t; rw [hj] at hnone; cases hnone

omit [DecidableEq τ] in
/-- A packet that is queued is in no hand, and not with the transport. -/
theorem Custody.of_queued (h : Custody L s) (hj : j ∈ s.tcpSenderCache) :
    ¬ s.calls ≤ j ∧ (∀ u, (s.pc u).holds j = [])
      ∧ Stage.packet.Matches L j (s.buffers j) (s.packets j)
      ∧ s.tcpSenderCache.count j = 1 ∧ s.posted.count j = 0 := by
  have hpos := List.count_pos_iff.mpr hj
  cases h j with
  | queued hf hS hm hq hl => exact ⟨hf, hS, hm, hq, hl⟩
  | fresh hf hS hb hp hq => omega
  | held u st' hf ht hS hm hq => omega
  | flying hf hS hm hq => omega
  | gone hf hS hb hp hq => omega

omit [DecidableEq τ] in
/-- A packet that is with the transport is in no hand, and not queued. -/
theorem Custody.of_posted (h : Custody L s) (hj : j ∈ s.posted) :
    ¬ s.calls ≤ j ∧ (∀ u, (s.pc u).holds j = [])
      ∧ Stage.packet.Matches L j (s.buffers j) (s.packets j)
      ∧ s.tcpSenderCache.count j = 0 ∧ s.posted.count j = 1 := by
  have hpos := List.count_pos_iff.mpr hj
  cases h j with
  | flying hf hS hm hq hl => exact ⟨hf, hS, hm, hq, hl⟩
  | fresh hf hS hb hp hq hl => omega
  | held u st' hf ht hS hm hq hl => omega
  | queued hf hS hm hq hl => omega
  | gone hf hS hb hp hq hl => omega

omit [DecidableEq τ] in
/-- The next call has no place yet. -/
theorem Custody.of_fresh (h : Custody L s) :
    (∀ u, (s.pc u).holds s.calls = []) ∧ s.buffers s.calls = .absent
      ∧ s.packets s.calls = .absent ∧ s.tcpSenderCache.count s.calls = 0
      ∧ s.posted.count s.calls = 0 := by
  have hle := Nat.le_refl s.calls
  cases h s.calls with
  | fresh hf hS hb hp hq hl => exact ⟨hS, hb, hp, hq, hl⟩
  | held u st' hf => exact absurd hle hf
  | queued hf => exact absurd hle hf
  | flying hf => exact absurd hle hf
  | gone hf => exact absurd hle hf

omit [DecidableEq τ] in
/-- A thread disposes of a packet that is there. -/
theorem Custody.freepkt_eq [DecidableEq τ] (h : Custody L s)
    (hj : (s.pc t).holds j = .packet :: rest) :
    s.freepkt j = .ok ((s.setBuffer j .freed).setPacket j .freed) := by
  obtain ⟨-, -, -, ⟨blk, pkt, hb, hp, -⟩, -⟩ := h.mine hj
  simp [Sender.freepkt, hb, hp]

/-! ## Keeping custody -/

/-- The step of a thread that leaves all packets where they are. -/
theorem Custody.stay (h : Custody L s) (s' : Sender τ) (hledger : s'.ledger = s.ledger)
    (hpc : s'.pc = s.pc)
    (hholds : p.holds = (s.pc t).holds) : Custody L (s'.goto t p) := by
  intro k
  have hS : (fun u => ((s'.goto t p).pc u).holds k) = fun u => (s.pc u).holds k := by
    rw [show (s'.goto t p).pc = Function.update s.pc t p by rw [← hpc]; rfl]
    exact view_update (fun q => q.holds k) s.pc t (congrFun hholds k)
  obtain ⟨hb, hp, hq, hl, hc⟩ :
      s'.buffers = s.buffers ∧ s'.packets = s.packets ∧ s'.tcpSenderCache = s.tcpSenderCache
        ∧ s'.posted = s.posted ∧ s'.calls = s.calls := by
    simpa [Sender.ledger] using hledger
  rw [hS]
  show Located L k _ (s'.buffers k) (s'.packets k) (s'.tcpSenderCache.count k)
    (s'.posted.count k) (s'.calls ≤ k)
  rw [hb, hp, hq, hl, hc]
  exact h k

/-- The step of a thread that moves packet `j` only. -/
theorem Custody.move (h : Custody L s) (s' : Sender τ) (j : Nat) (hpc : s'.pc = s.pc)
    (hholds : ∀ k, k ≠ j → p.holds k = (s.pc t).holds k)
    (hframe : ∀ k, k ≠ j → s'.buffers k = s.buffers k ∧ s'.packets k = s.packets k
      ∧ s'.tcpSenderCache.count k = s.tcpSenderCache.count k
      ∧ s'.posted.count k = s.posted.count k ∧ (s'.calls ≤ k ↔ s.calls ≤ k))
    (hj : Located L j (fun u => (Function.update s.pc t p u).holds j) (s'.buffers j)
      (s'.packets j) (s'.tcpSenderCache.count j) (s'.posted.count j) (s'.calls ≤ j)) :
    Custody L (s'.goto t p) := by
  intro k
  show Located L k (fun u => (Function.update s'.pc t p u).holds k) (s'.buffers k) (s'.packets k)
    (s'.tcpSenderCache.count k) (s'.posted.count k) (s'.calls ≤ k)
  rw [hpc]
  rcases eq_or_ne k j with rfl | hne
  · exact hj
  · obtain ⟨hb, hp, hq, hl, hc⟩ := hframe k hne
    rw [view_update (fun q => q.holds k) s.pc t (hholds k hne), hb, hp, hq, hl, propext hc]
    exact h k

/-- A thread moves on with the packet it holds, or has taken, and leaves it in state `st`. -/
theorem Located.held_update {b : Cell (Block Byte)} {c : Cell Packet} {queued posted : Nat}
    {fresh : Prop} (hf : ¬ fresh) (hp : p.holds j = [st])
    (hothers : ∀ u, u ≠ t → (s.pc u).holds j = []) (hm : st.Matches L j b c)
    (hq : queued = 0) (hl : posted = 0) :
    Located L j (fun u => (Function.update s.pc t p u).holds j) b c queued posted fresh :=
  .held t st hf (by rw [Function.update_self, hp])
    (fun u hu => by rw [Function.update_of_ne hu, hothers u hu]) hm hq hl

/-- A thread gives up a packet whose memory is gone, or never was. -/
theorem Custody.dispose (h : Custody L s) (j : Nat) (hj : (s.pc t).holds j = st :: rest)
    (hp : p.holds j = rest) (hothers : ∀ k, k ≠ j → p.holds k = (s.pc t).holds k)
    {b : Cell (Block Byte)} {c : Cell Packet} (hb : b.Dead) (hpk : c.Dead) :
    Custody L (((s.setBuffer j b).setPacket j c).goto t p) := by
  obtain ⟨rfl, hf, hS, -, hq, hl⟩ := h.mine hj
  refine h.move _ j rfl hothers
    (fun k hk => ⟨Function.update_of_ne hk .., Function.update_of_ne hk ..,
    rfl, rfl, Iff.rfl⟩) (.gone hf (view_update_const (fun q => q.holds _) hp hS) ?_ ?_ hq hl)
  · show (Function.update s.buffers j b j).Dead
    rwa [Function.update_self]
  · show (Function.update s.packets j c j).Dead
    rwa [Function.update_self]

/-- The same when nothing is freed. -/
theorem Custody.abandon (h : Custody L s) (j : Nat) (hledger : s'.ledger = s.ledger)
    (hpc : s'.pc = s.pc) (hj : (s.pc t).holds j = .bare :: rest) (hp : p.holds j = rest)
    (hothers : ∀ k, k ≠ j → p.holds k = (s.pc t).holds k) : Custody L (s'.goto t p) := by
  obtain ⟨rfl, hf, hS, ⟨hb, hpk⟩, hq, hl⟩ := h.mine hj
  obtain ⟨hb', hp', hq', hl', hc'⟩ :
      s'.buffers = s.buffers ∧ s'.packets = s.packets ∧ s'.tcpSenderCache = s.tcpSenderCache
        ∧ s'.posted = s.posted ∧ s'.calls = s.calls := by
    simpa [Sender.ledger] using hledger
  refine h.move _ j hpc hothers (fun k _ => ⟨by rw [hb'], by rw [hp'], by rw [hq'], by rw [hl'],
    by rw [hc']⟩) ?_
  rw [hb', hp', hq', hl', hc']
  exact .gone hf (view_update_const (fun q => q.holds _) hp hS) (by rw [hb]; trivial)
    (by rw [hpk]; trivial) hq hl

/-- A thread changes the memory of the packet it holds. -/
theorem Custody.restage (h : Custody L s) (j : Nat) (st' : Stage)
    (hj : (s.pc t).holds j = [st]) (hp : p.holds j = [st'])
    (hothers : ∀ k, k ≠ j → p.holds k = (s.pc t).holds k)
    {b : Cell (Block Byte)} {c : Cell Packet} (hm : st'.Matches L j b c) :
    Custody L (((s.setBuffer j b).setPacket j c).goto t p) := by
  obtain ⟨-, hf, hS, -, hq, hl⟩ := h.mine hj
  refine h.move _ j rfl hothers
    (fun k hk => ⟨Function.update_of_ne hk .., Function.update_of_ne hk ..,
    rfl, rfl, Iff.rfl⟩) (.held_update hf hp hS ?_ hq hl)
  show st'.Matches L j (Function.update s.buffers j b j) (Function.update s.packets j c j)
  rwa [Function.update_self, Function.update_self]

omit [DecidableEq τ] in
theorem Sender.setPacket_eq_self {c : Cell Packet} (h : s.packets j = c) : s.setPacket j c = s := by
  subst h
  simp [Sender.setPacket]

omit [DecidableEq τ] in
theorem Sender.setBuffer_eq_self {c : Cell (Block Byte)} (h : s.buffers j = c) :
    s.setBuffer j c = s := by
  subst h
  simp [Sender.setBuffer]

/-- A packet goes from its thread to the queue. -/
theorem Custody.give (h : Custody L s) (j : Nat) (hj : (s.pc t).holds j = [.packet])
    (hp : p.holds j = []) (hothers : ∀ k, k ≠ j → p.holds k = (s.pc t).holds k)
    (appended : List Nat) :
    Custody L ({ s with
      tcpSenderCache := s.tcpSenderCache ++ [j], appended := appended }.goto t p) := by
  obtain ⟨-, hf, hS, hm, hq, hl⟩ := h.mine hj
  refine h.move _ j rfl hothers (fun k hk => ⟨rfl, rfl, ?_, rfl, Iff.rfl⟩)
    (.queued hf (view_update_const (fun q => q.holds _) hp hS) hm ?_ hl)
  · rw [List.count_append, List.count_singleton, if_neg (by simpa using hk.symm), Nat.add_zero]
  · rw [List.count_append, hq, List.count_singleton_self]

/-- The head of the queue goes to a thread. -/
theorem Custody.takeHead (h : Custody L s) {queue : List Nat}
    (hqueue : s.tcpSenderCache = j :: queue)
    (hp : p.holds j = .packet :: (s.pc t).holds j)
    (hothers : ∀ k, k ≠ j → p.holds k = (s.pc t).holds k) :
    Custody L ({ s with tcpSenderCache := queue }.goto t p) := by
  obtain ⟨hf, hS, hm, hq, hl⟩ := h.of_queued (j := j) (by rw [hqueue]; exact List.mem_cons_self ..)
  rw [hS t] at hp
  rw [hqueue] at hq
  refine h.move _ j rfl hothers (fun k hk => ⟨rfl, rfl, ?_, rfl, Iff.rfl⟩)
    (.held_update hf hp (fun u _ => hS u) hm ?_ hl)
  · rw [hqueue, List.count_cons_of_ne hk.symm]
  · rw [List.count_cons_self] at hq
    show queue.count j = 0
    omega

/-- A packet goes from its thread to the transport. -/
theorem Custody.post (h : Custody L s) (j : Nat) (hj : (s.pc t).holds j = .packet :: rest)
    (hp : p.holds j = rest) (hothers : ∀ k, k ≠ j → p.holds k = (s.pc t).holds k)
    (sent : List Nat) :
    Custody L ({ s with sent := sent, posted := s.posted ++ [j] }.goto t p) := by
  obtain ⟨rfl, hf, hS, hm, hq, hl⟩ := h.mine hj
  refine h.move _ j rfl hothers (fun k hk => ⟨rfl, rfl, rfl, ?_, Iff.rfl⟩)
    (.flying hf (view_update_const (fun q => q.holds _) hp hS) hm hq ?_)
  · rw [List.count_append, List.count_singleton, if_neg (by simpa using hk.symm), Nat.add_zero]
  · rw [List.count_append, hl, List.count_singleton_self]

/-! ## One step of a thread -/

/-- A thread frees a packet it holds and goes on. -/
theorem Custody.freepkt_safe (h : Custody L s) (j : Nat)
    (hj : (s.pc t).holds j = .packet :: rest) (hp : p.holds j = rest)
    (hothers : ∀ k, k ≠ j → p.holds k = (s.pc t).holds k) :
    LifetimeSafe (Custody L) (s.freepkt j >>= fun s => (.ok (s.goto t p) : Exec (Sender τ))) := by
  rw [h.freepkt_eq hj, ok_bind]
  exact .ok (h.dispose j hj hp hothers trivial trivial)

/-- What a thread has of one packet is nothing to another. -/
theorem mine_append_of_ne {k : Nat} (hk : k ≠ j) (f : Nat → List Stage) :
    Swnet.mine j st k ++ f k = f k := by
  rw [mine_of_ne hk, List.nil_append]

omit [DecidableEq τ] in
theorem Caller.resume_zero_holds (c : Caller) : (c.resume 0).holds = c.keeps := by
  rcases c with k | k | _ <;> rfl

omit [DecidableEq τ] in
theorem Caller.resume_holds (c : Caller) (retval : Int) :
    (c.resume retval).holds = (Pc.leave c none retval).holds := by
  rcases c with k | k | _ <;> rfl

/-- **A step of a thread keeps custody and breaks no lifetime.** Most places only move on;
the others allocate, free, or pass one packet on. -/
theorem exec_custody (h : Custody L s) (t : τ) (o : SendOutcome) :
    LifetimeSafe (Custody L) (exec L t o s (s.pc t)) := by
  cases hp : s.pc t with
  | idle => exact h
  | refer k =>
    -- where the link is gone or closed the call returns, and there is nothing to free yet
    rw [exec]
    split
    · exact h.stay _ rfl rfl (by rw [hp]; rfl)
    · exact h.abandon k rfl rfl (by rw [hp]; exact mine_self ..) rfl
        fun j hj => by rw [hp]; exact (mine_of_ne hj _).symm
  | check k =>
    rw [exec]
    split
    · exact h.abandon k rfl rfl (by rw [hp]; exact mine_self ..) rfl
        fun j hj => by rw [hp]; exact (mine_of_ne hj _).symm
    · exact h.stay _ rfl rfl (by rw [hp]; rfl)
  | malloc k =>
    have hmine : (s.pc t).holds k = [.bare] := by rw [hp]; exact mine_self ..
    rw [exec]
    split
    · exact h.abandon k rfl rfl hmine rfl fun j hj => by rw [hp]; exact (mine_of_ne hj _).symm
    · rename_i cell hcell
      obtain ⟨-, -, -, ⟨-, hpk⟩, -⟩ := h.mine hmine
      have hnew := h.restage (p := .fill k) k .raw hmine (mine_self ..)
        (fun j hj => by rw [hp]; exact (mine_of_ne hj _).trans (mine_of_ne hj _).symm)
        (b := .live ⟨((L.call k).totalPacketLength L.attrs).toNat, cell⟩) (c := .absent)
        ⟨rfl, cell, hcell, rfl⟩
      rwa [Sender.setPacket_eq_self (by exact hpk)] at hnew
  | fill k =>
    -- the user's data stays inside of the buffer; a serializer that fails leaves the buffer to free
    have hmine : (s.pc t).holds k = [.raw] := by rw [hp]; exact mine_self ..
    obtain ⟨-, -, -, ⟨hpk, cell, hcell, hb⟩, -⟩ := h.mine hmine
    rw [exec, hb, Cell.get_live, ok_bind]
    have hfill := (L.call k).fill_safe L.attrs ⟨((L.call k).totalPacketLength L.attrs).toNat, cell⟩
    cases hres : (L.call k).fill L.attrs ⟨((L.call k).totalPacketLength L.attrs).toNat, cell⟩ with
    | error e => exact hfill.of_error hres
    | ok r =>
      cases r with
      | none =>
        have hnew := h.restage (p := .giveUp k true) k .spare hmine (mine_self ..)
          (fun j hj => by rw [hp]; exact (mine_of_ne hj _).trans (mine_of_ne hj _).symm)
          (b := s.buffers k) (c := .absent) ⟨rfl, _, hb⟩
        rwa [Sender.setBuffer_eq_self rfl, Sender.setPacket_eq_self hpk] at hnew
      | some blk =>
        have hnew := h.restage (p := .wrap k) k .filled hmine (mine_self ..)
          (fun j hj => by rw [hp]; exact (mine_of_ne hj _).trans (mine_of_ne hj _).symm)
          (b := .live blk) (c := .absent)
          ⟨rfl, blk, rfl, by simp only [WriteCall.buffer, hcell, hres]⟩
        rwa [Sender.setPacket_eq_self (by exact hpk)] at hnew
  | wrap k =>
    have hmine : (s.pc t).holds k = [.filled] := by rw [hp]; exact mine_self ..
    obtain ⟨-, -, -, ⟨hpk, blk, hb, hbuf⟩, -⟩ := h.mine hmine
    rw [exec]
    split
    · have hnew := h.restage (p := .giveUp k true) k .spare hmine (mine_self ..)
        (fun j hj => by rw [hp]; exact (mine_of_ne hj _).trans (mine_of_ne hj _).symm)
        (b := s.buffers k) (c := .absent) ⟨rfl, _, hb⟩
      rwa [Sender.setBuffer_eq_self rfl, Sender.setPacket_eq_self hpk] at hnew
    · rename_i packet _
      have hnew := h.restage (p := .enter (.write k)) k .packet hmine (mine_self ..)
        (fun j hj => by rw [hp]; exact (mine_of_ne hj _).trans (mine_of_ne hj _).symm)
        (b := s.buffers k)
        (c := .live { packet with sizeForReq := (L.call k).totalPacketLength L.attrs })
        ⟨blk, _, hb, rfl, hbuf, rfl⟩
      rwa [Sender.setBuffer_eq_self rfl] at hnew
  | written k retval =>
    -- `tcp_try_write` failed before it appended the packet, which is freed here
    rw [exec]
    by_cases hneg : retval < 0
    · have hholds : (Pc.written k retval).holds = Swnet.mine k .packet := if_pos hneg
      rw [if_pos hneg]
      exact h.freepkt_safe k (by rw [hp, hholds]; exact mine_self ..) rfl
        fun j hj => by rw [hp, hholds]; exact (mine_of_ne hj _).symm
    · rw [if_neg hneg]
      exact h.stay _ rfl rfl (by rw [hp]; exact (if_neg hneg).symm)
  | giveUp k buffer =>
    rw [exec]
    cases buffer with
    | false => exact h.stay _ rfl rfl (by rw [hp]; rfl)
    | true =>
      have hmine : (s.pc t).holds k = [.spare] := by rw [hp]; exact mine_self ..
      obtain ⟨-, -, -, ⟨hpk, blk, hb⟩, -⟩ := h.mine hmine
      rw [if_pos rfl, hb, Cell.free_live, ok_bind]
      have hnew := h.dispose (p := .defer k (-1)) k hmine rfl
        (fun j hj => by rw [hp]; exact (mine_of_ne hj _).symm) (b := .freed) (c := .absent)
        trivial trivial
      rwa [Sender.setPacket_eq_self (by exact hpk)] at hnew
  | defer k retval => exact h.stay _ rfl rfl (by rw [hp]; rfl)
  | enter c => cases c <;> exact h.stay _ rfl rfl (by rw [hp]; rfl)
  | grow k =>
    rw [exec]
    split <;> exact h.stay _ rfl rfl (by rw [hp]; rfl)
  | shrink k => exact h.stay _ rfl rfl (by rw [hp]; rfl)
  | append k =>
    have hmine : (s.pc t).holds k = [.packet] := by rw [hp]; exact mine_self ..
    obtain ⟨-, -, -, ⟨blk, pkt, -, hpk, -⟩, -⟩ := h.mine hmine
    rw [exec, hpk, Cell.get_live, ok_bind]
    exact h.give k hmine rfl (fun j hj => by rw [hp]; exact (mine_of_ne hj _).symm) _
  | look h' =>
    rw [exec]
    split <;> exact h.stay _ rfl rfl (by rw [hp]; rfl)
  | raise c =>
    rw [exec]
    split <;> exact h.stay _ rfl rfl (by rw [hp]; rfl)
  | lower c =>
    rw [exec]
    split
    · exact h.stay _ rfl rfl (by rw [hp]; cases c <;> rfl)
    · exact h.stay _ rfl rfl (by rw [hp]; rfl)
  | first c =>
    -- the head of the queue goes from the queue to this thread
    rw [exec]
    cases hq : s.tcpSenderCache with
    | nil => exact ⟨by decide, by decide⟩
    | cons next rest =>
      obtain ⟨-, -, ⟨blk, pkt, -, hpk, -⟩, -⟩ :=
        h.of_queued (j := next) (by rw [hq]; exact List.mem_cons_self ..)
      dsimp only
      rw [hpk, Cell.get_live, ok_bind]
      refine h.takeHead hq ?_ fun j hj => ?_
      · show Swnet.mine next .packet next ++ c.keeps next = _
        rw [mine_self, hp]
        rfl
      · rw [hp]
        exact mine_append_of_ne hj _
  | drop c next => exact h.stay _ rfl rfl (by rw [hp]; rfl)
  | leave c next retval =>
    cases next with
    | none => exact h.stay _ rfl rfl (by rw [hp]; exact c.resume_holds retval)
    | some next => exact h.stay _ rfl rfl (by rw [hp]; rfl)
  | send c next =>
    -- to the transport, or back to the thread that could not post it
    have hmine : (s.pc t).holds next = .packet :: c.keeps next := by
      rw [hp]
      show Swnet.mine next .packet next ++ c.keeps next = _
      rw [mine_self]
      rfl
    obtain ⟨-, -, -, ⟨blk, pkt, -, hpk, -⟩, -⟩ := h.mine hmine
    rw [exec, hpk, Cell.get_live, ok_bind]
    dsimp only
    split
    · refine h.post next hmine (by rw [c.resume_zero_holds]) (fun j hj => ?_) _
      rw [c.resume_zero_holds, hp]
      exact (mine_append_of_ne hj _).symm
    · exact h.stay _ rfl rfl (by rw [hp]; rfl)
  | sendClose c next => exact h.stay _ rfl rfl (by rw [hp]; rfl)
  | sendFree c next =>
    have hmine : (s.pc t).holds next = .packet :: c.keeps next := by
      rw [hp]
      show Swnet.mine next .packet next ++ c.keeps next = _
      rw [mine_self]
      rfl
    refine h.freepkt_safe next hmine (by rw [c.resume_zero_holds]) fun j hj => ?_
    rw [c.resume_zero_holds, hp]
    exact (mine_append_of_ne hj _).symm
  | shutClose k ref => exact h.stay _ rfl rfl (by rw [hp]; rfl)
  | shutFree k ref =>
    have hmine : (s.pc t).holds k = [.packet] := by rw [hp]; exact mine_self ..
    refine h.freepkt_safe k hmine ?_ fun j hj => ?_
    · cases ref <;> rfl
    · rw [hp]
      cases ref <;> exact (mine_of_ne hj _).symm
  | discard k =>
    exact h.freepkt_safe k (by rw [hp]; exact mine_self ..) rfl
      fun j hj => by rw [hp]; exact (mine_of_ne hj _).symm
  | ioRefer k =>
    rw [exec]
    split <;> exact h.stay _ rfl rfl (by rw [hp]; rfl)
  | ioLower k => exact h.stay _ rfl rfl (by rw [hp]; rfl)
  | ioFree k =>
    exact h.freepkt_safe k (by rw [hp]; exact mine_self ..) rfl
      fun j hj => by rw [hp]; exact (mine_of_ne hj _).symm
  | exRefer k status =>
    rw [exec]
    split
    · exact h.stay _ rfl rfl (by rw [hp]; rfl)
    · split <;> exact h.stay _ rfl rfl (by rw [hp]; rfl)
  | exLower k => exact h.stay _ rfl rfl (by rw [hp]; rfl)
  | exFree k =>
    exact h.freepkt_safe k (by rw [hp]; exact mine_self ..) rfl
      fun j hj => by rw [hp]; exact (mine_of_ne hj _).symm
  | ioDefer => exact h.stay _ rfl rfl (by rw [hp]; rfl)
  | unloadSize => exact h.stay _ rfl rfl (by rw [hp]; rfl)
  | unloadEnter => exact h.stay _ rfl rfl (by rw [hp]; rfl)
  | unloadDrain =>
    -- `tcp_unload` frees the queue one packet at a time
    rw [exec]
    cases hq : s.tcpSenderCache with
    | nil => exact h.stay _ rfl rfl (by rw [hp]; rfl)
    | cons k rest =>
      obtain ⟨-, -, ⟨blk, pkt, -, hpk, -⟩, -⟩ :=
        h.of_queued (j := k) (by rw [hq]; exact List.mem_cons_self ..)
      dsimp only
      rw [hpk, Cell.get_live, ok_bind]
      exact h.takeHead hq (by rw [hp]; exact mine_self ..)
        fun j hj => by rw [hp]; exact mine_of_ne hj _
  | unloadFree k =>
    exact h.freepkt_safe k (by rw [hp]; exact mine_self ..) rfl
      fun j hj => by rw [hp]; exact (mine_of_ne hj _).symm
  | unloadLeave => exact h.stay _ rfl rfl (by rw [hp]; rfl)

/-! ## Every reachable state -/

omit [DecidableEq τ] in
/-- A handler has the packet of its completion. -/
theorem dispatchIoEvent_holds (k : Nat) (status : NtStatus) (size : Int) :
    (dispatchIoEvent k status size).holds = Swnet.mine k .packet := by
  unfold dispatchIoEvent
  split
  · rfl
  · split <;> rfl

/-- The same of every step of a run. -/
theorem step_custody (h : Custody L s) {a : Action τ} (ha : Enabled s a) :
    LifetimeSafe (Custody L) (step L s a) := by
  cases a with
  | call t =>
    have hidle : s.pc t = .idle := ha
    -- the call takes the next number, and no other packet is concerned
    have hframe : ∀ k, k ≠ s.calls → (s.calls + 1 ≤ k ↔ s.calls ≤ k) := by
      intro k hk
      omega
    have hbegun : ¬ s.calls + 1 ≤ s.calls := by omega
    obtain ⟨hS, hb, hpk, hq, hl⟩ := h.of_fresh
    rw [step]
    dsimp only
    split
    · -- the arguments are turned down: nothing was allocated
      intro k
      rcases eq_or_ne k s.calls with rfl | hne
      · exact .gone hbegun hS (by rw [hb]; trivial) (by rw [hpk]; trivial) hq hl
      · have hk := h k
        rw [← propext (hframe k hne)] at hk
        exact hk
    · refine h.move { s with calls := s.calls + 1 } s.calls rfl
        (fun k hk => ?_) (fun k hk => ⟨rfl, rfl, rfl, rfl, hframe k hk⟩)
        (.held_update hbegun (mine_self ..) (fun u _ => hS u) ⟨hb, hpk⟩ hq hl)
      rw [hidle]
      exact mine_of_ne hk _
  | run t o => exact exec_custody h t o
  -- the transport reads the buffer of a packet it has
  | take k =>
    obtain ⟨-, -, ⟨blk, pkt, hb, hpk, -⟩, -⟩ := h.of_posted ha
    rw [step, hpk, Cell.get_live, ok_bind, hb, Cell.get_live, ok_bind]
    split
    · exact h
    · exact h
  -- the packet goes from the transport to the handler
  | complete t k status =>
    obtain ⟨hidle, hposted⟩ := ha
    obtain ⟨hf, hS, ⟨blk, pkt, hb, hpk, hbuf, hsize⟩, hq, hl⟩ := h.of_posted hposted
    rw [step, hpk, Cell.get_live, ok_bind]
    refine h.move { s.setPacket k (.live { pkt with sizeForTranslation := s.taken k }) with
        posted := s.posted.erase k, completions := s.completions ++ [(k, status)] } k rfl
      (fun j hj => ?_) (fun j hj => ⟨rfl, Function.update_of_ne hj .., rfl,
        List.count_erase_of_ne hj, Iff.rfl⟩) (.held_update hf
          (by rw [dispatchIoEvent_holds]; exact mine_self ..) (fun u _ => hS u) ?_ hq ?_)
    · rw [dispatchIoEvent_holds, hidle]
      exact mine_of_ne hj _
    · exact ⟨blk, _, hb, Function.update_self .., hbuf, hsize⟩
    · rw [List.count_erase_self, hl]
  | close => exact h
  | unload t =>
    obtain ⟨hidle, -⟩ := ha
    exact h.stay { s with unloaded := true } rfl rfl (by rw [hidle]; rfl)

/-- **Custody holds in every reachable state.** -/
theorem SendReachable.custody (h : SendReachable L s) : Custody L s := by
  induction h with
  | refl => exact Custody.start L
  | tail _ hstep ih =>
    obtain ⟨a, ha, heq⟩ := hstep
    exact (step_custody ih ha).of_ok heq

end

end Swnet
