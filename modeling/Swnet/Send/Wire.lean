import Swnet.Send.Record

/-!
# Swnet — the outgoing stream

What the transport has taken, packet by packet. A packet can be followed by another one only
after its completion, and `tcp_dispatch_io_exception` goes on with the queue after every
failure but the three that end a link, and `tcp_dispatch_io_send` after every transfer but an
empty one: whatever part of the packet was taken.

* `sentStream` — the bytes taken, and where a hole in them can come from;
* `sentStream_hole` — a failed send that leaves one.

`Wired` says of each packet how much of it the transport has taken, and of each completion what it
has led to: the handler went on, or the link is closed, or there is a handler yet to close it. Two
packets in a row mean that the first has had its completion and was let through; so a hole in the
stream is a packet that was let through and not taken whole.
-/

namespace Swnet

open CMem

/-- The part of packet `k` that the transport has taken. -/
def Sender.part {τ : Type} (L : SendLink) (s : Sender τ) (k : Nat) : List Byte :=
  ((L.call k).bytes L.attrs).take (s.taken k)

/-- The bytes of the packets that were queued, in the order of the queue. -/
def Sender.stream {τ : Type} (L : SendLink) (s : Sender τ) : List Byte :=
  s.appended.flatMap fun k => (L.call k).bytes L.attrs

/-- Packet `k` was completed in a way after which the link goes on. -/
def Sender.GoesOn {τ : Type} (s : Sender τ) (k : Nat) : Prop :=
  ∃ status, (k, status) ∈ s.completions ∧ completionEnds status (s.taken k) = false

/-- What was taken of each packet, and what its completion led to. -/
structure Wired {τ : Type} (L : SendLink) (s : Sender τ) : Prop where
  wire : s.wire = s.sent.flatMap (s.part L)
  taken_le : ∀ k, s.taken k ≤ ((L.call k).bytes L.attrs).length
  untaken : ∀ k, k ∉ s.sent → s.taken k = 0
  once : (s.completions.map Prod.fst).Nodup
  completed : ∀ k status, (k, status) ∈ s.completions → k ∈ s.sent ∧ k ∉ s.posted
  told : ∀ t, (s.pc t).Told s
  answered : ∀ k ∈ s.lowered, s.GoesOn k
  ending : ∀ k status, (k, status) ∈ s.completions →
    completionEnds status (s.taken k) = true → s.closed = true ∨ ∃ t, (s.pc t).ending = some k

theorem Wired.start (L : SendLink) {τ : Type} : Wired L (Sender.start : Sender τ) where
  wire := rfl
  taken_le _ := Nat.zero_le _
  untaken _ _ := rfl
  once := List.nodup_nil
  completed _ _ h := (List.not_mem_nil h).elim
  told _ := trivial
  answered _ h := (List.not_mem_nil h).elim
  ending _ _ h := (List.not_mem_nil h).elim

section

variable {τ : Type} [DecidableEq τ] {L : SendLink} {s s' : Sender τ} {t : τ} {p : Pc} {k : Nat}

/-! ## A thread moves -/

omit [DecidableEq τ] in
/-- Completions stay, and the sizes of what was completed do not change. -/
theorem Sender.GoesOn.mono (h : s.GoesOn k) (hin : ∀ c ∈ s.completions, c ∈ s'.completions)
    (htaken : ∀ c ∈ s.completions, s'.taken c.1 = s.taken c.1) : s'.GoesOn k := by
  obtain ⟨status, hk, hends⟩ := h
  exact ⟨status, hin _ hk, by rw [htaken _ hk]; exact hends⟩

omit [DecidableEq τ] in
/-- What a thread was told stays true. -/
theorem Pc.Told.mono (h : p.Told s) (hin : ∀ c ∈ s.completions, c ∈ s'.completions)
    (htaken : ∀ c ∈ s.completions, s'.taken c.1 = s.taken c.1) : p.Told s' := by
  cases p with
  | ioRefer k => exact Sender.GoesOn.mono h hin htaken
  | ioLower k => exact Sender.GoesOn.mono h hin htaken
  | exLower k => exact Sender.GoesOn.mono h hin htaken
  | exRefer k status => exact ⟨hin _ h.1, h.2⟩
  | _ => trivial

/-- The move behind a step, whatever it records. -/
theorem Recorded.move (hr : Recorded s t s') : ∃ p, s'.pc = Function.update s.pc t p
    ∧ ((s.pc t).Told s → p.Told s) ∧ (p.ending = (s.pc t).ending ∨ s'.closed = true)
    ∧ (s.closed = true → s'.closed = true) := by
  cases hr with
  | quiet p hq => exact ⟨p, hq.pc, hq.told, hq.ending, hq.closed⟩
  | refuse k ht hs =>
    subst hs
    exact ⟨.idle, rfl, fun _ => trivial, Or.inl (by rw [ht]; rfl), id⟩
  | append k ht hs =>
    subst hs
    exact ⟨.raise (.write k), rfl, fun _ => trivial, Or.inl (by rw [ht]; rfl), id⟩
  | send c k p posted ht hp hposted hs =>
    subst hs
    exact ⟨p, rfl, fun _ => hp.2.1, Or.inl (by rw [ht, hp.2.2]; rfl), id⟩
  | lower k p ht hp hs =>
    subst hs
    refine ⟨p, rfl, fun _ => hp.2.1, Or.inl ?_, id⟩
    rcases ht with ht | ht <;> rw [ht, hp.2.2] <;> rfl
  | answer k retval ht hs =>
    subst hs
    exact ⟨.idle, rfl, fun _ => trivial, Or.inl (by rw [ht]; rfl), id⟩

/-- What a thread that moves keeps of the completions: `told` and `ending`. -/
theorem Wired.move (h : Wired L s) (s' : Sender τ) (p : Pc) (hpc : s'.pc = Function.update s.pc t p)
    (htold : (s.pc t).Told s → p.Told s) (hend : p.ending = (s.pc t).ending ∨ s'.closed = true)
    (hclosed : s.closed = true → s'.closed = true) (hcompletions : s'.completions = s.completions)
    (htaken : s'.taken = s.taken) :
    (∀ u, (s'.pc u).Told s') ∧ ∀ k status, (k, status) ∈ s'.completions →
      completionEnds status (s'.taken k) = true →
        s'.closed = true ∨ ∃ u, (s'.pc u).ending = some k := by
  constructor
  · intro u
    have hu : (s'.pc u).Told s := by
      rw [hpc]
      rcases eq_or_ne u t with rfl | hne
      · rw [Function.update_self]
        exact htold (h.told u)
      · rw [Function.update_of_ne hne]
        exact h.told u
    exact hu.mono (fun c hc => by rw [hcompletions]; exact hc) fun c _ => by rw [htaken]
  · intro k status hk hends
    rw [hcompletions] at hk
    rw [htaken] at hends
    rcases h.ending k status hk hends with hc | ⟨u, hu⟩
    · exact Or.inl (hclosed hc)
    · rcases hend with hend | hc
      · refine Or.inr ⟨u, ?_⟩
        rw [hpc]
        rcases eq_or_ne u t with rfl | hne
        · rw [Function.update_self, hend, hu]
        · rw [Function.update_of_ne hne, hu]
      · exact Or.inl hc

/-- A thread takes a step. Only a send and the lowering for a completion need a word. -/
theorem Recorded.wired (hr : Recorded s t s') (hf : s.Framed s') (h : Wired L s)
    (hs' : s'.sent.Nodup) : Wired L s' := by
  obtain ⟨-, -, hwire, htaken, hcompletions⟩ := hf
  obtain ⟨p, hpc, htold, hend, hclosed⟩ := hr.move
  obtain ⟨htold', hend'⟩ := h.move s' p hpc htold hend hclosed hcompletions htaken
  have hpart : s'.part L = s.part L := by
    funext k
    rw [Sender.part, Sender.part, htaken]
  -- all that is left is about `sent`, `posted` and `lowered`
  have hrest : (s'.sent.flatMap (s.part L) = s.sent.flatMap (s.part L)) →
      (∀ k ∈ s.sent, k ∈ s'.sent) →
      (∀ k ∈ s.sent, k ∉ s.posted → k ∉ s'.posted) →
      (∀ k ∈ s'.lowered, s.GoesOn k) → Wired L s' := by
    intro hflat hsent hposted hlowered
    exact {
      wire := by rw [hwire, hpart, hflat, h.wire]
      taken_le := by rw [htaken]; exact h.taken_le
      untaken := fun k hk => by rw [htaken]; exact h.untaken k fun hin => hk (hsent k hin)
      once := by rw [hcompletions]; exact h.once
      completed := fun k status hk => by
        rw [hcompletions] at hk
        obtain ⟨hin, hnot⟩ := h.completed k status hk
        exact ⟨hsent k hin, hposted k hin hnot⟩
      told := htold'
      answered := fun k hk => (hlowered k hk).mono (fun c hc => by rw [hcompletions]; exact hc)
        fun c _ => by rw [htaken]
      ending := hend' }
  cases hr with
  | quiet p hq =>
    have hh := hq.history
    simp only [Sender.history, Prod.mk.injEq] at hh
    obtain ⟨-, hsent, hposted, hlowered, -⟩ := hh
    exact hrest (by rw [hsent]) (by rw [hsent]; exact fun _ hk => hk)
      (by rw [hposted]; exact fun _ _ hk => hk) (by rw [hlowered]; exact h.answered)
  | refuse k ht hs =>
    subst hs
    exact hrest rfl (fun _ hk => hk) (fun _ _ hk => hk) h.answered
  | append k ht hs =>
    subst hs
    exact hrest rfl (fun _ hk => hk) (fun _ _ hk => hk) h.answered
  | send c k p posted ht hp hposted hs =>
    subst hs
    -- the packet was not sent before, so nothing of it was taken
    have hnew : k ∉ s.sent := by
      have hnodup : (s.sent ++ [k]).Nodup := hs'
      rw [List.nodup_append] at hnodup
      exact fun hin => hnodup.2.2 k hin k (List.mem_singleton_self k) rfl
    refine hrest ?_ (fun j hj => List.mem_append_left _ hj) (fun j hj hnot hin => ?_) h.answered
    · show (s.sent ++ [k]).flatMap (s.part L) = _
      rw [List.flatMap_append, List.flatMap_singleton, Sender.part, h.untaken k hnew,
        List.take_zero, List.append_nil]
    · have hin' : j ∈ posted := hin
      rcases hposted with rfl | rfl
      · rcases List.mem_append.mp hin' with hold | hold
        · exact hnot hold
        · rw [List.mem_singleton] at hold
          exact hnew (hold ▸ hj)
      · exact hnot hin'
  | lower k p ht hp hs =>
    subst hs
    refine hrest rfl (fun _ hk => hk) (fun _ _ hk => hk) fun j hj => ?_
    rcases List.mem_append.mp hj with hold | hold
    · exact h.answered j hold
    · rw [List.mem_singleton] at hold
      have hknown := h.told t
      rw [hold]
      rcases ht with ht | ht <;> rw [ht] at hknown <;> exact hknown
  | answer k retval ht hs =>
    subst hs
    exact hrest rfl (fun _ hk => hk) (fun _ _ hk => hk) h.answered

/-! ## The transport -/

theorem length_bytes {b : Block Byte} (c : WriteCall) (h : c.buffer L.attrs = .ok (some b)) :
    (c.bytes L.attrs).length = (c.totalPacketLength L.attrs).toNat := by
  rw [WriteCall.bytes, h]
  exact b.length_read ..

theorem take_succ_bytes {b : Block Byte} (c : WriteCall) (h : c.buffer L.attrs = .ok (some b))
    {n : Nat}
    (hn : n < (c.totalPacketLength L.attrs).toNat) :
    (c.bytes L.attrs).take (n + 1) = (c.bytes L.attrs).take n ++ [b.cell n] := by
  have hbytes : c.bytes L.attrs = b.read 0 (c.totalPacketLength L.attrs).toNat := by
    rw [WriteCall.bytes, h]
  rw [hbytes, Block.take_read _ _ _ _ (by omega), Block.take_read _ _ _ _ (by omega),
    Block.read_append]
  simp [Block.read]

omit [DecidableEq τ] in
/-- The packet the transport has was sent last. -/
theorem Settled.sent_of_posted (h : Settled s) (hk : k ∈ s.posted) : s.sent = s.lowered ++ [k] := by
  obtain ⟨f, hback, hone, hall⟩ := h.back
  obtain ⟨y, hy⟩ := List.length_eq_one_iff.mp
    (Nat.le_antisymm hone (List.length_pos_of_mem (hall k hk)))
  have hin := hall k hk
  rw [hy, List.mem_singleton] at hin
  rw [hback, hy, hin]

omit [DecidableEq τ] in
/-- The transport takes the next byte of the packet it has. -/
theorem Wired.take (h : Wired L s) (hset : Settled s) (hnodup : s.sent.Nodup) (hk : k ∈ s.posted)
    {b : Block Byte} (hb : (L.call k).buffer L.attrs = .ok (some b))
    (hn : s.taken k < ((L.call k).totalPacketLength L.attrs).toNat) :
    Wired L { s with
      wire := s.wire ++ [b.cell (s.taken k)]
      taken := Function.update s.taken k (s.taken k + 1) } := by
  have hsent := hset.sent_of_posted hk
  -- a packet with a completion is not with the transport any more
  have hothers : ∀ c ∈ s.completions, Function.update s.taken k
      (s.taken k + 1) c.1 = s.taken c.1 := by
    rintro ⟨j, status⟩ hj
    refine Function.update_of_ne (fun heq => ?_) ..
    have heq' : j = k := heq
    exact (h.completed j status hj).2 (heq' ▸ hk)
  refine {
    wire := ?_
    taken_le := fun j => ?_
    untaken := fun j hj => ?_
    once := h.once
    completed := h.completed
    told := fun t => (h.told t).mono (fun _ hc => hc) hothers
    answered := fun j hj => (h.answered j hj).mono (fun _ hc => hc) hothers
    ending := fun j status hj hends => ?_ }
  · -- the packets before the last one keep their parts
    have hlowered : ∀ j ∈ s.lowered, j ≠ k := by
      rw [hsent, List.nodup_append] at hnodup
      exact fun j hj => hnodup.2.2 j hj k (List.mem_singleton_self k)
    show s.wire ++ [b.cell (s.taken k)] = s.sent.flatMap _
    rw [h.wire, hsent, List.flatMap_append, List.flatMap_append, List.flatMap_singleton,
      List.flatMap_singleton, List.append_assoc]
    congr 1
    · refine List.flatMap_congr fun j hj => ?_
      show s.part L j = ((L.call j).bytes L.attrs).take
        (Function.update s.taken k (s.taken k + 1) j)
      rw [Function.update_of_ne (hlowered j hj)]
      rfl
    · show _ = ((L.call k).bytes L.attrs).take (Function.update s.taken k (s.taken k + 1) k)
      rw [Function.update_self, take_succ_bytes _ hb hn]
      rfl
  -- no more is taken than the packet has
  · show Function.update s.taken k (s.taken k + 1) j ≤ _
    rcases eq_or_ne j k with rfl | hne
    · rw [Function.update_self, length_bytes _ hb]
      omega
    · rw [Function.update_of_ne hne]
      exact h.taken_le j
  · have hne : j ≠ k := fun heq => hj (by
      show j ∈ s.sent
      rw [hsent, heq]
      exact List.mem_append_right _ (List.mem_singleton_self k))
    exact (Function.update_of_ne hne ..).trans (h.untaken j hj)
  · have hsame : Function.update s.taken k (s.taken k + 1) j = s.taken j := hothers _ hj
    have hends' : completionEnds status (Function.update s.taken k (s.taken k + 1) j) = true :=
      hends
    rw [hsame] at hends'
    exact h.ending j status hj hends'

omit [DecidableEq τ] in
/-- The handler that picks a completion up knows of it, and closes the link when it has to. -/
theorem dispatchIoEvent_told {status : NtStatus} (hin : (k, status) ∈ s.completions) :
    (dispatchIoEvent k status (s.taken k)).Told s
      ∧ (completionEnds status (s.taken k) = true →
          (dispatchIoEvent k status (s.taken k)).ending = some k) := by
  unfold dispatchIoEvent completionEnds
  cases hok : ntSuccess status with
  | false =>
    rw [if_pos (by decide), if_neg (by decide)]
    exact ⟨⟨hin, hok⟩, fun hends => if_pos hends⟩
  | true =>
    rw [if_neg (by decide), if_pos rfl]
    by_cases hzero : s.taken k = 0
    · rw [if_pos (by omega)]
      exact ⟨trivial, fun _ => rfl⟩
    · rw [if_neg (by omega)]
      have hgoes : (s.taken k == 0) = false := by simpa using hzero
      refine ⟨⟨status, hin, ?_⟩, fun hends => ?_⟩
      · rw [completionEnds, if_pos hok, hgoes]
      · rw [hgoes] at hends
        cases hends

/-- A thread picks up the completion of the packet the transport has. -/
theorem Wired.complete (h : Wired L s) (hset : Settled s) (hidle : s.pc t = .idle)
    (hk : k ∈ s.posted) (hcount : s.posted.count k = 1) (status : NtStatus) (c : Cell Packet) :
    Wired L ({ s.setPacket k c with
      posted := s.posted.erase k
      completions := s.completions ++ [(k, status)] }.goto t
        (dispatchIoEvent k status (s.taken k))) := by
  have hnew : ∀ j status', (j, status') ∈ s.completions → j ≠ k := by
    rintro j status' hj rfl
    exact (h.completed j status' hj).2 hk
  -- the state in which the completion is on record and no thread has moved
  let s₁ : Sender τ := { s.setPacket k c with
    posted := s.posted.erase k, completions := s.completions ++ [(k, status)] }
  have htold : ∀ q : Pc, q.Told s → q.Told s₁ :=
    fun q hq => hq.mono (fun _ hc => List.mem_append_left _ hc) fun _ _ => rfl
  obtain ⟨hknown, hends⟩ := dispatchIoEvent_told (s := s₁) (k := k)
    (show (k, status) ∈ s₁.completions from List.mem_append_right _ (List.mem_singleton_self _))
  refine {
    wire := h.wire
    taken_le := h.taken_le
    untaken := h.untaken
    once := ?_
    completed := fun j status' hj => ?_
    told := fun u => ?_
    answered := fun j hj =>
      (h.answered j hj).mono (fun _ hc => List.mem_append_left _ hc) fun _ _ => rfl
    ending := fun j status' hj hend => ?_ }
  · show ((s.completions ++ [(k, status)]).map Prod.fst).Nodup
    rw [List.map_append, List.nodup_append]
    refine ⟨h.once, List.nodup_singleton _, fun i hi j hj => ?_⟩
    obtain ⟨⟨i', status'⟩, hin, rfl⟩ := List.mem_map.mp hi
    rw [List.map_singleton, List.mem_singleton] at hj
    rw [hj]
    exact hnew i' status' hin
  · rcases List.mem_append.mp hj with hold | hold
    · obtain ⟨hin, hnot⟩ := h.completed j status' hold
      exact ⟨hin, fun hmem => hnot (List.mem_of_mem_erase hmem)⟩
    · rw [List.mem_singleton] at hold
      cases hold
      refine ⟨?_, List.count_eq_zero.mp ?_⟩
      · show k ∈ s.sent
        rw [hset.sent_of_posted hk]
        exact List.mem_append_right _ (List.mem_singleton_self k)
      · show (s.posted.erase k).count k = 0
        rw [List.count_erase_self, hcount]
  · show (Function.update s.pc t (dispatchIoEvent k status (s.taken k)) u).Told s₁
    rcases eq_or_ne u t with rfl | hne
    · rw [Function.update_self]
      exact hknown
    · rw [Function.update_of_ne hne]
      exact htold _ (h.told u)
  · show s.closed = true
      ∨ ∃ u, (Function.update s.pc t (dispatchIoEvent k status (s.taken k)) u).ending = some j
    rcases List.mem_append.mp hj with hold | hold
    · rcases h.ending j status' hold hend with hc | ⟨u, hu⟩
      · exact Or.inl hc
      · have hne : u ≠ t := by
          rintro rfl
          rw [hidle] at hu
          cases hu
        exact Or.inr ⟨u, by rw [Function.update_of_ne hne, hu]⟩
    · rw [List.mem_singleton] at hold
      cases hold
      exact Or.inr ⟨t, by rw [Function.update_self]; exact hends hend⟩

/-! ## Every reachable state -/

/-- **One action keeps the stream**: the transport takes bytes of the packet it has, and a packet
follows another only after that has completed. -/
theorem step_wired (h : Wired L s) (hc : Custody L s) (hset : Settled s) (hnodup : s.sent.Nodup)
    {a : Action τ} (ha : Enabled s a) :
    Yields (fun s' => s'.sent.Nodup → Wired L s') (step L s a) := by
  cases a with
  | call t =>
    have hidle : s.pc t = .idle := ha
    rw [step]
    dsimp only
    split
    · exact fun _ => ⟨h.wire, h.taken_le, h.untaken, h.once, h.completed, h.told, h.answered,
        h.ending⟩
    · intro _
      obtain ⟨htold, hend⟩ := h.move ({ s with calls := s.calls + 1 }.goto t (.refer s.calls))
        (.refer s.calls) rfl (fun _ => trivial) (Or.inl (by rw [hidle]; rfl)) id rfl rfl
      exact ⟨h.wire, h.taken_le, h.untaken, h.once, h.completed, htold, h.answered, hend⟩
  | run t o =>
    have hframed := exec_framed L t o s (s.pc t)
    have hrecorded := exec_recorded (L := L) t o fun hr => (ha.2.2 hr).1
    rw [step]
    cases heq : exec L t o s (s.pc t) with
    | error e => trivial
    | ok s' => exact (hrecorded.of_ok heq).wired (hframed.of_ok heq) h
  -- a byte more of the packet that is with the transport
  | take k =>
    obtain ⟨-, -, ⟨b, pkt, hb, hpk, hbuf, hsize⟩, -⟩ := hc.of_posted ha
    rw [step, hpk, Cell.get_live, ok_bind, hb, Cell.get_live, ok_bind, hsize]
    split
    · rename_i hlt
      exact fun _ => h.take hset hnodup ha hbuf (by omega)
    · exact fun _ => h
  | complete t k status =>
    obtain ⟨hidle, hposted⟩ := ha
    obtain ⟨-, -, -, -, hcount⟩ := hc.of_posted hposted
    exact .bind_any fun pk _ _ => h.complete hset hidle hposted hcount status _
  -- a link that is closed needs no handler to close it
  | close =>
    exact fun _ => ⟨h.wire, h.taken_le, h.untaken, h.once, h.completed, h.told, h.answered,
      fun _ _ _ _ => Or.inl rfl⟩
  | unload t =>
    intro _
    obtain ⟨htold, hend⟩ := h.move ({ s with unloaded := true }.goto t .unloadSize)
      .unloadSize rfl (fun _ => trivial) (Or.inl (by rw [ha.1]; rfl)) id rfl rfl
    exact ⟨h.wire, h.taken_le, h.untaken, h.once, h.completed, htold, h.answered, hend⟩

theorem SendReachable.sent_nodup (h : SendReachable L s) : s.sent.Nodup :=
  h.calls.appended_nodup.sublist h.settled.order.sublist

theorem SendReachable.wired (h : SendReachable L s) : Wired L s := by
  induction h with
  | refl => exact Wired.start L
  | @tail s₁ s₂ hreach hstep ih =>
    have hr : SendReachable L s₁ := hreach
    have hr' : SendReachable L s₂ := hr.tail hstep
    obtain ⟨a, ha, heq⟩ := hstep
    exact (step_wired ih hr.custody hr.settled hr.sent_nodup ha).of_ok heq hr'.sent_nodup

/-! ## The stream -/

/-- A completion stays on record, and nothing more is taken of its packet. -/
theorem step_completed (h : Wired L s) {c : Nat × NtStatus} (hc : c ∈ s.completions)
    {a : Action τ} (ha : Enabled s a) :
    Yields (fun s' => c ∈ s'.completions ∧ s'.taken c.1 = s.taken c.1) (step L s a) := by
  cases a with
  | call t =>
    rw [step]
    dsimp only
    split <;> exact ⟨hc, rfl⟩
  | run t o =>
    have hframed := exec_framed L t o s (s.pc t)
    rw [step]
    cases heq : exec L t o s (s.pc t) with
    | error e => trivial
    | ok s' =>
      obtain ⟨-, -, -, htaken, hcompletions⟩ := hframed.of_ok heq
      exact ⟨by rw [hcompletions]; exact hc, by rw [htaken]⟩
  | take k =>
    have hne : c.1 ≠ k := fun heq => (h.completed c.1 c.2 hc).2 (heq ▸ ha)
    refine .bind_any fun pk _ => .bind_any fun b _ => ?_
    split
    · exact ⟨hc, Function.update_of_ne hne ..⟩
    · exact ⟨hc, rfl⟩
  | complete t k status => exact .bind_any fun pk _ => ⟨List.mem_append_left _ hc, rfl⟩
  | close => exact ⟨hc, rfl⟩
  | unload t => exact ⟨hc, rfl⟩

/-- A completion stays on record with what was taken. -/
theorem run_completed (h : SendReachable L s) {c : Nat × NtStatus} (hc : c ∈ s.completions)
    (hrun : Relation.ReflTransGen (SendStep L) s s') :
    c ∈ s'.completions ∧ s'.taken c.1 = s.taken c.1 := by
  induction hrun with
  | refl => exact ⟨hc, rfl⟩
  | @tail s₁ s₂ hreach hstep ih =>
    have hr : SendReachable L s₁ := h.trans hreach
    obtain ⟨a, ha, heq⟩ := hstep
    obtain ⟨hin, htaken⟩ := (step_completed hr.wired ih.1 ha).of_ok heq
    exact ⟨hin, htaken.trans ih.2⟩

omit [DecidableEq τ] in
/-- A packet whose completion ends the link is the last one sent. -/
theorem Wired.last_of_ends (h : Wired L s) (hset : Settled s) {status : NtStatus}
    (hk : (k, status) ∈ s.completions) (hends : completionEnds status (s.taken k) = true) :
    s.sent.getLast? = some k := by
  obtain ⟨f, hback, hone, -⟩ := hset.back
  have hsent := (h.completed k status hk).1
  -- a packet that is back had one completion, after which the link went on
  have hnot : k ∉ s.lowered := by
    intro hlow
    obtain ⟨status', hk', hgoes⟩ := h.answered k hlow
    have heq : status' = status := by
      have hinj := List.inj_on_of_nodup_map h.once hk' hk rfl
      exact congrArg Prod.snd hinj
    rw [heq, hends] at hgoes
    cases hgoes
  rw [hback] at hsent ⊢
  have hflying := (List.mem_append.mp hsent).resolve_left hnot
  obtain ⟨y, hy⟩ := List.length_eq_one_iff.mp
    (Nat.le_antisymm hone (List.length_pos_of_mem hflying))
  rw [hy, List.mem_singleton] at hflying
  rw [hy, hflying, List.getLast?_concat]

omit [DecidableEq τ] in
/-- Of the packets that were sent, all but the last were completed and the link went on. -/
theorem Wired.goesOn_of_dropLast (h : Wired L s) (hset : Settled s) (hk : k ∈ s.sent.dropLast) :
    s.GoesOn k := by
  obtain ⟨f, hback, hone, -⟩ := hset.back
  refine h.answered k ?_
  rw [hback] at hk
  match f, hone with
  | [], _ => exact List.mem_of_mem_dropLast (by rwa [List.append_nil] at hk)
  | [x], _ => rwa [List.dropLast_concat] at hk

omit [DecidableEq τ] in
/-- Without a hole in a packet that is back, the bytes taken are a prefix of the stream. -/
theorem Wired.prefix_of_complete (h : Wired L s) (hset : Settled s)
    (hfull : ∀ k, s.GoesOn k → s.taken k = ((L.call k).bytes L.attrs).length) :
    s.wire <+: s.stream L := by
  rw [h.wire, Sender.stream]
  obtain ⟨rest, hrest⟩ := hset.order
  have hpart : ∀ k ∈ s.sent.dropLast, s.part L k = (L.call k).bytes L.attrs := by
    intro k hk
    rw [Sender.part, hfull k (h.goesOn_of_dropLast hset hk), List.take_length]
  rw [← hrest, List.flatMap_append]
  refine List.IsPrefix.trans ?_ (List.prefix_append _ _)
  rcases List.eq_nil_or_concat s.sent with hnil | ⟨l, x, hl⟩
  · rw [hnil]
    exact List.prefix_refl _
  · rw [hl, List.concat_eq_append, List.dropLast_concat] at hpart
    rw [hl, List.concat_eq_append, List.flatMap_append, List.flatMap_append,
      List.flatMap_congr hpart, List.flatMap_singleton, List.flatMap_singleton]
    exact (List.prefix_append_right_inj _).mpr (List.take_prefix _ _)

end

/-- **The outgoing stream, in every run.** The bytes taken are a beginning of each packet
sent, in the order of the queue of the packets for which `tcp_write` returns `0`. Every packet
sent but the last had a completion after which the link goes on; where these were complete,
the bytes are a prefix of the stream. Behind a packet whose completion ends the link nothing
is sent in any continuation of the run, and the link is closed or a handler is about to. -/
theorem sentStream {τ : Type} [DecidableEq τ] (L : SendLink) (s : Sender τ)
    (h : SendReachable L s) :
    (s.wire = s.sent.flatMap (s.part L) ∧ s.sent <+: s.appended ∧ s.appended.Nodup
        ∧ ∀ k retval, (k, retval) ∈ s.results → (retval = 0 ↔ k ∈ s.appended))
      ∧ (∀ k ∈ s.sent.dropLast, s.GoesOn k)
      ∧ ((∀ k, s.GoesOn k → s.taken k = ((L.call k).bytes L.attrs).length) →
          s.wire <+: s.stream L)
      ∧ ∀ k status, (k, status) ∈ s.completions → completionEnds status (s.taken k) = true →
          (s.closed = true ∨ ∃ t, (s.pc t).ending = some k)
            ∧ ∀ s', Relation.ReflTransGen (SendStep L) s s' → s'.sent.getLast? = some k := by
  refine ⟨⟨h.wired.wire, h.settled.order, h.calls.appended_nodup,
    fun k retval hin => h.calls.result_iff hin⟩,
    fun k hk => h.wired.goesOn_of_dropLast h.settled hk, h.wired.prefix_of_complete h.settled,
    fun k status hin hends => ⟨h.wired.ending k status hin hends, fun s' hrun => ?_⟩⟩
  have hr' : SendReachable L s' := h.trans hrun
  obtain ⟨hin', htaken⟩ := run_completed h hin hrun
  exact hr'.wired.last_of_ends hr'.settled hin' (by rw [htaken]; exact hends)

/-! ## A hole -/

/-- `STATUS_INSUFFICIENT_RESOURCES`. -/
def statusInsufficientResources : NtStatus := (0xC000009A : UInt32).toInt32

/-- A packet of two bytes is sent and one of one byte is queued. The send fails before a byte
is taken, the handler sends the second packet, and the transport takes it. -/
def failedSend : List (Action Unit) :=
  writeSteps 15 ++ writeSteps 13 ++ .complete () 0 statusInsufficientResources
    :: List.replicate 11 (.run () ⟨true, true⟩) ++ [.take 1]

/-- Two packets, the first of which fails before a byte was taken. -/
theorem sentStream_failedSend : ∃ s : Sender Unit, s.wire = [3] ∧ s.sent = [0, 1] ∧
    (s.wire = s.sent.flatMap (s.part (rawLink [[1, 2], [3]])) ∧ s.sent <+: s.appended
        ∧ s.appended.Nodup
        ∧ ∀ k retval, (k, retval) ∈ s.results → (retval = 0 ↔ k ∈ s.appended))
      ∧ (∀ k ∈ s.sent.dropLast, s.GoesOn k)
      ∧ ((∀ k, s.GoesOn k →
            s.taken k = (((rawLink [[1, 2], [3]]).call k).bytes
              (rawLink [[1, 2], [3]]).attrs).length) →
          s.wire <+: s.stream (rawLink [[1, 2], [3]]))
      ∧ ∀ k status, (k, status) ∈ s.completions → completionEnds status (s.taken k) = true →
          (s.closed = true ∨ ∃ t, (s.pc t).ending = some k)
            ∧ ∀ s', Relation.ReflTransGen (SendStep (rawLink [[1, 2], [3]])) s s' →
              s'.sent.getLast? = some k := by
  obtain ⟨s, hs, hwire, hsent⟩ := exists_of_play (L := rawLink [[1, 2], [3]])
    (P := fun s => s.wire = [3] ∧ s.sent = [0, 1]) failedSend (by decide)
  exact ⟨s, hwire, hsent, sentStream (rawLink [[1, 2], [3]]) s hs⟩

/-- **A hole.** On an open link both calls returned `0`, the first packet failed, and the
transport has taken the second one: not a prefix of the stream. -/
theorem sentStream_hole : ∃ s : Sender Unit, SendReachable (rawLink [[1, 2], [3]]) s
    ∧ s.closed = false ∧ s.results = [(0, 0), (1, 0)]
    ∧ s.completions = [(0, statusInsufficientResources)]
    ∧ s.wire = [3] ∧ s.stream (rawLink [[1, 2], [3]]) = [1, 2, 3]
    ∧ ¬ s.wire <+: s.stream (rawLink [[1, 2], [3]]) := by
  refine exists_of_play (L := rawLink [[1, 2], [3]]) (P := fun s => s.closed = false
    ∧ s.results = [(0, 0), (1, 0)] ∧ s.completions = [(0, statusInsufficientResources)]
    ∧ s.wire = [3] ∧ s.stream (rawLink [[1, 2], [3]]) = [1, 2, 3]
    ∧ ¬ s.wire <+: s.stream (rawLink [[1, 2], [3]])) failedSend (by decide)

end Swnet
