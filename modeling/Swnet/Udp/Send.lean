import Swnet.Endpoint
import Swnet.Pipe

/-!
# Swnet — what `udp_write` sends (`udp.c`)

`__udp_tx_single_packet` calls `sendto` until the whole buffer is taken, and starts over where a
call was interrupted. It looks for that in `errno`, which says what the last function of the
runtime library has left there. What the system answers is an input, call by call.

* `udpTxLoop_spec` — where the loop is after any answers;
* `udpWrite_sends` — what a call has sent, what it reports, and what it leaves behind.

`UdpTx.Sent` says where the loop is: which part of the buffer is sent, after which answers, and that
none of them ended it. It is built up by induction on the answers, for every offset, and read once
the loop returns.
-/

namespace Swnet

open CMem

/-! ## The code -/

def eintr : Int := 4

/-- What `sendto` returns, and `errno` after it. -/
structure SendtoAnswer where
  wcb : Int
  errno : Int
  deriving DecidableEq

/-- What a loop has done so far: the pieces the system took, and what it returns, if it does. -/
structure UdpTx where
  sent : List (List Byte)
  retval : Option Int
  deriving DecidableEq

/-- The `while` loop of `__udp_tx_single_packet`, answered so. -/
def udpTxLoop (data : Block Byte) (cb : Int) : Int → List SendtoAnswer → Exec UdpTx
  | offset, [] => return ⟨[], if offset < cb then none else some 0⟩
  | offset, x :: xs =>
    if offset < cb then do
      let piece ← data.load offset (cb - offset)
      if x.wcb ≤ 0 then
        if x.errno = eintr then udpTxLoop data cb offset xs
        else return ⟨[], some (-1)⟩
      else do
        let tx ← udpTxLoop data cb (offset + x.wcb) xs
        return { tx with sent := piece.take x.wcb.toNat :: tx.sent }
    else return ⟨[], some 0⟩

/-- A call of `udp_write`: its arguments, with the address `inet_addr` makes of the string, and
what it is answered. The serializer gets the pointer as it is, which may be `NULL`. -/
structure UdpWriteCall where
  lnk : Int
  origin : Option (Block Byte)
  cb : Int
  rIpstr : Option UInt32
  rPort : UInt16
  serializer : Option (Option (Block Byte) → Int → Option (List Byte))
  objrefr : Bool
  malloc : Option (Nat → Byte)
  sendto : List SendtoAnswer

/-- What a call has done so far: what it returns, if it does; to whom it sends, and the pieces the
system took; the buffers and references it took and gave back. -/
structure UdpWriteLog where
  retval : Option Int
  addr : Option SockaddrIn
  sent : List (List Byte)
  mallocs : Nat
  frees : Nat
  objrefrs : Nat
  objdefrs : Nat
  deriving DecidableEq

/-- A call that returns at once. -/
def UdpWriteLog.quit (retval : Int) : UdpWriteLog := ⟨some retval, none, [], 0, 0, 0, 0⟩

namespace UdpWriteCall

variable (c : UdpWriteCall)

/-- The buffer as `udp_write` fills it; `none` when the serializer fails. -/
def fill (buffer : Block Byte) : Exec (Option (Block Byte)) :=
  match c.serializer with
  | some serializer =>
    match serializer c.origin c.cb with
    | none => return none
    | some data => do
      let buffer ← buffer.store 0 data
      return some buffer
  | none => do
    let origin ← deref c.origin
    let buffer ← buffer.copy 0 origin 0 c.cb
    return some buffer

/-- `udp_write`, with the size `MAX_UDP_UNIT`. -/
def udpWrite (maxUdpUnit : Int) : Exec UdpWriteLog :=
  match c.rIpstr with
  | none => return .quit (-einval)
  | some ip =>
    if c.rPort = 0 ∨ c.cb ≤ 0 ∨ c.lnk < 0 ∨ maxUdpUnit < c.cb then return .quit (-einval)
    else if ¬ c.objrefr then return .quit (-enoent)
    else match c.malloc with
      | none => return { UdpWriteLog.quit (-enomem) with objrefrs := 1, objdefrs := 1 }
      | some cell => do
        match ← c.fill ⟨c.cb.toNat, cell⟩ with
        | none => return ⟨some (-1), none, [], 1, 1, 1, 1⟩
        | some data => do
          let addr : SockaddrIn := ⟨ip, htons c.rPort⟩
          let tx ← udpTxLoop data c.cb 0 c.sendto
          match tx.retval with
          -- `__udp_tx_single_packet` has not returned yet
          | none => return ⟨none, some addr, tx.sent, 1, 0, 1, 0⟩
          | some retval => return ⟨some retval, some addr, tx.sent, 1, 1, 1, 1⟩

/-- The bytes the call has to send. -/
def payload : List Byte :=
  match c.malloc with
  | none => []
  | some cell =>
    match c.fill ⟨c.cb.toNat, cell⟩ with
    | .ok (some data) => data.read 0 c.cb.toNat
    | _ => []

end UdpWriteCall

/-! ## What the loop sends -/

/-- A call that fails, and was not interrupted as far as `errno` tells. -/
def SendtoAnswer.Fails (x : SendtoAnswer) : Prop := x.wcb ≤ 0 ∧ x.errno ≠ eintr

instance (x : SendtoAnswer) : Decidable x.Fails := inferInstanceAs (Decidable (_ ∧ _))

/-- The system takes no more than it is offered: `n` bytes, of which it has taken `off`. -/
def SendtoFits (n : Nat) : Nat → List SendtoAnswer → Prop
  | _, [] => True
  | off, x :: xs => off + x.wcb.toNat ≤ n ∧ SendtoFits n (off + x.wcb.toNat) xs

/-- How the loop stands when `k` of the bytes from `off` on are sent. -/
structure UdpTx.Sent (tx : UdpTx) (data : Block Byte) (n off k : Nat) (xs : List SendtoAnswer) :
    Prop where
  within : off + k ≤ n
  pieces : tx.sent.flatten = data.read off k
  nonempty : ∀ piece ∈ tx.sent, piece ≠ []
  sent : tx.retval = some 0 ↔ off + k = n
  failed : tx.retval = some (-1) ↔ off + k < n ∧ ∃ x ∈ xs, x.Fails
  running : tx.retval = none ↔ off + k < n ∧ ∀ x ∈ xs, ¬ x.Fails

section

variable {data : Block Byte} {n off k m : Nat} {tx : UdpTx} {x : SendtoAnswer}
  {xs : List SendtoAnswer}

/-- A call before that did not fail, and took nothing. -/
theorem UdpTx.Sent.cons (h : tx.Sent data n off k xs) (hx : ¬ x.Fails) :
    tx.Sent data n off k (x :: xs) where
  within := h.within
  pieces := h.pieces
  nonempty := h.nonempty
  sent := h.sent
  failed := by rw [h.failed, List.exists_mem_cons_iff, or_iff_right hx]
  running := by rw [h.running, List.forall_mem_cons, and_iff_right hx]

/-- A call before that took `m` bytes. -/
theorem UdpTx.Sent.piece (h : tx.Sent data n (off + m) k xs) (hm : 0 < m) (hx : ¬ x.Fails) :
    ({ tx with sent := data.read off m :: tx.sent } : UdpTx).Sent data n off (m + k) (x :: xs) := by
  have hall := h.cons hx
  constructor
  case within =>
    have := h.within
    omega
  case pieces => rw [List.flatten_cons, h.pieces, Block.read_append]
  case nonempty =>
    intro piece hpiece
    rcases List.mem_cons.mp hpiece with rfl | hpiece
    · exact List.ne_nil_of_length_pos (by rw [Block.length_read]; exact hm)
    · exact h.nonempty piece hpiece
  case sent => rw [← Nat.add_assoc]; exact hall.sent
  case failed => rw [← Nat.add_assoc]; exact hall.failed
  case running => rw [← Nat.add_assoc]; exact hall.running

/-- **The loop sends the buffer in consecutive pieces.** -/
theorem udpTxLoop_spec (hsize : data.size = n) (xs : List SendtoAnswer) :
    ∀ off : Nat, off ≤ n → SendtoFits n off xs →
      ∃ tx k, udpTxLoop data n off xs = .ok tx ∧ tx.Sent data n off k xs := by
  -- nothing is left to send
  have hdone : ∀ off xs, off = n → ∃ k, (⟨[], some 0⟩ : UdpTx).Sent data n off k xs :=
    fun off xs hoff => by
      subst hoff
      exact ⟨0, le_rfl, rfl, by simp, by simp, by simp, by simp⟩
  induction xs with
  -- the answers are used up: the loop is still running
  | nil =>
      intro off hoff _
      rw [udpTxLoop]
      by_cases hrest : off < n
      · rw [if_pos (by exact_mod_cast hrest)]
        exact ⟨_, 0, rfl, hoff, rfl, by simp, by simp; omega, by simp, by simp [hrest]⟩
      · rw [if_neg (by exact_mod_cast hrest)]
        obtain ⟨k, hk⟩ := hdone off [] (by omega)
        exact ⟨_, k, rfl, hk⟩
  | cons x xs ih =>
      intro off hoff hfits
      obtain ⟨hx, hfits⟩ := hfits
      rw [udpTxLoop]
      by_cases hrest : off < n
      · have hload : data.load off ((n : Int) - off) = .ok (data.read off (n - off)) := by
          rw [← Nat.cast_sub hoff]
          exact Block.load_eq_ok (by omega)
        rw [if_pos (by exact_mod_cast hrest), hload, ok_bind]
        by_cases hstuck : x.wcb ≤ 0
        · rw [if_pos hstuck]
          by_cases hintr : x.errno = eintr
          · -- interrupted: the same bytes are offered again
            rw [if_pos hintr]
            rw [Int.toNat_of_nonpos hstuck, Nat.add_zero] at hfits
            obtain ⟨tx, k, hrun, h⟩ := ih off hoff hfits
            exact ⟨tx, k, hrun, h.cons fun hfails => hfails.2 hintr⟩
          -- any other failure ends the loop
          · rw [if_neg hintr]
            refine ⟨_, 0, rfl, hoff, rfl, by simp, ?_, ?_, ?_⟩
            · simp
              omega
            · simp [hrest, SendtoAnswer.Fails, hstuck, hintr]
            · simp [SendtoAnswer.Fails, hstuck, hintr]
        -- a part was taken, and the loop goes on behind it
        · rw [if_neg hstuck]
          obtain ⟨m, hm⟩ : ∃ m : Nat, x.wcb = m := ⟨x.wcb.toNat, by omega⟩
          rw [hm, Int.toNat_natCast] at hx hfits
          rw [hm, Int.toNat_natCast]
          obtain ⟨tx, k, hrun, h⟩ := ih (off + m) hx hfits
          rw [Nat.cast_add] at hrun
          rw [hrun, ok_bind, Block.take_read _ _ _ _ (by omega)]
          exact ⟨_, m + k, rfl, h.piece (by omega) fun hfails => hstuck hfails.1⟩
      · rw [if_neg (by exact_mod_cast hrest)]
        obtain ⟨k, hk⟩ := hdone off (x :: xs) (by omega)
        exact ⟨_, k, rfl, hk⟩

end

/-! ## What a call sends -/

namespace UdpWriteCall

/-- The bytes are there, or the serializer writes no more than it is asked for; and the system
takes no more than it is offered. -/
structure Fair (c : UdpWriteCall) : Prop where
  origin : c.serializer = none → ∃ b, c.origin = some b ∧ c.cb ≤ b.size
  serializer : ∀ f, c.serializer = some f → ∀ o n data, f o n = some data → data.length ≤ n
  sendto : SendtoFits c.cb.toNat 0 c.sendto

/-- What a call has to do with its payload: it is sent in order, to the address that was given, as
far as it is sent; 0 is returned for the whole of it; the loop ends with -1 for a part of it when
a call of `sendto` has failed, and goes on as long as none has; and a call that returns has given
back what it took. -/
structure Kept (c : UdpWriteCall) (log : UdpWriteLog) : Prop where
  order : log.sent.flatten <+: c.payload
  whole : log.retval = some 0 ↔ c.payload ≠ [] ∧ log.sent.flatten = c.payload
  running : log.retval = none ↔
    log.addr.isSome ∧ log.sent.flatten ≠ c.payload ∧ ∀ x ∈ c.sendto, ¬ x.Fails
  failed : log.addr.isSome → (log.retval = some (-1) ↔
    log.sent.flatten ≠ c.payload ∧ ∃ x ∈ c.sendto, x.Fails)
  address : ∀ addr, log.addr = some addr → c.rIpstr = some addr.sAddr ∧ addr.sinPort = htons c.rPort
  released : log.retval.isSome → log.frees = log.mallocs ∧ log.objdefrs = log.objrefrs

variable {c : UdpWriteCall}

/-- The payload is copied or written, or the serializer fails. -/
theorem fill_ok (hc : c.Fair) (hcb : 0 < c.cb) (cell : Nat → Byte) :
    c.fill ⟨c.cb.toNat, cell⟩ = .ok none
      ∨ ∃ data : Block Byte, data.size = c.cb.toNat ∧ c.fill ⟨c.cb.toNat, cell⟩ = .ok
        (some data) := by
  unfold fill
  cases hs : c.serializer with
  -- the serializer writes within the bytes it was asked for
  | some f =>
      dsimp only
      cases hf : f c.origin c.cb with
      | none => exact .inl rfl
      | some data =>
          have hlen := hc.serializer f hs _ _ _ hf
          have hstore : (⟨c.cb.toNat, cell⟩ : Block Byte).store 0 data
              = .ok ((⟨c.cb.toNat, cell⟩ : Block Byte).write 0 data) :=
            Block.store_eq_ok (o := 0) (by dsimp only; omega)
          dsimp only
          rw [hstore]
          exact .inr ⟨_, rfl, rfl⟩
  -- without one the payload is copied
  | none =>
      obtain ⟨b, hb, hsize⟩ := hc.origin hs
      obtain ⟨n, hn⟩ : ∃ n : Nat, c.cb = n := ⟨c.cb.toNat, by omega⟩
      rw [hn] at hsize ⊢
      have hcopy : (⟨n, cell⟩ : Block Byte).copy ((0 : Nat) : Int) b ((0 : Nat) : Int) n
          = .ok ((⟨n, cell⟩ : Block Byte).write 0 (b.read 0 n)) :=
        Block.copy_eq_ok (by omega) (by simp)
      dsimp only
      rw [hb, deref_some, ok_bind, Int.toNat_natCast]
      exact .inr ⟨_, rfl, by rw [show ((0 : Int)) = ((0 : Nat) : Int) from rfl, hcopy]; rfl⟩

/-- Nothing was sent. -/
theorem kept_unsent {retval : Int} {mallocs frees objrefrs objdefrs : Nat} (hne : retval ≠ 0)
    (hfrees : frees = mallocs) (hdefrs : objdefrs = objrefrs) :
    c.Kept ⟨some retval, none, [], mallocs, frees, objrefrs, objdefrs⟩ where
  order := List.nil_prefix
  whole := by
    constructor
    · intro h
      cases h
      exact absurd rfl hne
    · rintro ⟨hpayload, hsent⟩
      exact absurd hsent.symm hpayload
  running := by simp
  failed := by simp
  address := by simp
  released := fun _ => ⟨hfrees, hdefrs⟩

variable {data : Block Byte} {tx : UdpTx} {k : Nat} {ip : UInt32}

/-- The payload is sent when as many bytes are. -/
theorem sent_eq_payload_iff (hpayload : c.payload = data.read 0 c.cb.toNat)
    (hsent : tx.Sent data c.cb.toNat 0 k c.sendto) :
    tx.sent.flatten = c.payload ↔ 0 + k = c.cb.toNat := by
  rw [hsent.pieces, hpayload, Nat.zero_add]
  constructor
  · intro h
    have hlen := congrArg List.length h
    rwa [Block.length_read, Block.length_read] at hlen
  · rintro rfl
    rfl

/-- What was sent is a prefix of the payload. -/
theorem sent_prefix (hpayload : c.payload = data.read 0 c.cb.toNat)
    (hsent : tx.Sent data c.cb.toNat 0 k c.sendto) : tx.sent.flatten <+: c.payload := by
  have hk := hsent.within
  obtain ⟨rest, hrest⟩ := Nat.exists_eq_add_of_le (show k ≤ c.cb.toNat by omega)
  rw [hsent.pieces, hpayload, hrest, Block.read_append]
  exact List.prefix_append _ _

theorem payload_ne_nil (hcb : 0 < c.cb) (hpayload : c.payload = data.read 0 c.cb.toNat) :
    c.payload ≠ [] := by
  rw [hpayload]
  refine List.ne_nil_of_length_pos ?_
  rw [Block.length_read]
  omega

/-- The loop goes on. -/
theorem kept_running (hip : c.rIpstr = some ip)
    (hpayload : c.payload = data.read 0 c.cb.toNat) (hsent : tx.Sent data c.cb.toNat 0 k c.sendto)
    (hret : tx.retval = none) :
    c.Kept ⟨none, some ⟨ip, htons c.rPort⟩, tx.sent, 1, 0, 1, 0⟩ := by
  obtain ⟨hlt, hfails⟩ := hsent.running.mp hret
  have hpart : tx.sent.flatten ≠ c.payload := fun h =>
    absurd ((sent_eq_payload_iff hpayload hsent).mp h) (by omega)
  constructor
  case order => exact sent_prefix hpayload hsent
  case whole => exact iff_of_false (by simp) fun h => hpart h.2
  case running => exact iff_of_true rfl ⟨rfl, hpart, hfails⟩
  case failed => exact fun _ => iff_of_false (by simp) fun ⟨_, x, hx, hfail⟩ => hfails x hx hfail
  case address =>
    intro addr haddr
    cases haddr
    exact ⟨hip, rfl⟩
  case released => exact fun h => by cases h

/-- The loop has returned. -/
theorem kept_returned {retval : Int} (hcb : 0 < c.cb) (hip : c.rIpstr = some ip)
    (hpayload : c.payload = data.read 0 c.cb.toNat) (hsent : tx.Sent data c.cb.toNat 0 k c.sendto)
    (hret : tx.retval = some retval) :
    c.Kept ⟨some retval, some ⟨ip, htons c.rPort⟩, tx.sent, 1, 1, 1, 1⟩ := by
  have hwhole := sent_eq_payload_iff hpayload hsent
  constructor
  case order => exact sent_prefix hpayload hsent
  case whole =>
    show some retval = some 0 ↔ _
    rw [← hret, hsent.sent, ← hwhole]
    exact (and_iff_right (payload_ne_nil hcb hpayload)).symm
  case running =>
    refine iff_of_false (by simp) fun ⟨_, hpart, hfails⟩ => ?_
    have hlt : 0 + k < c.cb.toNat := lt_of_le_of_ne hsent.within fun h => hpart (hwhole.mpr h)
    have hnone := hsent.running.mpr ⟨hlt, hfails⟩
    rw [hret] at hnone
    cases hnone
  case failed =>
    intro _
    show some retval = some (-1) ↔ _
    have hpart : 0 + k < c.cb.toNat ↔ tx.sent.flatten ≠ c.payload := by
      rw [Ne, hwhole]
      exact hsent.within.lt_iff_ne
    rw [← hret, hsent.failed, hpart]
  case address =>
    intro addr haddr
    cases haddr
    exact ⟨hip, rfl⟩
  case released => exact fun _ => ⟨rfl, rfl⟩

/-- **What `udp_write` sends.** -/
theorem udpWrite_sends (hc : c.Fair) (maxUdpUnit : Int) :
    ∃ log, c.udpWrite maxUdpUnit = .ok log ∧ c.Kept log := by
  unfold udpWrite
  cases hip : c.rIpstr with
  -- each way out before the loop leaves nothing behind and has sent nothing
  | none => exact ⟨_, rfl, kept_unsent (by decide) rfl rfl⟩
  | some ip =>
      dsimp only
      split
      · exact ⟨_, rfl, kept_unsent (by decide) rfl rfl⟩
      next hargs =>
        split
        · exact ⟨_, rfl, kept_unsent (by decide) rfl rfl⟩
        cases hmalloc : c.malloc with
        | none => exact ⟨_, rfl, kept_unsent (by decide) rfl rfl⟩
        | some cell =>
            dsimp only
            have hcb : 0 < c.cb := by
              by_contra h
              exact hargs (.inr (.inl (not_lt.mp h)))
            rcases fill_ok hc hcb cell with hfill | ⟨data, hsize, hfill⟩
            · rw [hfill, ok_bind]
              exact ⟨_, rfl, kept_unsent (by decide) rfl rfl⟩
            -- what is sent is what was filled in
            have hpayload : c.payload = data.read 0 c.cb.toNat := by
              rw [payload, hmalloc]
              dsimp only
              rw [hfill]
            obtain ⟨tx, k, htx, hsent⟩ := udpTxLoop_spec hsize c.sendto 0 (Nat.zero_le _) hc.sendto
            rw [Int.toNat_of_nonneg hcb.le] at htx
            rw [hfill, ok_bind]
            dsimp only
            rw [show (0 : Int) = ((0 : Nat) : Int) from rfl, htx, ok_bind]
            cases hret : tx.retval with
            | none => exact ⟨_, rfl, kept_running hip hpayload hsent hret⟩
            | some retval => exact ⟨_, rfl, kept_returned hcb hip hpayload hsent hret⟩

/-- Three bytes, sent in two pieces with an interruption between them. -/
def threeBytes : UdpWriteCall where
  lnk := 0
  origin := some ⟨3, fun i => UInt8.ofNat (i + 1)⟩
  cb := 3
  rIpstr := some 0x0100007F
  rPort := 80
  serializer := none
  objrefr := true
  malloc := some fun _ => 0
  sendto := [⟨1, 0⟩, ⟨-1, eintr⟩, ⟨2, 0⟩]

/-- Three bytes, of which the system takes one and then the rest. -/
theorem udpWrite_sends_threeBytes : ∃ log, threeBytes.udpWrite 1472 = .ok log ∧ threeBytes.Kept log
    ∧ log.retval = some 0 ∧ log.sent = [[1], [2, 3]] := by
  have hfair : threeBytes.Fair := by
    constructor
    case origin => exact fun _ => ⟨_, rfl, by decide⟩
    case serializer => exact fun f hf => by cases hf
    case sendto => exact ⟨by decide, by decide, by decide, trivial⟩
  obtain ⟨log, hlog, hkept⟩ := udpWrite_sends hfair 1472
  refine ⟨log, hlog, hkept, ?_⟩
  cases hlog
  exact ⟨rfl, rfl⟩

end UdpWriteCall

end Swnet
