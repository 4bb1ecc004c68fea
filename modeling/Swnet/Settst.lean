import Swnet.Recv.Parse
import Swnet.Registers
import Swnet.Send.Write

/-!
# Swnet — the template of a link, set at any time (`tcp.c`)

`tcp_settst` takes every template, `tcp_settst_r` every one whose header is small. The sizes that
the receive and send paths compute rest on `cb_`, on what the parser reads and on what the builder
writes.

* `template_safe_iff` — the templates that are safe to use;
* `large_block_unharmed` — templates that are changed while a large block is pending.

Both go by one turn of the parsing loop (`praseTurn`). With a header size that fits, a turn keeps
the offset and the length within the bytes at hand (`PraseKept`) and takes at least a header off
them, so that the loop ends. A size that does not fit is refuted by one link each: the first bytes a
link receives (`firstArrival`) fault, stray or never end there, and a plain call of `tcp_write`
(`plainWrite`) writes outside of its buffer. For the second result the invariant is `Serving`: the
link has its receive posted, and a pending block is as long as was recorded when it was made,
whatever the template has become since.
-/

namespace Swnet

open CMem

/-! ## The setters -/

namespace RecvLink

/-- `tcp_settst`. `refr` tells whether the link can be referenced. -/
def tcpSettst (s : RecvLink) (refr : Bool) (tst : Option Tst) : Int × RecvLink :=
  match tst with
  | none => (-1, s)
  | some tst =>
    if ¬ refr then (-1, s)
    else (0, { s with ncb := { s.ncb with tcpTst := ⟨tst.cb, tst.builder, tst.parser⟩ } })

/-- `tcp_settst_r`: the exchange writes the new value, the assignment what it returned. `refr` is
what `tcprefr` returns. -/
def tcpSettstR (s : RecvLink) (refr : Int) (tst : Option Tst) : Int × RecvLink :=
  match tst with
  | none => (-einval, s)
  | some tst =>
    if tst.cb > tcpMaximumTemplateSize then (-einval, s)
    else if refr < 0 then (refr, s)
    else
      let old := s.ncb.tcpTst
      let cb := (interlockedExchange old.cb tst.cb).1
      let builder := (interlockedExchange old.builder tst.builder).1
      let parser := (interlockedExchange old.parser tst.parser).1
      (refr, { s with ncb := { s.ncb with tcpTst := ⟨cb, builder, parser⟩ } })

/-- `tcp_settst_r` checks the template, and stores nothing. -/
theorem tcpSettstR_tst (s : RecvLink) (refr : Int) (tst : Option Tst) :
    (s.tcpSettstR refr tst).2.ncb.tcpTst = s.ncb.tcpTst := by
  cases tst with
  | none => rfl
  | some tst =>
    simp only [tcpSettstR]
    split
    · rfl
    · split <;> rfl

end RecvLink

/-! ## One turn of the parsing loop -/

/-- A turn of the loop of `tcp_prase_logic_packet` leaves it, or goes on with a packet taken off
the bytes at hand. -/
inductive PraseTurn where
  | leave (e : PraseExit)
  | turn (s : RecvLink) (currentUsefuleSize currentParseOffset : Int)

/-- The body of the loop. -/
def praseTurn (A : Linkattr) (malloc : Option (Nat → Byte)) (s : RecvLink)
    (currentUsefuleSize currentParseOffset : Int) : Exec PraseTurn :=
  let tst := s.ncb.tcpTst
  if currentUsefuleSize < tst.cb then return .leave (.brk s currentUsefuleSize currentParseOffset)
  else do
    let ori ← deref s.packet.oriBuffer
    let parser ← deref tst.parser
    let header ← ori.load currentParseOffset (tst.headerSize ori currentParseOffset)
    match parser header with
    | none => return .leave (.ret (-1) s)
    | some size =>
      let userSize := size.toInt
      if userSize > tcpMaximumPacketSize ∨ userSize < 0 then return .leave (.ret (-1) s)
      else
        let totalPacketLength := i32 (userSize + tst.cb)
        if totalPacketLength > tcpRecvBufferSize then do
          let (retval, ncb) ← ncbMarkLb s.ncb totalPacketLength currentUsefuleSize ori
            currentParseOffset malloc
          let call := ⟨totalPacketLength, currentUsefuleSize, s.ncb.lbData.isSome⟩
          let s := { s with ncb, marks := s.marks ++ [call] }
          if retval < 0 then return .leave (.ret (-1) s)
          else return .leave (.ret 0 { s with packet := { s.packet with analyzedOffset := 0 } })
        else if currentUsefuleSize < totalPacketLength then
          return .leave (.brk s currentUsefuleSize currentParseOffset)
        else do
          let es ← tcpPraseEvent A s.ncb userSize ori currentParseOffset
          return .turn (s.raise es) (currentUsefuleSize - totalPacketLength)
            (currentParseOffset + totalPacketLength)

section

variable {A : Linkattr} {malloc : Option (Nat → Byte)}

theorem tcpPraseLoop_succ (fuel : Nat) (s : RecvLink) (u off : Int) :
    tcpPraseLoop A malloc (fuel + 1) s u off = (do
      match ← praseTurn A malloc s u off with
      | .leave e => return e
      | .turn s u off => tcpPraseLoop A malloc fuel s u off) := by
  simp only [tcpPraseLoop, praseTurn]
  split
  · rfl
  simp only [bind_assoc]
  refine bind_congr fun ori => bind_congr fun parser => bind_congr fun header => ?_
  cases parser header with
  | none => rfl
  | some size =>
      dsimp only
      split
      · rfl
      split
      · simp only [bind_assoc]
        refine bind_congr fun marked => ?_
        split <;> rfl
      split
      · rfl
      · simp only [bind_assoc, pure_bind]

end

/-! ## What the turns of a sized template do -/

/-- A large block is pending. -/
structure Marked (ncb : Ncb) (lb : Block Byte) : Prop where
  data : ncb.lbData = some lb
  size : (lb.size : Int) = ncb.lbLength
  large : (tcpRecvBufferSize : Int) < ncb.lbLength
  bounded : ncb.lbLength < 2 ^ 31
  nonneg : 0 ≤ ncb.lbCpyOffset
  fits : ncb.lbCpyOffset ≤ ncb.lbLength

/-- A template with a parser, and a header that the receive buffer holds. -/
structure Tst.Sized (t : Tst) (parser : List Byte → Option Int32) : Prop where
  parser : t.parser = some parser
  pos : 1 ≤ t.cb
  le : t.cb ≤ tcpRecvBufferSize

/-- How a turn ends that started in `s` with `u` bytes at `off`. -/
inductive TurnSound (s : RecvLink) (u off : Int) : PraseTurn → Prop where
  | brk (hu : u < tcpRecvBufferSize) : TurnSound s u off (.leave (.brk s u off))
  | refused (s' : RecvLink) : TurnSound s u off (.leave (.ret (-1) s'))
  | marked (s' : RecvLink) (lb : Block Byte) (hncb : Marked s'.ncb lb)
      (htst : s'.ncb.tcpTst = s.ncb.tcpTst) (hclosed : s'.closed = s.closed)
      (hpacket : s'.packet = { s.packet with analyzedOffset := 0 }) :
      TurnSound s u off (.leave (.ret 0 s'))
  | turn (es : List Event) (k : Int) (hcb : s.ncb.tcpTst.cb ≤ k) (hk : k ≤ u) :
      TurnSound s u off (.turn (s.raise es) (u - k) (off + k))

section

variable {A : Linkattr} {malloc : Option (Nat → Byte)} {ncb : Ncb} {b : Block Byte} {off u n : Int}

theorem load_of_bounds (ho : 0 ≤ off) (hn : 0 ≤ n) (hb : off + n ≤ b.size) :
    b.load off n = .ok (b.read off.toNat n.toNat) := if_pos ⟨ho, hn, hb⟩

theorem load_of_negative (ho : off < 0) : b.load off n = .error .outOfBounds :=
  if_neg fun h => absurd h.1 (by omega)

/-- A block is marked with the bytes at hand, if there is memory for it. -/
theorem ncbMarkLb_granted (ncb : Ncb) (cell : Nat → Byte) {total : Int} (hu : 0 < u)
    (ht : u ≤ total)
    (hlarge : (tcpRecvBufferSize : Int) < total) (hmax : total < 2 ^ 31) (ho : 0 ≤ off)
    (hb : off + u ≤ b.size) :
    ∃ ncb' lb, ncbMarkLb ncb total u b off (some cell) = .ok (0, ncb') ∧ Marked ncb' lb
      ∧ ncb'.tcpTst = ncb.tcpTst := by
  have hsize : (0 : Int) + ((b.read off.toNat u.toNat).length : Int) ≤ (total.toNat : Int) := by
    simp
    omega
  simp only [ncbMarkLb, if_neg (not_lt.mpr ht), if_neg (show u ≠ 0 by omega), Block.copy,
    load_of_bounds ho (le_of_lt hu) hb, ok_bind, Block.store,
    if_pos (show (0 : Int) ≤ 0 ∧ _ from ⟨le_rfl, hsize⟩)]
  refine ⟨_, _, rfl, ⟨rfl, ?_, hlarge, hmax, le_of_lt hu, ht⟩, rfl⟩
  simp
  omega

/-- A block is marked, or there is no memory for it. -/
theorem ncbMarkLb_cases (ncb : Ncb) (malloc : Option (Nat → Byte)) {total : Int} (hu : 0 < u)
    (ht : u ≤ total) (hlarge : (tcpRecvBufferSize : Int) < total) (hmax : total < 2 ^ 31)
    (ho : 0 ≤ off) (hb : off + u ≤ b.size) :
    (∃ ncb', ncbMarkLb ncb total u b off malloc = .ok (-1, ncb'))
      ∨ ∃ ncb' lb, ncbMarkLb ncb total u b off malloc = .ok (0, ncb') ∧ Marked ncb' lb
        ∧ ncb'.tcpTst = ncb.tcpTst := by
  cases malloc with
  | none =>
      simp only [ncbMarkLb, if_neg (not_lt.mpr ht)]
      exact .inl ⟨_, rfl⟩
  | some cell => exact .inr (ncbMarkLb_granted ncb cell hu ht hlarge hmax ho hb)

/-- The event of a packet that is all there can be raised. -/
theorem tcpPraseEvent_ok (ncb : Ncb) (size : Int) (ho : 0 ≤ off) (hs : 0 ≤ size)
    (hcb : 0 ≤ ncb.tcpTst.cb)
    (hmax : size + ncb.tcpTst.cb < 2 ^ 31) (hb : off + (size + ncb.tcpTst.cb) ≤ b.size) :
    ∃ es, tcpPraseEvent A ncb size b off = .ok es := by
  have hsum : i32 (size + ncb.tcpTst.cb) = size + ncb.tcpTst.cb :=
    i32_of_bounds (by omega) (by omega)
  simp only [tcpPraseEvent, ncbPostRecvdata, hsum]
  rw [load_of_bounds ho (by omega) hb, load_of_bounds (by omega) hs (by omega)]
  cases attrSet ncb.attr A.tcpFullyReceive <;> cases ncb.nisCallback <;> exact ⟨_, rfl⟩

/-- **A turn is sound.** -/
theorem praseTurn_sound (malloc : Option (Nat → Byte)) {s : RecvLink}
    {parser : List Byte → Option Int32}
    (hT : s.ncb.tcpTst.Sized parser) (hori : s.packet.oriBuffer = some b) (ho : 0 ≤ off)
    (hb : off + u ≤ b.size) (hmax : b.size ≤ tcpRecvBufferSize) :
    ∃ r, praseTurn A malloc s u off = .ok r ∧ TurnSound s u off r := by
  have hpos := hT.pos
  have hle := hT.le
  rw [tcpRecvBufferSize_eq] at hle hmax
  simp only [praseTurn]
  -- not even a header is left
  by_cases hu : u < s.ncb.tcpTst.cb
  · rw [if_pos hu]
    exact ⟨_, rfl, .brk (by rw [tcpRecvBufferSize_eq]; omega)⟩
  rw [if_neg hu, hori, hT.parser, deref_some, ok_bind, deref_some, ok_bind,
    Tst.headerSize_of_nonneg (by omega), load_of_bounds ho (by omega) (by omega), ok_bind]
  cases parser (b.read off.toNat _) with
  | none => exact ⟨_, rfl, .refused _⟩
  | some size =>
      dsimp only
      -- the parser is held to the range of a packet
      by_cases hsize : size.toInt > tcpMaximumPacketSize ∨ size.toInt < 0
      · rw [if_pos hsize]
        exact ⟨_, rfl, .refused _⟩
      rw [if_neg hsize]
      rw [tcpMaximumPacketSize_eq] at hsize
      rw [i32_of_bounds (by omega) (by omega)]
      -- a packet above the receive buffer goes to a block, if there is memory
      by_cases hlarge : size.toInt + s.ncb.tcpTst.cb > tcpRecvBufferSize
      · rw [if_pos hlarge]
        have hlt : u ≤ size.toInt + s.ncb.tcpTst.cb := by
          rw [tcpRecvBufferSize_eq] at hlarge
          omega
        rcases ncbMarkLb_cases s.ncb malloc (show 0 < u by omega) hlt hlarge
          (by omega) ho hb
          with ⟨ncb', hm⟩ | ⟨ncb', lb, hm, hmarked, htst⟩
        · rw [hm]
          exact ⟨_, rfl, .refused _⟩
        · rw [hm]
          exact ⟨_, rfl, .marked _ lb hmarked htst rfl (by simp [hori])⟩
      rw [if_neg hlarge]
      -- the packet is not all there, or it is delivered and the loop goes on behind it
      by_cases hpart : u < size.toInt + s.ncb.tcpTst.cb
      · rw [if_pos hpart]
        exact ⟨_, rfl, .brk (by omega)⟩
      rw [if_neg hpart]
      obtain ⟨es, hes⟩ := tcpPraseEvent_ok (A := A) (b := b) s.ncb size.toInt ho
        (by omega) (by omega) (by omega) (by omega)
      rw [hes]
      exact ⟨_, rfl, .turn es _ (by omega) (by omega)⟩

/-- The loop, started in `s` with `u` bytes at `off`, comes to the head of a turn. -/
inductive PraseReaches (A : Linkattr) (malloc : Option (Nat → Byte)) (s : RecvLink) (u off : Int) :
    RecvLink → Int → Int → Prop where
  | refl : PraseReaches A malloc s u off s u off
  | step {s₁ s₂ : RecvLink} {u₁ off₁ u₂ off₂ : Int} (h : PraseReaches A malloc s u off s₁ u₁ off₁)
      (ht : praseTurn A malloc s₁ u₁ off₁ = .ok (.turn s₂ u₂ off₂)) :
      PraseReaches A malloc s u off s₂ u₂ off₂

/-- What the turns leave alone: they raise events, and move the offset over the bytes at hand. -/
structure PraseKept (s : RecvLink) (u off : Int) (s' : RecvLink) (u' off' : Int) : Prop where
  ncb : s'.ncb = s.ncb
  packet : s'.packet = s.packet
  closed : s'.closed = s.closed
  useful : 0 ≤ u'
  offset : 0 ≤ off'
  sum : u' + off' = u + off

variable {s : RecvLink} {parser : List Byte → Option Int32}

/-- A turn that takes `k` bytes off the front keeps the sum of offset and length. -/
theorem PraseKept.turn {s' : RecvLink} {u' off' k : Int} {es : List Event}
    (hT : s.ncb.tcpTst.Sized parser) (h : PraseKept s u off s' u' off')
    (hcb : s'.ncb.tcpTst.cb ≤ k) (hk : k ≤ u') :
    PraseKept s u off (s'.raise es) (u' - k) (off' + k) := by
  have hpos := hT.pos
  have hoff := h.offset
  have hsum := h.sum
  rw [h.ncb] at hcb
  exact ⟨h.ncb, h.packet, h.closed, by omega, by omega, by omega⟩

/-- At the head of every turn the two sizes are what is at hand. -/
theorem praseReaches_kept {s' : RecvLink} {u' off' : Int} (hT : s.ncb.tcpTst.Sized parser)
    (hori : s.packet.oriBuffer = some b) (hu : 0 ≤ u) (ho : 0 ≤ off) (hb : off + u ≤ b.size)
    (hmax : b.size ≤ tcpRecvBufferSize) (hr : PraseReaches A malloc s u off s' u' off') :
    PraseKept s u off s' u' off' := by
  induction hr with
  | refl => exact ⟨rfl, rfl, rfl, hu, ho, rfl⟩
  | @step s₁ s₂ u₁ off₁ u₂ off₂ _ ht ih =>
      have hsum := ih.sum
      obtain ⟨r, hr, hsound⟩ := praseTurn_sound (A := A) malloc (s := s₁) (u := u₁)
        (by rw [ih.ncb]; exact hT) (by rw [ih.packet]; exact hori) ih.offset (by omega) hmax
      rw [ht] at hr
      cases hr
      cases hsound with
      | turn es k hcb hk => exact ih.turn hT hcb hk

/-- How the loop is left. -/
def PraseExit.Sound (s : RecvLink) (u off : Int) : PraseExit → Prop
  | .brk s' u' off' => PraseKept s u off s' u' off' ∧ u' < tcpRecvBufferSize
  | .ret retval s' => retval = -1 ∨ retval = 0 ∧ s'.ncb.tcpTst = s.ncb.tcpTst ∧ s'.closed = s.closed
      ∧ s'.packet = { s.packet with analyzedOffset := 0 } ∧ ∃ lb, Marked s'.ncb lb

/-- **The loop ends.** A turn is taken for each packet, and each takes at least a byte. -/
theorem tcpPraseLoop_sound (malloc : Option (Nat → Byte)) (off : Int)
    (hT : s.ncb.tcpTst.Sized parser) (hori : s.packet.oriBuffer = some b)
    (hmax : b.size ≤ tcpRecvBufferSize) (hb : off + u ≤ b.size) :
    ∀ (fuel : Nat) (s' : RecvLink) (u' off' : Int), PraseKept s u off s' u' off' → u' < fuel →
      ∃ e, tcpPraseLoop A malloc fuel s' u' off' = .ok e ∧ e.Sound s u off := by
  -- every turn that goes on takes a header at least, so that the turns suffice
  intro fuel
  induction fuel with
  | zero =>
      intro s' u' off' h hlt
      have huseful := h.useful
      omega
  | succ fuel ih =>
      intro s' u' off' h hlt
      have hsum := h.sum
      obtain ⟨r, hr, hsound⟩ := praseTurn_sound (A := A) malloc (s := s') (u := u')
        (by rw [h.ncb]; exact hT) (by rw [h.packet]; exact hori) h.offset (by omega) hmax
      rw [tcpPraseLoop_succ, hr, ok_bind]
      cases hsound with
      | brk hu => exact ⟨_, rfl, h, hu⟩
      | refused s'' => exact ⟨_, rfl, .inl rfl⟩
      | marked s'' lb hm htst hclosed hpacket =>
          refine ⟨_, rfl, .inr ⟨rfl, htst.trans (by rw [h.ncb]), hclosed.trans h.closed,
            ?_, lb, hm⟩⟩
          rw [hpacket, h.packet]
      | turn es k hcb hk =>
          have hpos := hT.pos
          rw [h.ncb] at hcb
          exact ih _ _ _ (h.turn hT (by rw [h.ncb]; exact hcb) hk) (by omega)

/-- What `tcp_prase_logic_packet` and the adjustment behind it leave of a link that goes on. -/
structure Prased (s : RecvLink) (b : Block Byte) (s' : RecvLink) : Prop where
  tst : s'.ncb.tcpTst = s.ncb.tcpTst
  closed : s'.closed = s.closed
  ori : ∃ b', s'.packet.oriBuffer = some b' ∧ b'.size = b.size
  nonneg : 0 ≤ s'.packet.analyzedOffset
  lt : s'.packet.analyzedOffset < tcpRecvBufferSize
  irp : s'.packet.irp = s'.packet.analyzedOffset
  req : s'.packet.sizeForReq = tcpRecvBufferSize - s'.packet.analyzedOffset
  block : s'.ncb = s.ncb ∨ s'.packet.analyzedOffset = 0 ∧ ∃ lb, Marked s'.ncb lb

/-- The residue is moved inside of the buffer. -/
theorem tcpPraseResidue_ok (hu : 0 ≤ u) (ho : 0 ≤ off) (hb : off + u ≤ b.size) :
    ∃ b', tcpPraseResidue b u off = .ok b' ∧ b'.size = b.size := by
  unfold tcpPraseResidue
  split
  · have hstore :
      (0 : Int) ≤ 0 ∧ (0 : Int) + ((b.read off.toNat u.toNat).length : Int) ≤ b.size := by
      simp
      omega
    rw [Block.copy, load_of_bounds ho hu hb, ok_bind, Block.store, if_pos hstore]
    exact ⟨_, rfl, rfl⟩
  · exact ⟨b, rfl, rfl⟩

/-- The parsing of a completed receive with a sized template, or with none. -/
theorem tcpRecvPrase_sound (parser : List Byte → Option Int32) (malloc : Option (Nat → Byte))
    (hT : s.ncb.tcpTst.cb = 0 ∨ s.ncb.tcpTst.Sized parser)
    (hori : s.packet.oriBuffer = some b) (ha : 0 ≤ s.packet.analyzedOffset)
    (hn : 0 < s.packet.sizeForTranslation)
    (hb : s.packet.analyzedOffset + s.packet.sizeForTranslation ≤ b.size)
    (hmax : b.size ≤ tcpRecvBufferSize) :
    ∃ retval s', tcpRecvPrase A malloc s = .ok (retval, s') ∧ (0 ≤ retval → Prased s b s') := by
  have hbuf := tcpRecvBufferSize_eq
  simp only [tcpRecvPrase, tcpPraseLogicPacket,
    if_neg (show s.packet.sizeForTranslation ≠ 0 by omega), hori, deref_some, ok_bind]
  -- without a header everything is delivered as it came
  by_cases hcb : s.ncb.tcpTst.cb = 0
  · obtain ⟨es, hes⟩ : ∃ es, ncbPostRecvdata s.ncb
        (s.packet.analyzedOffset + s.packet.sizeForTranslation) b 0 = .ok es := by
      simp only [ncbPostRecvdata]
      rw [load_of_bounds le_rfl (by omega) (by omega)]
      cases s.ncb.nisCallback <;> exact ⟨_, rfl⟩
    rw [if_pos hcb, hes]
    exact ⟨_, _, rfl, fun _ => ⟨rfl, rfl, ⟨b, rfl, rfl⟩, le_rfl, by simp [hbuf], rfl, rfl,
      .inl rfl⟩⟩
  have hT := hT.resolve_left hcb
  rw [if_neg hcb]
  obtain ⟨e, he, hsound⟩ := tcpPraseLoop_sound (A := A)
    (u := s.packet.analyzedOffset + s.packet.sizeForTranslation) malloc 0 hT hori hmax (by omega)
    ((s.packet.analyzedOffset + s.packet.sizeForTranslation).toNat + 1) s _ 0
    ⟨rfl, rfl, rfl, by omega, le_rfl, rfl⟩ (by omega)
  rw [he, ok_bind]
  cases e with
  | ret retval s' =>
      rcases hsound with rfl | ⟨rfl, htst, hclosed, hpacket, hmarked⟩
      · exact ⟨_, _, rfl, fun h => absurd (show (0 : Int) ≤ -1 from h) (by decide)⟩
      · refine ⟨_, _, rfl, fun _ => ⟨htst, hclosed,
          ⟨b, ?_, rfl⟩, ?_, ?_, rfl, rfl, .inr ⟨?_, hmarked⟩⟩⟩ <;>
          simp [hpacket, hori, hbuf]
  -- what was not analyzed is moved to the front of the buffer
  | brk s' u' off' =>
      obtain ⟨hkept, hlt⟩ := hsound
      have hsum := hkept.sum
      obtain ⟨b', hb', hsize⟩ := tcpPraseResidue_ok (b := b) hkept.useful hkept.offset (by omega)
      simp only [ok_bind, hb']
      exact ⟨_, _, rfl, fun _ => ⟨by rw [hkept.ncb], hkept.closed,
        ⟨b', rfl, hsize⟩, hkept.useful, hlt, rfl, rfl, .inl hkept.ncb⟩⟩

end

/-! ## Templates that are safe to use -/

/-- A receive of a link with template `t` has completed. The buffer is cut down to the received
bytes, so that a read behind them is a fault. -/
structure Arrived (t : Tst) (s : RecvLink) (b : Block Byte) : Prop where
  tst : s.ncb.tcpTst = t
  ori : s.packet.oriBuffer = some b
  analyzed : 0 ≤ s.packet.analyzedOffset
  arrived : 0 < s.packet.sizeForTranslation
  size : s.packet.analyzedOffset + s.packet.sizeForTranslation = b.size
  fits : b.size ≤ tcpRecvBufferSize

/-- What the parsing leaves of a link that goes on: room for the next receive, and, where a large
block was marked, one that `tcp_lb_assemble` can hand out from `lb_data_ + cb_` on. -/
structure Tst.LeavesSafe (t : Tst) (s s' : RecvLink) : Prop where
  room : 1 ≤ s'.packet.sizeForReq
  block : ∀ lb, s.ncb.lbData = none → s'.ncb.lbData = some lb → 0 ≤ t.cb ∧ t.cb ≤ lb.size

/-- Whatever is received, the parsing ends without a fault and leaves the link safe, and at the head
of every turn the two sizes are what was received. -/
def Tst.RecvSafe (t : Tst) : Prop :=
  ∀ (A : Linkattr) (malloc : Option (Nat → Byte)) (s : RecvLink) (b : Block Byte), Arrived t s b →
    (t.cb ≠ 0 → ∀ s' u off, PraseReaches A malloc s b.size 0 s' u off →
      0 ≤ u ∧ 0 ≤ off ∧ u + off = b.size)
    ∧ ∃ retval s', tcpRecvPrase A malloc s = .ok (retval, s') ∧ (0 ≤ retval → t.LeavesSafe s s')

/-- A call of `tcp_write` that the code does not turn down. The origin holds the payload, a
serializer that is asked for `n` bytes writes no more than `n` (of a negative number it promises
nothing), and there is no memory of a negative size. -/
structure WriteCall.Fair (A : Linkattr) (c : WriteCall) : Prop where
  pos : 1 ≤ c.cb
  le : c.cb ≤ tcpMaximumPacketSize
  origin : ∃ b, c.origin = some b ∧ c.cb ≤ b.size
  serializer : ∀ f, c.serializer = some f → ∀ o n data, 0 ≤ n → f o n = some data → data.length ≤ n
  malloc : c.malloc.isSome = true → 0 ≤ c.totalPacketLength A

/-- Every such call computes the length of the packet without overflow, and writes inside of it. -/
def Tst.WriteSafe (t : Tst) : Prop :=
  ∀ (A : Linkattr) (c : WriteCall), c.tcpTst = t → c.Fair A →
    ((c.builder A).isSome = true → c.totalPacketLength A = t.cb + c.cb)
      ∧ ∃ r, c.buffer A = .ok r

def Tst.Safe (t : Tst) : Prop := t.WriteSafe ∧ t.RecvSafe

/-- The parser is never called, or is there and called with a header that the receive buffer holds.
Where the header has a negative size, the parser may look at all that was received; it accepts
nothing but the front of a packet that is longer than that, and fits the receive buffer. -/
def Tst.RecvFit (t : Tst) : Prop :=
  t.cb = 0 ∨ ∃ parser, t.parser = some parser
    ∧ (1 ≤ t.cb ∧ t.cb ≤ tcpRecvBufferSize
      ∨ t.cb < 0 ∧ ∀ data : List Byte, data ≠ [] → data.length ≤ tcpRecvBufferSize →
        ∀ n, acceptedSize parser data = some n →
          (data.length : Int) < n + t.cb ∧ n + t.cb ≤ tcpRecvBufferSize)

/-- There is no builder, or the header it writes and the payload behind `cb_` fit the packet, and a
serializer is asked for no negative number of bytes. -/
def Tst.WriteFit (t : Tst) : Prop :=
  ∀ builder, t.builder = some builder → t.cb + tcpMaximumPacketSize < 2 ^ 31
    ∧ ∀ n : Int, 1 ≤ n → n ≤ tcpMaximumPacketSize → 0 ≤ t.cb + n → ∀ header,
      builder n = some header → 0 ≤ t.cb ∧ t.cb ≤ n ∧ header.length ≤ t.cb + n

section

variable {t : Tst} {A : Linkattr}

theorem store_of_bounds {b : Block Byte} {off : Int} {data : List Byte} (ho : 0 ≤ off)
    (hb : off + data.length ≤ b.size) : b.store off data = .ok (b.write off.toNat data) :=
  if_pos ⟨ho, hb⟩

/-- On a link without attributes the template builds the header. -/
theorem builder_fresh (c : WriteCall) (hc : c.attr = 0) : c.builder A = c.tcpTst.builder := by
  have hattr : attrSet c.attr A.tcpNoBuild = false := by simp [attrSet, hc]
  simp [WriteCall.builder, hattr]

/-- The payload fits behind `off`, and so does what a serializer writes that is asked for no more.
-/
theorem fillBody_ok {c : WriteCall} (hc : c.Fair A) {b : Block Byte} {off asked : Int}
    (ho : 0 ≤ off)
    (hb : off + c.cb ≤ b.size) (hasked : 0 ≤ asked) (hle : asked ≤ c.cb) :
    ∃ r, c.fillBody b off asked = .ok r := by
  obtain ⟨origin, horigin, hsize⟩ := hc.origin
  have hpos := hc.pos
  simp only [WriteCall.fillBody, horigin, deref_some, ok_bind]
  cases hf : c.serializer with
  | none =>
      have hlen : off + ((origin.read (0 : Int).toNat c.cb.toNat).length : Int) ≤ b.size := by
        simp
        omega
      simp only [Block.copy, load_of_bounds le_rfl (show 0 ≤ c.cb by omega)
        (show 0 + c.cb ≤ (origin.size : Int) by omega), ok_bind, store_of_bounds ho hlen]
      exact ⟨_, rfl⟩
  | some f =>
      dsimp only
      cases hdata : f origin asked with
      | none => exact ⟨_, rfl⟩
      | some data =>
          have hlen := hc.serializer f hf origin asked data hasked hdata
          simp only [store_of_bounds ho (show off + (data.length : Int) ≤ b.size by omega), ok_bind]
          exact ⟨_, rfl⟩

/-- A template that fits is safe to write with: header and payload each stand inside of the
buffer. -/
theorem writeSafe_of_fit (hlow : -2147483648 ≤ t.cb) (ht : t.WriteFit) : t.WriteSafe := by
  rintro A c rfl hc
  have hpos := hc.pos
  have hle := hc.le
  rw [tcpMaximumPacketSize_eq] at hle
  cases hb : c.builder A with
  -- no header: the payload fills the buffer
  | none =>
      have htotal : c.totalPacketLength A = c.cb := by simp [WriteCall.totalPacketLength, hb]
      refine ⟨nofun, ?_⟩
      simp only [WriteCall.buffer, WriteCall.fill, hb, htotal]
      cases c.malloc with
      | none => exact ⟨_, rfl⟩
      | some cell => exact fillBody_ok hc le_rfl (by simp) (by omega) le_rfl
  -- a header: the length is the sum, and the writes stay within it
  | some builder =>
      have hbuilder : c.tcpTst.builder = some builder := by
        unfold WriteCall.builder at hb
        split at hb
        · cases hb
        · exact hb
      obtain ⟨hmax, hfit⟩ := ht builder hbuilder
      rw [tcpMaximumPacketSize_eq] at hmax
      have htotal : c.totalPacketLength A = c.tcpTst.cb + c.cb := by
        simp only [WriteCall.totalPacketLength, hb]
        exact i32_of_bounds (by omega) (by omega)
      refine ⟨fun _ => htotal, ?_⟩
      have hmalloc := hc.malloc
      simp only [WriteCall.buffer, WriteCall.fill, hb]
      cases hcell : c.malloc with
      | none => exact ⟨_, rfl⟩
      | some cell =>
          have hnonneg := hmalloc (by rw [hcell]; rfl)
          rw [htotal] at hnonneg ⊢
          cases hheader : builder c.cb with
          | none => exact ⟨_, rfl⟩
          | some header =>
              obtain ⟨hcb, hcbn, hlen⟩ := hfit c.cb hpos hc.le hnonneg header hheader
              dsimp only
              rw [store_of_bounds le_rfl (by simp; omega), ok_bind]
              exact fillBody_ok hc hcb (by simp) (by omega) (by omega)

/-- A call with an origin of zeros, on a link with nothing but a template. -/
def plainWrite (t : Tst) (n : Nat) (serializer : Option NisSerializer)
    (malloc : Option (Nat → Byte)) : WriteCall where
  origin := some ⟨n, fun _ => 0⟩
  cb := n
  serializer := serializer
  tcpTst := t
  attr := 0
  malloc := malloc
  packet := true

/-- A serializer that keeps to what it is asked for, and writes `k` bytes when that is negative. -/
def strictSerializer (k : Nat) : NisSerializer := fun _ asked =>
  some (if 0 ≤ asked then [] else List.replicate k 0)

theorem plainWrite_fair {n k : Nat} {serializer : Option NisSerializer}
    {malloc : Option (Nat → Byte)} (h₁ : 1 ≤ n) (h₂ : n ≤ tcpMaximumPacketSize)
    (hs : serializer = none ∨ serializer = some (strictSerializer k))
    (hm : malloc.isSome = true → 0 ≤ (plainWrite t n serializer malloc).totalPacketLength A) :
    (plainWrite t n serializer malloc).Fair A where
  pos := by simpa [plainWrite] using h₁
  le := by simpa [plainWrite] using h₂
  origin := ⟨_, rfl, le_rfl⟩
  serializer := by
    rintro f hf o m data hasked hdata
    rcases hs with rfl | rfl
    · cases hf
    · cases hf
      rw [strictSerializer, if_pos hasked] at hdata
      cases hdata
      exact hasked
  malloc := hm

theorem plainWrite_builder {builder : Int → Option (List Byte)}
    (hbuilder : t.builder = some builder)
    (n : Nat) (serializer : Option NisSerializer) (malloc : Option (Nat → Byte)) :
    (plainWrite t n serializer malloc).builder ⟨0, 0, 0⟩ = some builder :=
  (builder_fresh (plainWrite t n serializer malloc) rfl).trans hbuilder

theorem plainWrite_total {builder : Int → Option (List Byte)} (hbuilder : t.builder = some builder)
    (n : Nat) (serializer : Option NisSerializer) (malloc : Option (Nat → Byte)) :
    (plainWrite t n serializer malloc).totalPacketLength ⟨0, 0, 0⟩ = i32 (t.cb + n) := by
  simp only [WriteCall.totalPacketLength, plainWrite_builder hbuilder]
  rfl

/-- What a call that gets its memory fills it with. -/
theorem plainWrite_buffer {builder : Int → Option (List Byte)} (hbuilder : t.builder = some builder)
    {n : Nat} {serializer : Option NisSerializer} {header : List Byte}
    (hheader : builder n = some header) (hsum : i32 (t.cb + n) = t.cb + n) :
    (plainWrite t n serializer (some fun _ => 0)).buffer ⟨0, 0, 0⟩ = (do
      let b ← (⟨(t.cb + n).toNat, fun _ => 0⟩ : Block Byte).store 0 header
      (plainWrite t n serializer (some fun _ => 0)).fillBody b t.cb (n - t.cb)) := by
  simp only [WriteCall.buffer, WriteCall.fill, plainWrite_builder hbuilder,
    plainWrite_total hbuilder, hsum]
  simp only [plainWrite, hheader]

/-- A template that is safe to write with fits: each condition is what one plain call asks for. -/
theorem fit_of_writeSafe (hlow : -2147483648 ≤ t.cb) (ht : t.WriteSafe) : t.WriteFit := by
  intro builder hbuilder
  -- the bits of `nis.h` do not matter to a link without attributes
  let A : Linkattr := ⟨0, 0, 0⟩
  have htotal := plainWrite_total hbuilder
  have hmax : t.cb + tcpMaximumPacketSize < 2 ^ 31 := by
    obtain ⟨hsum, -⟩ := ht A (plainWrite t tcpMaximumPacketSize none none) rfl
      (plainWrite_fair (k := 0) (by decide) le_rfl (.inl rfl) nofun)
    have heq := hsum (by rw [plainWrite_builder hbuilder]; rfl)
    rw [htotal] at heq
    have hlt : i32 (t.cb + tcpMaximumPacketSize) < 2 ^ 31 := Int.bmod_lt (by decide)
    exact heq ▸ hlt
  refine ⟨hmax, fun n h₁ h₂ hnonneg header hheader => ?_⟩
  obtain ⟨n, rfl⟩ := Int.eq_ofNat_of_zero_le (show 0 ≤ n by omega)
  rw [tcpMaximumPacketSize_eq] at hmax
  have hle := h₂
  rw [tcpMaximumPacketSize_eq] at hle
  have hsum : i32 (t.cb + n) = t.cb + n := i32_of_bounds (by omega) (by omega)
  have hsize : ((t.cb + n).toNat : Int) = t.cb + n := Int.toNat_of_nonneg hnonneg
  -- a call of each kind runs
  have hrun : ∀ serializer, serializer = none ∨ serializer = some (strictSerializer (n + 1)) →
      ∃ r, (plainWrite t n serializer (some fun _ => 0)).buffer A = .ok r := fun serializer hs =>
    (ht A _ rfl (plainWrite_fair (by omega) (by omega) hs fun _ => by
      rw [htotal, hsum]; exact hnonneg)).2
  obtain ⟨r, hr⟩ := hrun none (.inl rfl)
  rw [plainWrite_buffer hbuilder hheader hsum] at hr
  have hlen : (header.length : Int) ≤ t.cb + n := by
    by_contra hlong
    rw [Block.store, if_neg (show ¬ ((0 : Int) ≤ 0 ∧ (0 : Int) + header.length
      ≤ ((t.cb + n).toNat : Int)) by omega)] at hr
    cases hr
  have hstore : (⟨(t.cb + n).toNat, fun _ => 0⟩ : Block Byte).store 0 header = .ok _ :=
    store_of_bounds le_rfl (by simp; omega)
  have hcb : 0 ≤ t.cb := by
    by_contra hneg
    -- the payload would go before the buffer
    rw [hstore, ok_bind] at hr
    simp only [plainWrite, WriteCall.fillBody, deref_some, ok_bind, Block.copy,
      load_of_bounds (b := ⟨n, fun _ => (0 : Byte)⟩) le_rfl (show (0 : Int) ≤ n by omega)
        (show 0 + (n : Int) ≤ n by omega),
      Block.store, if_neg (show ¬ (0 ≤ t.cb ∧ _) from fun h => hneg h.1)] at hr
    cases hr
  refine ⟨hcb, ?_, hlen⟩
  by_contra hasked
  -- a serializer that is asked for a negative number of bytes may write behind the buffer
  obtain ⟨r, hr⟩ := hrun _ (.inr rfl)
  rw [plainWrite_buffer hbuilder hheader hsum, hstore, ok_bind] at hr
  simp only [plainWrite, WriteCall.fillBody, deref_some, ok_bind, strictSerializer,
    if_neg (show ¬ (0 : Int) ≤ n - t.cb by omega)] at hr
  rw [Block.store, if_neg] at hr
  · cases hr
  · rintro ⟨-, hfits⟩
    simp only [List.length_replicate, Block.size_write] at hfits
    omega

section

variable {malloc : Option (Nat → Byte)} {s : RecvLink} {b : Block Byte}
  {parser : List Byte → Option Int32}

/-- A header of negative size lets the parser look at all that was received. -/
theorem load_whole (hcb : t.cb < 0) : b.load 0 (t.headerSize b 0) = .ok (b.read 0 b.size) := by
  rw [Tst.headerSize, if_pos hcb, Int.sub_zero]
  exact Block.load_eq_ok (o := 0) (by omega)

/-- The first turn with a header of negative size, when the parser refuses what was received. -/
theorem praseTurn_refused (hparser : s.ncb.tcpTst.parser = some parser)
    (hori : s.packet.oriBuffer = some b) (hcb : s.ncb.tcpTst.cb < 0)
    (hacc : acceptedSize parser (b.read 0 b.size) = none) :
    praseTurn A malloc s b.size 0 = .ok (.leave (.ret (-1) s)) := by
  simp only [praseTurn, if_neg (show ¬ (b.size : Int) < s.ncb.tcpTst.cb by omega), hori, hparser,
    deref_some, ok_bind, load_whole hcb]
  rw [acceptedSize] at hacc
  cases hsize : parser (b.read 0 b.size) with
  | none => rfl
  | some size =>
      rw [hsize] at hacc
      by_cases hrange : size.toInt > tcpMaximumPacketSize ∨ size.toInt < 0
      · exact if_pos hrange
      · exact absurd ((if_neg hrange).symm.trans hacc) (by simp)

/-- The first turn with a header of negative size, when it accepts it: the packet goes to a large
block, waits for more, or raises its event. -/
theorem praseTurn_accepted (hparser : s.ncb.tcpTst.parser = some parser)
    (hori : s.packet.oriBuffer = some b) (hcb : s.ncb.tcpTst.cb < 0)
    (hlow : -2147483648 ≤ s.ncb.tcpTst.cb) {n : Nat}
    (hacc : acceptedSize parser (b.read 0 b.size) = some n) :
    praseTurn A malloc s b.size 0
      = if n + s.ncb.tcpTst.cb > tcpRecvBufferSize then do
          let (retval, ncb) ← ncbMarkLb s.ncb (n + s.ncb.tcpTst.cb) b.size b 0 malloc
          let call := ⟨n + s.ncb.tcpTst.cb, b.size, s.ncb.lbData.isSome⟩
          let s := { s with ncb, marks := s.marks ++ [call] }
          if retval < 0 then return .leave (.ret (-1) s)
          else return .leave (.ret 0 { s with packet := { s.packet with analyzedOffset := 0 } })
        else if (b.size : Int) < n + s.ncb.tcpTst.cb then return .leave (.brk s b.size 0)
        else do
          let es ← tcpPraseEvent A s.ncb n b 0
          return .turn (s.raise es) (b.size - (n + s.ncb.tcpTst.cb))
            (0 + (n + s.ncb.tcpTst.cb)) := by
  have hmax := acceptedSize_le hacc
  rw [tcpMaximumPacketSize_eq] at hmax
  obtain ⟨size, hsize, hn⟩ := parser_of_acceptedSize hacc
  have hrange : ¬ ((n : Int) > tcpMaximumPacketSize ∨ (n : Int) < 0) := by
    rw [tcpMaximumPacketSize_eq]
    omega
  have htotal : i32 ((n : Int) + s.ncb.tcpTst.cb) = n + s.ncb.tcpTst.cb :=
    i32_of_bounds (by omega) (by omega)
  simp only [praseTurn, if_neg (show ¬ (b.size : Int) < s.ncb.tcpTst.cb by omega), hori, hparser,
    deref_some, ok_bind, load_whole hcb, hsize, hn, htotal, if_neg hrange]

/-- A large packet is marked, on a system that has the memory for it. -/
theorem praseTurn_marks (hparser : s.ncb.tcpTst.parser = some parser)
    (hori : s.packet.oriBuffer = some b) (hcb : s.ncb.tcpTst.cb < 0)
    (hlow : -2147483648 ≤ s.ncb.tcpTst.cb) {n : Nat}
    (hacc : acceptedSize parser (b.read 0 b.size) = some n) (hpos : 0 < b.size)
    (hfits : b.size ≤ tcpRecvBufferSize) (hlarge : n + s.ncb.tcpTst.cb > tcpRecvBufferSize)
    (cell : Nat → Byte) :
    ∃ s' lb, praseTurn A (some cell) s b.size 0 = .ok (.leave (.ret 0 s'))
      ∧ s'.ncb.lbData = some lb := by
  have hmax := acceptedSize_le hacc
  rw [tcpMaximumPacketSize_eq] at hmax
  obtain ⟨ncb', lb, hm, hmarked, -⟩ :=
    ncbMarkLb_granted (b := b) (u := b.size) s.ncb cell (by omega) (by omega) hlarge (by omega)
      (le_refl 0) (by omega)
  rw [praseTurn_accepted hparser hori hcb hlow hacc, if_pos hlarge, hm]
  exact ⟨_, lb, rfl, hmarked.data⟩

/-- The event of a small packet points before the buffer. -/
theorem praseTurn_strays (hparser : s.ncb.tcpTst.parser = some parser)
    (hori : s.packet.oriBuffer = some b) (hcb : s.ncb.tcpTst.cb < 0)
    (hlow : -2147483648 ≤ s.ncb.tcpTst.cb) {n : Nat}
    (hacc : acceptedSize parser (b.read 0 b.size) = some n)
    (hsmall : n + s.ncb.tcpTst.cb ≤ tcpRecvBufferSize) (hthere : n + s.ncb.tcpTst.cb ≤ b.size)
    (hcallback : s.ncb.nisCallback = true) (hattr : s.ncb.attr = 0) :
    praseTurn A malloc s b.size 0 = .error .outOfBounds := by
  have hunset : attrSet s.ncb.attr A.tcpFullyReceive = false := by simp [attrSet, hattr]
  have hevent : tcpPraseEvent A s.ncb n b 0 = .error .outOfBounds := by
    simp only [tcpPraseEvent, hunset, ncbPostRecvdata, hcallback, if_true, Bool.false_eq_true,
      if_false, load_of_negative (show 0 + s.ncb.tcpTst.cb < 0 by omega)]
    rfl
  rw [praseTurn_accepted hparser hori hcb hlow hacc, if_neg (not_lt.mpr hsmall),
    if_neg (not_lt.mpr hthere), hevent]
  rfl

end

section

variable {malloc : Option (Nat → Byte)} {s : RecvLink} {b : Block Byte}

/-! The parsing of what has arrived, when the first turn of the loop is the last. -/

theorem tcpRecvPrase_fault (hs : Arrived t s b) (hcb : t.cb ≠ 0) {f : Fault}
    (hturn : praseTurn A malloc s b.size 0 = .error f) : tcpRecvPrase A malloc s = .error f := by
  have hpos := hs.arrived
  simp only [tcpRecvPrase, tcpPraseLogicPacket,
    if_neg (show s.packet.sizeForTranslation ≠ 0 by omega), hs.ori, deref_some, ok_bind,
      if_neg (show s.ncb.tcpTst.cb ≠ 0 by rw [hs.tst]; exact hcb), hs.size,
    tcpPraseLoop_succ, hturn, error_bind]

theorem tcpRecvPrase_ret (hs : Arrived t s b) (hcb : t.cb ≠ 0) {retval : Int} {s' : RecvLink}
    (hturn : praseTurn A malloc s b.size 0 = .ok (.leave (.ret retval s'))) :
    tcpRecvPrase A malloc s = .ok
      (retval, if retval < 0 then s' else { s' with packet := { s'.packet with
      irp := s'.packet.analyzedOffset
      sizeForReq := tcpRecvBufferSize - s'.packet.analyzedOffset } }) := by
  have hpos := hs.arrived
  simp only [tcpRecvPrase, tcpPraseLogicPacket,
    if_neg (show s.packet.sizeForTranslation ≠ 0 by omega), hs.ori, deref_some, ok_bind,
      if_neg (show s.ncb.tcpTst.cb ≠ 0 by rw [hs.tst]; exact hcb), hs.size,
    tcpPraseLoop_succ, hturn, pure_eq_ok]
  split <;> rfl

theorem tcpRecvPrase_brk (hs : Arrived t s b) (hcb : t.cb ≠ 0)
    (hturn : praseTurn A malloc s b.size 0 = .ok (.leave (.brk s b.size 0))) :
    tcpRecvPrase A malloc s = .ok (0, { s with packet := { s.packet with
      analyzedOffset := b.size
      oriBuffer := some b
      irp := b.size
      sizeForReq := tcpRecvBufferSize - b.size } }) := by
  have hpos := hs.arrived
  have hresidue : tcpPraseResidue b b.size 0 = .ok b := if_neg (by simp)
  simp only [tcpRecvPrase, tcpPraseLogicPacket,
    if_neg (show s.packet.sizeForTranslation ≠ 0 by omega), hs.ori, deref_some, ok_bind,
      if_neg (show s.ncb.tcpTst.cb ≠ 0 by rw [hs.tst]; exact hcb), hs.size,
    tcpPraseLoop_succ, hturn, pure_eq_ok, hresidue]
  rfl

end

/-- A parsing with a header that the receive buffer holds, or with none, leaves the link safe. -/
theorem Prased.leavesSafe {s s' : RecvLink} {b : Block Byte} (h : Prased s b s')
    (hcb : 0 ≤ s.ncb.tcpTst.cb) (hle : s.ncb.tcpTst.cb ≤ tcpRecvBufferSize) :
    s.ncb.tcpTst.LeavesSafe s s' where
  room := by
    have hreq := h.req
    have hlt := h.lt
    omega
  block := by
    intro lb hnone hlb
    rcases h.block with hncb | ⟨-, lb', hm⟩
    · rw [hncb, hnone] at hlb
      cases hlb
    · obtain rfl : lb = lb' := Option.some.inj (hlb.symm.trans hm.data)
      have hsize := hm.size
      have hlarge := hm.large
      exact ⟨hcb, by omega⟩

/-- A template that fits is safe to receive with. -/
theorem recvSafe_of_fit (hlow : -2147483648 ≤ t.cb) (ht : t.RecvFit) : t.RecvSafe := by
  intro A malloc s b hs
  obtain rfl := hs.tst
  have hbuf := tcpRecvBufferSize_eq
  have hpos := hs.arrived
  have hanalyzed := hs.analyzed
  have hsize := hs.size
  have hfits := hs.fits
  rcases ht with hcb | ⟨parser, hparser, ⟨h₁, h₂⟩ | ⟨hneg, hdata⟩⟩
  -- no header: nothing is parsed
  · obtain ⟨retval, s', hok, hp⟩ := tcpRecvPrase_sound (A := A) (fun _ => none) malloc
      (.inl hcb) hs.ori hanalyzed hpos (by omega) hs.fits
    exact ⟨fun hne => absurd hcb hne, retval, s', hok, fun hr =>
      (hp hr).leavesSafe (by omega) (by omega)⟩
  -- a header that fits: by the invariant of the loop
  · have hT : s.ncb.tcpTst.Sized parser := ⟨hparser, h₁, h₂⟩
    obtain ⟨retval, s', hok, hp⟩ := tcpRecvPrase_sound (A := A) parser malloc (.inr hT) hs.ori
      hanalyzed hpos (by omega) hs.fits
    refine ⟨fun _ s₁ u off hr => ?_, retval, s', hok, fun hr =>
      (hp hr).leavesSafe (by omega) h₂⟩
    have hkept := praseReaches_kept hT hs.ori (by omega) le_rfl (by omega) hs.fits hr
    exact ⟨hkept.useful, hkept.offset, by have := hkept.sum; omega⟩
  · -- the first turn leaves the loop: what was received is refused, or is not yet the whole packet
    have hturn : praseTurn A malloc s b.size 0 = .ok (.leave (.ret (-1) s))
        ∨ praseTurn A malloc s b.size 0 = .ok (.leave (.brk s b.size 0))
          ∧ (b.size : Int) < tcpRecvBufferSize := by
      cases hacc : acceptedSize parser (b.read 0 b.size) with
      | none => exact .inl (praseTurn_refused hparser hs.ori hneg hacc)
      | some n =>
          obtain ⟨hwait, hsmall⟩ := hdata (b.read 0 b.size)
            (List.length_pos_iff.mp (by rw [Block.length_read]; omega))
              (by simpa using hfits) n hacc
          rw [Block.length_read] at hwait
          rw [praseTurn_accepted hparser hs.ori hneg hlow hacc, if_neg (by omega), if_pos hwait]
          exact .inr ⟨rfl, by omega⟩
    constructor
    · intro _ s₁ u off hr
      have hhead : s₁ = s ∧ u = b.size ∧ off = 0 := by
        induction hr with
        | refl => exact ⟨rfl, rfl, rfl⟩
        | step _ ht ih =>
            obtain ⟨rfl, rfl, rfl⟩ := ih
            rcases hturn with hturn | ⟨hturn, -⟩ <;>
              · rw [hturn] at ht
                cases ht
      obtain ⟨-, rfl, rfl⟩ := hhead
      exact ⟨by omega, le_rfl, by omega⟩
    · have hcb : s.ncb.tcpTst.cb ≠ 0 := by omega
      rcases hturn with hturn | ⟨hturn, hlt⟩
      · exact ⟨-1, _, tcpRecvPrase_ret hs hcb hturn, fun h => absurd h (by decide)⟩
      · refine ⟨0, _, tcpRecvPrase_brk hs hcb hturn, fun _ => ⟨?_, ?_⟩⟩
        · show (1 : Int) ≤ tcpRecvBufferSize - b.size
          omega
        · intro lb hnone hlb
          cases hnone.symm.trans hlb

/-- The receive buffer with nothing but `data`. -/
def dataBlock (data : List Byte) : Block Byte :=
  (⟨data.length, fun _ => 0⟩ : Block Byte).write 0 data

/-- The block has the bytes that arrived. -/
theorem read_dataBlock (data : List Byte) :
    (dataBlock data).read 0 (dataBlock data).size = data :=
  Block.read_write_self _ 0 data

/-- A link with template `t` whose first receive has brought `data`. -/
def firstArrival (t : Tst) (data : List Byte) : RecvLink where
  ncb := { hld := 0, nisCallback := true, attr := 0, tcpTst := t, lbData := none, lbCpyOffset := 0,
           lbLength := 0 }
  packet := { recvPacket 0 fun _ => 0 with
    oriBuffer := some (dataBlock data), sizeForTranslation := data.length }
  posted := false
  closed := false
  events := []
  marks := []

/-- The first bytes of a link stand in front of its buffer. -/
theorem firstArrival_arrived {data : List Byte} (h₁ : data ≠ [])
    (h₂ : data.length ≤ tcpRecvBufferSize) : Arrived t (firstArrival t data) (dataBlock data) where
  tst := rfl
  ori := rfl
  analyzed := le_rfl
  arrived := by simpa [firstArrival] using List.length_pos_iff.mpr h₁
  size := by simp [firstArrival, recvPacket, dataBlock]
  fits := h₂

/-- A template that is safe to receive with fits: whatever else it is, the first bytes of a link
show it. -/
theorem fit_of_recvSafe (hlow : -2147483648 ≤ t.cb) (ht : t.RecvSafe) : t.RecvFit := by
  have hbuf := tcpRecvBufferSize_eq
  let A : Linkattr := ⟨0, 0, 0⟩
  by_cases hcb : t.cb = 0
  · exact .inl hcb
  -- a first receive is parsed without a fault
  have hfirst : ∀ (data : List Byte) f, data ≠ [] → data.length ≤ tcpRecvBufferSize →
      praseTurn A none (firstArrival t data) data.length 0 ≠ .error f := by
    intro data f h₁ h₂ hf
    have hs := firstArrival_arrived (t := t) h₁ h₂
    obtain ⟨-, retval, s', hok, -⟩ := ht A none _ _ hs
    rw [tcpRecvPrase_fault hs hcb hf] at hok
    cases hok
  have hzeros : ∀ n, (List.replicate n (0 : Byte)).length = n := fun n => List.length_replicate ..
  have hle : t.cb ≤ tcpRecvBufferSize := by
    by_contra hlarge
    -- a header that never is all there fills the buffer
    let data : List Byte := List.replicate tcpRecvBufferSize 0
    have hlen : data.length = tcpRecvBufferSize := hzeros _
    have hs : Arrived t (firstArrival t data) (dataBlock data) :=
      firstArrival_arrived (List.ne_nil_of_length_pos (by omega)) (by omega)
    have hturn : praseTurn A none (firstArrival t data) data.length 0
        = .ok (.leave (.brk (firstArrival t data) data.length 0)) :=
      if_pos (show (data.length : Int) < t.cb by omega)
    obtain ⟨-, retval, s', hok, hleaves⟩ := ht A none _ _ hs
    rw [tcpRecvPrase_brk hs hcb hturn] at hok
    cases hok
    have hroom : (1 : Int) ≤ tcpRecvBufferSize - data.length := (hleaves le_rfl).room
    omega
  cases hparser : t.parser with
  | none =>
      let data : List Byte := List.replicate (max 1 t.cb.toNat) 0
      have hlen : data.length = max 1 t.cb.toNat := hzeros _
      refine absurd ?_ (hfirst data .nullPointer (List.ne_nil_of_length_pos (by omega)) (by omega))
      have htst : (firstArrival t data).ncb.tcpTst = t := rfl
      have hori : (firstArrival t data).packet.oriBuffer = some (dataBlock data) := rfl
      simp only [praseTurn, htst, hori, hparser]
      rw [if_neg (by omega)]
      rfl
  | some parser =>
      refine .inr ⟨parser, hparser, ?_⟩
      by_cases hpos : 1 ≤ t.cb
      · exact .inl ⟨hpos, hle⟩
      refine .inr ⟨by omega, fun data hne hfits n hacc => ?_⟩
      have hs := firstArrival_arrived (t := t) hne hfits
      have hneg : (firstArrival t data).ncb.tcpTst.cb < 0 := show t.cb < 0 by omega
      rw [← read_dataBlock data] at hacc
      have hsmall : (n : Int) + t.cb ≤ tcpRecvBufferSize := by
        by_contra hlarge
        -- a block is marked that cannot be handed out
        obtain ⟨s₁, lb, hturn, hlb⟩ :=
          praseTurn_marks (A := A) (s := firstArrival t data) hparser rfl
          hneg hlow hacc (List.length_pos_iff.mpr hne) hfits (not_le.mp hlarge) fun _ => 0
        obtain ⟨-, retval, s', hok, hleaves⟩ := ht A _ _ _ hs
        rw [tcpRecvPrase_ret hs hcb hturn, if_neg (by decide)] at hok
        cases hok
        exact absurd ((hleaves le_rfl).block lb rfl hlb).1 (not_le.mpr hneg)
      refine ⟨?_, hsmall⟩
      by_contra hshort
      exact hfirst data .outOfBounds hne hfits
        (praseTurn_strays (s := firstArrival t data) hparser rfl
        hneg hlow hacc hsmall (not_lt.mp hshort) rfl rfl)

end

/-- However the template is set, by a call that succeeds on a link that was safe so far, the link is
safe after that. -/
def Tst.AcceptedSafe (t : Tst) : Prop :=
  ∀ (s s' : RecvLink) (retval : Int), s.ncb.tcpTst.Safe →
    (∃ refr, s.tcpSettst refr (some t) = (retval, s'))
      ∨ (∃ refr, s.tcpSettstR refr (some t) = (retval, s')) →
    0 ≤ retval → s'.ncb.tcpTst.Safe

/-- **The templates that are safe to use.** The setters check no more of a template than that
`tcp_settst_r` turns down a large header. Which of them are safe is up to the sizes. -/
theorem template_safe_iff {t : Tst} (hcb : -2147483648 ≤ t.cb) :
    t.AcceptedSafe ↔ t.WriteFit ∧ t.RecvFit := by
  constructor
  · intro h
    -- a new link has no template
    have hnone : (⟨0, none, none⟩ : Tst).Safe :=
      ⟨writeSafe_of_fit (by decide) nofun, recvSafe_of_fit (by decide) (.inl rfl)⟩
    obtain ⟨hwrite, hrecv⟩ := h (.start 0 true 0 ⟨0, none, none⟩ fun _ => 0) _ 0 hnone
      (.inl ⟨true, rfl⟩) le_rfl
    exact ⟨fit_of_writeSafe hcb hwrite, fit_of_recvSafe hcb hrecv⟩
  · rintro ⟨hwrite, hrecv⟩ s s' retval hsafe (⟨refr, hset⟩ | ⟨refr, hset⟩) hr
    · cases refr with
      | false =>
          cases hset
          exact absurd hr (by decide)
      | true =>
          cases hset
          exact ⟨writeSafe_of_fit hcb hwrite, recvSafe_of_fit hcb hrecv⟩
    · have htst := s.tcpSettstR_tst refr (some t)
      rw [hset] at htst
      rw [htst]
      exact hsafe

/-- A template with a header of one byte, which holds the size. -/
def byteHeader : Tst where
  cb := 1
  builder := some fun n => some [UInt8.ofNat n.toNat]
  parser := some fun header => header.head?.map fun x => Int32.ofNat x.toNat

theorem template_safe_byteHeader : byteHeader.AcceptedSafe := by
  refine (template_safe_iff (by decide)).mpr ⟨?_, .inr ⟨_, rfl, .inl (by decide)⟩⟩
  rintro builder hbuilder
  cases hbuilder
  refine ⟨by decide, fun n h₁ h₂ h₃ header hheader => ?_⟩
  cases hheader
  exact ⟨by decide, by simp [byteHeader]; omega⟩

/-- A template whose header has size -4, and whose parser always finds 4 bytes behind it. -/
def emptyPackets : Tst where
  cb := -4
  builder := none
  parser := some fun _ => some 4

/-- `tcp_settst` takes it. The first byte that is received raises an event before the buffer; on a
link without a callback the loop does not end. -/
theorem template_unsafe_emptyPackets :
    ((RecvLink.start 0 true 0 ⟨0, none, none⟩ fun _ => 0).tcpSettst true (some emptyPackets)).1 = 0
      ∧ ¬ emptyPackets.Safe
      ∧ tcpRecvPrase ⟨0, 0, 0⟩ none (firstArrival emptyPackets [0]) = .error .outOfBounds
      ∧ tcpRecvPrase ⟨0, 0, 0⟩ none { firstArrival emptyPackets [0] with
          ncb := { (firstArrival emptyPackets [0]).ncb with nisCallback := false } } =
        .error .diverged := by
  have hfault : tcpRecvPrase ⟨0, 0, 0⟩ none (firstArrival emptyPackets [0]) = .error .outOfBounds :=
    rfl
  refine ⟨rfl, fun hsafe => ?_, hfault, rfl⟩
  obtain ⟨-, retval, s', hok, -⟩ := hsafe.2 ⟨0, 0, 0⟩ none _ _
    (show Arrived emptyPackets (firstArrival emptyPackets [0]) (dataBlock [0]) from
      firstArrival_arrived (by decide) (by decide))
  rw [hfault] at hok
  cases hok

/-! ## A template that changes under a large block -/

/-- A copy of `tcp_lb_assemble` to the large block: the bytes it copies, and, where the block is
full then, the size it reports. -/
structure LbCopy where
  bytes : Int
  size : Option Int

/-- What `tcp_lb_assemble` copies; nothing where it fails. -/
def RecvLink.lbCopy (s : RecvLink) (lb : Block Byte) : Option LbCopy :=
  match s.ncb.tcpTst.parser with
  | none => none
  | some parser =>
    match parser (lb.read 0 (s.ncb.tcpTst.headerSize lb 0).toNat) with
    | none => none
    | some size =>
      let lbAcquireSize := i32 (i32 (size.toInt + s.ncb.tcpTst.cb) - s.ncb.lbCpyOffset)
      if s.packet.sizeForTranslation < lbAcquireSize then some ⟨s.packet.sizeForTranslation, none⟩
      else some ⟨lbAcquireSize, some size.toInt⟩

/-- The copy stays inside of the block, and no more is reported than the block holds behind its
header. -/
structure LbCopy.Fits (c : LbCopy) (ncb : Ncb) : Prop where
  nonneg : 0 ≤ c.bytes
  le : ncb.lbCpyOffset + c.bytes ≤ ncb.lbLength
  size : ∀ size, c.size = some size → size ≤ ncb.lbLength - ncb.tcpTst.cb

section

variable {s : RecvLink} {b lb : Block Byte} {ndebug : Bool}

/-- `lbCopy` is what `tcp_lb_assemble` copies and reports. -/
theorem tcpLbAssemble_copies (hn : s.packet.sizeForTranslation ≠ 0)
    (hori : s.packet.oriBuffer = some b) (hlb : s.ncb.lbData = some lb)
    (hcb : s.ncb.tcpTst.cb ≤ lb.size) :
    (s.lbCopy lb = none → tcpLbAssemble true s = .ok (-1, s))
      ∧ ∀ c, s.lbCopy lb = some c → ∃ k,
        tcpLbAssemble true s = (do
          let lb ← lb.copy s.ncb.lbCpyOffset b 0 c.bytes
          k lb)
        ∧ ∀ size, c.size = some size → ∃ k' : Block Byte → List Event → Exec (Int × RecvLink),
          k = (fun lb => do
          let es ← ncbPostRecvdata s.ncb size lb s.ncb.tcpTst.cb
          k' lb es) := by
  -- the parser reads the header of the pending packet out of the block
  have hload : lb.load 0 (s.ncb.tcpTst.headerSize lb 0)
      = .ok (lb.read 0 (s.ncb.tcpTst.headerSize lb 0).toNat) := by
    refine load_of_bounds le_rfl ?_ ?_ <;> unfold Tst.headerSize <;> split <;> omega
  have hassert : ∀ (cond : Prop) [Decidable cond], assert true cond = .ok () := fun _ _ => by
    simp [assert]
  simp only [RecvLink.lbCopy, tcpLbAssemble, if_neg hn]
  cases s.ncb.tcpTst.parser with
  | none => exact ⟨fun _ => rfl, nofun⟩
  | some parser =>
      simp only [hori, hlb, deref_some, ok_bind, hload]
      cases parser (lb.read 0 (s.ncb.tcpTst.headerSize lb 0).toNat) with
      | none => exact ⟨fun _ => rfl, nofun⟩
      | some size =>
          dsimp only
          split
          · refine ⟨nofun, ?_⟩
            rintro c hc
            cases hc
            simp only [hassert, ok_bind]
            exact ⟨_, rfl, nofun⟩
          · refine ⟨nofun, ?_⟩
            rintro c hc
            cases hc
            simp only [hassert, ok_bind]
            refine ⟨_, rfl, fun size' hsize => ?_⟩
            cases hsize
            exact ⟨_, rfl⟩

end

/-- What happens to a link: its template is set, or a receive completes. -/
inductive LinkOp where
  | settst (refr : Bool) (tst : Option Tst)
  | recv (x : RecvCompletion)

/-- Nothing is completed on a link that was closed. -/
def linkStep (A : Linkattr) (ndebug : Bool) (s : RecvLink) : LinkOp → Exec RecvLink
  | .settst refr tst => .ok (s.tcpSettst refr tst).2
  | .recv x => if s.closed then .ok s else recvStep A ndebug s x

/-- `P` holds of every operation of a run, and the link it finds. -/
def LinkAlong (A : Linkattr) (ndebug : Bool) (P : RecvLink → LinkOp → Prop) :
    RecvLink → List LinkOp → Prop
  | _, [] => True
  | s, op :: ops => P s op ∧ ∀ s', linkStep A ndebug s op = .ok s' → LinkAlong A ndebug P s' ops

/-- A template with a header as `tcp_settst_r` takes it, and a parser. -/
def Tst.Usable (t : Tst) : Prop := 0 < t.cb ∧ t.cb ≤ tcpMaximumTemplateSize ∧ t.parser.isSome = true

/-- What the user and the system do. -/
def LinkOp.Fair (s : RecvLink) : LinkOp → Prop
  | .settst _ tst => ∀ t, tst = some t → t.Usable
  | .recv x => s.closed = false → s.Accepts x

/-- A completion that finds a large block also finds a template that refuses its header, or that
reads a length from it which covers what the block holds, and which the block covers. -/
def LinkOp.KeepsBlock (s : RecvLink) : LinkOp → Prop
  | .settst .. => True
  | .recv _ => ∀ lb parser size, s.ncb.lbData = some lb → s.ncb.tcpTst.parser = some parser →
      parser (lb.read 0 (s.ncb.tcpTst.headerSize lb 0).toNat) = some size →
      s.ncb.lbCpyOffset ≤ size.toInt + s.ncb.tcpTst.cb
        ∧ size.toInt + s.ncb.tcpTst.cb ≤ s.ncb.lbLength

/-- What a completion copies to a large block fits it. -/
def LinkOp.CopyFits (s : RecvLink) : LinkOp → Prop
  | .settst .. => True
  | .recv x => s.closed = false → ∀ s₁ lb c, s.complete x.data = .ok s₁ → s₁.ncb.lbData = some lb →
      s₁.lbCopy lb = some c → c.Fits s₁.ncb

/-- A link that has a receive posted: the receive goes behind the analyzed bytes, and a large block
that is pending has none. -/
structure Receiving (s : RecvLink) : Prop where
  tst : s.ncb.tcpTst.cb = 0 ∨ ∃ parser, s.ncb.tcpTst.Sized parser
  ori : ∃ b, s.packet.oriBuffer = some b ∧ b.size = tcpRecvBufferSize
  nonneg : 0 ≤ s.packet.analyzedOffset
  irp : s.packet.irp = s.packet.analyzedOffset
  req : s.packet.sizeForReq = tcpRecvBufferSize - s.packet.analyzedOffset
  block : s.ncb.lbData = none ∨ s.packet.analyzedOffset = 0 ∧ ∃ lb, Marked s.ncb lb

section

variable {s : RecvLink} {b lb : Block Byte} {A : Linkattr} {ndebug : Bool}

/-- A usable template has a header that fits the receive buffer. -/
theorem Tst.Usable.sized {t : Tst} (ht : t.Usable) : ∃ parser, t.Sized parser := by
  obtain ⟨hpos, hle, hparser⟩ := ht
  obtain ⟨parser, hparser⟩ := Option.isSome_iff_exists.mp hparser
  refine ⟨parser, hparser, by omega, hle.trans ?_⟩
  rw [tcpRecvBufferSize_eq]
  exact (by decide : (tcpMaximumTemplateSize : Int) ≤ 69632)

/-- The copy fits where the length that the template reads is one the block was made for. -/
theorem lbCopy_fits {c : LbCopy} (hm : Marked s.ncb lb) (hn : 0 ≤ s.packet.sizeForTranslation)
    (hk : ∀ parser size, s.ncb.tcpTst.parser = some parser →
      parser (lb.read 0 (s.ncb.tcpTst.headerSize lb 0).toNat) = some size →
      s.ncb.lbCpyOffset ≤ size.toInt + s.ncb.tcpTst.cb
        ∧ size.toInt + s.ncb.tcpTst.cb ≤ s.ncb.lbLength)
    (hc : s.lbCopy lb = some c) : c.Fits s.ncb := by
  have hnonneg := hm.nonneg
  have hbounded := hm.bounded
  unfold RecvLink.lbCopy at hc
  split at hc
  · cases hc
  next parser hparser =>
    split at hc
    · cases hc
    next size hsize =>
      -- the size read again is between what was copied and what was allocated
      obtain ⟨hlow, hhigh⟩ := hk parser size hparser hsize
      have hsum : i32 (size.toInt + s.ncb.tcpTst.cb) = size.toInt + s.ncb.tcpTst.cb :=
        i32_of_bounds (by omega) (by omega)
      have hleft : i32 (size.toInt + s.ncb.tcpTst.cb - s.ncb.lbCpyOffset)
          = size.toInt + s.ncb.tcpTst.cb - s.ncb.lbCpyOffset := i32_of_bounds (by omega) (by omega)
      dsimp only at hc
      rw [hsum, hleft] at hc
      split at hc
      · cases hc
        exact ⟨hn, show s.ncb.lbCpyOffset + s.packet.sizeForTranslation ≤ _ by omega, nofun⟩
      · cases hc
        refine ⟨show 0 ≤ size.toInt + s.ncb.tcpTst.cb - s.ncb.lbCpyOffset by omega,
          show s.ncb.lbCpyOffset + (size.toInt + s.ncb.tcpTst.cb - s.ncb.lbCpyOffset) ≤ _ by omega,
            ?_⟩
        rintro size' hsize'
        cases hsize'
        omega

/-- What a step on a pending block leaves of a link that goes on with a result of `retval`. -/
structure Assembled (s : RecvLink) (retval : Int) (s' : RecvLink) : Prop where
  tst : s'.ncb.tcpTst = s.ncb.tcpTst
  ori : ∀ b, s.packet.oriBuffer = some b → ∃ b', s'.packet.oriBuffer = some b' ∧ b'.size = b.size
  analyzed : s'.packet.analyzedOffset = s.packet.analyzedOffset
  irp : s'.packet.irp = s.packet.irp
  req : s'.packet.sizeForReq = s.packet.sizeForReq
  le : retval ≤ s.packet.sizeForTranslation
  left : 0 < retval → s'.packet.sizeForTranslation = retval
  block : s'.ncb.lbData = none ∨ retval = 0 ∧ ∃ lb, Marked s'.ncb lb

/-- A copy keeps the size of the block. -/
theorem copy_size {src : Block Byte} {o off n : Int} :
    Yields (fun b' => b'.size = b.size) (b.copy o src off n) := by
  simp only [Block.copy]
  refine Yields.bind_any fun data _ => ?_
  unfold Block.store
  split
  · exact Block.size_write _ _ _
  · trivial

/-- A block that is released leaves the template. -/
theorem ncbUnmarkLb_yields {ncb : Ncb} (hpos : 0 < ncb.lbLength) :
    Yields (fun ncb' => ncb'.tcpTst = ncb.tcpTst ∧ ncb'.lbData = none)
      (ncbUnmarkLb ndebug ncb) := by
  cases hlb : ncb.lbData with
  | none =>
      simp only [ncbUnmarkLb, hlb]
      exact ⟨rfl, rfl⟩
  | some lb =>
      rw [ncbUnmarkLb_of_marked hpos hlb]
      exact ⟨rfl, rfl⟩

/-- A step on a pending block whose copy fits leaves it pending, or releases it. -/
theorem tcpLbAssemble_yields (ndebug : Bool) (hm : Marked s.ncb lb)
    (hn : 0 < s.packet.sizeForTranslation)
    (hfit : ∀ c, s.lbCopy lb = some c → c.Fits s.ncb) :
    Yields (fun r => 0 ≤ r.1 → Assembled s r.1 r.2) (tcpLbAssemble ndebug s) := by
  have hlarge := hm.large
  rw [tcpRecvBufferSize_eq] at hlarge
  simp only [tcpLbAssemble, if_neg (show s.packet.sizeForTranslation ≠ 0 by omega), hm.data]
  cases hparser : s.ncb.tcpTst.parser with
  -- without a parser the function fails before it copies anything
  | none => exact fun h => absurd (show (0 : Int) ≤ -1 from h) (by decide)
  | some parser =>
      dsimp only
      refine Yields.bind_any fun ori hori => ?_
      rw [deref_some, ok_bind]
      have hori : s.packet.oriBuffer = some ori := by
        cases hbuffer : s.packet.oriBuffer with
        | none => rw [hbuffer] at hori; cases hori
        | some b => rw [hbuffer] at hori; cases hori; rfl
      refine Yields.bind_any fun header hheader => ?_
      obtain rfl : header = lb.read 0 (s.ncb.tcpTst.headerSize lb 0).toNat := by
        unfold Block.load at hheader
        split at hheader
        · cases hheader
          rfl
        · cases hheader
      cases hsize : parser (lb.read 0 (s.ncb.tcpTst.headerSize lb 0).toNat) with
      | none => exact fun h => absurd (show (0 : Int) ≤ -1 from h) (by decide)
      | some size =>
          simp only [RecvLink.lbCopy, hparser, hsize] at hfit
          dsimp only
          split
          -- the packet is not complete yet: what arrived is appended to the block
          next hlt =>
            rw [if_pos hlt] at hfit
            obtain ⟨-, hle, -⟩ := hfit _ rfl
            dsimp only at hle
            refine Yields.bind_any fun _ _ => (copy_size (b := lb)).bind fun lb' hlb' => ?_
            refine fun _ => ⟨rfl, fun b hb => ⟨b, hb, rfl⟩, rfl, rfl, rfl, hn.le,
              fun h => absurd (show (0 : Int) < 0 from h) (by decide),
                .inr ⟨rfl, lb', rfl, ?_, hm.large, hm.bounded, ?_, hle⟩⟩
            · rw [hlb']
              exact hm.size
            · have hnonneg := hm.nonneg
              show 0 ≤ s.ncb.lbCpyOffset + s.packet.sizeForTranslation
              omega
          -- it is: the event is raised, the block is freed, what is left over moves to the front
          next hge =>
            rw [if_neg hge] at hfit
            obtain ⟨hnonneg, -, -⟩ := hfit _ rfl
            dsimp only at hnonneg
            refine Yields.bind_any fun _ _ => (copy_size (b := lb)).bind fun lb' _ => ?_
            refine Yields.bind_any fun es _ =>
              (ncbUnmarkLb_yields (by show 0 < s.ncb.lbLength; omega)).bind ?_
            rintro ncb ⟨htst, hdata⟩
            split
            · refine (copy_size (b := ori)).bind fun ori' hori' => fun _ =>
                ⟨htst, fun b hb => ?_, rfl, rfl, rfl, ?_, fun _ => rfl, .inl hdata⟩
              · rw [hori] at hb
                cases hb
                exact ⟨ori', rfl, hori'⟩
              · dsimp only
                omega
            next heq =>
              refine fun _ => ⟨htst, fun b hb => ⟨b, hb, rfl⟩, rfl, rfl, rfl, ?_, fun h => ?_,
                .inl hdata⟩
              · dsimp only
                omega
              · dsimp only at h
                omega

/-- A link with a receive posted, or closed. -/
def Serving (s : RecvLink) : Prop := s.closed = true ∨ Receiving s

/-- A block that is pending was marked, and nothing is analyzed beside it. -/
theorem Receiving.marked (h : Receiving s) (hlb : s.ncb.lbData = some lb) :
    s.packet.analyzedOffset = 0 ∧ Marked s.ncb lb := by
  obtain hnone | ⟨hzero, lb', hm⟩ := h.block
  · rw [hlb] at hnone
    cases hnone
  · have hdata := hm.data
    rw [hlb] at hdata
    cases hdata
    exact ⟨hzero, hm⟩

/-- A setter changes nothing but the template. -/
theorem Receiving.settst {refr : Bool} {tst : Option Tst} (h : Receiving s)
    (ht : ∀ t, tst = some t → t.Usable) : Receiving (s.tcpSettst refr tst).2 := by
  cases tst with
  | none => exact h
  | some t =>
      cases refr with
      | false => exact h
      | true =>
          refine { h with tst := .inr (ht t rfl).sized, block := h.block.imp_right ?_ }
          rintro ⟨hzero, lb, hm⟩
          exact ⟨hzero, lb, { hm with }⟩

/-- A completed receive of a link: the bytes stand behind the analyzed ones. -/
structure Completed (s : RecvLink) (n : Nat) (s₁ : RecvLink) : Prop where
  ncb : s₁.ncb = s.ncb
  ori : ∃ b, s₁.packet.oriBuffer = some b ∧ b.size = tcpRecvBufferSize
  analyzed : s₁.packet.analyzedOffset = s.packet.analyzedOffset
  irp : s₁.packet.irp = s.packet.irp
  req : s₁.packet.sizeForReq = s.packet.sizeForReq
  arrived : s₁.packet.sizeForTranslation = n

/-- A completion that fits the request can be written. -/
theorem Receiving.complete {data : List Byte} (h : Receiving s)
    (hlen : (data.length : Int) ≤ s.packet.sizeForReq) :
    ∃ s₁, s.complete data = .ok s₁ ∧ Completed s data.length s₁ := by
  obtain ⟨b, hori, hsize⟩ := h.ori
  have hreq := h.req
  have hirp := h.irp
  have hnonneg := h.nonneg
  refine ⟨{ s with
    posted := false
    packet := { s.packet with
      oriBuffer := some (b.write s.packet.irp.toNat data), sizeForTranslation := data.length } },
    ?_, ⟨rfl, ⟨_, rfl, hsize⟩, rfl, rfl, rfl, rfl⟩⟩
  · rw [RecvLink.complete, hori, deref_some, ok_bind,
      store_of_bounds (by omega) (by omega), ok_bind]
    rfl

/-- What the parsing leaves of a link that goes on has a receive to post. -/
theorem Prased.receiving {s' : RecvLink} (h : Prased s b s') (hsize : b.size = tcpRecvBufferSize)
    (hT : s.ncb.tcpTst.cb = 0 ∨ ∃ parser, s.ncb.tcpTst.Sized parser)
    (hnone : s.ncb.lbData = none) : Receiving s' where
  tst := by rw [h.tst]; exact hT
  ori := by
    obtain ⟨b', hb', hsize'⟩ := h.ori
    exact ⟨b', hb', hsize'.trans hsize⟩
  nonneg := h.nonneg
  irp := h.irp
  req := h.req
  block := h.block.imp (fun hncb => by rw [hncb]; exact hnone) fun hm => hm

/-- The body of the dispatch, on a completed receive. A pending block has the link receive at the
front of the buffer, so that what it leaves over is parsed there. -/
theorem tcpRecvBody_yields (ndebug : Bool) (malloc : Option (Nat → Byte)) {s₁ : RecvLink} {n : Nat}
    (h : Receiving s) (hc : Completed s n s₁) (hn : 0 < n)
    (hlen : (n : Int) ≤ s.packet.sizeForReq)
    (hfit : ∀ lb c, s₁.ncb.lbData = some lb → s₁.lbCopy lb = some c → c.Fits s₁.ncb) :
    Yields (fun r => 0 ≤ r.1 → Receiving r.2) (tcpRecvBody A ndebug malloc s₁) := by
  have hreq := h.req
  have hnonneg := h.nonneg
  have harrived := hc.arrived
  have hanalyzed := hc.analyzed
  obtain ⟨b, hori, hsize⟩ := hc.ori
  have hT : s₁.ncb.tcpTst.cb = 0 ∨ ∃ parser, s₁.ncb.tcpTst.Sized parser := by
    rw [hc.ncb]
    exact h.tst
  -- the parsing of what is at hand when no block is pending
  have hparse : ∀ (s₂ : RecvLink) (b₂ : Block Byte),
      s₂.ncb.tcpTst = s₁.ncb.tcpTst → s₂.ncb.lbData = none →
      s₂.packet.oriBuffer = some b₂ → b₂.size = tcpRecvBufferSize → 0 ≤ s₂.packet.analyzedOffset →
      0 < s₂.packet.sizeForTranslation →
      s₂.packet.analyzedOffset + s₂.packet.sizeForTranslation ≤ b₂.size →
      Yields (fun r => 0 ≤ r.1 → Receiving r.2) (tcpRecvPrase A malloc s₂) := by
    intro s₂ b₂ htst hnone hori₂ hsize₂ ha hpos hle
    have hT₂ : s₂.ncb.tcpTst.cb = 0 ∨ ∃ parser, s₂.ncb.tcpTst.Sized parser := by
      rw [htst]
      exact hT
    obtain ⟨retval, s', hok, hprased⟩ : ∃ retval s', tcpRecvPrase A malloc s₂ = .ok (retval, s')
        ∧ (0 ≤ retval → Prased s₂ b₂ s') := by
      rcases hT₂ with hcb | ⟨parser, hsized⟩
      · exact tcpRecvPrase_sound (fun _ => none) malloc (.inl hcb) hori₂ ha hpos hle hsize₂.le
      · exact tcpRecvPrase_sound parser malloc (.inr hsized) hori₂ ha hpos hle hsize₂.le
    rw [hok]
    exact fun hr => (hprased hr).receiving hsize₂ hT₂ hnone
  unfold tcpRecvBody
  cases hlb : s₁.ncb.lbData with
  | none =>
      rw [if_neg (by simp [ncbLbMarked, hlb])]
      exact hparse s₁ b rfl hlb hori hsize (by omega) (by omega) (by omega)
  | some lb =>
      obtain ⟨hzero, hm⟩ := h.marked (by rw [← hc.ncb]; exact hlb)
      rw [← hc.ncb] at hm
      have hlarge := hm.large
      rw [tcpRecvBufferSize_eq] at hlarge
      rw [if_pos (by simp [ncbLbMarked, hlb]; omega)]
      refine (tcpLbAssemble_yields ndebug hm (by omega) fun c => hfit lb c hlb).bind ?_
      rintro ⟨retval, s₂⟩ ha
      dsimp only at ha ⊢
      split
      next hle =>
        intro hr
        have ha := ha hr
        obtain ⟨b₂, hori₂, hsize₂⟩ := ha.ori b hori
        refine ⟨by rw [ha.tst]; exact hT, ⟨b₂, hori₂, hsize₂.trans hsize⟩, ?_, ?_, ?_, ?_⟩
        · rw [ha.analyzed]; omega
        · rw [ha.irp, ha.analyzed, hc.irp, hc.analyzed]; exact h.irp
        · rw [ha.req, ha.analyzed, hc.req, hc.analyzed]; exact h.req
        · refine ha.block.imp_right fun ⟨_, hm'⟩ => ⟨?_, hm'⟩
          rw [ha.analyzed]; omega
      next hgt =>
        have ha := ha (by omega)
        have hle := ha.le
        have hleft := ha.left (by omega)
        have hanalyzed₂ := ha.analyzed
        obtain ⟨b₂, hori₂, hsize₂⟩ := ha.ori b hori
        have hnone := ha.block.resolve_right fun h => absurd h.1 (by omega)
        exact hparse s₂ b₂ ha.tst hnone hori₂ (hsize₂.trans hsize) (by omega) (by omega) (by omega)

/-- **A link goes on as it was.** -/
theorem Serving.step {op : LinkOp} {s' : RecvLink} (h : Serving s) (hfair : op.Fair s)
    (hfit : op.CopyFits s) (hs : linkStep A ndebug s op = .ok s') : Serving s' := by
  cases op with
  -- the templates are stored beside the block, and leave it alone
  | settst refr tst =>
      cases hs
      refine h.imp (fun hclosed => ?_) fun h => h.settst hfair
      cases tst with
      | none => exact hclosed
      | some t => cases refr <;> exact hclosed
  -- a completion on an open link: the copies fit, and the link posts again or is closed
  | recv x =>
      rcases Bool.eq_false_or_eq_true s.closed with hclosed | hopen
      · simp only [linkStep, if_pos hclosed] at hs
        cases hs
        exact .inl hclosed
      have h := h.resolve_left (by simp [hopen])
      obtain ⟨hne, hlen⟩ := hfair hopen
      obtain ⟨s₁, hok, hc⟩ := h.complete hlen
      have hpos : 0 < x.data.length := List.length_pos_iff.mpr hne
      have harrived := hc.arrived
      simp only [linkStep, hopen, if_neg (show ¬ false = true by decide), recvStep, hok, ok_bind,
        tcpDispatchIoRecv, if_neg (show ¬ s₁.packet.sizeForTranslation ≤ 0 by omega)] at hs
      split at hs
      · cases hs
        exact .inl rfl
      · have hbody := (tcpRecvBody_yields (A := A) ndebug x.outcome.malloc h
          hc hpos hlen fun lb c => hfit hopen s₁ lb c hok).bind (Q := Serving)
            (f := fun r => if 0 ≤ r.1 ∧ x.outcome.post then pure { r.2 with posted := true }
              else pure r.2.close) fun r hr => ?_
        · exact hbody.of_ok hs
        · split
          next hgo =>
            exact .inr { hr hgo.1 with }
          next => exact .inl rfl

/-- A copy fits where the template reads a length that the block was made for. -/
theorem Serving.copyFits {op : LinkOp} (h : Serving s) (hfair : op.Fair s) (hk : op.KeepsBlock s) :
    op.CopyFits s := by
  cases op with
  | settst refr tst => trivial
  | recv x =>
      intro hopen s₁ lb c hok hlb hcopy
      have h := h.resolve_left (by simp [hopen])
      obtain ⟨-, hlen⟩ := hfair hopen
      obtain ⟨s₁', hok', hc⟩ := h.complete hlen
      rw [hok] at hok'
      cases hok'
      have hncb := hc.ncb
      have harrived := hc.arrived
      rw [hncb] at hlb
      obtain ⟨-, hm⟩ := h.marked hlb
      rw [← hncb] at hm
      refine lbCopy_fits hm (by omega) (fun parser size hparser hsize => ?_) hcopy
      rw [hncb] at hparser hsize ⊢
      exact hk lb parser size hlb hparser hsize

end

/-- **Templates that are changed while a large block is pending.** Every copy fits the block, in
every run of completions and of calls of `tcp_settst` where each completion finds a template that
reads a length from the block that covers what it holds, and that it covers. -/
theorem large_block_unharmed {A : Linkattr} {ndebug : Bool} {hld : Int} {nisCallback : Bool}
    {attr : BitVec 32} {tst : Tst} {cell : Nat → Byte} {ops : List LinkOp}
    (htst : tst.cb = 0 ∨ tst.Usable)
    (hops : LinkAlong A ndebug (fun s op => op.Fair s ∧ op.KeepsBlock s)
      (.start hld nisCallback attr tst cell) ops) :
    LinkAlong A ndebug (fun s op => op.CopyFits s) (.start hld nisCallback attr tst cell) ops := by
  have hrun : ∀ ops s, Serving s →
      LinkAlong A ndebug (fun s op => op.Fair s ∧ op.KeepsBlock s) s ops →
      LinkAlong A ndebug (fun s op => op.CopyFits s) s ops := by
    intro ops
    induction ops with
    | nil => exact fun _ _ _ => trivial
    | cons op ops ih =>
        rintro s h ⟨⟨hfair, hk⟩, hrest⟩
        have hfit := h.copyFits hfair hk
        exact ⟨hfit, fun s' hs => ih s' (h.step hfair hfit hs) (hrest s' hs)⟩
  refine hrun ops _
    (.inr ⟨htst.imp_right Tst.Usable.sized, ⟨_, rfl, rfl⟩, le_rfl, rfl, ?_, .inl rfl⟩) hops
  simp [RecvLink.start, recvPacket]

/-- A template with a header of `cb` bytes, which announces `size` bytes whatever it holds. -/
def fixedSize (cb : Int) (size : Int32) : Tst := ⟨cb, none, some fun _ => some size⟩

/-- A link with a header of four bytes, on a system where nothing fails. -/
def fixedLink (data : List Byte) : LinkOp := .recv ⟨data, ⟨true, some fun _ => 0, true⟩⟩

/-- The header grows by four bytes and the packet shrinks by as many: the block has the same length
for both templates. -/
theorem large_block_unharmed_kept :
    LinkAlong ⟨0, 0, 0⟩ true (fun s op => op.CopyFits s)
      (.start 0 true 0 (fixedSize 4 100000) fun _ => 0)
      [fixedLink [0, 0, 0, 0], .settst true (some (fixedSize 8 99996)), fixedLink [0, 0, 0]] := by
  refine large_block_unharmed (.inr ⟨by decide, by decide, rfl⟩) ?_
  refine ⟨⟨fun _ => ⟨by decide, by decide⟩, nofun⟩, fun s₁ hs₁ => ?_⟩
  cases hs₁
  refine ⟨⟨?_, trivial⟩, fun s₂ hs₂ => ?_⟩
  · rintro t ht
    cases ht
    exact ⟨by decide, by decide, rfl⟩
  cases hs₂
  refine ⟨⟨fun _ => ⟨by decide, by decide⟩, ?_⟩, fun s₃ hs₃ => trivial⟩
  rintro lb parser size hlb hparser hsize
  cases hparser
  cases hsize
  exact ⟨by decide, by decide⟩

/-- The four bytes of a header make a block of 100004 bytes. The template is set to one with a
header of one byte and nothing behind it, and the next byte completes: -3 bytes are copied. -/
theorem large_block_harmed :
    LinkAlong ⟨0, 0, 0⟩ true (fun s op => op.Fair s)
        (.start 0 true 0 (fixedSize 4 100000) fun _ => 0)
        [fixedLink [0, 0, 0, 0], .settst true (some (fixedSize 1 0)), fixedLink [0]]
      ∧ ¬ LinkAlong ⟨0, 0, 0⟩ true (fun s op => op.CopyFits s)
        (.start 0 true 0 (fixedSize 4 100000) fun _ => 0)
        [fixedLink [0, 0, 0, 0], .settst true (some (fixedSize 1 0)), fixedLink [0]] := by
  constructor
  · refine ⟨fun _ => ⟨by decide, by decide⟩, fun s₁ hs₁ => ?_⟩
    cases hs₁
    refine ⟨?_, fun s₂ hs₂ => ?_⟩
    · rintro t ht
      cases ht
      exact ⟨by decide, by decide, rfl⟩
    cases hs₂
    exact ⟨fun _ => ⟨by decide, by decide⟩, fun s₃ hs₃ => trivial⟩
  · rintro ⟨-, hrest⟩
    obtain ⟨-, hrest⟩ := hrest _ rfl
    obtain ⟨hfits, -⟩ := hrest _ rfl
    have hcopy := hfits rfl _ _ ⟨-3, some 0⟩ rfl rfl rfl
    exact absurd hcopy.nonneg (by decide)

end Swnet
