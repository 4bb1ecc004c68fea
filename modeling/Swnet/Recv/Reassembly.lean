import Swnet.Recv.Parse

/-!
# Swnet — reassembly over two buffers

Between two completions an open link holds the undecoded tail of its stream, either at the
front of the receive buffer or in the large block (`Holding`). One completion appends to
that tail and decodes: `recvStep_spec` is the simulation step that ties the two buffers, the
posted window and the events to `Format.decode`, and `recvRun_spec` carries it along a run
by `Format.decode_append`.

* `tcpRecvPrase_spec` — the parsing half, on the bytes of the receive buffer;
* `tcpLbAssemble_more`, `tcpLbAssemble_done` — the large block, before and at its end;
* `tcpRecvBody_spec` — both, from the state a completion leaves.

None of these runs stops with a fault: every copy and every access of the user's packet
stays inside its buffers, and the assertions hold.
-/

namespace Swnet

open CMem Framing

/-! ## The invariant -/

/-- What no step of the receive path changes. -/
structure SameConfig (s s' : RecvLink) : Prop where
  hld : s'.ncb.hld = s.ncb.hld
  nisCallback : s'.ncb.nisCallback = s.ncb.nisCallback
  attr : s'.ncb.attr = s.ncb.attr
  tcpTst : s'.ncb.tcpTst = s.ncb.tcpTst

namespace SameConfig

theorem refl (s : RecvLink) : SameConfig s s := ⟨rfl, rfl, rfl, rfl⟩

theorem trans {s₁ s₂ s₃ : RecvLink} (h : SameConfig s₁ s₂) (h' : SameConfig s₂ s₃) :
    SameConfig s₁ s₃ :=
  ⟨h'.hld.trans h.hld, h'.nisCallback.trans h.nisCallback, h'.attr.trans h.attr,
    h'.tcpTst.trans h.tcpTst⟩

theorem frameEvents {s s' : RecvLink} (h : SameConfig s s') (A : Linkattr)
    (fs : List (Frame Byte)) : Swnet.frameEvents A s'.ncb fs = Swnet.frameEvents A s.ncb fs := by
  have hframe : ∀ f, frameEvent A s'.ncb f = frameEvent A s.ncb f := by
    intro f
    simp only [frameEvent, h.hld, h.attr]
  simp only [Swnet.frameEvents, h.nisCallback, funext hframe]

theorem on {s s' : RecvLink} (h : SameConfig s s') {T : Template} (hT : T.On s.ncb) :
    T.On s'.ncb :=
  ⟨by rw [h.tcpTst]; exact hT.cb, by rw [h.tcpTst]; exact hT.parser⟩

end SameConfig

/-- The next receive goes behind the analyzed bytes and takes the rest of the buffer. -/
structure Window (s : RecvLink) (b : Block Byte) : Prop where
  ori : s.packet.oriBuffer = some b
  size : b.size = tcpRecvBufferSize
  irp : s.packet.irp = s.packet.analyzedOffset
  req : s.packet.sizeForReq = tcpRecvBufferSize - s.packet.analyzedOffset

/-- The undecoded bytes `r` of an open link: a part of a packet that fits the receive
buffer stands at its front, a part of a large one stands in the large block. -/
inductive Holding (T : Template) (s : RecvLink) (r : List Byte) : Prop where
  | small (b : Block Byte) (window : Window s b) (block : s.ncb.lbData = none)
      (analyzed : s.packet.analyzedOffset = r.length) (bytes : b.read 0 r.length = r)
      (front : T.format.front r = .wait) (fits : T.large r = none)
  | large (b : Block Byte) (window : Window s b) (lb : Block Byte)
      (block : s.ncb.lbData = some lb) (analyzed : s.packet.analyzedOffset = 0)
      (bytes : lb.read 0 r.length = r) (total : Nat) (announced : T.large r = some total)
      (size : lb.size = total) (length : s.ncb.lbLength = total)
      (offset : s.ncb.lbCpyOffset = r.length) (missing : r.length < total)

/-- A tail that waits for a packet that fits is shorter than the receive buffer. -/
theorem length_lt_of_fits {T : Template} {r : List Byte} (hfront : T.format.front r = .wait)
    (hfits : T.large r = none) : r.length < tcpRecvBufferSize := by
  have hcb := T.cb_le
  simp only [tcpMaximumTemplateSize] at hcb
  rcases T.format.front_cases r with hshort | ⟨hhead, href⟩ | ⟨n, hhead, hacc⟩
  · have hlt : r.length < T.cb := hshort
    rw [tcpRecvBufferSize_eq]
    omega
  · rw [T.format.front_of_refused hhead href] at hfront
    cases hfront
  · rw [T.large_of_accepted hhead hacc] at hfits
    split at hfits
    · cases hfits
    · rename_i hsmall
      by_contra hlen
      have hle : T.format.headerLen + n ≤ r.length := by
        change T.cb + n ≤ r.length
        omega
      rw [T.format.front_of_complete hacc hle] at hfront
      cases hfront

/-- A sound call of `ncb_mark_lb` holds no large block yet and asks for room for what it
copies. -/
def MarkCall.Sound (call : MarkCall) : Prop := call.held = false ∧ call.currentSize ≤ call.cb

/-- `s'` is what is left of `s` when the bytes `w` have been decoded, and `retval` the
verdict of the parsing functions. -/
structure Decoded (A : Linkattr) (T : Template) (malloc : Option (Nat → Byte)) (s : RecvLink)
    (w : List Byte) (retval : Int) (s' : RecvLink) : Prop where
  config : SameConfig s s'
  closed : s'.closed = s.closed
  events : s'.events = s.events ++ frameEvents A s.ncb (T.format.decode w).1
  marks : ∀ call ∈ s'.marks, call ∈ s.marks ∨ call.Sound
  refused : (T.format.decode w).2 = none → retval < 0
  failed : retval < 0 → (T.format.decode w).2 = none ∨ malloc = none
  holds : 0 ≤ retval → ∃ r, (T.format.decode w).2 = some r ∧ Holding T s' r

/-! ## `tcp_prase_logic_packet` in the receive buffer -/

section

variable {A : Linkattr} {T : Template} {malloc : Option (Nat → Byte)} {s : RecvLink}
  {b : Block Byte}

/-- The residue of `m` bytes stands at the front of the buffer afterwards. -/
theorem tcpPraseResidue_spec (u off : Nat) (h : off + u ≤ b.size) :
    ∃ b', tcpPraseResidue b u off = .ok b' ∧ b'.size = b.size ∧ b'.read 0 u = b.read off u := by
  by_cases hmove : (u : Int) ≠ 0 ∧ (off : Int) ≠ 0
  · refine ⟨b.write 0 (b.read off u), ?_, rfl, Block.read_write_self' _ _ _ _ (by simp)⟩
    rw [tcpPraseResidue, if_pos hmove]
    exact Block.copy_eq_ok (d := 0) h (by omega)
  · refine ⟨b, by rw [tcpPraseResidue, if_neg hmove]; rfl, rfl, ?_⟩
    rcases Nat.eq_zero_or_pos u with rfl | hu
    · rfl
    · have : off = 0 := by omega
      rw [this]

/-- A receive buffer that holds the bytes `w` behind its analyzed offset. -/
structure Filled (s : RecvLink) (b : Block Byte) (w : List Byte) : Prop where
  ori : s.packet.oriBuffer = some b
  size : b.size = tcpRecvBufferSize
  block : s.ncb.lbData = none
  length : s.packet.analyzedOffset + s.packet.sizeForTranslation = w.length
  nonempty : s.packet.sizeForTranslation ≠ 0
  bytes : b.read 0 w.length = w
  fits : w.length ≤ tcpRecvBufferSize

/-- **The parsing half.** What stands in the receive buffer is decoded as far as it goes, and the
tail stands in front of the buffer after that, or in a new large block. -/
theorem tcpRecvPrase_spec (A : Linkattr) (malloc : Option (Nat → Byte)) (hT : T.On s.ncb)
    {w : List Byte} (h : Filled s b w) :
    ∃ retval s', tcpRecvPrase A malloc s = .ok (retval, s') ∧ Decoded A T malloc s w retval s' := by
  have hcb : s.ncb.tcpTst.cb ≠ 0 := by
    have := T.cb_pos
    rw [hT.cb]
    omega
  have hloop : tcpPraseLoop A malloc (w.length + 1) s w.length 0
      = .ok (praseExit A T malloc s w 0) := by
    rw [show praseExit A T malloc s w 0 = praseExit A T malloc s (b.read 0 w.length) 0 by
      rw [h.bytes]]
    exact tcpPraseLoop_eq h.size (w.length + 1) s w.length 0 hT h.ori
      (by have := h.fits; rw [h.size]; omega) (by omega)
  rw [tcpRecvPrase, tcpPraseLogicPacket, if_neg h.nonempty]
  simp only [h.ori, deref_some, ok_bind, if_neg hcb, h.length, Int.toNat_natCast, hloop]
  -- the stream ends in a refused header, or in a tail that waits for more
  cases htail : (T.format.decode w).2 with
  | none =>
    rw [praseExit_refused htail]
    refine ⟨-1, s.raise (frameEvents A s.ncb (T.format.decode w).1), rfl, ?_⟩
    exact {
      config := ⟨rfl, rfl, rfl, rfl⟩
      closed := rfl
      events := rfl
      marks := fun call hcall => Or.inl hcall
      refused := fun _ => by decide
      failed := fun _ => Or.inl htail
      holds := fun hret => absurd hret (by decide) }
  | some r =>
    have hle : r.length ≤ w.length := T.format.length_decode_tail_le htail
    have hwait := T.format.front_of_decode_tail htail
    -- the tail is moved to the front of the buffer, or to a large block
    cases hlarge : T.large r with
    | none =>
      have hfit := length_lt_of_fits hwait hlarge
      obtain ⟨b', hres, hsize, hbytes⟩ := tcpPraseResidue_spec (b := b) r.length
        (w.length - r.length) (by have := h.fits; rw [h.size]; omega)
      have hr : b.read (w.length - r.length) r.length = r := by
        have hdrop := T.format.drop_decode_tail htail
        have hread := Block.drop_read b 0 w.length (w.length - r.length) (by omega)
        rw [h.bytes, hdrop, Nat.zero_add, Nat.sub_sub_self hle] at hread
        exact hread.symm
      rw [praseExit_small htail hlarge]
      simp only [Nat.zero_add, hres, ok_bind, pure_eq_ok]
      refine ⟨0, _, rfl, ?_⟩
      exact {
        config := ⟨rfl, rfl, rfl, rfl⟩
        closed := rfl
        events := rfl
        marks := fun call hcall => Or.inl hcall
        refused := fun hnone => by rw [htail] at hnone; cases hnone
        failed := fun hret => absurd hret (by decide)
        holds := fun _ => ⟨r, htail, .small b' ⟨rfl, hsize.trans h.size, rfl, rfl⟩ h.block rfl
          (hbytes.trans hr) hwait hlarge⟩ }
    | some total =>
      obtain ⟨hhead, hbig, n, hacc, rfl⟩ := T.large_eq_some hlarge
      have hlt : r.length < T.cb + n := by
        by_contra hge
        rw [T.format.front_of_complete hacc (Nat.not_lt.mp hge)] at hwait
        cases hwait
      -- the block is asked for where there is none yet, with room for the tail
      have hmark : ∀ call ∈ s.marks ++ [(⟨((T.cb + n : Nat) : Int), r.length,
          s.ncb.lbData.isSome⟩ : MarkCall)], call ∈ s.marks ∨ call.Sound := by
        intro call hcall
        rcases List.mem_append.mp hcall with hin | hin
        · exact Or.inl hin
        · rw [List.mem_singleton] at hin
          subst hin
          refine Or.inr ⟨by rw [h.block]; rfl, ?_⟩
          change (r.length : Int) ≤ ((T.cb + n : Nat) : Int)
          omega
      cases malloc with
      | none =>
        simp only [praseExit, htail, hlarge]
        refine ⟨-1, _, rfl, ?_⟩
        exact {
          config := ⟨rfl, rfl, rfl, rfl⟩
          closed := rfl
          events := rfl
          marks := hmark
          refused := fun _ => by decide
          failed := fun _ => Or.inr rfl
          holds := fun hret => absurd hret (by decide) }
      | some cell =>
        simp only [praseExit, htail, hlarge]
        refine ⟨0, _, rfl, ?_⟩
        exact {
          config := ⟨rfl, rfl, rfl, rfl⟩
          closed := rfl
          events := rfl
          marks := hmark
          refused := fun hnone => by rw [htail] at hnone; cases hnone
          failed := fun hret => absurd hret (by decide)
          holds := fun _ => ⟨r, htail, .large b ⟨h.ori, h.size, rfl, rfl⟩ _ rfl rfl
            (Block.read_write_self _ 0 r) (T.cb + n) hlarge rfl rfl rfl hlt⟩ }

end

/-! ## `tcp_lb_assemble` in the large block -/

/-- A large block that holds `r`, and a completion that brought `t`. -/
structure Pending (T : Template) (s : RecvLink) (b lb : Block Byte) (r t : List Byte)
    (total : Nat) : Prop where
  ori : s.packet.oriBuffer = some b
  size : b.size = tcpRecvBufferSize
  analyzed : s.packet.analyzedOffset = 0
  length : s.packet.sizeForTranslation = t.length
  nonempty : t ≠ []
  arrived : b.read 0 t.length = t
  fits : t.length ≤ tcpRecvBufferSize
  block : s.ncb.lbData = some lb
  lbSize : lb.size = total
  lbLength : s.ncb.lbLength = total
  offset : s.ncb.lbCpyOffset = r.length
  held : lb.read 0 r.length = r
  announced : T.large r = some total
  missing : r.length < total

section

variable {A : Linkattr} {T : Template} {ndebug : Bool} {s : RecvLink} {b lb : Block Byte}
  {r t : List Byte} {total : Nat}

/-- What `tcp_lb_assemble` computes before it decides: the user size read back from the
header in the large block, and the bytes still missing. -/
theorem Pending.sizes (h : Pending T s b lb r t total) :
    ∃ (size : Int32) (n : Nat), T.parser (lb.read 0 T.cb) = some size ∧ size.toInt = n
      ∧ total = T.cb + n ∧ T.cb ≤ r.length
      ∧ acceptedSize T.parser (r.take T.cb) = some n
      ∧ i32 (size.toInt + T.cb) = total
      ∧ i32 ((total : Int) - r.length) = ((total - r.length : Nat) : Int) := by
  obtain ⟨hhead, -, n, hacc, rfl⟩ := T.large_eq_some h.announced
  obtain ⟨size, hp, hsize⟩ := parser_of_acceptedSize hacc
  have htake : r.take T.cb = lb.read 0 T.cb := by
    have := Block.take_read lb 0 r.length T.cb hhead
    rwa [h.held] at this
  have hmax := acceptedSize_le hacc
  have hcb := T.cb_le
  have hmissing := h.missing
  rw [tcpMaximumPacketSize_eq] at hmax
  simp only [tcpMaximumTemplateSize] at hcb
  refine ⟨size, n, htake ▸ hp, hsize, rfl, hhead, hacc, ?_, ?_⟩
  · rw [hsize, i32_of_bounds (by omega) (by omega)]
    omega
  · rw [i32_of_bounds (by omega) (by omega)]
    omega

/-- The header of a large packet is all in its block. -/
theorem Pending.load_header (hT : T.On s.ncb) (h : Pending T s b lb r t total) :
    lb.load 0 (s.ncb.tcpTst.headerSize lb 0) = .ok (lb.read 0 T.cb) := by
  obtain ⟨-, n, -, -, htotal, -⟩ := h.sizes
  rw [Tst.headerSize_of_nonneg (by rw [hT.cb]; omega), hT.cb]
  exact Block.load_eq_ok (b := lb) (o := 0) (by rw [h.lbSize]; omega)

/-- A completion brings a byte at least. -/
theorem Pending.arrived_ne_zero (h : Pending T s b lb r t total) : (t.length : Int) ≠ 0 := by
  have := List.length_pos_iff.mpr h.nonempty
  omega

/-- The completion does not fill the large block: everything that arrived is appended. -/
theorem tcpLbAssemble_more (hT : T.On s.ncb) (h : Pending T s b lb r t total)
    (hmore : r.length + t.length < total) :
    tcpLbAssemble ndebug s = .ok (0, { s with ncb := { s.ncb with
      lbData := some (lb.write r.length t)
      lbCpyOffset := ((r.length + t.length : Nat) : Int) } }) := by
  obtain ⟨size, n, hp, hsize, htotal, -, -, hrevise, hacquire⟩ := h.sizes
  have hcopy : lb.copy (r.length : Int) b 0 (t.length : Int) = .ok (lb.write r.length t) := by
    have hsrc : 0 + t.length ≤ b.size := by
      have := h.fits
      rw [h.size]
      omega
    have hdst : r.length + t.length ≤ lb.size := by
      rw [h.lbSize]
      omega
    have := Block.copy_eq_ok hsrc hdst
    rwa [h.arrived] at this
  rw [tcpLbAssemble]
  simp only [if_neg h.arrived_ne_zero, hT.parser, hT.cb, h.ori, h.block, deref_some, ok_bind,
    h.load_header hT, hp, hrevise, h.offset, hacquire, h.length, h.lbLength]
  rw [if_pos (by omega), assert_eq_ok (by omega), ok_bind, hcopy]
  rfl

/-- The frame a large block completes with. -/
def largeFrame (T : Template) (r t : List Byte) (total : Nat) : Frame Byte :=
  ⟨r.take T.cb, r.drop T.cb ++ t.take (total - r.length)⟩

/-- The bytes of the block once it is full. -/
theorem Pending.filled (h : Pending T s b lb r t total) (hdone : total ≤ r.length + t.length) :
    (lb.write r.length (t.take (total - r.length))).read 0 total
      = r ++ t.take (total - r.length) := by
  have hlen : (t.take (total - r.length)).length = total - r.length := by
    rw [List.length_take]
    omega
  have hext := Block.read_write_extend lb r.length (t.take (total - r.length))
  rw [hlen, h.held, Nat.add_sub_cancel' (Nat.le_of_lt h.missing)] at hext
  exact hext

/-- The bytes of the block and those that complete it are one frame, and what is left over follows
it. -/
theorem Pending.front (h : Pending T s b lb r t total) (hdone : total ≤ r.length + t.length) :
    T.format.front (r ++ t)
      = .frame (largeFrame T r t total) (t.drop (total - r.length)) := by
  obtain ⟨-, n, -, -, htotal, hhead, hacc, -⟩ := h.sizes
  have htake : (r ++ t).take T.cb = r.take T.cb := List.take_append_of_le_length hhead
  have hmissing := h.missing
  rw [T.format.front_of_complete (s := r ++ t) (n := n) (htake ▸ hacc)
    (by rw [List.length_append]; change T.cb + n ≤ _; omega)]
  have hbody : ((r ++ t).drop T.cb).take n = r.drop T.cb ++ t.take (total - r.length) := by
    rw [List.drop_append_of_le_length hhead, List.take_append, List.length_drop]
    rw [List.take_of_length_le (by rw [List.length_drop]; omega),
      show n - (r.length - T.cb) = total - r.length by omega]
  have hrest : (r ++ t).drop (T.cb + n) = t.drop (total - r.length) := by
    rw [List.drop_append, List.drop_of_length_le (by omega), List.nil_append,
      show T.cb + n - r.length = total - r.length by omega]
  change Front.frame ⟨(r ++ t).take T.cb, ((r ++ t).drop T.cb).take n⟩ ((r ++ t).drop (T.cb + n))
    = _
  rw [htake, hbody, hrest]
  rfl

/-- A large packet is delivered without its header, whatever the attributes. -/
theorem Pending.event (h : Pending T s b lb r t total) (hdone : total ≤ r.length + t.length)
    (A : Linkattr) (ncb : Ncb) {n : Nat} (hn : total = T.cb + n) :
    ncbPostRecvdata ncb n (lb.write r.length (t.take (total - r.length))) T.cb
      = .ok (frameEvents A ncb [largeFrame T r t total]) := by
  obtain ⟨hhead, hbig, -⟩ := T.large_eq_some h.announced
  have hmissing := h.missing
  have hread : (lb.write r.length (t.take (total - r.length))).read T.cb n
      = (largeFrame T r t total).body := by
    have hdrop := Block.drop_read (lb.write r.length (t.take (total - r.length))) 0 total T.cb
      (by omega)
    rw [h.filled hdone, List.drop_append_of_le_length hhead, Nat.zero_add,
      show total - T.cb = n by omega] at hdrop
    exact hdrop.symm
  have hbody : (largeFrame T r t total).body.length = n := by rw [← hread, Block.length_read]
  -- such a packet is too large to be shown whole
  have hlarge : ¬ (largeFrame T r t total).symbols.length ≤ tcpRecvBufferSize := by
    have hheader : (largeFrame T r t total).header.length = T.cb := by
      simp only [largeFrame, List.length_take]
      omega
    simp only [Frame.symbols, List.length_append, hheader, hbody]
    omega
  rw [ncbPostRecvdata]
  cases hcb : ncb.nisCallback with
  | false => simp [frameEvents, hcb]
  | true =>
    have hload : (lb.write r.length (t.take (total - r.length))).load (T.cb : Int) n
        = .ok (largeFrame T r t total).body := by
      rw [← hread]
      exact Block.load_eq_ok (by rw [Block.size_write, h.lbSize]; omega)
    simp [hload, frameEvents, frameEvent, hcb, hlarge, hbody]

/-- The completion fills the large block: the packet is delivered, the block is given up, and
what arrived behind the packet stands at the front of the receive buffer. -/
theorem tcpLbAssemble_done (A : Linkattr) (ndebug : Bool) (hT : T.On s.ncb)
    (h : Pending T s b lb r t total) (hdone : total ≤ r.length + t.length) :
    ∃ s', tcpLbAssemble ndebug s = .ok (((t.length - (total - r.length) : Nat) : Int), s')
      ∧ SameConfig s s' ∧ s'.marks = s.marks ∧ s'.ncb.lbData = none
      ∧ s'.posted = s.posted ∧ s'.closed = s.closed
      ∧ s'.events = s.events ++ frameEvents A s.ncb [largeFrame T r t total]
      ∧ (t.length = total - r.length → s'.packet = s.packet)
      ∧ (total - r.length < t.length → ∃ b', Filled s' b' (t.drop (total - r.length))) := by
  obtain ⟨size, n, hp, hsize, htotal, -, -, hrevise, hacquire⟩ := h.sizes
  set k := total - r.length with hk
  have hmissing := h.missing
  have hfits := h.fits
  -- no more is copied than the block has room for
  have hcopy : lb.copy (r.length : Int) b 0 (k : Int) = .ok (lb.write r.length (t.take k)) := by
    have hsrc : 0 + k ≤ b.size := by rw [h.size]; omega
    have hdst : r.length + k ≤ lb.size := by rw [h.lbSize]; omega
    have htake : t.take k = b.read 0 k := by
      have := Block.take_read b 0 t.length k (by omega)
      rwa [h.arrived] at this
    rw [htake]
    exact Block.copy_eq_ok hsrc hdst
  have hevent := h.event hdone A s.ncb htotal
  have hunmark : ncbUnmarkLb ndebug
        { s.ncb with lbData := some (lb.write r.length (t.take k)), lbCpyOffset := r.length }
      = .ok { s.ncb with lbData := none, lbCpyOffset := 0, lbLength := 0 } := by
    refine ncbUnmarkLb_of_marked ?_ rfl
    change (0 : Int) < s.ncb.lbLength
    rw [h.lbLength]
    omega
  rw [tcpLbAssemble]
  simp only [if_neg h.arrived_ne_zero, hT.parser, hT.cb, h.ori, h.block, deref_some, ok_bind,
    h.load_header hT, hp, hrevise, h.offset, hacquire, h.length]
  rw [if_neg (show ¬ (t.length : Int) < (k : Int) by omega),
    assert_eq_ok (by rw [h.lbLength]; omega), ok_bind, hcopy, ok_bind, hsize, hevent, ok_bind,
    hunmark, ok_bind]
  have hleft : (t.length : Int) - (k : Int) = ((t.length - k : Nat) : Int) := by omega
  by_cases hexact : t.length = k
  · rw [if_neg (by omega), hleft]
    exact ⟨_, rfl, ⟨rfl, rfl, rfl, rfl⟩, rfl, rfl, rfl, rfl, rfl, fun _ => rfl,
      fun hlt => absurd hexact (by omega)⟩
  · have hdrop : b.read k (t.length - k) = t.drop k := by
      have := Block.drop_read b 0 t.length k (by omega)
      rw [h.arrived, Nat.zero_add] at this
      exact this.symm
    -- the surplus is moved to the front of the receive buffer
    have hmove : b.copy 0 b (k : Int) ((t.length - k : Nat) : Int)
        = .ok (b.write 0 (t.drop k)) := by
      rw [← hdrop]
      exact Block.copy_eq_ok (d := 0) (by rw [h.size]; omega) (by rw [h.size]; omega)
    rw [if_pos (by omega), hleft, hmove, ok_bind]
    refine ⟨_, rfl, ⟨rfl, rfl, rfl, rfl⟩, rfl, rfl, rfl, rfl, rfl,
      fun heq => absurd heq hexact, fun hlt => ⟨b.write 0 (t.drop k), ?_⟩⟩
    exact {
      ori := rfl
      size := h.size
      block := rfl
      length := by
        change s.packet.analyzedOffset + (s.packet.sizeForTranslation - (k : Int)) = _
        rw [h.analyzed, h.length, List.length_drop]
        omega
      nonempty := by
        change s.packet.sizeForTranslation - (k : Int) ≠ 0
        rw [h.length]
        omega
      bytes := Block.read_write_self b 0 (t.drop k)
      fits := by rw [List.length_drop]; omega }

end

/-! ## `tcp_dispatch_io_recv` on a completion -/

section

variable {A : Linkattr} {T : Template} {ndebug : Bool} {malloc : Option (Nat → Byte)}
  {s : RecvLink} {b : Block Byte} {r t : List Byte}

/-- A link after the system has put `t` at offset `a` of its receive buffer `b`. -/
def RecvLink.arrived (s : RecvLink) (b : Block Byte) (a : Nat) (t : List Byte) : RecvLink :=
  { s with
    posted := false
    packet := { s.packet with
      oriBuffer := some (b.write a t), sizeForTranslation := t.length } }

/-- A completion writes its bytes behind the analyzed ones, inside of the buffer. -/
theorem Window.complete_eq (h : Window s b) {a : Nat} (ha : s.packet.analyzedOffset = a)
    (ht : (t.length : Int) ≤ s.packet.sizeForReq) :
    a + t.length ≤ tcpRecvBufferSize ∧ s.complete t = .ok (s.arrived b a t) := by
  have hreq := h.req
  rw [ha] at hreq
  have hfit : a + t.length ≤ tcpRecvBufferSize := by omega
  refine ⟨hfit, ?_⟩
  rw [RecvLink.complete, h.ori, deref_some, ok_bind, h.irp, ha,
    Block.store_eq_ok (by rw [h.size]; exact hfit), ok_bind]
  rfl

/-- What was decoded from the link as the completion left it was decoded from the link. -/
theorem Decoded.of_arrived {a : Nat} {w : List Byte} {retval : Int} {s' : RecvLink}
    (h : Decoded A T malloc (s.arrived b a t) w retval s') : Decoded A T malloc s w retval s' where
  config := ⟨h.config.hld, h.config.nisCallback, h.config.attr, h.config.tcpTst⟩
  closed := h.closed
  events := h.events
  marks := h.marks
  refused := h.refused
  failed := h.failed
  holds := h.holds

/-- A completion behind a part that stands in the receive buffer. -/
theorem filled_of_small (hwindow : Window s b) (hblock : s.ncb.lbData = none)
    (hanalyzed : s.packet.analyzedOffset = r.length) (hbytes : b.read 0 r.length = r)
    (hne : t ≠ []) (hfit : r.length + t.length ≤ tcpRecvBufferSize) :
    Filled (s.arrived b r.length t) (b.write r.length t) (r ++ t) where
  ori := rfl
  size := hwindow.size
  block := hblock
  length := by
    change s.packet.analyzedOffset + (t.length : Int) = _
    rw [hanalyzed, List.length_append]
    omega
  nonempty := by
    have hpos := List.length_pos_iff.mpr hne
    change (t.length : Int) ≠ 0
    omega
  bytes := by rw [List.length_append, Block.read_write_extend, hbytes]
  fits := by rw [List.length_append]; exact hfit

variable (A ndebug malloc)

/-- The body of the dispatch on a link without a large block is the parsing. -/
theorem tcpRecvBody_small (hT : T.On s.ncb) (h : Filled s b r) :
    ∃ retval s', tcpRecvBody A ndebug malloc s = .ok (retval, s')
      ∧ Decoded A T malloc s r retval s' := by
  have hunmarked : ncbLbMarked s.ncb = false := by simp [ncbLbMarked, h.block]
  rw [tcpRecvBody, hunmarked]
  exact tcpRecvPrase_spec A malloc hT h

/-- The large block takes part in decoding: with the completion appended, its part of a
packet is longer, or becomes a frame and leaves the surplus to the parser. -/
theorem tcpRecvBody_large (hT : T.On s.ncb) {lb : Block Byte} {total : Nat}
    (h : Pending T s b lb r t total) (hw : Window s b) :
    ∃ retval s', tcpRecvBody A ndebug malloc s = .ok (retval, s')
      ∧ Decoded A T malloc s (r ++ t) retval s' := by
  have hmissing := h.missing
  have hmarked : ncbLbMarked s.ncb = true := by
    simp only [ncbLbMarked, h.block, Option.isSome_some, Bool.true_and, h.lbLength,
      decide_eq_true_eq]
    omega
  rw [tcpRecvBody, hmarked, if_pos rfl]
  by_cases hmore : r.length + t.length < total
  · -- still a part of the packet
    obtain ⟨-, n, -, -, htotal, hhead, hacc, -⟩ := h.sizes
    have htake : (r ++ t).take T.cb = r.take T.cb := List.take_append_of_le_length hhead
    have hhead' : T.cb ≤ (r ++ t).length := by rw [List.length_append]; omega
    have hwait : T.format.front (r ++ t) = .wait := by
      refine T.format.front_of_partial (n := n) hhead' (htake ▸ hacc) ?_
      rw [List.length_append]
      change _ < T.cb + n
      omega
    have hlarge : T.large (r ++ t) = some total := by
      obtain ⟨-, hbig, -⟩ := T.large_eq_some h.announced
      rw [T.large_of_accepted hhead' (htake ▸ hacc), ← htotal, if_pos hbig]
    rw [tcpLbAssemble_more hT h hmore, ok_bind]
    dsimp only
    rw [if_pos (Int.le_refl 0)]
    refine ⟨0, _, rfl, ?_⟩
    exact {
      config := ⟨rfl, rfl, rfl, rfl⟩
      closed := rfl
      events := by simp [T.format.decode_of_wait hwait]
      marks := fun call hcall => Or.inl hcall
      refused := fun hnone => by rw [T.format.decode_of_wait hwait] at hnone; cases hnone
      failed := fun hret => absurd hret (by decide)
      holds := fun _ => ⟨r ++ t, by rw [T.format.decode_of_wait hwait],
        .large b ⟨hw.ori, hw.size, hw.irp, hw.req⟩ _ rfl h.analyzed
          (by rw [List.length_append, Block.read_write_extend, h.held]) total hlarge h.lbSize
          h.lbLength (by rw [List.length_append]) (by rw [List.length_append]; exact hmore)⟩ }
  -- the packet is complete, and reported from the large block
  · have hdone : total ≤ r.length + t.length := Nat.not_lt.mp hmore
    have hdecode := T.format.decode_of_frame (h.front hdone)
    obtain ⟨s₁, hrun, hconfig, hmarks, hblock, -, hclosed, hevents, hexact, hsurplus⟩ :=
      tcpLbAssemble_done A ndebug hT h hdone
    rw [hrun, ok_bind]
    dsimp only
    by_cases heq : t.length = total - r.length
    · -- nothing is left over: the parser is not called
      have hpacket := hexact heq
      have hrest : t.drop (total - r.length) = [] := List.drop_of_length_le (by omega)
      rw [hrest, T.format.decode_nil] at hdecode
      rw [if_pos (by omega)]
      refine ⟨_, s₁, rfl, ?_⟩
      exact {
        config := hconfig
        closed := hclosed
        events := by rw [hevents, hdecode]
        marks := fun call hcall => Or.inl (hmarks ▸ hcall)
        refused := fun hnone => by rw [hdecode] at hnone; cases hnone
        failed := fun hret => by omega
        holds := fun _ => ⟨[], by rw [hdecode],
          .small b ⟨hpacket ▸ hw.ori, hw.size, hpacket ▸ hw.irp, hpacket ▸ hw.req⟩ hblock
            (by rw [hpacket]; exact h.analyzed) rfl
            (T.format.front_of_short T.cb_pos) (T.large_of_short T.cb_pos)⟩ }
    -- what came behind it is parsed like any other data
    · obtain ⟨b', hfilled⟩ := hsurplus (by omega)
      rw [if_neg (by omega)]
      obtain ⟨retval, s', hprase, hdec⟩ :=
        tcpRecvPrase_spec A malloc (hconfig.on hT) hfilled
      refine ⟨retval, s', hprase, ?_⟩
      exact {
        config := hconfig.trans hdec.config
        closed := hdec.closed.trans hclosed
        events := by
          rw [hdec.events, hevents, hdecode, hconfig.frameEvents, List.append_assoc,
            ← frameEvents_cons]
        marks := fun call hcall => by
          rcases hdec.marks call hcall with hin | hsound
          · exact Or.inl (hmarks ▸ hin)
          · exact Or.inr hsound
        refused := fun hnone => hdec.refused (by rw [hdecode] at hnone; exact hnone)
        failed := fun hret => by rw [hdecode]; exact hdec.failed hret
        holds := fun hret => by rw [hdecode]; exact hdec.holds hret }

/-- A completion on a link that holds `r` decodes `r ++ t`. -/
theorem tcpRecvBody_spec (hT : T.On s.ncb) (h : Holding T s r) (hne : t ≠ [])
    (ht : (t.length : Int) ≤ s.packet.sizeForReq) :
    ∃ b a retval s', s.complete t = .ok (s.arrived b a t)
      ∧ tcpRecvBody A ndebug malloc (s.arrived b a t) = .ok (retval, s')
      ∧ Decoded A T malloc s (r ++ t) retval s' := by
  cases h with
  -- the tail is in front of the receive buffer, where the bytes are appended to it
  | small b window block analyzed bytes front fits =>
    obtain ⟨hfit, hcomplete⟩ := window.complete_eq analyzed ht
    obtain ⟨retval, s', hrun, hdec⟩ := tcpRecvBody_small A ndebug malloc
      (s := s.arrived b r.length t) hT (filled_of_small window block analyzed bytes hne hfit)
    exact ⟨b, _, retval, s', hcomplete, hrun, hdec.of_arrived⟩
  -- the tail is in the block, and the bytes arrive at the start of the receive buffer
  | large b window lb block analyzed bytes total announced size length offset missing =>
    obtain ⟨hfit, hcomplete⟩ := window.complete_eq (a := 0) analyzed ht
    rw [Nat.zero_add] at hfit
    have hpending : Pending T (s.arrived b 0 t) (b.write 0 t) lb r t total := {
      ori := rfl
      size := window.size
      analyzed := analyzed
      length := rfl
      nonempty := hne
      arrived := Block.read_write_self b 0 t
      fits := hfit
      block := block
      lbSize := size
      lbLength := length
      offset := offset
      held := bytes
      announced := announced
      missing := missing }
    obtain ⟨retval, s', hrun, hdec⟩ := tcpRecvBody_large A ndebug malloc
      (s := s.arrived b 0 t) hT hpending ⟨rfl, window.size, window.irp, window.req⟩
    exact ⟨b, _, retval, s', hcomplete, hrun, hdec.of_arrived⟩

end

end Swnet
