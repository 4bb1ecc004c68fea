import Swnet.Lib.Framing
import Swnet.Recv.Dispatch

/-!
# Swnet — the parsing loop decodes

A template with a header and a parser stands for a framing (`Template.format`): the header
is refused when the parser fails or the user size is out of range. `tcpPraseLoop_eq` says
what the loop of `tcp_prase_logic_packet` does with the bytes at hand, in terms of
`Format.decode` alone: it raises the event of each complete frame, and leaves with the
undecoded tail, in the receive buffer or in a new large block.

The proof is by induction on the turns: every turn takes a packet off the front, so that one for
each byte is enough. What a turn can find are the cases of `Format.front`: too little for a header,
one that is refused, a body that is not all there, or a frame after which the loop goes on.
-/

namespace Swnet

open CMem Framing

/-! ## The framing of a template -/

/-- A template that has a header, of a size the receive path is written for. -/
structure Template where
  cb : Nat
  cb_pos : 0 < cb
  cb_le : cb ≤ tcpMaximumTemplateSize
  parser : List Byte → Option Int32

/-- The body length a header announces, if the receive path goes on with it. -/
def acceptedSize (parser : List Byte → Option Int32) (header : List Byte) : Option Nat :=
  match parser header with
  | none => none
  | some size =>
    if size.toInt > tcpMaximumPacketSize ∨ size.toInt < 0 then none else some size.toInt.toNat

theorem acceptedSize_le {parser : List Byte → Option Int32} {header : List Byte} {n : Nat}
    (h : acceptedSize parser header = some n) : n ≤ tcpMaximumPacketSize := by
  unfold acceptedSize at h
  split at h
  · cases h
  · split at h
    · cases h
    · cases h
      omega

theorem parser_of_acceptedSize {parser : List Byte → Option Int32} {header : List Byte} {n : Nat}
    (h : acceptedSize parser header = some n) :
    ∃ size, parser header = some size ∧ size.toInt = n := by
  unfold acceptedSize at h
  split at h
  · cases h
  · rename_i size hp
    split at h
    · cases h
    · cases h
      exact ⟨size, hp, by omega⟩

namespace Template

variable (T : Template)

def format : Format Byte := ⟨T.cb, T.cb_pos, acceptedSize T.parser⟩

/-- The control block carries the template. -/
structure On (ncb : Ncb) : Prop where
  cb : ncb.tcpTst.cb = T.cb
  parser : ncb.tcpTst.parser = some T.parser

/-- The whole length of the packet at the front of `r`, when its header is there and it
does not fit the receive buffer. -/
def large (r : List Byte) : Option Nat :=
  if r.length < T.cb then none
  else match acceptedSize T.parser (r.take T.cb) with
    | none => none
    | some n => if tcpRecvBufferSize < T.cb + n then some (T.cb + n) else none

theorem large_of_short {r : List Byte} (h : r.length < T.cb) : T.large r = none := by
  simp [large, h]

theorem large_of_accepted {r : List Byte} {n : Nat} (h : T.cb ≤ r.length)
    (hn : acceptedSize T.parser (r.take T.cb) = some n) :
    T.large r = if tcpRecvBufferSize < T.cb + n then some (T.cb + n) else none := by
  simp [large, Nat.not_lt.mpr h, hn]

/-- What is known of a packet that is large. -/
theorem large_eq_some {r : List Byte} {total : Nat} (h : T.large r = some total) :
    T.cb ≤ r.length ∧ tcpRecvBufferSize < total
      ∧ ∃ n, acceptedSize T.parser (r.take T.cb) = some n ∧ total = T.cb + n := by
  unfold large at h
  split at h
  · cases h
  · split at h
    · cases h
    · rename_i n hn
      split at h
      · cases h
        exact ⟨by omega, by assumption, n, hn, rfl⟩
      · cases h

end Template

/-! ## Events of frames -/

/-- The event a complete frame raises. Only a packet that fits the receive buffer is
delivered with its header when `LINKATTR_TCP_FULLY_RECEIVE` is set. -/
def frameEvent (A : Linkattr) (ncb : Ncb) (f : Frame Byte) : Event :=
  if attrSet ncb.attr A.tcpFullyReceive ∧ f.symbols.length ≤ tcpRecvBufferSize then
    .receiveData ncb.hld f.symbols.length f.symbols
  else .receiveData ncb.hld f.body.length f.body

def frameEvents (A : Linkattr) (ncb : Ncb) (fs : List (Frame Byte)) : List Event :=
  if ncb.nisCallback then fs.map (frameEvent A ncb) else []

@[simp] theorem frameEvents_nil (A : Linkattr) (ncb : Ncb) : frameEvents A ncb [] = [] := by
  simp [frameEvents]

/-- Frames are announced one after the other. -/
theorem frameEvents_append (A : Linkattr) (ncb : Ncb) (fs gs : List (Frame Byte)) :
    frameEvents A ncb (fs ++ gs) = frameEvents A ncb fs ++ frameEvents A ncb gs := by
  unfold frameEvents
  split <;> simp

/-- The first frame is announced first. -/
theorem frameEvents_cons (A : Linkattr) (ncb : Ncb) (f : Frame Byte) (fs : List (Frame Byte)) :
    frameEvents A ncb (f :: fs) = frameEvents A ncb [f] ++ frameEvents A ncb fs :=
  frameEvents_append A ncb [f] fs

@[simp] theorem RecvLink.raise_nil (s : RecvLink) : s.raise [] = s := by
  simp [RecvLink.raise]

@[simp] theorem RecvLink.raise_raise (s : RecvLink) (es fs : List Event) :
    (s.raise es).raise fs = s.raise (es ++ fs) := by
  simp [RecvLink.raise]

/-- The event `tcp_prase_logic_packet` builds for a packet at `off` is its frame's event. -/
theorem tcpPraseEvent_eq (A : Linkattr) {ncb : Ncb} {b : Block Byte} (off c n : Nat)
    (hc : ncb.tcpTst.cb = c) (h : off + (c + n) ≤ b.size) (hsmall : c + n ≤ tcpRecvBufferSize) :
    tcpPraseEvent A ncb n b off
      = .ok (frameEvents A ncb [⟨b.read off c, b.read (off + c) n⟩]) := by
  have hfull : b.load off ((c + n : Nat) : Int) = .ok (b.read off (c + n)) := Block.load_eq_ok h
  have hbody : b.load ((off + c : Nat) : Int) n = .ok (b.read (off + c) n) :=
    Block.load_eq_ok (by omega)
  have hsym : (⟨b.read off c, b.read (off + c) n⟩ : Frame Byte).symbols = b.read off (c + n) :=
    (Block.read_append b off c n).symm
  have hsize : i32 (n + ncb.tcpTst.cb) = ((c + n : Nat) : Int) := by
    rw [tcpRecvBufferSize_eq] at hsmall
    rw [hc, i32_of_bounds (by omega) (by omega)]
    omega
  have hoff : (off : Int) + ncb.tcpTst.cb = ((off + c : Nat) : Int) := by
    rw [hc]
    push_cast
    rfl
  rw [tcpPraseEvent, hsize, hoff]
  cases hcb : ncb.nisCallback with
  | false => split <;> simp [ncbPostRecvdata, frameEvents, hcb]
  | true =>
    by_cases hattr : attrSet ncb.attr A.tcpFullyReceive
    · simp only [ncbPostRecvdata, hcb, if_true, hattr, hfull, ok_bind, pure_eq_ok]
      simp [frameEvents, frameEvent, hcb, hattr, hsym, hsmall]
    · simp only [ncbPostRecvdata, hcb, if_true, hattr, hbody, ok_bind, pure_eq_ok]
      simp [frameEvents, frameEvent, hcb, hattr]

/-! ## The loop -/

/-- How the loop is left when the bytes at hand are `w`, at offset `off` of the buffer. -/
def praseExit (A : Linkattr) (T : Template) (malloc : Option (Nat → Byte)) (s : RecvLink)
    (w : List Byte) (off : Nat) : PraseExit :=
  let s := s.raise (frameEvents A s.ncb (T.format.decode w).1)
  match (T.format.decode w).2 with
  | none => .ret (-1) s
  | some r =>
    match T.large r with
    | none => .brk s r.length ((off + (w.length - r.length) : Nat) : Int)
    | some total =>
      let call : MarkCall := ⟨total, r.length, s.ncb.lbData.isSome⟩
      let s := { s with marks := s.marks ++ [call] }
      match malloc with
      | none => .ret (-1) { s with ncb := { s.ncb with lbLength := total, lbData := none } }
      | some cell => .ret 0 { s with
          ncb := { s.ncb with
            lbLength := total
            lbData := some ((⟨total, cell⟩ : Block Byte).write 0 r)
            lbCpyOffset := r.length }
          packet := { s.packet with analyzedOffset := 0 } }

section

variable {A : Linkattr} {T : Template} {malloc : Option (Nat → Byte)}

theorem praseExit_refused {s : RecvLink} {w : List Byte} {off : Nat}
    (h : (T.format.decode w).2 = none) :
    praseExit A T malloc s w off
      = .ret (-1) (s.raise (frameEvents A s.ncb (T.format.decode w).1)) := by
  simp only [praseExit, h]

theorem praseExit_small {s : RecvLink} {w r : List Byte} {off : Nat}
    (h : (T.format.decode w).2 = some r) (hl : T.large r = none) :
    praseExit A T malloc s w off
      = .brk (s.raise (frameEvents A s.ncb (T.format.decode w).1)) r.length
          ((off + (w.length - r.length) : Nat) : Int) := by
  simp only [praseExit, h, hl]

/-- A frame that is not all there is the tail. -/
theorem praseExit_of_wait {s : RecvLink} {w : List Byte} {off : Nat}
    (hf : T.format.front w = .wait) (hl : T.large w = none) :
    praseExit A T malloc s w off = .brk s w.length off := by
  simp [praseExit, T.format.decode_of_wait hf, hl]

theorem praseExit_of_refused {s : RecvLink} {w : List Byte} {off : Nat}
    (hf : T.format.front w = .refused) : praseExit A T malloc s w off = .ret (-1) s := by
  simp [praseExit, T.format.decode_of_refused hf]

/-- A complete frame at the front is one event, and the exit is that of the rest. -/
theorem praseExit_of_frame {s : RecvLink} {w rest : List Byte} {f : Frame Byte} {off k : Nat}
    (hf : T.format.front w = .frame f rest) (hk : w.length = k + rest.length) :
    praseExit A T malloc s w off
      = praseExit A T malloc (s.raise (frameEvents A s.ncb [f])) rest (off + k) := by
  have hncb : ∀ es, (s.raise es).ncb = s.ncb := fun _ => rfl
  unfold praseExit
  rw [T.format.decode_of_frame hf]
  simp only [hncb, RecvLink.raise_raise, ← frameEvents_cons]
  split
  · rfl
  · rename_i r hr
    split
    · have hle : r.length ≤ rest.length := T.format.length_decode_tail_le hr
      rw [show off + k + (rest.length - r.length) = off + (w.length - r.length) by omega]
    · rfl

/-! ### One iteration -/

section

variable {s : RecvLink} {b : Block Byte} {u off fuel n : Nat}

/-- The loop leaves when the header is not all there. -/
theorem tcpPraseLoop_short (hT : T.On s.ncb) (hu : u < T.cb) :
    tcpPraseLoop A malloc (fuel + 1) s u off = .ok (.brk s u off) := by
  rw [tcpPraseLoop]
  simp only [hT.cb]
  rw [if_pos (by exact_mod_cast hu)]
  rfl

/-- The header is read inside of the bytes at hand. -/
theorem load_header (hT : T.On s.ncb) (hbound : off + u ≤ b.size) (hu : T.cb ≤ u) :
    b.load off (s.ncb.tcpTst.headerSize b off) = .ok (b.read off T.cb) := by
  rw [Tst.headerSize_of_nonneg (by rw [hT.cb]; omega), hT.cb]
  exact Block.load_eq_ok (by omega)

/-- It returns -1 when the header is refused. -/
theorem tcpPraseLoop_refused (hT : T.On s.ncb) (hori : s.packet.oriBuffer = some b)
    (hbound : off + u ≤ b.size) (hu : T.cb ≤ u)
    (hp : acceptedSize T.parser (b.read off T.cb) = none) :
    tcpPraseLoop A malloc (fuel + 1) s u off = .ok (.ret (-1) s) := by
  rw [tcpPraseLoop]
  simp only [hT.cb, hT.parser, hori, deref_some, ok_bind, load_header hT hbound hu]
  rw [if_neg (by exact_mod_cast Nat.not_lt.mpr hu)]
  unfold acceptedSize at hp
  cases hparse : T.parser (b.read off T.cb) with
  | none => rfl
  | some size =>
    rw [hparse] at hp
    by_cases hrange : size.toInt > tcpMaximumPacketSize ∨ size.toInt < 0
    · exact if_pos hrange
    · exact absurd ((if_neg hrange).symm.trans hp) (by simp)

/-- An accepted header: the packet goes to a large block, waits for more, or is delivered. -/
theorem tcpPraseLoop_accepted (hT : T.On s.ncb) (hori : s.packet.oriBuffer = some b)
    (hbound : off + u ≤ b.size) (hu : T.cb ≤ u)
    (hp : acceptedSize T.parser (b.read off T.cb) = some n) :
    tcpPraseLoop A malloc (fuel + 1) s u off
      = if tcpRecvBufferSize < T.cb + n then do
          let (retval, ncb) ← ncbMarkLb s.ncb ((T.cb + n : Nat) : Int) u b off malloc
          let call : MarkCall := ⟨((T.cb + n : Nat) : Int), u, s.ncb.lbData.isSome⟩
          let s := { s with ncb, marks := s.marks ++ [call] }
          if retval < 0 then return .ret (-1) s
          else return .ret 0 { s with packet := { s.packet with analyzedOffset := 0 } }
        else if u < T.cb + n then .ok (.brk s u off)
        else tcpPraseEvent A s.ncb n b off >>= fun es =>
          tcpPraseLoop A malloc fuel (s.raise es) ((u - (T.cb + n) : Nat) : Int)
            ((off + (T.cb + n) : Nat) : Int) := by
  have hmax := acceptedSize_le hp
  have hcb := T.cb_le
  rw [tcpMaximumPacketSize_eq] at hmax
  simp only [tcpMaximumTemplateSize] at hcb
  obtain ⟨size, hsize, hn⟩ := parser_of_acceptedSize hp
  have htotal : i32 ((n : Int) + T.cb) = ((T.cb + n : Nat) : Int) := by
    rw [i32_of_bounds (by omega) (by omega)]
    omega
  have hrange : ¬ ((n : Int) > tcpMaximumPacketSize ∨ (n : Int) < 0) := by
    rw [tcpMaximumPacketSize_eq]
    omega
  rw [tcpPraseLoop]
  simp only [hT.cb, hT.parser, hori, deref_some, ok_bind, load_header hT hbound hu, hsize,
    hn, htotal, if_neg hrange]
  rw [if_neg (by exact_mod_cast Nat.not_lt.mpr hu)]
  by_cases hbig : tcpRecvBufferSize < T.cb + n
  · rw [if_pos (by exact_mod_cast hbig), if_pos hbig]
  rw [if_neg (by exact_mod_cast hbig), if_neg hbig]
  by_cases hpart : u < T.cb + n
  · rw [if_pos (by exact_mod_cast hpart), if_pos hpart]
    rfl
  rw [if_neg (by exact_mod_cast hpart), if_neg hpart]
  have hsub : (u : Int) - ((T.cb + n : Nat) : Int) = ((u - (T.cb + n) : Nat) : Int) := by omega
  have hadd : (off : Int) + ((T.cb + n : Nat) : Int) = ((off + (T.cb + n) : Nat) : Int) := by omega
  rw [hsub, hadd]

end

/-! ### The whole loop -/

/-- **The loop decodes.** On the `u` bytes at `off` of the receive buffer, with an iteration
for each of them and one more, the loop ends as the decoder of the template says. Induction
on the iterations left: only the last branch of the source, a complete small packet, goes
round again, and it leaves fewer bytes. -/
theorem tcpPraseLoop_eq {b : Block Byte} (hb : b.size = tcpRecvBufferSize) :
    ∀ (fuel : Nat) (s : RecvLink) (u off : Nat), T.On s.ncb → s.packet.oriBuffer = some b →
      off + u ≤ b.size → u < fuel →
      tcpPraseLoop A malloc fuel s u off = .ok (praseExit A T malloc s (b.read off u) off) := by
  intro fuel
  -- every turn takes a packet off the front, so a turn for each byte is enough
  induction fuel with
  | zero => intro s u off _ _ _ hlt; omega
  | succ fuel ih =>
    intro s u off hT hori hbound hfuel
    have hlen : (b.read off u).length = u := Block.length_read b off u
    rcases T.format.front_cases (b.read off u) with hshort | ⟨hhead, hrefused⟩ | ⟨n, hhead, hacc⟩
    · -- not even a header
      rw [praseExit_of_wait (T.format.front_of_short hshort) (T.large_of_short hshort), hlen]
      rw [hlen] at hshort
      exact tcpPraseLoop_short hT hshort
    · rw [praseExit_of_refused (T.format.front_of_refused hhead hrefused)]
      rw [hlen] at hhead
      rw [Block.take_read _ _ _ _ hhead] at hrefused
      exact tcpPraseLoop_refused hT hori hbound hhead hrefused
    have hlarge := T.large_of_accepted hhead hacc
    have hhead' : T.cb ≤ u := by rw [hlen] at hhead; exact hhead
    have htake : (b.read off u).take T.cb = b.read off T.cb := Block.take_read _ _ _ _ hhead'
    rw [tcpPraseLoop_accepted hT hori hbound hhead' (htake ▸ hacc)]
    by_cases hbig : tcpRecvBufferSize < T.cb + n
    · -- a large packet: everything at hand is a part of it
      have hpart : u < T.cb + n := by omega
      have hpos : 0 < u := by have := T.cb_pos; omega
      have hwait := T.format.front_of_partial hhead hacc (by rw [hlen]; exact hpart)
      rw [if_pos hbig] at hlarge ⊢
      simp only [praseExit, T.format.decode_of_wait hwait, frameEvents_nil, RecvLink.raise_nil,
        hlarge, hlen]
      cases malloc with
      | none => rw [ncbMarkLb_none (Nat.le_of_lt hpart)]; rfl
      | some cell => rw [ncbMarkLb_some cell hpos (Nat.le_of_lt hpart) hbound]; rfl
    rw [if_neg hbig] at hlarge ⊢
    by_cases hpart : u < T.cb + n
    · have hwait := T.format.front_of_partial hhead hacc (by rw [hlen]; exact hpart)
      rw [if_pos hpart, praseExit_of_wait hwait hlarge, hlen]
    rw [if_neg hpart]
    -- a complete packet
    have hfront := T.format.front_of_complete hacc
      (show T.cb + n ≤ (b.read off u).length by rw [hlen]; omega)
    have hbody : ((b.read off u).drop T.cb).take n = b.read (off + T.cb) n := by
      rw [Block.drop_read _ _ _ _ hhead', Block.take_read _ _ _ _ (by omega)]
    have hrest : (b.read off u).drop (T.cb + n) = b.read (off + (T.cb + n)) (u - (T.cb + n)) :=
      Block.drop_read _ _ _ _ (by omega)
    have hfront' : T.format.front (b.read off u)
        = .frame ⟨b.read off T.cb, b.read (off + T.cb) n⟩
            (b.read (off + (T.cb + n)) (u - (T.cb + n))) := by
      rw [← htake, ← hbody, ← hrest]
      exact hfront
    rw [praseExit_of_frame (k := T.cb + n) hfront' (by rw [hlen, Block.length_read]; omega),
      tcpPraseEvent_eq A off T.cb n hT.cb (by omega) (by omega), ok_bind]
    have hpos := T.cb_pos
    exact ih _ (u - (T.cb + n)) (off + (T.cb + n)) hT hori (by omega) (by omega)

end

end Swnet
