import Swnet.Recv.Stream

/-!
# Swnet — what a receiving link guarantees

The results of the receive path, about every run from the start of a link.

* `recvRun_refines_decode` — a run is the reference decoder on the concatenated
  completions;
* `recvRun_window` — the receive window and the large block, against any peer and any
  answer of the system;
* `fullyReceive_iff` — when `LINKATTR_TCP_FULLY_RECEIVE` shows in every event.

The first is `recvRun_spec` for the link that holds nothing yet: where everything is granted, only a
header that is refused closes the link. In the second a header may have no bytes; such a link keeps
its window too (`RawLink`), and the runs are told apart by the size of the header. The third reads
the events of a whole run off the frames (`frameEvent`): only those of small packets show the
header.
-/

namespace Swnet

open CMem Framing

/-! ## Reassembly -/

section

variable (A : Linkattr) (T : Template) (ndebug : Bool) (hld : Int) (attr : BitVec 32)
  (builder : Option (Int → Option (List Byte))) (cell : Nat → Byte)

/-- A link that is granted what it asks for delivers what the decoder finds. -/
theorem recvRun_delivers {xs : List RecvCompletion}
    (hadm : RecvAdmissible A ndebug (.start hld true attr (T.tst builder) cell) xs)
    (hfav : ∀ x ∈ xs, x.outcome.Favourable) :
    ∃ s, recvRun A ndebug (.start hld true attr (T.tst builder) cell) xs = .ok s
      ∧ s.events = frameEvents A (RecvLink.start hld true attr (T.tst builder) cell).ncb
          (T.format.decode (received xs)).1
      ∧ (s.closed = true ↔ (T.format.decode (received xs)).2 = none)
      ∧ (s.closed = false → ∃ r, (T.format.decode (received xs)).2 = some r ∧ OpenLink T s r) := by
  obtain ⟨s, hrun, hs⟩ := recvRun_spec (openLink_start T hld true attr builder cell) hadm
  rw [List.nil_append] at hs
  refine ⟨s, hrun, hs.events hfav, ⟨hs.closes hfav, fun hnone => ?_⟩, hs.stays⟩
  by_contra hopen
  obtain ⟨r, htail, -⟩ := hs.stays (Bool.eq_false_of_not_eq_true hopen)
  rw [htail] at hnone
  cases hnone

/-- A link without `LINKATTR_TCP_FULLY_RECEIVE` reports the payload of every packet. -/
theorem frameEvents_of_unset {attr : BitVec 32} (hattr : attrSet attr A.tcpFullyReceive = false)
    (tst : Tst) (fs : List (Frame Byte)) :
    frameEvents A (RecvLink.start hld true attr tst cell).ncb fs
      = fs.map fun f => .receiveData hld f.body.length f.body := by
  have hunset : ¬ (attrSet attr A.tcpFullyReceive = true) := by rw [hattr]; decide
  change fs.map (frameEvent A _) = _
  apply List.map_congr_left
  intro f _
  exact if_neg fun hset => hunset hset.1

/-- **Reassembly is decoding, however the stream is cut.** On any completions the system can
make, a link whose requests are granted delivers the payloads the reference decoder finds in
their concatenation, and is closed exactly when the decoder refuses a header. A link that
stays open holds exactly the undecoded tail and asks for at least one byte more. -/
theorem recvRun_refines_decode (hattr : attrSet attr A.tcpFullyReceive = false)
    (xs : List RecvCompletion)
    (hadm : RecvAdmissible A ndebug (.start hld true attr (T.tst builder) cell) xs)
    (hfav : ∀ x ∈ xs, x.outcome.Favourable) :
    ∃ s, recvRun A ndebug (.start hld true attr (T.tst builder) cell) xs = .ok s
      ∧ s.events = (T.format.decode (received xs)).1.map
          (fun f => .receiveData hld f.body.length f.body)
      ∧ (s.closed = true ↔ (T.format.decode (received xs)).2 = none)
      ∧ (s.closed = false → (T.format.decode (received xs)).2 = some s.held
          ∧ s.posted = true ∧ 1 ≤ s.packet.sizeForReq) := by
  obtain ⟨s, hrun, hevents, hclosed, hopen⟩ :=
    recvRun_delivers A T ndebug hld attr builder cell hadm hfav
  refine ⟨s, hrun, ?_, hclosed, fun hstill => ?_⟩
  · rw [hevents, frameEvents_of_unset A hld cell hattr]
  · obtain ⟨r, htail, hlink⟩ := hopen hstill
    rw [hlink.holding.held_eq]
    exact ⟨htail, hlink.posted, hlink.holding.invariant.progress⟩

end

/-- A template with one header byte, which is the user size. -/
def byteTemplate : Template where
  cb := 1
  cb_pos := by decide
  cb_le := by decide
  parser header := some ((header.headD 0).toUInt32.toInt32)

/-- The system grants everything. -/
def granted : RecvOutcome := ⟨true, some fun _ => 0, true⟩

theorem granted_favourable : granted.Favourable := ⟨rfl, rfl, rfl⟩

/-- A stream that fits the receive buffer can be cut anywhere. -/
theorem recvAdmissible_of_length_le {A : Linkattr} {T : Template} {ndebug : Bool} {s : RecvLink}
    {r : List Byte} (h : OpenLink T s r) {xs : List RecvCompletion}
    (hne : ∀ x ∈ xs, x.data ≠ [])
    (hlen : r.length + (received xs).length ≤ tcpRecvBufferSize) :
    RecvAdmissible A ndebug s xs := by
  induction xs generalizing s r with
  | nil => trivial
  | cons x xs ih =>
    intro _
    rw [received_cons, List.length_append] at hlen
    -- the window has room for all that can still come
    have hreq : (tcpRecvBufferSize : Int) - r.length ≤ s.packet.sizeForReq := by
      cases h.holding with
      | small b window block analyzed => rw [window.req, analyzed]
      | large b window lb block analyzed => rw [window.req, analyzed]; omega
    have hx : s.Accepts x := ⟨hne x (List.mem_cons_self ..), by omega⟩
    refine ⟨hx, fun s₁ hs₁ => ?_⟩
    obtain ⟨s', hstep, hs'⟩ := recvStep_spec A ndebug h hx
    rw [hstep] at hs₁
    cases hs₁
    cases hclosed : s₁.closed with
    | true =>
      cases xs with
      | nil => trivial
      | cons y ys => intro hopen; rw [hclosed] at hopen; cases hopen
    | false =>
      obtain ⟨r₁, htail, hopen⟩ := hs'.stays hclosed
      have hle := T.format.length_decode_tail_le htail
      rw [List.length_append] at hle
      exact ih hopen (fun y hy => hne y (List.mem_cons_of_mem _ hy)) (by omega)

/-- The stream of one packet with one byte, cut behind its header. -/
def splitPacket : List RecvCompletion := [⟨[1], granted⟩, ⟨[7], granted⟩]

theorem splitPacket_granted : ∀ x ∈ splitPacket, x.outcome.Favourable := by
  intro x hx
  simp only [splitPacket, List.mem_cons, List.not_mem_nil, or_false] at hx
  rcases hx with rfl | rfl <;> exact granted_favourable

theorem splitPacket_admissible (A : Linkattr) (ndebug : Bool) (attr : BitVec 32) :
    RecvAdmissible A ndebug (.start 3 true attr (byteTemplate.tst none) fun _ => 0)
      splitPacket := by
  refine recvAdmissible_of_length_le (openLink_start byteTemplate 3 true attr none fun _ => 0)
    ?_ (by decide)
  intro x hx
  simp only [splitPacket, List.mem_cons, List.not_mem_nil, or_false] at hx
  rcases hx with rfl | rfl <;> decide

/-- A packet in two completions: one event, with its byte. -/
theorem recvRun_refines_decode_splitPacket :
    ∃ s, recvRun ⟨1, 2, 4⟩ false (.start 3 true 0 (byteTemplate.tst none) fun _ => 0) splitPacket
        = .ok s
      ∧ s.events = (byteTemplate.format.decode (received splitPacket)).1.map
          (fun f => .receiveData 3 f.body.length f.body)
      ∧ (s.closed = true ↔ (byteTemplate.format.decode (received splitPacket)).2 = none)
      ∧ (s.closed = false → (byteTemplate.format.decode (received splitPacket)).2 = some s.held
          ∧ s.posted = true ∧ 1 ≤ s.packet.sizeForReq) :=
  recvRun_refines_decode ⟨1, 2, 4⟩ byteTemplate false 3 0 none (fun _ => 0) (by decide)
    splitPacket (splitPacket_admissible _ _ _) splitPacket_granted

/-! ## The receive window -/

/-- A link without a template, waiting for a completion. -/
structure RawLink (s : RecvLink) : Prop where
  cb : s.ncb.tcpTst.cb = 0
  block : s.ncb.lbData = none
  analyzed : s.packet.analyzedOffset = 0
  window : ∃ b, Window s b
  opened : s.closed = false

/-- A link without a template always has its whole buffer to receive into. -/
theorem RawLink.invariant {s : RecvLink} (h : RawLink s) : RecvInvariant 0 s := by
  obtain ⟨b, hw⟩ := h.window
  have hunmarked : ncbLbMarked s.ncb = false := by simp [ncbLbMarked, h.block]
  refine ⟨hw.irp, hw.req, ?_, fun hm => ?_, fun _ => h.block⟩
  · rw [hw.req, h.analyzed]
    decide
  · rw [hunmarked] at hm
    cases hm

/-- Without a template the whole of a completion is one event. -/
theorem tcpRecvBody_raw (A : Linkattr) (ndebug : Bool) (malloc : Option (Nat → Byte))
    {s : RecvLink} (h : RawLink s) {b : Block Byte} (hb : b.size = tcpRecvBufferSize)
    {t : List Byte} (hne : t ≠ []) (hfit : t.length ≤ tcpRecvBufferSize) :
    ∃ s', tcpRecvBody A ndebug malloc (s.arrived b 0 t) = .ok (0, s')
      ∧ s'.marks = s.marks ∧ RawLink s' := by
  -- no block is pending, and nothing was left from before
  have hunmarked : ncbLbMarked (s.arrived b 0 t).ncb = false := by
    change ncbLbMarked s.ncb = false
    simp [ncbLbMarked, h.block]
  have harrived : (s.arrived b 0 t).packet.sizeForTranslation ≠ 0 := by
    have hpos := List.length_pos_iff.mpr hne
    change (t.length : Int) ≠ 0
    omega
  have huseful : (s.arrived b 0 t).packet.analyzedOffset
      + (s.arrived b 0 t).packet.sizeForTranslation = t.length := by
    change s.packet.analyzedOffset + (t.length : Int) = _
    rw [h.analyzed]
    omega
  have hload : (b.write 0 t).load 0 t.length = .ok ((b.write 0 t).read 0 t.length) :=
    Block.load_eq_ok (o := 0) (by rw [Block.size_write, hb]; omega)
  -- the bytes are handed to the user as they came
  have hevents : ∃ es, ncbPostRecvdata (s.arrived b 0 t).ncb t.length (b.write 0 t) 0 = .ok es := by
    rw [ncbPostRecvdata, hload]
    split <;> exact ⟨_, rfl⟩
  obtain ⟨es, hes⟩ := hevents
  have hori : (s.arrived b 0 t).packet.oriBuffer = some (b.write 0 t) := rfl
  have hcb : (s.arrived b 0 t).ncb.tcpTst.cb = 0 := h.cb
  rw [tcpRecvBody, hunmarked, if_neg (by decide), tcpRecvPrase, tcpPraseLogicPacket,
    if_neg harrived]
  simp only [hori, deref_some, ok_bind, hcb, if_true, huseful, hes]
  refine ⟨_, rfl, rfl, ?_⟩
  exact {
    cb := h.cb
    block := h.block
    analyzed := rfl
    window := ⟨b.write 0 t, rfl, hb, rfl, rfl⟩
    opened := h.opened }

/-- **One completion of such a link**: what arrived is one event, and nothing is held. -/
theorem recvStep_raw (A : Linkattr) (ndebug : Bool) {s : RecvLink} (h : RawLink s)
    {x : RecvCompletion} (hx : s.Accepts x) :
    ∃ s', recvStep A ndebug s x = .ok s' ∧ s'.marks = s.marks
      ∧ (s'.closed = false → RawLink s') := by
  obtain ⟨b, hw⟩ := h.window
  obtain ⟨hfit, hcomplete⟩ := hw.complete_eq (a := 0) h.analyzed hx.2
  rw [Nat.zero_add] at hfit
  obtain ⟨s', hbody, hmarks, hraw⟩ :=
    tcpRecvBody_raw A ndebug x.outcome.malloc h hw.size hx.1 hfit
  have harrived : ¬ (s.arrived b 0 x.data).packet.sizeForTranslation ≤ 0 := by
    have hpos := List.length_pos_iff.mpr hx.1
    change ¬ (x.data.length : Int) ≤ 0
    omega
  rw [recvStep, hcomplete, ok_bind, tcpDispatchIoRecv, if_neg harrived]
  by_cases hrefr : x.outcome.refr = true
  · rw [if_neg (by simp [hrefr]), hbody, ok_bind]
    dsimp only
    by_cases hpost : x.outcome.post = true
    · rw [if_pos ⟨Int.le_refl 0, hpost⟩]
      exact ⟨_, rfl, hmarks, fun _ => ⟨hraw.cb, hraw.block, hraw.analyzed,
        hraw.window.imp fun _ hw => ⟨hw.ori, hw.size, hw.irp, hw.req⟩, hraw.opened⟩⟩
    · rw [if_neg fun hgo => hpost hgo.2]
      exact ⟨_, rfl, hmarks, fun hopen => by cases hopen⟩
  · rw [if_pos hrefr]
    exact ⟨_, rfl, rfl, fun hopen => by cases hopen⟩

/-- **And a run of them.** Induction on the completions. -/
theorem recvRun_raw (A : Linkattr) (ndebug : Bool) {s : RecvLink} (h : RawLink s)
    {xs : List RecvCompletion} (hadm : RecvAdmissible A ndebug s xs) :
    ∃ s', recvRun A ndebug s xs = .ok s' ∧ s'.marks = s.marks
      ∧ (s'.closed = false → RawLink s') := by
  induction xs generalizing s with
  | nil => exact ⟨s, rfl, rfl, fun _ => h⟩
  | cons x xs ih =>
    -- as long as the link is open its window is the whole buffer
    obtain ⟨hx, hrest⟩ := hadm h.opened
    obtain ⟨s₁, hstep, hmarks, hraw⟩ := recvStep_raw A ndebug h hx
    rw [recvRun_cons_of_open A ndebug h.opened, hstep, ok_bind]
    cases hclosed : s₁.closed with
    | true =>
      rw [recvRun_of_closed A ndebug hclosed]
      exact ⟨s₁, rfl, hmarks, hraw⟩
    | false =>
      obtain ⟨s', hrun, hmarks', hraw'⟩ := ih (hraw hclosed) (hrest s₁ hstep)
      exact ⟨s', hrun, hmarks'.trans hmarks, hraw'⟩

/-- **The receive window against a hostile peer.** Whatever arrives and whatever the system
answers, a run ends without a fault (every copy stays in its buffers, no assertion fires),
`ncb_mark_lb` is only called without a large block and with room for what it copies, and a
link that is still open is ready for at least one byte more. -/
theorem recvRun_window (A : Linkattr) (ndebug : Bool) (hld : Int) (nisCallback : Bool)
    (attr : BitVec 32) (tst : Tst) (parser : List Byte → Option Int32) (cell : Nat → Byte)
    (hcb : 0 ≤ tst.cb ∧ tst.cb ≤ tcpMaximumTemplateSize) (hparser : tst.parser = some parser)
    (xs : List RecvCompletion)
    (hadm : RecvAdmissible A ndebug (.start hld nisCallback attr tst cell) xs) :
    ∃ s, recvRun A ndebug (.start hld nisCallback attr tst cell) xs = .ok s
      ∧ (s.closed = false → RecvInvariant tst.cb s)
      ∧ ∀ call ∈ s.marks, call.held = false ∧ call.currentSize ≤ call.cb := by
  obtain ⟨cb, builder, parser'⟩ := tst
  cases hparser
  obtain ⟨c, rfl⟩ := Int.eq_ofNat_of_zero_le hcb.1
  -- without a header nothing is parsed, and nothing kept
  rcases Nat.eq_zero_or_pos c with rfl | hpos
  · have hraw :
      RawLink (.start hld nisCallback attr ⟨((0 : Nat) : Int), builder, some parser⟩ cell) :=
      ⟨rfl, rfl, rfl, ⟨_, rfl, rfl, rfl, rfl⟩, rfl⟩
    obtain ⟨s, hrun, hmarks, hstill⟩ := recvRun_raw A ndebug hraw hadm
    refine ⟨s, hrun, fun hopen => (hstill hopen).invariant, fun call hcall => ?_⟩
    rw [hmarks] at hcall
    cases hcall
  · let T : Template := ⟨c, hpos, by have := hcb.2; simp only at this; omega, parser⟩
    obtain ⟨s, hrun, hs⟩ :=
      recvRun_spec (openLink_start T hld nisCallback attr builder cell) hadm
    refine ⟨s, hrun, fun hopen => ?_, fun call hcall => ?_⟩
    · obtain ⟨r, -, hlink⟩ := hs.stays hopen
      exact hlink.holding.invariant
    · rcases hs.marks call hcall with hin | hsound
      · cases hin
      · exact hsound

theorem recvRun_window_splitPacket :
    ∃ s, recvRun ⟨1, 2, 4⟩ false (.start 3 true 2 (byteTemplate.tst none) fun _ => 0) splitPacket
        = .ok s
      ∧ (s.closed = false → RecvInvariant 1 s)
      ∧ ∀ call ∈ s.marks, call.held = false ∧ call.currentSize ≤ call.cb :=
  recvRun_window ⟨1, 2, 4⟩ false 3 true 2 (byteTemplate.tst none) byteTemplate.parser (fun _ => 0)
    (by decide) rfl splitPacket (splitPacket_admissible _ _ _)

/-! ## `LINKATTR_TCP_FULLY_RECEIVE` -/

/-- The event of a packet reported whole. -/
def wholeEvent (hld : Int) (f : Frame Byte) : Event :=
  .receiveData hld f.symbols.length f.symbols

/-- With the attribute set, a well-formed packet is reported whole exactly when it fits the
receive buffer: `tcp_lb_assemble` does not look at the attribute. -/
theorem frameEvent_eq_whole_iff {A : Linkattr} {T : Template} {ncb : Ncb}
    (hattr : attrSet ncb.attr A.tcpFullyReceive = true) {f : Frame Byte}
    (hf : T.format.Carries f) :
    frameEvent A ncb f = wholeEvent ncb.hld f ↔ f.symbols.length ≤ tcpRecvBufferSize := by
  by_cases hfit : f.symbols.length ≤ tcpRecvBufferSize
  · rw [frameEvent, if_pos ⟨hattr, hfit⟩]
    exact ⟨fun _ => hfit, fun _ => rfl⟩
  · rw [frameEvent, if_neg fun h => hfit h.2]
    refine ⟨fun heq => ?_, fun h => absurd h hfit⟩
    -- a body alone is shorter than its packet by the header
    have hheader : f.header.length = T.cb := hf.header
    have hpos := T.cb_pos
    have hbody : f.body = f.symbols := (Event.receiveData.inj heq).2.2
    have hlen := congrArg List.length hbody
    rw [Frame.symbols, List.length_append] at hlen
    omega

/-- A link that receives well-formed packets raises the event of each. -/
theorem recvRun_packets (A : Linkattr) (T : Template) (ndebug : Bool) (hld : Int)
    (attr : BitVec 32) (builder : Option (Int → Option (List Byte))) (cell : Nat → Byte)
    {fs : List (Frame Byte)} (hfs : ∀ f ∈ fs, T.format.Carries f) {xs : List RecvCompletion}
    (hstream : received xs = fs.flatMap Frame.symbols)
    (hadm : RecvAdmissible A ndebug (.start hld true attr (T.tst builder) cell) xs)
    (hfav : ∀ x ∈ xs, x.outcome.Favourable) :
    ∃ s, recvRun A ndebug (.start hld true attr (T.tst builder) cell) xs = .ok s
      ∧ s.closed = false
      ∧ s.events
        = fs.map (frameEvent A (RecvLink.start hld true attr (T.tst builder) cell).ncb) := by
  have hdecode : T.format.decode (received xs) = (fs, some []) := by
    have := T.format.decode_encode hfs []
    rw [List.append_nil, T.format.decode_nil, List.append_nil] at this
    rw [hstream, this]
  obtain ⟨s, hrun, hevents, hclosed, -⟩ :=
    recvRun_delivers A T ndebug hld attr builder cell hadm hfav
  refine ⟨s, hrun, ?_, ?_⟩
  · refine Bool.eq_false_of_not_eq_true fun h => ?_
    have hnone := hclosed.mp h
    rw [hdecode] at hnone
    cases hnone
  · rw [hevents, hdecode]
    exact if_pos rfl

/-- **When every packet is reported whole.** On a link with `LINKATTR_TCP_FULLY_RECEIVE`, a
run over well-formed packets reports each of them with its header if and only if all of them
fit the receive buffer. -/
theorem fullyReceive_iff (A : Linkattr) (T : Template) (ndebug : Bool) (hld : Int)
    (attr : BitVec 32) (builder : Option (Int → Option (List Byte))) (cell : Nat → Byte)
    (hattr : attrSet attr A.tcpFullyReceive = true)
    (fs : List (Frame Byte)) (hfs : ∀ f ∈ fs, T.format.Carries f) (xs : List RecvCompletion)
    (hstream : received xs = fs.flatMap Frame.symbols)
    (hadm : RecvAdmissible A ndebug (.start hld true attr (T.tst builder) cell) xs)
    (hfav : ∀ x ∈ xs, x.outcome.Favourable) :
    ∃ s, recvRun A ndebug (.start hld true attr (T.tst builder) cell) xs = .ok s
      ∧ (s.events = fs.map (fun f => .receiveData hld f.symbols.length f.symbols)
          ↔ ∀ f ∈ fs, f.symbols.length ≤ tcpRecvBufferSize) := by
  obtain ⟨s, hrun, -, hevents⟩ :=
    recvRun_packets A T ndebug hld attr builder cell hfs hstream hadm hfav
  refine ⟨s, hrun, ?_⟩
  rw [hevents, List.map_inj_left]
  exact forall₂_congr fun f hf => frameEvent_eq_whole_iff (T := T) hattr (hfs f hf)

/-- The same packet, whose event has the header too. -/
theorem fullyReceive_iff_splitPacket :
    ∃ s, recvRun ⟨1, 2, 4⟩ false (.start 3 true 1 (byteTemplate.tst none) fun _ => 0) splitPacket
        = .ok s
      ∧ (s.events = [(⟨[1], [7]⟩ : Frame Byte)].map
            (fun f => .receiveData 3 f.symbols.length f.symbols)
          ↔ ∀ f ∈ [(⟨[1], [7]⟩ : Frame Byte)], f.symbols.length ≤ tcpRecvBufferSize) := by
  refine fullyReceive_iff ⟨1, 2, 4⟩ byteTemplate false 3 1 none (fun _ => 0) (by decide) _ ?_
    splitPacket rfl (splitPacket_admissible _ _ _) splitPacket_granted
  intro f hf
  rw [List.mem_singleton] at hf
  subst hf
  exact ⟨rfl, by decide⟩

/-! ### A packet one byte too long -/

/-- A template whose packets have one header byte and 69632 bytes of payload. -/
def oversizeTemplate : Template where
  cb := 1
  cb_pos := by decide
  cb_le := by decide
  parser _ := some 69632

def oversizePacket : Frame Byte := ⟨[0], List.replicate 69632 0⟩

def oversizeCompletions : List RecvCompletion := [⟨List.replicate 69632 0, granted⟩, ⟨[0], granted⟩]

/-- The packet is one the template speaks of. -/
theorem oversizePacket_carried : oversizeTemplate.format.Carries oversizePacket := by
  refine ⟨rfl, ?_⟩
  rw [show oversizePacket.body.length = 69632 from List.length_replicate ..]
  decide

theorem oversizeCompletions_granted : ∀ x ∈ oversizeCompletions, x.outcome.Favourable := by
  intro x hx
  simp only [oversizeCompletions, List.mem_cons, List.not_mem_nil, or_false] at hx
  rcases hx with rfl | rfl <;> exact granted_favourable

theorem oversizeCompletions_received : received oversizeCompletions = oversizePacket.symbols := by
  change List.replicate 69632 (0 : Byte) ++ [0] = (0 : Byte) :: List.replicate 69632 0
  rw [← List.replicate_succ', List.replicate_succ]

/-- The first completion fills the receive buffer; the link then asks for one byte at
least. -/
theorem oversizeCompletions_admissible (A : Linkattr) (ndebug : Bool) (attr : BitVec 32) :
    RecvAdmissible A ndebug (.start 3 true attr (oversizeTemplate.tst none) fun _ => 0)
      oversizeCompletions := by
  have hopen := openLink_start oversizeTemplate 3 true attr none fun _ => 0
  have hx : (RecvLink.start 3 true attr (oversizeTemplate.tst none) fun _ => 0).Accepts
      ⟨List.replicate 69632 0, granted⟩ := by
    refine ⟨List.replicate_succ_ne_nil, ?_⟩
    rw [List.length_replicate]
    change (69632 : Int) ≤ 69632
    decide
  refine fun _ => ⟨hx, fun s₁ hs₁ hopen₁ => ?_⟩
  obtain ⟨s', hstep, hs'⟩ := recvStep_spec A ndebug hopen hx
  rw [hstep] at hs₁
  cases hs₁
  obtain ⟨r, -, hlink⟩ := hs'.stays hopen₁
  exact ⟨⟨List.cons_ne_nil _ _, hlink.holding.invariant.progress⟩, fun _ _ => trivial⟩

/-- With its header the packet does not fit the receive buffer, and it is reported without
it although the attribute is set. -/
theorem fullyReceive_oversize :
    attrSet 1 (⟨1, 2, 4⟩ : Linkattr).tcpFullyReceive = true
      ∧ oversizeTemplate.format.Carries oversizePacket
      ∧ (∀ x ∈ oversizeCompletions, x.outcome.Favourable)
      ∧ RecvAdmissible ⟨1, 2, 4⟩ false
        (.start 3 true 1 (oversizeTemplate.tst none) fun _ => 0) oversizeCompletions
      ∧ received oversizeCompletions = oversizePacket.symbols
      ∧ ∃ s, recvRun ⟨1, 2, 4⟩ false
          (.start 3 true 1 (oversizeTemplate.tst none) fun _ => 0) oversizeCompletions = .ok s
        ∧ s.events = [.receiveData 3 69632 oversizePacket.body]
        ∧ s.events ≠ [.receiveData 3 69633 oversizePacket.symbols] := by
  have hadm := oversizeCompletions_admissible ⟨1, 2, 4⟩ false 1
  have hsingle : ∀ f ∈ [oversizePacket], oversizeTemplate.format.Carries f := by
    intro f hf
    rw [List.mem_singleton] at hf
    exact hf ▸ oversizePacket_carried
  obtain ⟨s, hrun, -, hevents⟩ := recvRun_packets ⟨1, 2, 4⟩ oversizeTemplate false 3 1 none
    (fun _ => 0) hsingle (by rw [oversizeCompletions_received]; exact (List.append_nil _).symm)
    hadm oversizeCompletions_granted
  have hbody : oversizePacket.body.length = 69632 := List.length_replicate ..
  have hsize : oversizePacket.symbols.length = 69633 := by
    rw [Frame.symbols, List.length_append, hbody]
    rfl
  have hevent : s.events = [.receiveData 3 69632 oversizePacket.body] := by
    rw [hevents, List.map_singleton, frameEvent, if_neg, hbody]
    · rfl
    · rw [hsize]
      decide
  -- one header byte is missing from the event
  refine ⟨by decide, oversizePacket_carried, oversizeCompletions_granted, hadm,
    oversizeCompletions_received, s, hrun, hevent, ?_⟩
  rw [hevent]
  intro heq
  have := (Event.receiveData.inj (List.cons.inj heq).1).2.1
  omega

end Swnet
