import Swnet.Recv.Delivery
import Swnet.Send.Wire

/-!
# Swnet — from `tcp_write` to the receive callback

Both ends of a connection with the same template. What `tcp_write` puts in a buffer is one
frame of the template (`WriteCall.Speaks.bytes_eq`); the transport takes the frames in the
order of the queue; the receiver decodes what arrives.

* `tcpWrite_received` — the payloads accepted by `tcp_write` are delivered, unchanged, in order
  and once each, however the stream is cut and whatever their sizes.

The parts come from the modules before: the bytes of one buffer from `Send.Write`, the order of the
packets on the wire from `Send.Wire` and `Send.Record`, the decoding from `Recv.Delivery`. They meet
in `Format.decode_encode`: what is written as frames is decoded as these frames.
-/

namespace Swnet

open CMem Framing

/-! ## One packet -/

/-- The builder writes one header, which the parser reads back. -/
structure Template.Builds (T : Template) (builder : Int → Option (List Byte)) : Prop where
  header : ∀ size : Int, 1 ≤ size → size ≤ tcpMaximumPacketSize →
    ∃ h n, builder size = some h ∧ h.length = T.cb ∧ T.parser h = some n ∧ n.toInt = size

/-- The user data of a call. -/
def WriteCall.payload (c : WriteCall) : List Byte :=
  match c.origin with
  | none => []
  | some origin => origin.read 0 c.cb.toNat

/-- The frame of a call. -/
def WriteCall.frame (builder : Int → Option (List Byte)) (c : WriteCall) : Frame Byte :=
  ⟨(builder c.cb).getD [], c.payload⟩

/-- A call on a link with template `T`, with building on and without serializer, whose caller
has the bytes it announces, and which gets the buffer it asks for. -/
structure WriteCall.Speaks (A : Linkattr) (T : Template) (builder : Int → Option (List Byte))
    (c : WriteCall) : Prop where
  tcpTst : c.tcpTst = T.tst (some builder)
  build : attrSet c.attr A.tcpNoBuild = false
  serializer : c.serializer = none
  malloc : ∃ cell, c.malloc = some cell
  origin : ∀ origin, c.origin = some origin → c.cb ≤ origin.size

namespace WriteCall

variable {A : Linkattr} {T : Template} {builder : Int → Option (List Byte)} {c : WriteCall}

/-- A call that is not rejected has something to send. -/
theorem bounds_of_accepted (h : c.rejected = false) :
    1 ≤ c.cb ∧ c.cb ≤ tcpMaximumPacketSize ∧ ∃ origin, c.origin = some origin := by
  simp only [rejected, Bool.or_eq_false_iff, decide_eq_false_iff_not, Option.isNone_eq_false_iff,
    Option.isSome_iff_exists] at h
  obtain ⟨⟨hpos, hmax⟩, horigin⟩ := h
  exact ⟨by omega, by omega, horigin⟩

/-- The frame of an accepted call is one the template carries. -/
theorem frame_carried (hT : T.Builds builder)
    (hacc : c.rejected = false) : T.format.Carries (c.frame builder) := by
  obtain ⟨hpos, hmax, origin, horigin⟩ := bounds_of_accepted hacc
  obtain ⟨h, n, hbuild, hlen, hparse, hn⟩ := hT.header c.cb hpos hmax
  have hbody : (c.frame builder).body.length = c.cb.toNat := by
    rw [frame, payload, horigin]
    exact origin.length_read ..
  have hheader : (c.frame builder).header = h := by
    rw [frame, hbuild]
    rfl
  refine ⟨by rw [hheader]; exact hlen, ?_⟩
  show acceptedSize T.parser (c.frame builder).header = some (c.frame builder).body.length
  rw [hheader, hbody, acceptedSize, hparse]
  dsimp only
  rw [if_neg (by omega), hn]

/-- **The bytes of a packet are its frame.** -/
theorem Speaks.bytes_eq (hs : c.Speaks A T builder) (hT : T.Builds builder)
    (hacc : c.rejected = false) : c.bytes A = (c.frame builder).symbols := by
  obtain ⟨hpos, hmax, origin, horigin⟩ := bounds_of_accepted hacc
  obtain ⟨h, n, hbuild, hlen, -, -⟩ := hT.header c.cb hpos hmax
  obtain ⟨cell, hcell⟩ := hs.malloc
  have hsize := hs.origin origin horigin
  have hcb := T.cb_le
  rw [tcpMaximumPacketSize_eq] at hmax
  simp only [tcpMaximumTemplateSize] at hcb
  obtain ⟨m, hm⟩ := Int.eq_ofNat_of_zero_le (show 0 ≤ c.cb by omega)
  have hbuilder : c.builder A = some builder := by
    rw [WriteCall.builder, hs.build, hs.tcpTst]
    rfl
  have htcb : c.tcpTst.cb = T.cb := by rw [hs.tcpTst]; rfl
  have htotal : c.totalPacketLength A = (T.cb + m : Nat) := by
    rw [totalPacketLength, hbuilder]
    dsimp only
    rw [htcb, hm, i32_of_bounds (by omega) (by omega)]
    omega
  -- the buffer: the header at its front, the payload behind it
  have hbuffer : c.buffer A = .ok (some
      (((⟨T.cb + m, cell⟩ : Block Byte).write 0 h).write T.cb (origin.read 0 m))) := by
    have hstore : (⟨T.cb + m, cell⟩ : Block Byte).store 0 h
        = .ok ((⟨T.cb + m, cell⟩ : Block Byte).write 0 h) :=
      Block.store_eq_ok (o := 0) (by rw [hlen]; show 0 + T.cb ≤ T.cb + m; omega)
    have hcopy : ((⟨T.cb + m, cell⟩ : Block Byte).write 0 h).copy T.cb origin 0 m
        = .ok (((⟨T.cb + m, cell⟩ : Block Byte).write 0 h).write T.cb (origin.read 0 m)) :=
      Block.copy_eq_ok (o := 0) (by omega) (Nat.le_refl _)
    rw [buffer, hcell]
    dsimp only
    rw [htotal, Int.toNat_natCast, fill, hbuilder]
    dsimp only
    rw [hbuild]
    dsimp only
    rw [hstore, ok_bind, fillBody, horigin, deref_some, ok_bind, hs.serializer, htcb, hm]
    dsimp only
    rw [hcopy]
    rfl
  have hread := Block.read_write_extend ((⟨T.cb + m, cell⟩ : Block Byte).write 0 h) T.cb
    (origin.read 0 m)
  rw [Block.length_read, Block.read_write_self' _ _ _ _ hlen] at hread
  rw [bytes, hbuffer]
  dsimp only
  rw [htotal, Int.toNat_natCast, hread, frame, Frame.symbols, hbuild, payload, horigin, hm]
  rfl

end WriteCall

/-! ## The stream of a link -/

section

variable {τ : Type} [DecidableEq τ] {L : SendLink} {s : Sender τ} {T : Template}
  {builder : Int → Option (List Byte)}

/-- The event of a call at the receiver. -/
def SendLink.event (L : SendLink) (hld : Int) (k : Nat) : Event :=
  .receiveData hld (L.call k).payload.length (L.call k).payload

/-- All of packet `k` was taken. -/
def Sender.Taken (L : SendLink) (s : Sender τ) (k : Nat) : Prop :=
  s.taken k = ((L.call k).bytes L.attrs).length

instance (L : SendLink) (s : Sender τ) : DecidablePred (s.Taken L) :=
  fun _ => inferInstanceAs (Decidable (_ = _))

/-- **The frames in the stream.** With every completion complete, the stream holds the frames
of the packets that were taken whole, and at most a beginning of one more. -/
theorem decode_wire (hs : SendReachable L s) (hT : T.Builds builder)
    (hL : ∀ k, (L.call k).rejected = false → (L.call k).Speaks L.attrs T builder)
    (hfull : ∀ k status, (k, status) ∈ s.completions → s.Taken L k) :
    ∃ r, T.format.decode s.wire
      = ((s.sent.filter fun k => s.Taken L k).map fun k => (L.call k).frame builder, some r) := by
  have hacc : ∀ k ∈ s.sent, (L.call k).rejected = false :=
    fun k hk => hs.accepted (hs.settled.order.subset hk)
  have hbytes : ∀ k ∈ s.sent, (L.call k).bytes L.attrs = ((L.call k).frame builder).symbols :=
    fun k hk => (hL k (hacc k hk)).bytes_eq hT (hacc k hk)
  have hframes : ∀ l : List Nat, (∀ k ∈ l, k ∈ s.sent) →
      ∀ f ∈ l.map fun k => (L.call k).frame builder, T.format.Carries f := by
    intro l hl f hf
    obtain ⟨k, hk, rfl⟩ := List.mem_map.mp hf
    exact WriteCall.frame_carried hT (hacc k (hl k hk))
  -- packets taken whole contribute their frames
  have hwhole : ∀ l : List Nat, (∀ k ∈ l, k ∈ s.sent ∧ s.Taken L k) →
      l.flatMap (s.part L) = (l.map fun k => (L.call k).frame builder).flatMap Frame.symbols := by
    intro l hl
    rw [List.flatMap_map]
    refine List.flatMap_congr fun k hk => ?_
    obtain ⟨hsent, htaken⟩ := hl k hk
    rw [Sender.part, htaken, List.take_length, hbytes k hsent]
  rw [hs.wired.wire]
  rcases List.eq_nil_or_concat s.sent with hnil | ⟨l, x, hl⟩
  · exact ⟨[], by rw [hnil]; exact T.format.decode_nil⟩
  · rw [List.concat_eq_append] at hl
    have hmem : ∀ k ∈ l, k ∈ s.sent := fun k hk => by
      rw [hl]
      exact List.mem_append_left _ hk
    have hx : x ∈ s.sent := by
      rw [hl]
      exact List.mem_append_right _ (List.mem_singleton_self x)
    have hdone : ∀ k ∈ l, s.Taken L k := by
      intro k hk
      obtain ⟨status, hin, -⟩ := hs.wired.goesOn_of_dropLast hs.settled
        (show k ∈ s.sent.dropLast by rw [hl, List.dropLast_concat]; exact hk)
      exact hfull k status hin
    have hfilter : l.filter (fun k => s.Taken L k) = l :=
      List.filter_eq_self.mpr fun k hk => decide_eq_true (hdone k hk)
    by_cases hlast : s.Taken L x
    · refine ⟨[], ?_⟩
      have hall : ∀ k ∈ l ++ [x], k ∈ s.sent ∧ s.Taken L k := by
        intro k hk
        rcases List.mem_append.mp hk with hin | hin
        · exact ⟨hmem k hin, hdone k hin⟩
        · rw [List.mem_singleton] at hin
          exact hin ▸ ⟨hx, hlast⟩
      have hkept : [x].filter (fun k => s.Taken L k) = [x] :=
        List.filter_eq_self.mpr fun k hk => decide_eq_true (hall k (List.mem_append_right _ hk)).2
      rw [hl, hwhole _ hall, List.filter_append, hfilter, hkept]
      have hdecode := T.format.decode_encode (hframes _ fun k hk => (hall k hk).1) []
      rwa [List.append_nil, T.format.decode_nil, List.append_nil] at hdecode
    · refine ⟨s.part L x, ?_⟩
      have hshort : s.taken x < ((L.call x).frame builder).symbols.length := by
        have hle := hs.wired.taken_le x
        rw [Sender.Taken] at hlast
        rw [← hbytes x hx]
        omega
      have hnone : [x].filter (fun k => s.Taken L k) = [] := by
        rw [List.filter_cons_of_neg (by simpa using hlast), List.filter_nil]
      rw [hl, List.flatMap_append, List.flatMap_singleton,
        hwhole l fun k hk => ⟨hmem k hk, hdone k hk⟩, List.filter_append, hfilter, hnone,
        List.append_nil, Sender.part, hbytes x hx]
      exact T.format.decode_encode_take (hframes l hmem)
        (WriteCall.frame_carried hT (hacc x hx)) hshort

/-- At rest, everything that was accepted is in the stream. -/
theorem taken_of_rest (hs : SendReachable L s)
    (hfull : ∀ k status, (k, status) ∈ s.completions → s.Taken L k) (hopen : s.closed = false)
    (hidle : ∀ t, s.pc t = .idle) (hposted : s.posted = []) :
    s.sent.filter (fun k => s.Taken L k) = s.appended := by
  have hu : s.unloaded = false := by
    refine Bool.eq_false_of_not_eq_true fun hu => ?_
    rw [hs.unloading.closed hu] at hopen
    cases hopen
  obtain ⟨f, hg⟩ := hs.gated hu
  obtain ⟨hall, hback⟩ := hg.at_rest hopen hidle hposted
  rw [← hall]
  refine List.filter_eq_self.mpr fun k hk => decide_eq_true ?_
  obtain ⟨status, hin, -⟩ := hs.wired.answered k (hback ▸ hk)
  exact hfull k status hin

end

/-- **`tcp_write` and the receive path compose to the identity on messages.** The stream of a
sender in any run whose completions are complete, cut in any way and received with what the
link asks for granted, is never refused, and delivers the payloads of the packets that were
taken whole: in the order of the queue, unchanged and once each. They are the first of the
payloads for which `tcp_write` returns `0`, and all of them when the sender is at rest. -/
theorem tcpWrite_received {τ : Type} [DecidableEq τ] (L : SendLink) (T : Template)
    (builder : Int → Option (List Byte)) (hT : T.Builds builder)
    (hL : ∀ k, (L.call k).rejected = false → (L.call k).Speaks L.attrs T builder)
    (s : Sender τ) (hs : SendReachable L s)
    (hfull : ∀ k status, (k, status) ∈ s.completions → s.Taken L k)
    (ndebug : Bool) (hld : Int) (attr : BitVec 32) (cell : Nat → Byte)
    (hattr : attrSet attr L.attrs.tcpFullyReceive = false)
    (xs : List RecvCompletion) (hstream : received xs = s.wire)
    (hadm : RecvAdmissible L.attrs ndebug (.start hld true attr (T.tst (some builder)) cell) xs)
    (hfav : ∀ x ∈ xs, x.outcome.Favourable) :
    (s.sent <+: s.appended ∧ s.appended.Nodup
        ∧ ∀ k retval, (k, retval) ∈ s.results → (retval = 0 ↔ k ∈ s.appended))
      ∧ ∃ r, recvRun L.attrs ndebug (.start hld true attr (T.tst (some builder)) cell) xs = .ok r
        ∧ r.closed = false
        ∧ r.events = (s.sent.filter fun k => s.Taken L k).map (L.event hld)
        ∧ (s.closed = false → (∀ t, s.pc t = .idle) → s.posted = [] →
            r.events = s.appended.map (L.event hld)) := by
  -- what is on the wire decodes to the frames of the packets taken, and a wait
  obtain ⟨rest, hdecode⟩ := decode_wire hs hT hL hfull
  obtain ⟨r, hrun, hevents, hclosed, -⟩ :=
    recvRun_delivers L.attrs T ndebug hld attr (some builder) cell hadm hfav
  rw [hstream, hdecode] at hevents hclosed
  have hpayloads : r.events = (s.sent.filter fun k => s.Taken L k).map (L.event hld) := by
    rw [hevents, frameEvents_of_unset L.attrs hld cell hattr, List.map_map]
    rfl
  refine ⟨⟨hs.settled.order, hs.calls.appended_nodup, fun k retval hin => hs.calls.result_iff hin⟩,
    r, hrun, ?_, hpayloads, fun hopen hidle hposted => ?_⟩
  · refine Bool.eq_false_of_not_eq_true fun h => ?_
    cases hclosed.mp h
  · rw [hpayloads, taken_of_rest hs hfull hopen hidle hposted]

/-! ## A template of this kind -/

/-- Four header bytes, the size with the lowest byte first. -/
def lengthTemplate : Template where
  cb := 4
  cb_pos := by decide
  cb_le := by decide
  parser
    | [a, b, c, d] =>
      some (.ofNat (a.toNat + 256 * b.toNat + 65536 * c.toNat + 16777216 * d.toNat))
    | _ => none

def lengthBuilder (size : Int) : Option (List Byte) :=
  let n := size.toNat
  some [.ofNat n, .ofNat (n / 256), .ofNat (n / 65536), .ofNat (n / 16777216)]

/-- The builder writes what the parser reads. -/
theorem lengthTemplate_builds : lengthTemplate.Builds lengthBuilder where
  header size hpos hmax := by
    rw [tcpMaximumPacketSize_eq] at hmax
    obtain ⟨n, rfl⟩ := Int.eq_ofNat_of_zero_le (show 0 ≤ size by omega)
    refine ⟨_, _, rfl, rfl, rfl, ?_⟩
    simp only [Int.toNat_natCast, UInt8.toNat_ofNat']
    rw [Int32.toInt_ofNat_of_lt (by omega)]
    omega

/-- A link with this template whose calls are for `datas`. -/
def lengthLink (datas : List (List Byte)) : SendLink where
  attrs := ⟨1, 2, 4⟩
  hld := 3
  call k :=
    { WriteCall.raw (datas.getD k []) with tcpTst := lengthTemplate.tst (some lengthBuilder) }

/-- Every call of the run speaks the template. -/
theorem lengthLink_speaks (datas : List (List Byte)) (k : Nat) :
    ((lengthLink datas).call k).Speaks (lengthLink datas).attrs lengthTemplate lengthBuilder where
  tcpTst := rfl
  build := by
    show attrSet 0 2 = false
    decide
  serializer := rfl
  malloc := ⟨_, rfl⟩
  origin := by
    rintro origin ⟨⟩
    exact Int.le_refl _

/-- A packet with two bytes is sent, taken and completed. -/
def oneFrame : List (Action Unit) :=
  writeSteps 15 ++ List.replicate 6 (.take 0) ++ .complete () 0 0
    :: List.replicate 7 (.run () ⟨true, true⟩)

/-- Its stream, cut inside the header. -/
def cutFrame : List RecvCompletion := [⟨[2, 0], granted⟩, ⟨[0, 0, 1, 2], granted⟩]

theorem cutFrame_granted : ∀ x ∈ cutFrame, x.outcome.Favourable := by
  intro x hx
  simp only [cutFrame, List.mem_cons, List.not_mem_nil, or_false] at hx
  rcases hx with rfl | rfl <;> exact granted_favourable

/-- One packet of two bytes, which arrives in two pieces. -/
theorem tcpWrite_received_cutFrame : ∃ s : Sender Unit,
    (s.closed = false ∧ (∀ t, s.pc t = .idle) ∧ s.posted = [] ∧ s.appended = [0])
      ∧ (s.sent <+: s.appended ∧ s.appended.Nodup
        ∧ ∀ k retval, (k, retval) ∈ s.results → (retval = 0 ↔ k ∈ s.appended))
      ∧ ∃ r, recvRun (lengthLink [[1, 2]]).attrs false
          (.start 5 true 0 (lengthTemplate.tst (some lengthBuilder)) fun _ => 0) cutFrame = .ok r
        ∧ r.closed = false
        ∧ r.events = (s.sent.filter fun k => s.Taken (lengthLink [[1, 2]]) k).map
            ((lengthLink [[1, 2]]).event 5)
        ∧ (s.closed = false → (∀ t, s.pc t = .idle) → s.posted = [] →
            r.events = s.appended.map ((lengthLink [[1, 2]]).event 5)) := by
  obtain ⟨s, hs, hrest, hwire, hcompletions, htaken⟩ := exists_of_play (L := lengthLink [[1, 2]])
    (P := fun s => (s.closed = false ∧ (∀ t, s.pc t = .idle) ∧ s.posted = [] ∧ s.appended = [0])
      ∧ s.wire = [2, 0, 0, 0, 1, 2] ∧ s.completions = [(0, 0)] ∧ s.Taken (lengthLink [[1, 2]]) 0)
    oneFrame (by decide)
  have hadm : RecvAdmissible (lengthLink [[1, 2]]).attrs false
      (.start 5 true 0 (lengthTemplate.tst (some lengthBuilder)) fun _ => 0) cutFrame := by
    refine recvAdmissible_of_length_le
      (openLink_start lengthTemplate 5 true 0 (some lengthBuilder) fun _ => 0) ?_ (by decide)
    intro x hx
    simp only [cutFrame, List.mem_cons, List.not_mem_nil, or_false] at hx
    rcases hx with rfl | rfl <;> decide
  refine ⟨s, hrest, tcpWrite_received (lengthLink [[1, 2]]) lengthTemplate lengthBuilder
    lengthTemplate_builds (fun k _ => lengthLink_speaks _ k) s hs ?_ false 5 0 (fun _ => 0)
    (by decide) cutFrame (by rw [hwire]; rfl) hadm cutFrame_granted⟩
  intro k status hk
  rw [hcompletions, List.mem_singleton] at hk
  cases hk
  exact htaken

end Swnet
