import Swnet.Send.Write

/-!
# Swnet — packets with a serializer (`tcp.c`)

`tcp_write` copies the payload itself, or has it serialized. Behind a header it asks the
serializer for fewer bytes than the payload has: the length of the header is taken off twice.

* `serializer_agrees_iff` — when both paths queue the same packet;
* `serializer_short` — a header of four bytes: the last four bytes of the packet are whatever was
  in its memory.

A serializer that copies is compared with the copy that the code makes itself. They agree where the
same place in the buffer is asked for, and that is so when no header stands before the payload
(`WriteCall.HeaderEmpty`).
-/

namespace Swnet

open CMem

/-- A serializer that copies the bytes it is asked for. -/
def copySerializer : NisSerializer := fun origin n => some (origin.read 0 n.toNat)

namespace WriteCall

variable (A : Linkattr) (c : WriteCall)

/-- The place in the buffer the serializer is asked to fill, its offset and its length; `none`
when the builder has failed before. -/
def asked : Option (Int × Int) :=
  match c.builder A with
  | none => some (0, c.cb)
  | some builder => (builder c.cb).map fun _ => (c.tcpTst.cb, c.cb - c.tcpTst.cb)

/-- The place of the payload. -/
def place : Int × Int :=
  match c.builder A with
  | none => (0, c.cb)
  | some _ => (c.tcpTst.cb, c.cb)

/-- The serializer is asked for the payload, and one that copies leaves the same packet as
`tcp_write` does without it, whatever was in the memory of the packet. -/
def SerializerAgrees : Prop :=
  (∀ p, c.asked A = some p → p = c.place A)
    ∧ ∀ malloc, { c with malloc, serializer := some copySerializer }.buffer A
        = { c with malloc, serializer := none }.buffer A

/-- The builder is not there, or is not called, or fails, or has no header to write. -/
def HeaderEmpty : Prop :=
  ∀ builder, c.builder A = some builder → (builder c.cb).isSome → c.tcpTst.cb = 0

/-- What is asked for where the header takes no bytes off the payload is what is copied. -/
theorem fillBody_copySerializer {origin : Block Byte} (horigin : c.origin = some origin)
    (hpos : 0 ≤ c.cb) (hsize : c.cb ≤ origin.size) (b : Block Byte) (off : Int) :
    { c with serializer := some copySerializer }.fillBody b off c.cb
      = { c with serializer := none }.fillBody b off c.cb := by
  obtain ⟨n, hn⟩ := Int.eq_ofNat_of_zero_le hpos
  have hload : origin.load 0 c.cb = .ok (origin.read 0 n) := by
    have hle : 0 + n ≤ origin.size := by omega
    rw [hn]
    exact Block.load_eq_ok hle
  have htake : copySerializer origin c.cb = some (origin.read 0 n) := by
    rw [hn]
    rfl
  simp only [fillBody, horigin, deref_some, Block.copy, ok_bind, hload, htake]

end WriteCall

/-- **When the serializer path agrees with the plain path**, for every template, every attribute
and every payload. -/
theorem serializer_agrees_iff (A : Linkattr) (c : WriteCall) {origin : Block Byte}
    (horigin : c.origin = some origin) (hcb : 1 ≤ c.cb) (hsize : c.cb ≤ origin.size) :
    c.SerializerAgrees A ↔ c.HeaderEmpty A := by
  have hsame := c.fillBody_copySerializer horigin (by omega) hsize
  constructor
  -- the serializer is asked at the header for the rest: that is the place of the payload
  · intro h builder hbuilder hsome
    obtain ⟨header, hheader⟩ := Option.isSome_iff_exists.mp hsome
    have hplace := h.1 (c.tcpTst.cb, c.cb - c.tcpTst.cb) (by
      simp [WriteCall.asked, hbuilder, hheader])
    simp [WriteCall.place, hbuilder] at hplace
    exact hplace
  · intro h
    refine ⟨fun place hplace => ?_, fun malloc => ?_⟩
    · cases hbuilder : c.builder A with
      | none => simpa [WriteCall.asked, WriteCall.place, hbuilder, eq_comm] using hplace
      | some builder =>
        simp only [WriteCall.asked, hbuilder, Option.map_eq_some_iff] at hplace
        obtain ⟨header, hheader, rfl⟩ := hplace
        have hzero := h builder hbuilder (by simp [hheader])
        simp [WriteCall.place, hbuilder, hzero]
    -- the same place leads to the same bytes
    · cases malloc with
      | none => rfl
      | some cell =>
        have hlen : ∀ ser, { c with malloc := some cell, serializer := ser }.totalPacketLength A
            = c.totalPacketLength A := fun _ => rfl
        have hb : ∀ ser,
          { c with malloc := some cell, serializer := ser }.builder A = c.builder A :=
          fun _ => rfl
        simp only [WriteCall.buffer, hlen, WriteCall.fill, hb]
        cases hbuilder : c.builder A with
        | none => exact hsame _ 0
        | some builder =>
          dsimp only
          cases hheader : builder c.cb with
          | none => rfl
          | some header =>
            have hzero := h builder hbuilder (by simp [hheader])
            dsimp only
            rw [hzero, sub_zero]
            exact bind_congr fun b => hsame b 0

/-- The attribute bits of an example. -/
def someAttr : Linkattr := ⟨1, 2, 4⟩

/-- Two bytes on a link without a template. -/
theorem serializer_agrees_raw : (WriteCall.raw [1, 2]).SerializerAgrees someAttr := by
  refine (serializer_agrees_iff someAttr (WriteCall.raw [1, 2]) rfl (by decide) (by decide)).mpr ?_
  intro builder hbuilder
  simp [WriteCall.raw, WriteCall.builder] at hbuilder

/-- Eight bytes behind a header of four. -/
def WriteCall.headed : WriteCall :=
  { WriteCall.raw [1, 2, 3, 4, 5, 6, 7, 8] with
    tcpTst := ⟨4, some fun _ => some [0, 0, 0, 8], none⟩ }

/-- The serializer is asked for four bytes of eight. -/
theorem serializer_short : WriteCall.headed.asked someAttr = some (4, 4)
    ∧ { WriteCall.headed with serializer := some copySerializer }.bytes someAttr
        = [0, 0, 0, 8, 1, 2, 3, 4, 0, 0, 0, 0]
    ∧ WriteCall.headed.bytes someAttr = [0, 0, 0, 8, 1, 2, 3, 4, 5, 6, 7, 8]
    ∧ ¬ WriteCall.headed.SerializerAgrees someAttr := by
  refine ⟨by decide, by decide, by decide, fun h => ?_⟩
  have hplace := h.1 (4, 4) (by decide)
  exact absurd hplace (by decide)

end Swnet
