import Swnet.Ncb

/-!
# Swnet — pipe messages (`tcp.c`, `udp.c`, `network.c`, `io.c`)

`tcp_awaken` and `udp_awaken` post a copy of their message to the IO thread of a link, which hands
it to the user. The number of bytes posted is the number of bytes of the message; the copy is made
also where no buffer was allocated for it.

* `pipeKept_iff` — when a message arrives intact or the call fails;
* `awaken_null` — a positive length and no data: the copy is made through `NULL`.

The message is followed from the caller to the callback: what `awaken` hands to the port, what the
IO thread takes out of it, what the dispatch puts into the event. The two functions are one
definition, so that one proof, by the branches of `awaken`, does for both.
-/

namespace Swnet

open CMem

/-! ## The code -/

/-- A call of `tcp_awaken` or `udp_awaken`: the caller passes `NULL`, or a pointer to the bytes it
announces. The answers are those of `objrefr`, of `io_get_pipefd`, of `malloc` (the address and
the cells of the block), of `allocate_packet` (the address of the packet) and of
`PostQueuedCompletionStatus`. -/
structure AwakenCall where
  link : Int
  pipedata : Option (Nat → Byte)
  cb : Int32
  objrefr : Bool
  pipefd : Bool
  malloc : Option (Nat × (Nat → Byte))
  packet : Option Nat
  posted : Bool

/-- The packet of a message: its address, and the buffer behind `ori_buffer_` with its address. -/
structure PipePacket where
  address : Nat
  link : Int
  oriBuffer : Option (Nat × Block Byte)

/-- `freepkt`, of a packet without pages of its own: the blocks it frees. -/
def PipePacket.freepkt (p : PipePacket) : List Nat :=
  (p.oriBuffer.map Prod.fst).toList ++ [p.address]

/-- What a call comes to: its return value, what it posts, and the blocks it has allocated and
freed. -/
structure Awakened where
  retval : Int
  posted : Option (UInt32 × PipePacket)
  allocs : List Nat
  frees : List Nat

def enoent : Int := 2

/-- `memcpy( buffer, pipedata, cb )`. A copy of no bytes touches nothing; a negative length is
one beyond any block. -/
def copyPipe (buffer : Option (Nat × Block Byte)) (pipedata : Option (Nat → Byte)) (cb : Int) :
    Exec (Option (Nat × Block Byte)) :=
  if cb = 0 then return buffer
  else do
    let (address, block) ← deref buffer
    let cell ← deref pipedata
    let block ← block.copy 0 ⟨cb.toNat, cell⟩ 0 cb
    return some (address, block)

/-- The body of `tcp_awaken` and `udp_awaken`. -/
def awaken (c : AwakenCall) : Exec Awakened :=
  if ¬ c.objrefr then return ⟨-enoent, none, [], []⟩
  else if ¬ c.pipefd then return ⟨-1, none, [], []⟩
  else if 0 < c.cb.toInt ∧ c.pipedata.isSome ∧ c.malloc.isNone then return ⟨-1, none, [], []⟩
  else
    let buffer : Option (Nat × Block Byte) :=
      if 0 < c.cb.toInt ∧ c.pipedata.isSome then
        c.malloc.map fun (address, cell) => (address, ⟨c.cb.toInt.toNat, cell⟩)
      else none
    let allocs := (buffer.map Prod.fst).toList
    match c.packet with
    | none => return ⟨-1, none, allocs, allocs⟩
    | some address => do
      -- the copy is of the whole length, whether there is a buffer and data or not
      let oriBuffer ← copyPipe buffer c.pipedata c.cb.toInt
      let packet : PipePacket := ⟨address, c.link, oriBuffer⟩
      if ¬ c.posted then return ⟨-1, none, allocs ++ [address], packet.freepkt⟩
      else return ⟨0, some (c.cb.toUInt32, packet), allocs ++ [address], []⟩

/-- `tcp_awaken`. -/
def tcpAwaken (c : AwakenCall) : Exec Awakened := awaken c

/-- `udp_awaken`. -/
def udpAwaken (c : AwakenCall) : Exec Awakened := awaken c

def iocpInvalidSizeTransfer : UInt32 := 0xFFFFFFFF

/-- The bytes a user finds behind `ori_buffer_`. -/
def PipePacket.bytes (p : PipePacket) (size : Int) : Exec (List Byte) :=
  match p.oriBuffer with
  | some (_, block) => block.load 0 size
  | none => if size = 0 then return [] else .error .nullPointer

/-- `so_dispatch_pipe_event`: the events and the blocks freed. `ncb` tells whether the link can be
referenced, and whether it has a callback. -/
def soDispatchPipeEvent (ncb : Option Bool) (packet : PipePacket) (sizeForTranslation : Int) :
    Exec (List Event × List Nat) :=
  match ncb with
  | some true => do
    let data ← packet.bytes sizeForTranslation
    return ([.pipeData packet.link sizeForTranslation data], packet.freepkt)
  | _ => return ([], packet.freepkt)

/-- One round of `__iorun` for a completion that was posted; `none` when the thread exits. -/
def iorunRound (ncb : Option Bool) (transfered : UInt32) (packet : PipePacket) :
    Option (Exec (List Event × List Nat)) :=
  if transfered = iocpInvalidSizeTransfer then none
  else some (soDispatchPipeEvent ncb packet transfered.toInt32.toInt)

/-! ## Messages arrive, or the call fails -/

/-- The bytes of the message. -/
def AwakenCall.message (c : AwakenCall) : List Byte :=
  match c.pipedata with
  | some cell => (⟨c.cb.toInt.toNat, cell⟩ : Block Byte).read 0 c.cb.toInt.toNat
  | none => []

/-- A call that posts nothing fails, and has freed what it allocated. What it posts does not stop
the thread, which hands the message to the user if there is one, once, and frees what the call
allocated in any case. -/
def PipeKept (call : AwakenCall → Exec Awakened) (c : AwakenCall) : Prop :=
  ∃ r, call c = .ok r ∧
    match r.posted with
    | none => r.retval < 0 ∧ r.frees = r.allocs
    | some (transfered, packet) => r.retval = 0 ∧ r.frees = [] ∧ ∀ ncb, ∃ events,
        iorunRound ncb transfered packet = some (.ok (events, r.allocs))
          ∧ events = if ncb = some true then [.pipeData c.link c.cb.toInt c.message] else []

/-- A call that gets to its copy has an empty message, or a length and the data for it. -/
def AwakenCall.Clean (c : AwakenCall) : Prop :=
  c.objrefr = true → c.pipefd = true →
    (0 < c.cb.toInt → c.pipedata.isSome → c.malloc.isSome) → c.packet.isSome →
      c.cb = 0 ∨ 0 < c.cb.toInt ∧ c.pipedata.isSome

section

variable {c : AwakenCall}

/-- A call that fails before its copy. -/
theorem PipeKept.failed {r : Awakened} (h : awaken c = .ok r) (hposted : r.posted = none)
    (hret : r.retval < 0) (hfrees : r.frees = r.allocs) : PipeKept awaken c := by
  refine ⟨r, h, ?_⟩
  rw [hposted]
  exact ⟨hret, hfrees⟩

/-- A call that has copied its message, or has none to copy. -/
theorem PipeKept.copied (address : Nat) (oriBuffer : Option (Nat × Block Byte))
    (allocs : List Nat) (hallocs : allocs = (oriBuffer.map Prod.fst).toList ++ [address])
    (hrun : awaken c = .ok (if ¬ c.posted then
        ⟨-1, none, allocs, PipePacket.freepkt ⟨address, c.link, oriBuffer⟩⟩
      else ⟨0, some (c.cb.toUInt32, ⟨address, c.link, oriBuffer⟩), allocs, []⟩))
    (hcb : c.cb ≠ -1)
    (hdata : (⟨address, c.link, oriBuffer⟩ : PipePacket).bytes c.cb.toInt = .ok c.message) :
    PipeKept awaken c := by
  subst hallocs
  by_cases hposted : c.posted = true
  · rw [if_neg (by simp [hposted])] at hrun
    refine ⟨_, hrun, rfl, rfl, fun ncb => ?_⟩
    -- the length is no mark to stop the thread by
    have hneg : c.cb.toUInt32 ≠ iocpInvalidSizeTransfer := by
      intro h
      refine hcb ?_
      rw [← Int32.toInt32_toUInt32 c.cb, h]
      rfl
    have hiorun : iorunRound ncb c.cb.toUInt32 ⟨address, c.link, oriBuffer⟩
        = some (soDispatchPipeEvent ncb ⟨address, c.link, oriBuffer⟩ c.cb.toInt) := by
      rw [iorunRound, if_neg hneg, Int32.toInt32_toUInt32]
    rw [hiorun]
    by_cases hncb : ncb = some true
    · subst hncb
      refine ⟨_, ?_, (if_pos rfl).symm⟩
      rw [soDispatchPipeEvent, hdata]
      rfl
    · refine ⟨[], ?_, (if_neg hncb).symm⟩
      have hnone : soDispatchPipeEvent ncb ⟨address, c.link, oriBuffer⟩ c.cb.toInt
          = .ok ([], PipePacket.freepkt ⟨address, c.link, oriBuffer⟩) := by
        cases ncb with
        | none => rfl
        | some callback =>
          cases callback with
          | false => rfl
          | true => exact absurd rfl hncb
      rw [hnone]
      rfl
  · rw [if_pos hposted] at hrun
    exact ⟨_, hrun, show (-1 : Int) < 0 by decide, rfl⟩

theorem awaken_kept_iff (c : AwakenCall) : PipeKept awaken c ↔ c.Clean := by
  by_cases hobj : c.objrefr = true
  swap
  · -- the link is closed
    refine iff_of_true ?_ fun h => absurd h hobj
    exact .failed (r := ⟨-enoent, none, [], []⟩) (by simp [awaken, hobj]) rfl (by decide) rfl
  by_cases hpipe : c.pipefd = true
  swap
  · refine iff_of_true ?_ fun _ h => absurd h hpipe
    exact .failed (r := ⟨-1, none, [], []⟩) (by simp [awaken, hobj, hpipe]) rfl (by decide) rfl
  by_cases hmem : 0 < c.cb.toInt ∧ c.pipedata.isSome = true ∧ c.malloc.isNone = true
  · -- there is no memory for the buffer
    refine iff_of_true ?_ fun _ _ h => ?_
    · exact .failed (r := ⟨-1, none, [], []⟩) (by simp [awaken, hobj, hpipe, hmem]) rfl (by decide)
        rfl
    · have hsome := h hmem.1 hmem.2.1
      rw [Option.isSome_iff_ne_none] at hsome
      exact absurd (Option.isNone_iff_eq_none.mp hmem.2.2) hsome
  have hgot : 0 < c.cb.toInt → c.pipedata.isSome = true → c.malloc.isSome = true := by
    intro hpos hdata
    cases hm : c.malloc with
    | none => exact absurd ⟨hpos, hdata, by rw [hm]; rfl⟩ hmem
    | some m => rfl
  cases hpacket : c.packet with
  | none =>
    refine iff_of_true ?_ fun _ _ _ h => by simp [hpacket] at h
    -- no packet: the buffer is freed again
    have hrun : ∃ allocs, awaken c = .ok ⟨-1, none, allocs, allocs⟩ := by
      rw [awaken, if_neg (by simp [hobj]), if_neg (by simp [hpipe]), if_neg hmem, hpacket]
      exact ⟨_, rfl⟩
    obtain ⟨allocs, hrun⟩ := hrun
    exact .failed hrun rfl (show (-1 : Int) < 0 by decide) rfl
  | some address =>
    -- past all that can fail before the copy, the length and the data decide
    have hrest : c.Clean ↔ (c.cb = 0 ∨ 0 < c.cb.toInt ∧ c.pipedata.isSome = true) := by
      refine ⟨fun h => h hobj hpipe hgot (by rw [hpacket]; rfl), fun h _ _ _ _ => h⟩
    rw [hrest]
    have hrun : ∀ buffer : Option (Nat × Block Byte),
        buffer = (if 0 < c.cb.toInt ∧ c.pipedata.isSome = true then
          c.malloc.map fun m => (m.1, ⟨c.cb.toInt.toNat, m.2⟩) else none) →
        awaken c = (do
          let oriBuffer ← copyPipe buffer c.pipedata c.cb.toInt
          let allocs := (buffer.map Prod.fst).toList
          if ¬ c.posted then
            return ⟨-1, none, allocs ++ [address], PipePacket.freepkt ⟨address, c.link, oriBuffer⟩⟩
          else return ⟨0, some (c.cb.toUInt32, ⟨address, c.link, oriBuffer⟩), allocs ++ [address],
            []⟩) := by
      rintro buffer rfl
      rw [awaken, if_neg (by simp [hobj]), if_neg (by simp [hpipe]), if_neg hmem, hpacket]
    by_cases hzero : c.cb = 0
    · -- nothing to copy
      have hint : c.cb.toInt = 0 := by rw [hzero]; rfl
      refine iff_of_true ?_ (.inl hzero)
      have h := hrun none (by rw [if_neg (by omega)])
      refine .copied address none [address] rfl (h.trans ?_) ?_ ?_
      · simp only [copyPipe, hint, if_true]
        split <;> rfl
      · rw [hzero]
        decide
      · rw [hint]
        cases hd : c.pipedata <;> simp [AwakenCall.message, hd, hint] <;> rfl
    · by_cases hdata : 0 < c.cb.toInt ∧ c.pipedata.isSome = true
      · -- the message is copied to a buffer of its length
        refine iff_of_true ?_ (.inr hdata)
        obtain ⟨cell, hcell⟩ := Option.isSome_iff_exists.mp hdata.2
        obtain ⟨⟨a, garbage⟩, hmalloc⟩ := Option.isSome_iff_exists.mp (hgot hdata.1 hdata.2)
        obtain ⟨n, hn⟩ := Int.eq_ofNat_of_zero_le hdata.1.le
        have hsize : c.cb.toInt.toNat = n := by omega
        have hblock : (⟨n, garbage⟩ : Block Byte).copy 0 ⟨n, cell⟩ 0 c.cb.toInt
            = .ok ((⟨n, garbage⟩ : Block Byte).write 0 ((⟨n, cell⟩ : Block Byte).read 0 n)) := by
          rw [hn]
          exact Block.copy_eq_ok (d := 0) (o := 0) (by simp) (by simp)
        have hcopy : copyPipe (some (a, ⟨n, garbage⟩)) c.pipedata c.cb.toInt
            = .ok (some (a, (⟨n, garbage⟩ : Block Byte).write 0
                ((⟨n, cell⟩ : Block Byte).read 0 n))) := by
          rw [copyPipe, if_neg (by omega), hcell, hsize, deref_some, ok_bind]
          dsimp only
          rw [deref_some, ok_bind, hblock]
          rfl
        have h := hrun (some (a, ⟨n, garbage⟩)) (by rw [if_pos hdata, hmalloc, hsize]; rfl)
        rw [hcopy, ok_bind] at h
        refine .copied address (some (a, (⟨n, garbage⟩ : Block Byte).write 0
          ((⟨n, cell⟩ : Block Byte).read 0 n))) [a, address] rfl (h.trans ?_) ?_ ?_
        · split <;> rfl
        · intro hneg
          rw [hneg] at hdata
          exact absurd hdata.1 (by decide)
        · have hmessage : c.message = (⟨n, cell⟩ : Block Byte).read 0 n := by
            simp only [AwakenCall.message, hcell, hsize]
          rw [hmessage]
          simp only [PipePacket.bytes, hn]
          refine (Block.load_eq_ok (o := 0) (n := n) (by simp)).trans ?_
          rw [Block.read_write_self' _ _ _ _ (by simp)]
      · refine iff_of_false ?_ (by simp [hzero, hdata])
        -- the copy has no data, or no buffer
        rintro ⟨r, hr, -⟩
        have hne : c.cb.toInt ≠ 0 := fun h => hzero (Int32.toInt_inj.mp h)
        rw [hrun none (by rw [if_neg hdata]), copyPipe, if_neg hne] at hr
        cases hr

end

/-- **When pipe messages arrive intact or the call fails**, for every link, every data and length
and every answer of the system, whether or not the link is still there when the message is
dispatched. -/
theorem pipeKept_iff (c : AwakenCall) :
    (PipeKept tcpAwaken c ↔ c.Clean) ∧ (PipeKept udpAwaken c ↔ c.Clean) :=
  ⟨awaken_kept_iff c, awaken_kept_iff c⟩

/-- A length of 4 and no data: the copy is made through `NULL`. -/
theorem awaken_null :
    (∃ e, tcpAwaken ⟨0, none, 4, true, true, none, some 1, true⟩ = .error e)
      ∧ ¬ PipeKept tcpAwaken ⟨0, none, 4, true, true, none, some 1, true⟩ := by
  have herr : tcpAwaken ⟨0, none, 4, true, true, none, some 1, true⟩ = .error .nullPointer := rfl
  refine ⟨⟨_, herr⟩, ?_⟩
  rintro ⟨r, hr, -⟩
  rw [herr] at hr
  cases hr

end Swnet
