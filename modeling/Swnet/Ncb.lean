import Swnet.Packet

/-!
# Swnet — the network control block (`ncb.h`, `ncb.c`)

The part of `ncb_t` the receive path works on: the handle, the callback, the attributes,
the template and the large-block group (`lb_data_`, `lb_cpy_offset_`, `lb_length_`). The
sender group and the user context have their own modules; they share no field with this
one.

An event is what the user callback is handed. A link without a callback raises none.
-/

namespace Swnet

open CMem

/-- The events of `nis.h` a TCP link raises. `receiveData` and `pipeData` hold the reported
size and the bytes behind the reported pointer at the moment of the call. -/
inductive Event where
  | receiveData (link size : Int) (data : List Byte)
  | pipeData (link size : Int) (data : List Byte)
  | accepted (link acceptLink : Int)
  | connected (link : Int)
  | preClose (link : Int)
  | closed (link : Int)
  deriving DecidableEq, Repr

/-- `ncb_t`, as far as reception goes. -/
structure Ncb where
  hld : Int
  nisCallback : Bool
  attr : BitVec 32
  tcpTst : Tst
  lbData : Option (Block Byte)
  lbCpyOffset : Int
  lbLength : Int

/-- `ncb_lb_marked`. -/
def ncbLbMarked (ncb : Ncb) : Bool := ncb.lbData.isSome && 0 < ncb.lbLength

/-- `ncb_mark_lb`: the return value and the control block it leaves. `malloc` is the block
the allocation yields, as its cells; `source` is the address copied from. -/
def ncbMarkLb (ncb : Ncb) (cb currentSize : Int) (source : Block Byte) (off : Int)
    (malloc : Option (Nat → Byte)) : Exec (Int × Ncb) :=
  if cb < currentSize then return (-1, ncb)
  else match malloc with
    | none => return (-1, { ncb with lbLength := cb, lbData := none })
    | some cell =>
      let lb : Block Byte := ⟨cb.toNat, cell⟩
      let ncb := { ncb with lbLength := cb, lbData := some lb, lbCpyOffset := currentSize }
      if currentSize = 0 then return (0, ncb)
      else do
        let lb ← lb.copy 0 source off ncb.lbCpyOffset
        return (0, { ncb with lbData := some lb })

/-- `ncb_unmark_lb`. A block whose recorded length is not positive is left behind. -/
def ncbUnmarkLb (ndebug : Bool) (ncb : Ncb) : Exec Ncb :=
  match ncb.lbData with
  | none => return { ncb with lbLength := 0 }
  | some lb => do
    assert ndebug (0 < ncb.lbLength)
    let lbData := if 0 < ncb.lbLength then none else some lb
    return { ncb with lbData, lbCpyOffset := 0, lbLength := 0 }

/-- `ncb_post_recvdata`, and the same sequence where `tcp.c` writes it out: the user is
handed `size` bytes at `data + off`. -/
def ncbPostRecvdata (ncb : Ncb) (size : Int) (data : Block Byte) (off : Int) :
    Exec (List Event) :=
  if ncb.nisCallback then do
    let bytes ← data.load off size
    return [.receiveData ncb.hld size bytes]
  else return []

/-! ## What the large-block helpers do -/

section

variable {ncb : Ncb} {source : Block Byte} {cb cur off : Nat}

/-- Marking with memory at hand copies the current bytes to the front of a new block. -/
theorem ncbMarkLb_some (cell : Nat → Byte) (hcur : 0 < cur) (hcb : cur ≤ cb)
    (hsrc : off + cur ≤ source.size) :
    ncbMarkLb ncb cb cur source off (some cell)
      = .ok (0, { ncb with
          lbLength := cb
          lbData := some ((⟨cb, cell⟩ : Block Byte).write 0 (source.read off cur))
          lbCpyOffset := cur }) := by
  have hcopy : (⟨cb, cell⟩ : Block Byte).copy ((0 : Nat) : Int) source off cur
      = .ok ((⟨cb, cell⟩ : Block Byte).write 0 (source.read off cur)) :=
    Block.copy_eq_ok hsrc (by simpa using hcb)
  simp only [Nat.cast_zero] at hcopy
  simp [ncbMarkLb, Nat.not_lt.mpr hcb, Nat.ne_of_gt hcur, hcopy]

/-- Without memory the length is recorded all the same. -/
theorem ncbMarkLb_none (hcb : cur ≤ cb) :
    ncbMarkLb ncb cb cur source off none
      = .ok (-1, { ncb with lbLength := cb, lbData := none }) := by
  simp [ncbMarkLb, Nat.not_lt.mpr hcb]

/-- A block of some length is released. -/
theorem ncbUnmarkLb_of_marked {ndebug : Bool} (h : 0 < ncb.lbLength)
    {lb : Block Byte} (hlb : ncb.lbData = some lb) :
    ncbUnmarkLb ndebug ncb
      = .ok { ncb with lbData := none, lbCpyOffset := 0, lbLength := 0 } := by
  simp [ncbUnmarkLb, hlb, h]

end

end Swnet
