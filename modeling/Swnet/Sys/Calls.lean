import Swnet.Lib.Jobs
import Swnet.Ncb

/-!
# Swnet — what the functions of the library call, and what the calls do

The functions of `tcp.c`, `udp.c`, `packet.c` and `mxx.c` that work on links are programs of
calls (`Call`): on `object.h`, on the control block of a link, on the packet allocator, on
the system, and on the callback of the user. `World.answer` says what a call does when it
gives a certain answer.

* `object.h` is not part of the repository. A handle names an object for good. A reference to
  an open object is always granted; to a closed one it may be granted as long as others hold
  one, and is refused after that. When an object is closed and the last reference is gone,
  its unload routine runs, once.
* A control block is known by its handle. `Call.ncb h x` is one access to the block of `h`:
  a field read or written, or a system call on its socket.
* A request handed to the system (`Call.post`) is outstanding until its completion is
  dispatched. A socket is connected at most once.
* Packets are numbered as they are allocated.
-/

namespace Swnet.Sys

open Jobs

/-! ## Packets, addresses, events -/

/-- `struct sockaddr_in`. -/
structure SockaddrIn where
  sinFamily : UInt16
  sinPort : UInt16
  sinAddr : UInt32
  deriving DecidableEq, Repr

/-- What `AcceptEx` leaves in the buffer of the packet, at `irp_`. -/
structure AcceptAddrs where
  laddr : SockaddrIn
  raddr : SockaddrIn
  deriving DecidableEq, Repr

/-- A packet as the handlers see it: its number, and the fields that say what it is for. -/
structure IoPacket where
  packet : Int
  proto : ProtoType
  type : PktType
  link : Int
  acceptedLink : Int
  remoteAddr : SockaddrIn
  deriving DecidableEq, Repr

/-- A request to accept a link. -/
def IoPacket.IsSyn (p : IoPacket) : Prop := p.proto = .tcp ∧ p.type = .syn

instance (p : IoPacket) : Decidable p.IsSyn := inferInstanceAs (Decidable (_ ∧ _))

def noAddr : SockaddrIn := ⟨0, 0, 0⟩

/-- A packet without an accepted link or an address. -/
def IoPacket.plain (packet : Int) (proto : ProtoType) (type : PktType) (link : Int) : IoPacket :=
  ⟨packet, proto, type, link, -1, noAddr⟩

/-- What the user is told of a link: that a `create` call returned it, and the events. -/
inductive Notice where
  | created (link : Int)
  | accepted (link acceptLink : Int)
  | connected (link : Int)
  | receiveData (link : Int)
  | pipeData (link : Int)
  | preClose (link : Int)
  | closed (link : Int)
  deriving DecidableEq, Repr

/-- The link a notice is about. -/
def Notice.link : Notice → Int
  | created l | accepted l _ | connected l | receiveData l | pipeData l | preClose l | closed l => l

/-- The handles a notice gives to the user. -/
def Notice.gives : Notice → List Int
  | created l => [l]
  | accepted _ h => [h]
  | _ => []

/-! ## Calls -/

/-- Fields of `ncb_t` whose values do not matter here. -/
inductive NcbField where
  | hld
  | sockfd
  | callback
  | localAddr
  | remoteAddr
  | attr
  | tcpTst
  | context
  | ncbCtx
  | flag
  | connected
  | mreq
  | largeBlock
  deriving DecidableEq, Repr

/-- System calls on the socket of a link that leave nothing behind here. -/
inductive SockCall where
  | bind
  | ioatth
  | listen
  | setsockopt
  | getsockopt
  | getsockname
  | wsaIoctl
  | wsaConnect
  | sendto
  | transmitPackets
  deriving DecidableEq, Repr

/-- One access to a control block. -/
inductive Access where
  | read (f : NcbField)
  | write (f : NcbField)
  | sock (c : SockCall)
  | proto
  | setCallback
  -- addresses
  | connect (addr : SockaddrIn)
  | setRemote (addr : SockaddrIn)
  | acceptAddrs (irp : AcceptAddrs)
  | getpeername
  -- the socket
  | soCreate
  | ioclose
  -- the sender group
  | initLocker
  | initListHead
  | initSizes
  | enterSender
  | leaveSender
  | readListSize
  | incListSize
  | decListSize
  | incPending
  | decPending
  | addTail (k : Int)
  | listEmpty
  | popFront
  deriving DecidableEq, Repr

/-- Calls that touch neither objects, packets nor requests. -/
inductive OtherCall where
  | malloc
  | free
  | memcpy
  | inetPton
  | builder
  | serializer
  | cachedPointer
  | pipeFd
  deriving DecidableEq, Repr

/-- A primitive call. The answer is what it returns, as a number: negative when it fails, for
`objrefr` and `objreff` when they return `NULL`, for `post` when the system does not take
the request. -/
inductive Call where
  | objallo (proto : ProtoType) (remote : Bool)
  | objrefr (h : Int)
  | objreff (h : Int)
  | objdefr (h : Int)
  | objclos (h : Int)
  | ncb (h : Int) (x : Access)
  | allocatePacket (h : Int) (proto : ProtoType) (type : PktType)
  | freepkt (k : Int)
  | post (p : IoPacket)
  | emit (n : Notice)
  | other (x : OtherCall)
  -- where a loop has used up its turns
  | stuck
  deriving DecidableEq, Repr

abbrev CallProg := Prog Call Int

abbrev CallTrace := Trace Call Int

/-- A call whose result is not looked at. -/
def void (o : Call) : CallProg Unit := do
  let _ ← Prog.perform o
  return ()

/-- A call whose answer is not looked at: the contract holds after any. -/
@[simp] theorem meets_void {γ : Type} {upd : γ → Call → Int → γ} {need : γ → Call → Prop}
    {ok : γ → Call → Int → Prop} {c : Call} {g : γ} {Q : γ → Unit → Prop} :
    (void c).Meets upd need ok g Q ↔ need g c ∧ ∀ a, ok g c a → Q (upd g c a) () := by
  simp [void]

@[simp] theorem uses_void {P : Call → Prop} {c : Call} : (void c).Uses P ↔ P c := by
  simp [void]

@[simp] theorem uses_void_bind {α : Type} {P : Call → Prop} {c : Call} {f : Unit → CallProg α} :
    (void c >>= f).Uses P ↔ P c ∧ (f ()).Uses P := by
  simp [void]

/-! ## Objects -/

/-- An object with its control block. `remote` is `is_remote_`: made by `tcp_syn` to accept
on. `peer` is the address the socket is connected to. `cacheHead` is `none` while the list
head is all zero. `drained` and `wrecked` tell what `tcp_unload` did: the packets it freed,
and whether it worked on a locker or a list head that was never set up. -/
structure Obj where
  proto : ProtoType
  remote : Bool
  closed : Bool
  refs : Nat
  callback : Bool
  remoteAddr : SockaddrIn
  peer : Option SockaddrIn
  lockerInits : Nat
  locked : Bool
  cacheHead : Option (List Int)
  listSize : Int
  writePending : Int
  socketsMade : Nat
  socketOpen : Bool
  socketsClosed : Nat
  unloaded : Bool
  wrecked : Bool
  drained : List Int
  deriving DecidableEq, Repr

namespace Obj

/-- What `objallo` hands out: memory set to zero. -/
def new (proto : ProtoType) (remote : Bool) : Obj where
  proto := proto
  remote := remote
  closed := false
  refs := 0
  callback := false
  remoteAddr := noAddr
  peer := none
  lockerInits := 0
  locked := false
  cacheHead := none
  listSize := 0
  writePending := 0
  socketsMade := 0
  socketOpen := false
  socketsClosed := 0
  unloaded := false
  wrecked := false
  drained := []

/-- A reference can be granted. -/
def Referable (o : Obj) : Prop := o.closed = false ∨ 0 < o.refs

instance (o : Obj) : Decidable o.Referable := inferInstanceAs (Decidable (_ ∨ _))

/-- The memory of the object is still there. -/
def Alive (o : Obj) : Prop := 0 < o.refs ∨ o.closed = false

instance (o : Obj) : Decidable o.Alive := inferInstanceAs (Decidable (_ ∨ _))

/-- `ioclose`. -/
def ioclose (o : Obj) : Obj :=
  if o.socketOpen then { o with socketOpen := false, socketsClosed := o.socketsClosed + 1 } else o

/-- The drain loop of `tcp_unload`: `list_first_entry`, `list_del_init`, `freepkt`. The second
component are the packets freed, in order. -/
def drain (o : Obj) : List Int → Obj × List Int
  | [] => ({ o with cacheHead := some [] }, [])
  | k :: queue =>
    let (o, freed) := o.drain queue
    (o, k :: freed)

/-- `tcp_unload` between its two events. On a locker that was not set up, or on a list head
that is all zero, its behaviour is undefined. -/
def tcpUnload (o : Obj) : Obj × List Int :=
  let o := o.ioclose
  let o := { o with listSize := 0 }
  match o.lockerInits, o.cacheHead with
  | 1, some queue =>
    let (o, freed) := o.drain queue
    ({ o with drained := freed }, freed)
  | _, _ => ({ o with wrecked := true }, [])

/-- The unload routine of the object, between its two events. -/
def unload (o : Obj) : Obj × List Int :=
  let o := { o with unloaded := true }
  match o.proto with
  | .tcp => o.tcpUnload
  | _ => (o.ioclose, [])

end Obj

/-- What an access does when it answers `a`; `none` when it cannot answer so. -/
def Access.apply (x : Access) (a : Int) (o : Obj) : Option Obj :=
  match x with
  | .proto => if a = o.proto.code then some o else none
  | .setCallback => some { o with callback := true }
  | .connect addr =>
    if a < 0 then some o
    else if o.peer = none then some { o with peer := some addr } else none
  | .setRemote addr =>
    some { o with remoteAddr :=
      { o.remoteAddr with sinPort := addr.sinPort, sinAddr := addr.sinAddr } }
  | .acceptAddrs irp => some { o with remoteAddr := irp.raddr }
  | .getpeername =>
    if a < 0 then some o
    else match o.peer with
      | some addr => some { o with remoteAddr := addr }
      | none => none
  | .soCreate =>
    some (if a < 0 then o else { o with socketsMade := o.socketsMade + 1, socketOpen := true })
  | .ioclose => some o.ioclose
  | .initLocker => some { o with lockerInits := o.lockerInits + 1 }
  | .initListHead => some { o with cacheHead := some [] }
  | .initSizes => some { o with listSize := 0, writePending := 0 }
  | .enterSender => if o.locked then none else some { o with locked := true }
  | .leaveSender => some { o with locked := false }
  | .readListSize => if a = o.listSize then some o else none
  | .incListSize =>
    if a = o.listSize + 1 then some { o with listSize := o.listSize + 1 } else none
  | .decListSize =>
    if a = o.listSize - 1 then some { o with listSize := o.listSize - 1 } else none
  | .incPending =>
    if a = o.writePending + 1 then some { o with writePending := o.writePending + 1 } else none
  | .decPending =>
    if a = o.writePending - 1 then some { o with writePending := o.writePending - 1 } else none
  | .addTail k => some { o with cacheHead := o.cacheHead.map (· ++ [k]) }
  | .listEmpty => if a ≠ 0 ↔ o.cacheHead = some [] then some o else none
  | .popFront =>
    match o.cacheHead with
    | some (k :: queue) => if a = k then some { o with cacheHead := some queue } else none
    | _ => none
  | .read _ | .write _ | .sock _ => some o

/-! ## The world -/

/-- The objects, the handles the user was given, the packets allocated and freed, the requests
in the hands of the system, the links one of whose completions is being handled, what the
user was told, and the calls of `tcp_listen` that returned, newest first, with their link,
`block` and result. -/
structure World where
  obj : Int → Option Obj
  known : List Int
  allocated : List Int
  freed : List Int
  posted : List IoPacket
  busy : List Int
  notices : List Notice
  listens : List (Int × Int × Int)

namespace World

/-- Nothing has happened yet. -/
def initial : World where
  obj _ := none
  known := []
  allocated := []
  freed := []
  posted := []
  busy := []
  notices := []
  listens := []

def setObj (w : World) (h : Int) (o : Obj) : World :=
  { w with obj := Function.update w.obj h (some o) }

/-- The user is told `n`. -/
def note (w : World) (n : Notice) : World :=
  { w with notices := w.notices ++ [n], known := n.gives ++ w.known }

/-- The callback of link `h`, when there is one. -/
def tell (w : World) (h : Int) (n : Notice) : World :=
  match w.obj h with
  | some o => if o.callback then w.note n else w
  | none => w

/-- The unload routine. -/
def unload (w : World) (h : Int) (o : Obj) : World :=
  let w := w.tell h (.preClose h)
  let w := { w.setObj h o.unload.1 with freed := o.unload.2 ++ w.freed }
  w.tell h (.closed h)

/-- Runs the unload routine when the object is closed and nobody holds it any more. -/
def settle (w : World) (h : Int) : World :=
  match w.obj h with
  | some o => if o.closed ∧ o.refs = 0 ∧ o.unloaded = false then w.unload h o else w
  | none => w

/-- What each call does when it answers `a`; `none` when it cannot answer so. -/
def answer (w : World) (c : Call) (a : Int) : Option World :=
  match c with
  | .objallo proto remote =>
    if a < 0 then some w
    else if w.obj a = none then some (w.setObj a (.new proto remote)) else none
  | .objrefr h =>
    match w.obj h with
    | none => if a < 0 then some w else none
    | some o =>
      if a < 0 then (if o.closed then some w else none)
      else if o.Referable then some (w.setObj h { o with refs := o.refs + 1 }) else none
  | .objreff h =>
    match w.obj h with
    | none => if a < 0 then some w else none
    | some o =>
      if a < 0 then (if o.closed then some w else none)
      else if o.closed then none
      else some (w.setObj h { o with refs := o.refs + 1, closed := true })
  | .objdefr h =>
    match w.obj h with
    | none => some w
    | some o => some ((w.setObj h { o with refs := o.refs - 1 }).settle h)
  | .objclos h =>
    match w.obj h with
    | none => some w
    | some o => some ((w.setObj h { o with closed := true }).settle h)
  | .ncb h x =>
    match w.obj h with
    | none => some w
    | some o => (x.apply a o).map (w.setObj h)
  | .allocatePacket .. =>
    if a < 0 then some w
    else if a ∈ w.allocated then none else some { w with allocated := a :: w.allocated }
  | .freepkt k => some { w with freed := k :: w.freed }
  | .post p => some (if a < 0 then w else { w with posted := p :: w.posted })
  | .emit n => some (w.tell n.link n)
  | .other _ => some w
  | .stuck => none

end World

end Swnet.Sys
