import Swnet.Endpoint
import Swnet.Sys.Udp

/-!
# Swnet — what a remote peer can do to a UDP link (`udp.c`)

Datagrams and ICMP errors arrive at the socket of a link. Each completes the receive that is
posted there, `udp_dispatch_io_event` handles the completion, and posts the receive again.
The dispatch is the program of `Sys`; here it runs against one link, whose receives can always be
posted.

* `udpReceives_iff` — for every sequence of arrivals, when the link stays open and the user gets
  every datagram;
* `network_unreachable_closes` — one ICMP error that is not filtered closes the link.

An arrival is one completion and one dispatch (`UdpLink.arrive`). One that fits leaves the link open
with its receive posted again, and adds its datagram to what the user got (`arrive_fits`); one that
does not closes the link (`arrive_unfit`). Both are carried along the sequence by induction.
-/

namespace Swnet

open Jobs Sys

/-! ## The link -/

/-- `EVT_RECEIVEDATA` of a UDP link: the size, the data, and where they are from. -/
structure UdpReceived where
  size : Int
  data : List Byte
  remoteAddress : UInt32
  remotePort : UInt16
  deriving DecidableEq

/-- A link, with the one receive packet that goes back and forth: whether it is with the system,
its buffer, and the address the system left in it. -/
structure UdpLink where
  closed : Bool
  posted : Bool
  buffer : List Byte
  remoteAddr : SockaddrIn
  events : List UdpReceived
  deriving DecidableEq

/-- A link `udp_create` has returned. -/
def UdpLink.start (buffer : List Byte) : UdpLink := ⟨false, true, buffer, ⟨0, 0⟩, []⟩

/-- What `udp_dispatch_io_recv` tells the user. -/
def UdpLink.received (s : UdpLink) (transfer : Int) : UdpReceived where
  size := transfer
  data := s.buffer.take transfer.toNat
  remoteAddress := s.remoteAddr.sAddr
  remotePort := ntohs s.remoteAddr.sinPort

/-- What a call does to the link, and what it answers: a closed link cannot be referenced, and
a receive is taken. -/
def UdpLink.answer (s : UdpLink) (transfer : Int) : Call → Int × UdpLink
  | .objrefr _ => (if s.closed then -1 else 0, s)
  | .ncb _ .proto => (ProtoType.udp.code, s)
  | .emit (.receiveData _) => (0, { s with events := s.events ++ [s.received transfer] })
  | .post _ => (0, { s with posted := true })
  | .objclos _ => (0, { s with closed := true })
  | _ => (0, s)

/-- A program of calls on the link. -/
def UdpLink.exec (transfer : Int) : CallProg Unit → UdpLink → UdpLink
  | .done _, s => s
  | .call c k, s => exec transfer (k (s.answer transfer c).1) (s.answer transfer c).2

-- a program that closes the link
example (s : UdpLink) (h transfer : Int) :
    (s.exec transfer (.call (.objclos h) fun _ => .done ())).closed = true := by
  simp only [UdpLink.exec, UdpLink.answer]

/-! ## Arrivals -/

/-- The ICMP errors a socket reports: what of the destination of an earlier datagram cannot be
reached. -/
inductive IcmpUnreachable where
  | network
  | host
  | protocol
  | port
  deriving DecidableEq

/-- `STATUS_NETWORK_UNREACHABLE`, `STATUS_HOST_UNREACHABLE`, `STATUS_PROTOCOL_UNREACHABLE`,
`STATUS_PORT_UNREACHABLE`. -/
def IcmpUnreachable.status : IcmpUnreachable → NtStatus
  | network => (0xC000023C : UInt32).toInt32
  | host => (0xC000023D : UInt32).toInt32
  | protocol => (0xC000023E : UInt32).toInt32
  | port => (0xC000023F : UInt32).toInt32

/-- What comes from the network. -/
inductive Arrival where
  | datagram (sender : SockaddrIn) (bytes : List Byte)
  | unreachable (kind : IcmpUnreachable)

def statusBufferOverflow : NtStatus := (0x80000005 : UInt32).toInt32

/-- The completion of the receive: the status, the bytes transferred, and the link with what the
system wrote. -/
def UdpLink.complete (s : UdpLink) : Arrival → NtStatus × Int × UdpLink
  | .datagram sender bytes =>
    let s := { s with posted := false, remoteAddr := sender }
    if bytes.length ≤ pageSize then
      (0, bytes.length, { s with buffer := bytes ++ s.buffer.drop bytes.length })
    else (statusBufferOverflow, pageSize, { s with buffer := bytes.take pageSize })
  | .unreachable kind => (kind.status, 0, { s with posted := false })

/-- The receive packet of the link. -/
def udpRecvPacket : IoPacket := .plain 0 .udp .recv 0

/-- An arrival and its dispatch; without a receive there is none. -/
def UdpLink.arrive (s : UdpLink) (x : Arrival) : UdpLink :=
  if s.posted then
    let (status, transfer, s) := s.complete x
    s.exec transfer (udpDispatchIoEvent udpRecvPacket status transfer)
  else s

def UdpLink.arriveAll (s : UdpLink) (xs : List Arrival) : UdpLink := xs.foldl .arrive s

/-! ## What is promised -/

/-- The events a datagram that fits the buffer is to produce. -/
def Arrival.event : Arrival → Option UdpReceived
  | .datagram sender bytes =>
    if 1 ≤ bytes.length ∧ bytes.length ≤ pageSize then
      some ⟨bytes.length, bytes, sender.sAddr, ntohs sender.sinPort⟩
    else none
  | .unreachable _ => none

/-- After every part of the sequence the link is open, and each datagram of 1 to `PAGE_SIZE` bytes
was delivered once, as it is. -/
def UdpReceives (buffer : List Byte) (xs : List Arrival) : Prop :=
  ∀ xs', xs' <+: xs → ((UdpLink.start buffer).arriveAll xs').closed = false
    ∧ ((UdpLink.start buffer).arriveAll xs').events = xs'.filterMap Arrival.event

/-- An arrival that does not close the link: no datagram without bytes, none longer than the
buffer, and no ICMP error but those that `udp_dispatch_io_exception` filters. -/
def Arrival.Fits : Arrival → Prop
  | .datagram _ bytes => 1 ≤ bytes.length ∧ bytes.length ≤ pageSize
  | .unreachable kind => kind ≠ .network

instance : DecidablePred Arrival.Fits
  | .datagram _ bytes => inferInstanceAs (Decidable (1 ≤ bytes.length ∧ bytes.length ≤ pageSize))
  | .unreachable kind => inferInstanceAs (Decidable (kind ≠ .network))

/-! ## When it is kept -/

section

variable {s : UdpLink} {x : Arrival}

theorem IcmpUnreachable.failed (kind : IcmpUnreachable) : ntSuccess kind.status = false := by
  cases kind <;> decide

/-- The filter of `udp_dispatch_io_exception` has three of the four. -/
theorem IcmpUnreachable.filtered_iff (kind : IcmpUnreachable) :
    Sys.unreachable kind.status = true ↔ kind ≠ .network := by
  cases kind <;> decide

/-- The dispatch of a receive that failed with an ICMP error of the filter posts it again. -/
theorem exec_unreachable (hs : s.closed = false) {kind : IcmpUnreachable}
    (hkind : kind ≠ .network) :
    s.exec 0 (udpDispatchIoEvent udpRecvPacket kind.status 0) = { s with posted := true } := by
  have hfiltered := kind.filtered_iff.mpr hkind
  simp [udpDispatchIoEvent, kind.failed, udpDispatchIoException, hfiltered, udprefr, protoRefr,
    asioUdpRecv, asioTransfer, udpRecvPacket, IoPacket.plain, void, Prog.perform, UdpLink.exec,
    UdpLink.answer, hs]

/-- The dispatch of a receive that failed otherwise closes the link. -/
theorem exec_failed (hs : s.closed = false) {status : NtStatus} {transfer : Int}
    (hstatus : ntSuccess status = false) (hother : Sys.unreachable status = false) :
    s.exec transfer (udpDispatchIoEvent udpRecvPacket status transfer)
      = { s with closed := true } := by
  simp [udpDispatchIoEvent, hstatus, udpDispatchIoException, hother, udprefr, protoRefr,
    udpShutdownByPacket, udpRecvPacket, IoPacket.plain, void, Prog.perform, UdpLink.exec,
    UdpLink.answer, hs]

/-- The dispatch of a receive that succeeded with bytes delivers them. -/
theorem exec_received (hs : s.closed = false) {transfer : Int} (ht : transfer ≠ 0) :
    s.exec transfer (udpDispatchIoEvent udpRecvPacket 0 transfer)
      = { s with events := s.events ++ [s.received transfer], posted := true } := by
  simp [udpDispatchIoEvent, show ntSuccess 0 = true by decide, ht, udpDispatchIoRecv, udprefr,
    protoRefr, asioUdpRecv, asioTransfer, udpRecvPacket, IoPacket.plain, void, Prog.perform,
    UdpLink.exec, UdpLink.answer, hs, UdpLink.received]

/-- The dispatch of a receive that succeeded without bytes closes the link. -/
theorem exec_empty :
    s.exec 0 (udpDispatchIoEvent udpRecvPacket 0 0) = { s with closed := true } := by
  simp [udpDispatchIoEvent, show ntSuccess 0 = true by decide, udpShutdownByPacket, udpRecvPacket,
    IoPacket.plain, void, Prog.perform, UdpLink.exec, UdpLink.answer]

/-- An arrival that fits leaves the link as it is, and produces its event. -/
theorem arrive_fits (hs : s.closed = false) (hp : s.posted = true) (hx : x.Fits) :
    (s.arrive x).closed = false ∧ (s.arrive x).posted = true
      ∧ (s.arrive x).events = s.events ++ x.event.toList := by
  rw [UdpLink.arrive, if_pos hp]
  cases x with
  | unreachable kind =>
    simp only [UdpLink.complete]
    rw [exec_unreachable (s := { s with posted := false }) hs hx]
    simp [hs, Arrival.event]
  | datagram sender bytes =>
    obtain ⟨hone, hpage⟩ := hx
    simp only [UdpLink.complete, if_pos hpage]
    have hsome : (bytes.length : Int) ≠ 0 := by omega
    rw [exec_received
      (s := ⟨s.closed, false, bytes ++ s.buffer.drop bytes.length, sender, s.events⟩)
      hs hsome]
    simp [hs, Arrival.event, hone, hpage, UdpLink.received]

/-- An arrival that does not fit closes the link. -/
theorem arrive_unfit (hs : s.closed = false) (hp : s.posted = true) (hx : ¬ x.Fits) :
    (s.arrive x).closed = true := by
  rw [UdpLink.arrive, if_pos hp]
  cases x with
  | unreachable kind =>
    obtain rfl : kind = .network := Decidable.not_not.mp hx
    simp only [UdpLink.complete]
    rw [exec_failed]
    · exact hs
    · decide
    · decide
  | datagram sender bytes =>
    by_cases hpage : bytes.length ≤ pageSize
    · have hzero : (bytes.length : Int) = 0 := by
        by_contra hne
        exact hx ⟨by omega, hpage⟩
      simp only [UdpLink.complete, if_pos hpage, hzero]
      rw [exec_empty]
    · simp only [UdpLink.complete, if_neg hpage]
      rw [exec_failed]
      · exact hs
      · decide
      · decide

/-- A run of arrivals that fit. -/
theorem arriveAll_fits (hs : s.closed = false) (hp : s.posted = true) {xs : List Arrival}
    (hxs : ∀ x ∈ xs, x.Fits) :
    (s.arriveAll xs).closed = false ∧ (s.arriveAll xs).posted = true
      ∧ (s.arriveAll xs).events = s.events ++ xs.filterMap Arrival.event := by
  induction xs generalizing s with
  | nil => exact ⟨hs, hp, by simp [UdpLink.arriveAll]⟩
  | cons x xs ih =>
    obtain ⟨hclosed, hposted, hevents⟩ := arrive_fits hs hp (hxs x List.mem_cons_self)
    obtain ⟨hclosed', hposted', hevents'⟩ :=
      ih hclosed hposted fun y hy => hxs y (List.mem_cons_of_mem _ hy)
    refine ⟨hclosed', hposted', ?_⟩
    show ((s.arrive x).arriveAll xs).events = _
    rw [hevents', hevents, List.append_assoc, List.filterMap_cons]
    cases x.event <;> rfl

end

/-- **When a remote peer cannot close the link**, over every sequence of arrivals. -/
theorem udpReceives_iff (buffer : List Byte) (xs : List Arrival) :
    UdpReceives buffer xs ↔ ∀ x ∈ xs, x.Fits := by
  constructor
  · intro hr x hx
    by_contra hunfit
    -- up to the first arrival that does not fit, the link is open and its receive posted
    obtain ⟨pre, y, post, rfl, hpre, hy⟩ : ∃ pre y post, xs = pre ++ y :: post
        ∧ (∀ z ∈ pre, z.Fits) ∧ ¬ y.Fits := by
      clear hr
      induction xs with
      | nil => cases hx
      | cons z zs ih =>
        by_cases hz : z.Fits
        · rcases List.mem_cons.mp hx with rfl | hx
          · exact absurd hz hunfit
          obtain ⟨pre, y, post, rfl, hpre, hy⟩ := ih hx
          refine ⟨z :: pre, y, post, rfl, fun v hv => ?_, hy⟩
          rcases List.mem_cons.mp hv with rfl | hv
          · exact hz
          · exact hpre v hv
        · exact ⟨[], z, zs, rfl, nofun, hz⟩
    obtain ⟨hclosed, hposted, -⟩ := arriveAll_fits (s := .start buffer) rfl rfl hpre
    have hopen := (hr (pre ++ [y]) ⟨post, by simp⟩).1
    rw [UdpLink.arriveAll, List.foldl_append] at hopen
    have hshut := arrive_unfit hclosed hposted hy
    rw [UdpLink.arriveAll] at hshut
    cases hshut.symm.trans hopen
  · rintro hfits xs' ⟨rest, rfl⟩
    obtain ⟨hclosed, -, hevents⟩ := arriveAll_fits (s := .start buffer) rfl rfl
      fun x hx => hfits x (List.mem_append_left _ hx)
    exact ⟨hclosed, hevents⟩

/-- After a datagram of one byte, an ICMP error with code 0 (network unreachable): the link is
closed. -/
theorem network_unreachable_closes : ¬ UdpReceives (List.replicate pageSize 0)
    [.datagram ⟨0x0100000A, 0x5000⟩ [7], .unreachable .network] := by
  intro hr
  have hopen := (hr _ List.prefix_rfl).1
  have hfirst := arrive_fits (s := .start (List.replicate pageSize 0))
    (x := .datagram ⟨0x0100000A, 0x5000⟩ [7]) rfl rfl (by decide)
  have hshut := arrive_unfit (x := .unreachable .network) hfirst.1 hfirst.2.1 (by decide)
  cases hshut.symm.trans hopen

end Swnet
