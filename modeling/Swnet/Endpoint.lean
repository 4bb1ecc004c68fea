import Swnet.Basic

/-!
# Swnet — the local endpoint of a link (`tcp.c`, `udp.c`, `packet.c`)

Six places of the code write `local_addr`, and `tcp_getaddr` and `udp_getaddr` read it. The
endpoints of the system are in network byte order, the readers swap what they find, so that a
place that swaps what the system gave it spoils the result.

* `getaddr_iff` — for each place, the endpoints that are reported in host byte order;
* `connect_getaddr_swapped` — the address of a link that was connected, reported backwards.

Every place swaps the address, or the port, or neither, and the reader swaps both once more. So the
report is right where nothing was swapped, and elsewhere for the endpoints that a swap leaves alone
(`Way.Palindromic`).
-/

namespace Swnet

/-! ## Byte order -/

/-- `htons` of a little-endian machine. -/
def htons (x : UInt16) : UInt16 := UInt16.ofNat (x.toNat % 256 * 256 + x.toNat / 256)

/-- `ntohs`. -/
def ntohs (x : UInt16) : UInt16 := htons x

/-- `htonl` of a little-endian machine. -/
def htonl (x : UInt32) : UInt32 :=
  UInt32.ofNat (x.toNat % 256 * 16777216 + x.toNat / 256 % 256 * 65536
    + x.toNat / 65536 % 256 * 256 + x.toNat / 16777216)

/-- `ntohl`. -/
def ntohl (x : UInt32) : UInt32 := htonl x

theorem htons_toNat (x : UInt16) : (htons x).toNat = x.toNat % 256 * 256 + x.toNat / 256 := by
  have hx := x.toNat_lt
  rw [htons, UInt16.toNat_ofNat']
  exact Nat.mod_eq_of_lt (by omega)

theorem htonl_toNat (x : UInt32) : (htonl x).toNat =
    x.toNat % 256 * 16777216 + x.toNat / 256 % 256 * 65536 + x.toNat / 65536 % 256 * 256
      + x.toNat / 16777216 := by
  have hx := x.toNat_lt
  rw [htonl, UInt32.toNat_ofNat']
  exact Nat.mod_eq_of_lt (by omega)

@[simp] theorem htons_htons (x : UInt16) : htons (htons x) = x := by
  have hx := x.toNat_lt
  refine UInt16.toNat_inj.mp ?_
  rw [htons_toNat, htons_toNat]
  omega

/-- The four bytes in the other order. -/
theorem htonl_digits {x : UInt32} {a b c d : Nat} (ha : a < 256) (hb : b < 256) (hc : c < 256)
    (hx : x.toNat = a + 256 * b + 65536 * c + 16777216 * d) :
    (htonl x).toNat = d + 256 * c + 65536 * b + 16777216 * a := by
  rw [htonl_toNat]
  omega

@[simp] theorem htonl_htonl (x : UInt32) : htonl (htonl x) = x := by
  have hx := x.toNat_lt
  have hdigits : x.toNat = x.toNat % 256 + 256 * (x.toNat / 256 % 256)
      + 65536 * (x.toNat / 65536 % 256) + 16777216 * (x.toNat / 16777216) := by
    omega
  have hbyte : ∀ n, n % 256 < 256 := fun n => Nat.mod_lt n (by decide)
  have hlast : x.toNat / 16777216 < 256 := by omega
  have honce := htonl_digits (hbyte _) (hbyte _) (hbyte _) hdigits
  refine UInt32.toNat_inj.mp ?_
  rw [htonl_digits hlast (hbyte _) (hbyte _) honce]
  exact hdigits.symm

/-! ## The code -/

/-- `struct sockaddr_in`: the address and the port as they are in memory. -/
structure SockaddrIn where
  sAddr : UInt32
  sinPort : UInt16
  deriving DecidableEq, Repr

/-- The local address has a wildcard: a random port, or any interface. -/
def SockaddrIn.wildcard (a : SockaddrIn) : Bool := a.sinPort = 0 || a.sAddr = 0

/-- `tcp_entry`: what it is asked to bind to is what it records. -/
def tcpEntryLocal (ctx : SockaddrIn) : SockaddrIn := ctx

/-- `tcp_connect`, after `connect`. `getsockname` is the answer of the call of that name. -/
def tcpConnectLocal (localAddr : SockaddrIn) (getsockname : Option SockaddrIn) : SockaddrIn :=
  if localAddr.wildcard then
    match getsockname with
    | some name => ⟨ntohl name.sAddr, name.sinPort⟩
    | none => localAddr
  else localAddr

/-- `tcp_dispatch_io_connected`. -/
def tcpDispatchIoConnectedLocal (localAddr : SockaddrIn) (getsockname : Option SockaddrIn) :
    SockaddrIn :=
  if localAddr.wildcard then
    match getsockname with
    | some addr => ⟨ntohl addr.sAddr, addr.sinPort⟩
    | none => localAddr
  else localAddr

/-- `tcp_syn_copy`: the endpoint in the accept buffer. -/
def tcpSynCopyLocal (pl : SockaddrIn) : SockaddrIn := ⟨pl.sAddr, pl.sinPort⟩

/-- `udp_entry`. -/
def udpEntryLocal (ctx : SockaddrIn) (getsockname : Option SockaddrIn) : SockaddrIn :=
  if ctx.sinPort = 0 then
    match getsockname with
    | some connAddr => ⟨ctx.sAddr, ntohs connAddr.sinPort⟩
    | none => ctx
  else ctx

/-- `syio_v_connect`, after `WSAConnect`. -/
def syioVConnectLocal (localAddr : SockaddrIn) (getsockname : Option SockaddrIn) : SockaddrIn :=
  if localAddr.wildcard then
    match getsockname with
    | some sName => ⟨htonl sName.sAddr, sName.sinPort⟩
    | none => localAddr
  else localAddr

/-- `tcp_getaddr` with `LINK_ADDR_LOCAL`. -/
def tcpGetaddrLocal (localAddr : SockaddrIn) : UInt32 × UInt16 :=
  (htonl localAddr.sAddr, htons localAddr.sinPort)

/-- `udp_getaddr`. -/
def udpGetaddr (localAddr : SockaddrIn) : UInt32 × UInt16 :=
  (htonl localAddr.sAddr, htons localAddr.sinPort)

/-! ## The ways to learn an endpoint -/

/-- How the library learnt the endpoint of a link: it asked for it itself, or for a part of it,
and the system filled in the rest. `bound` is the name the socket had before it was connected. -/
inductive Way where
  | tcpCreate (ctx : SockaddrIn)
  | udpCreate (ctx : SockaddrIn)
  | tcpConnect (ctx : SockaddrIn)
  | ioConnected (ctx : SockaddrIn)
  | udpEntry (ctx : SockaddrIn)
  | raiseGrp (ctx bound : SockaddrIn)
  | accept

namespace Way

/-- The system can have assigned the endpoint `e` this way. -/
def Assigns (e : SockaddrIn) : Way → Prop
  | tcpCreate ctx => e = ctx
  | udpCreate ctx => e = ctx ∧ ctx.sinPort ≠ 0
  | tcpConnect ctx | ioConnected ctx => ctx.wildcard = true
  | udpEntry ctx => ctx.sinPort = 0 ∧ e.sAddr = ctx.sAddr
  | raiseGrp ctx bound => (udpEntryLocal ctx (some bound)).wildcard = true
  | accept => True

/-- What is recorded for the endpoint `e`. -/
def localAddr (e : SockaddrIn) : Way → SockaddrIn
  | tcpCreate ctx => tcpEntryLocal ctx
  | udpCreate ctx => udpEntryLocal ctx (some e)
  | tcpConnect ctx => tcpConnectLocal (tcpEntryLocal ctx) (some e)
  | ioConnected ctx => tcpDispatchIoConnectedLocal (tcpEntryLocal ctx) (some e)
  | udpEntry ctx => udpEntryLocal ctx (some e)
  | raiseGrp ctx bound => syioVConnectLocal (udpEntryLocal ctx (some bound)) (some e)
  | accept => tcpSynCopyLocal e

/-- What is reported for the endpoint `e`. -/
def getaddr (e : SockaddrIn) (w : Way) : UInt32 × UInt16 :=
  match w with
  | udpCreate _ | udpEntry _ | raiseGrp _ _ => udpGetaddr (w.localAddr e)
  | tcpCreate _ | tcpConnect _ | ioConnected _ | accept => tcpGetaddrLocal (w.localAddr e)

/-- The endpoint reads the same in both byte orders, as far as this way mixes them up: the
address where a connection resolved it, the port where `udp_entry` did. -/
def Palindromic (e : SockaddrIn) : Way → Prop
  | tcpConnect _ | ioConnected _ | raiseGrp _ _ => htonl e.sAddr = e.sAddr
  | udpEntry _ => htons e.sinPort = e.sinPort
  | tcpCreate _ | udpCreate _ | accept => True

end Way

/-- **Local endpoints are reported in host byte order**, for every endpoint and every way the
library learnt it, exactly where that way leaves nothing to mix up. -/
theorem getaddr_iff (e : SockaddrIn) (w : Way) (hw : w.Assigns e) :
    w.getaddr e = (ntohl e.sAddr, ntohs e.sinPort) ↔ w.Palindromic e := by
  -- an address that was swapped is swapped back by the reader
  have haddr : ((htonl (ntohl e.sAddr), htons e.sinPort) = (ntohl e.sAddr, ntohs e.sinPort))
      ↔ htonl e.sAddr = e.sAddr := by
    simp [ntohl, ntohs, eq_comm]
  cases w with
  | tcpCreate ctx =>
    obtain rfl : e = ctx := hw
    exact iff_of_true rfl trivial
  | udpCreate ctx =>
    obtain ⟨rfl, hport⟩ := hw
    refine iff_of_true ?_ trivial
    simp [Way.getaddr, Way.localAddr, udpEntryLocal, udpGetaddr, hport, ntohl, ntohs]
  | tcpConnect ctx =>
    have hwild : (tcpEntryLocal ctx).wildcard = true := hw
    have hread : (Way.tcpConnect ctx).getaddr e = (htonl (ntohl e.sAddr), htons e.sinPort) := by
      simp [Way.getaddr, Way.localAddr, tcpConnectLocal, tcpGetaddrLocal, hwild]
    rw [hread]
    exact haddr
  | ioConnected ctx =>
    have hwild : (tcpEntryLocal ctx).wildcard = true := hw
    have hread : (Way.ioConnected ctx).getaddr e = (htonl (ntohl e.sAddr), htons e.sinPort) := by
      simp [Way.getaddr, Way.localAddr, tcpDispatchIoConnectedLocal, tcpGetaddrLocal, hwild]
    rw [hread]
    exact haddr
  | raiseGrp ctx bound =>
    have hwild : (udpEntryLocal ctx (some bound)).wildcard = true := hw
    have hread : (Way.raiseGrp ctx bound).getaddr e
        = (htonl (ntohl e.sAddr), htons e.sinPort) := by
      simp [Way.getaddr, Way.localAddr, syioVConnectLocal, udpGetaddr, hwild, ntohl]
    rw [hread]
    exact haddr
  | udpEntry ctx =>
    obtain ⟨hport, hsame⟩ := hw
    simp [Way.getaddr, Way.localAddr, Way.Palindromic, udpEntryLocal, udpGetaddr, hport,
      hsame, ntohl, ntohs, eq_comm]
  | accept => exact iff_of_true rfl trivial

/-- The endpoint 10.0.0.1:8080, bound explicitly. -/
theorem getaddr_explicit :
    (Way.tcpCreate ⟨0x0100000A, 0x901F⟩).getaddr ⟨0x0100000A, 0x901F⟩ = (0x0A000001, 8080) :=
  (getaddr_iff ⟨0x0100000A, 0x901F⟩ (.tcpCreate ⟨0x0100000A, 0x901F⟩) rfl).mpr trivial

/-- The same endpoint after a connection from the wildcard address: 1.0.0.10. -/
theorem connect_getaddr_swapped :
    (Way.tcpConnect ⟨0, 0x901F⟩).Assigns ⟨0x0100000A, 0x901F⟩
      ∧ (Way.tcpConnect ⟨0, 0x901F⟩).getaddr ⟨0x0100000A, 0x901F⟩ = (0x0100000A, 8080)
      ∧ (Way.tcpConnect ⟨0, 0x901F⟩).getaddr ⟨0x0100000A, 0x901F⟩
          ≠ (ntohl 0x0100000A, ntohs 0x901F) :=
  ⟨rfl, by decide, by decide⟩

end Swnet
