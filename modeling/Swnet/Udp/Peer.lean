import Swnet.Endpoint

/-!
# Swnet — the pseudo connection of a UDP link (`udp.c`, `packet.c`)

`udp_raise_grp` gives the socket a default peer, `udp_detach_grp` takes it away. The link keeps
the address of the peer in `connected_`, without its port, and clears it before it asks the
system to disconnect.

* `peerKept_iff` — for every sequence of calls, when `connected_` mirrors the socket and the calls
  tell the truth;
* `raise_other_port` — a second peer at the same address: success, and nothing changes.

That the flag mirrors the socket is the invariant (`UdpPeer.Mirrors`). A call within the condition
keeps it and tells the truth (`PeerOp.Clean.kept`); one outside of it lies about the peer, or leaves
a flag that does not mirror (`PeerOp.Reports.clean`). The rest is induction on the calls.
-/

namespace Swnet

/-! ## The code -/

/-- `connected_` and `local_addr`, and the default peer of the socket. -/
structure UdpPeer where
  connected : UInt32
  localAddr : SockaddrIn
  peer : Option SockaddrIn
  deriving DecidableEq

def UdpPeer.start (localAddr : SockaddrIn) : UdpPeer := ⟨0, localAddr, none⟩

/-- `syio_v_disconnect`; `wsaConnect` tells whether its `WSAConnect` succeeds. -/
def syioVDisconnect (s : UdpPeer) (wsaConnect : Bool) : Int × UdpPeer :=
  if s.connected = 0 then (0, s)
  else
    let s := { s with connected := 0 }
    if wsaConnect then (0, { s with peer := none }) else (-1, s)

/-- `syio_v_connect`. -/
def syioVConnect (s : UdpPeer) (rAddr : SockaddrIn) (wsaConnect : Bool)
    (getsockname : Option SockaddrIn) : Int × UdpPeer :=
  if ¬ wsaConnect then (-1, s)
  else
    let s := { s with peer := some rAddr }
    (0, { s with localAddr := syioVConnectLocal s.localAddr getsockname })

/-- A call, and what it is answered: by `udprefr`, by `inet_pton`, which yields the address, by
`WSAConnect` and by `getsockname`. -/
inductive PeerOp where
  | raise (prefr : Int) (ip : Option UInt32) (port : UInt16) (wsaConnect : Bool)
    (getsockname : Option SockaddrIn)
  | detach (prefr : Int) (wsaConnect : Bool)

/-- `udp_raise_grp`. -/
def udpRaiseGrp (s : UdpPeer) (prefr : Int) (ip : Option UInt32) (port : UInt16)
    (wsaConnect : Bool) (getsockname : Option SockaddrIn) : Int × UdpPeer :=
  if prefr < 0 then (-1, s)
  else match ip with
    | none => (-1, s)
    | some sAddr =>
      if s.connected ≠ 0 then (if s.connected = sAddr then 0 else -1, s)
      else
        let (retval, s) := syioVConnect s ⟨sAddr, htons port⟩ wsaConnect getsockname
        if 0 ≤ retval then (retval, { s with connected := sAddr }) else (retval, s)

/-- `udp_detach_grp`. -/
def udpDetachGrp (s : UdpPeer) (prefr : Int) (wsaConnect : Bool) : UdpPeer :=
  if prefr < 0 then s
  else if s.connected ≠ 0 then (syioVDisconnect s wsaConnect).2
  else s

/-- The state after a call. -/
def peerStep (s : UdpPeer) : PeerOp → UdpPeer
  | .raise prefr ip port wsaConnect getsockname =>
    (udpRaiseGrp s prefr ip port wsaConnect getsockname).2
  | .detach prefr wsaConnect => udpDetachGrp s prefr wsaConnect

/-! ## What is promised -/

/-- The flag mirrors the socket. -/
def UdpPeer.Mirrors (s : UdpPeer) : Prop := s.connected ≠ 0 ↔ s.peer.isSome

/-- A raise that returns 0 leaves the peer it was asked for, and a call whose `WSAConnect` fails
changes neither the peer nor the flag. -/
def PeerOp.Reports (s : UdpPeer) : PeerOp → Prop
  | .raise prefr ip port wsaConnect getsockname =>
    ((udpRaiseGrp s prefr ip port wsaConnect getsockname).1 = 0 → ∃ sAddr, ip = some sAddr
      ∧ (udpRaiseGrp s prefr ip port wsaConnect getsockname).2.peer = some ⟨sAddr, htons port⟩)
    ∧ (wsaConnect = false →
        (udpRaiseGrp s prefr ip port wsaConnect getsockname).2.peer = s.peer
        ∧ (udpRaiseGrp s prefr ip port wsaConnect getsockname).2.connected = s.connected)
  | .detach prefr wsaConnect => wsaConnect = false →
    (udpDetachGrp s prefr wsaConnect).peer = s.peer
      ∧ (udpDetachGrp s prefr wsaConnect).connected = s.connected

/-- The promise over a sequence of calls. -/
def PeerKept (s : UdpPeer) : List PeerOp → Prop
  | [] => s.Mirrors
  | op :: ops => s.Mirrors ∧ op.Reports s ∧ PeerKept (peerStep s op) ops

/-- What a call must respect: a raise at the address of the peer is for the port of the peer, the
socket is not connected to the address 0.0.0.0, and disconnecting it does not fail. -/
def PeerOp.Clean (s : UdpPeer) : PeerOp → Prop
  | .raise prefr ip port wsaConnect _ => 0 ≤ prefr → ∀ sAddr, ip = some sAddr →
    (s.connected ≠ 0 → s.connected = sAddr → s.peer = some ⟨sAddr, htons port⟩)
      ∧ (s.connected = 0 → sAddr = 0 → wsaConnect = false)
  | .detach prefr wsaConnect => 0 ≤ prefr → s.connected ≠ 0 → wsaConnect = true

/-- Every call of the sequence respects it. -/
def PeerClean (s : UdpPeer) : List PeerOp → Prop
  | [] => True
  | op :: ops => op.Clean s ∧ PeerClean (peerStep s op) ops

/-! ## When it is kept -/

section

variable {s : UdpPeer} {op : PeerOp}

/-- A call that keeps to the condition keeps the promise. -/
theorem PeerOp.Clean.kept (hs : s.Mirrors) (hc : op.Clean s) :
    op.Reports s ∧ (peerStep s op).Mirrors := by
  cases op with
  | raise prefr ip port wsaConnect getsockname =>
    by_cases hprefr : prefr < 0
    · simpa [PeerOp.Reports, peerStep, udpRaiseGrp, hprefr] using hs
    cases ip with
    | none => simpa [PeerOp.Reports, peerStep, udpRaiseGrp, hprefr] using hs
    | some sAddr =>
      obtain ⟨hsame, hzero⟩ := hc (not_lt.mp hprefr) sAddr rfl
      by_cases hconn : s.connected = 0
      · cases wsaConnect with
        | false => simpa [PeerOp.Reports, peerStep, udpRaiseGrp, syioVConnect, hprefr,
            hconn] using hs
        | true =>
          -- the address is not that of a link without a peer
          have hne : sAddr ≠ 0 := fun h => nomatch hzero hconn h
          simp [PeerOp.Reports, peerStep, udpRaiseGrp, syioVConnect, hprefr, hconn,
            UdpPeer.Mirrors, hne]
      · by_cases heq : s.connected = sAddr
        · have hpeer := hsame hconn heq
          subst heq
          simpa [PeerOp.Reports, peerStep, udpRaiseGrp, hprefr, hconn, hpeer] using hs
        · simpa [PeerOp.Reports, peerStep, udpRaiseGrp, hprefr, hconn, heq] using hs
  | detach prefr wsaConnect =>
    by_cases hprefr : prefr < 0
    · simpa [PeerOp.Reports, peerStep, udpDetachGrp, hprefr] using hs
    by_cases hconn : s.connected = 0
    · simpa [PeerOp.Reports, peerStep, udpDetachGrp, hprefr, hconn] using hs
    · have hok := hc (not_lt.mp hprefr) hconn
      subst hok
      simp [PeerOp.Reports, peerStep, udpDetachGrp, syioVDisconnect, hprefr, hconn, UdpPeer.Mirrors]

/-- A call that does not, breaks it. -/
theorem PeerOp.Reports.clean (hr : op.Reports s) (hs' : (peerStep s op).Mirrors) : op.Clean s := by
  cases op with
  | raise prefr ip port wsaConnect getsockname =>
    rintro hprefr sAddr rfl
    have hprefr' : ¬ prefr < 0 := not_lt.mpr hprefr
    refine ⟨fun hconn heq => ?_, fun hconn hzero => ?_⟩
    · -- nothing was asked of the system
      have hrun : udpRaiseGrp s prefr (some sAddr) port wsaConnect getsockname = (0, s) := by
        rw [udpRaiseGrp, if_neg hprefr']
        dsimp only
        rw [if_pos hconn, if_pos heq]
      have h := hr.1
      rw [hrun] at h
      obtain ⟨_, ⟨rfl⟩, hpeer⟩ := h rfl
      exact hpeer
    · cases wsaConnect with
      | false => rfl
      | true =>
        subst hzero
        simp [peerStep, udpRaiseGrp, syioVConnect, hprefr', hconn, UdpPeer.Mirrors] at hs'
  | detach prefr wsaConnect =>
    intro hprefr hconn
    cases wsaConnect with
    | true => rfl
    | false =>
      have h := (hr rfl).2
      simp [udpDetachGrp, syioVDisconnect, not_lt.mpr hprefr, hconn] at h
      exact absurd h.symm hconn

/-- From any state that mirrors its socket. Induction on the calls. -/
theorem kept_iff_clean (hs : s.Mirrors) (ops : List PeerOp) : PeerKept s ops ↔ PeerClean s ops := by
  induction ops generalizing s with
  | nil => exact iff_of_true hs trivial
  | cons op ops ih =>
    constructor
    · rintro ⟨-, hr, hrest⟩
      have hs' : (peerStep s op).Mirrors := by
        cases ops with
        | nil => exact hrest
        | cons op' ops => exact hrest.1
      exact ⟨hr.clean hs', (ih hs').mp hrest⟩
    · rintro ⟨hc, hrest⟩
      obtain ⟨hr, hs'⟩ := hc.kept hs
      exact ⟨hs, hr, (ih hs').mpr hrest⟩

end

/-- **When the flag mirrors the socket**, over every sequence of calls on a new link. -/
theorem peerKept_iff (localAddr : SockaddrIn) (ops : List PeerOp) :
    PeerKept (.start localAddr) ops ↔ PeerClean (.start localAddr) ops :=
  kept_iff_clean (by simp [UdpPeer.Mirrors, UdpPeer.start]) ops

/-- The link is raised to port 80 of a peer, then to port 81: 0 is returned, and the peer stays. -/
theorem raise_other_port : ¬ PeerKept (.start ⟨0, 0⟩)
    [.raise 0 (some 0x0100000A) 80 true none, .raise 0 (some 0x0100000A) 81 true none] := by
  rintro ⟨-, -, -, hr, -⟩
  obtain ⟨sAddr, hip, hpeer⟩ := hr.1 (by decide)
  cases hip
  exact absurd hpeer (by decide)

end Swnet
