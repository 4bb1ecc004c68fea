import Mathlib.Data.Finset.Insert
import Swnet.Basic

/-!
# Swnet — multicast groups (`udp.c`)

`udp_joingrp`, `udp_dropgrp`, and what `udp_unload` leaves of them. A link has one record of a
group, `mreq`, whatever it joins: it is overwritten before the system has agreed, it stays when
the group is left, and it is never freed.

* `mreqKept_iff` — when the record is right, for every sequence of calls;
* `mreqKept_lost` — no memory, a refusal, two groups, a group that is left, an unload.

`Mcast.Keeps` lists the states in which the record is right: nothing joined and nothing allocated,
one group joined and recorded, or unloaded with nothing left. For each of the three functions a call
within the condition leads from one of them to another (`_keeps`), and any other call breaks the
promise at once or leaves a state that is none of them (`_breaks`).
-/

namespace Swnet

open CMem

/-! ## The calls -/

/-- `struct ip_mreq`. -/
structure IpMreq where
  imrMultiaddr : UInt32
  imrInterface : UInt32
  deriving DecidableEq

/-- What a link has for its groups: `UDP_FLAG_MULTICAST`, `local_addr`, `mreq` with the blocks
allocated for it, and the groups the system has made its socket a member of. `allocated` is the
address of the next block. -/
structure Mcast where
  multicast : Bool
  localAddr : UInt32
  mreq : Option Nat
  heap : Heap IpMreq
  allocated : Nat
  members : Finset IpMreq
  unloaded : Bool

namespace Mcast

/-- A new link. -/
def start (multicast : Bool) (localAddr : UInt32) : Mcast where
  multicast := multicast
  localAddr := localAddr
  mreq := none
  heap _ := .absent
  allocated := 0
  members := ∅
  unloaded := false

/-- `if (!ncb->mreq) ncb->mreq = malloc(sizeof(struct ip_mreq));` -/
def mallocMreq (s : Mcast) (malloc : Option IpMreq) : Mcast :=
  match s.mreq, malloc with
  | none, some r =>
    { s with
      mreq := some s.allocated
      heap := Function.update s.heap s.allocated (.live r)
      allocated := s.allocated + 1 }
  | _, _ => s

end Mcast

def socketError : Int := -1

/-- What `setsockopt` returns. -/
def setsockopt (successful : Bool) : Int := if successful then 0 else socketError

/-- The answers to the calls of `udp_joingrp`. -/
structure JoinAnswers where
  multicastLoop : Bool
  malloc : Option IpMreq
  addMembership : Bool

/-- `udp_joingrp`, once there is a block for the group: it is filled, and then joined. -/
def addMembership (s : Mcast) (a : Nat) (gAddr : UInt32) (successful : Bool) :
    Exec (Int × Mcast) := do
  let r ← (s.heap a).get
  let r := { r with imrMultiaddr := gAddr, imrInterface := s.localAddr }
  let s := { s with heap := Function.update s.heap a (.live r) }
  let retval := setsockopt successful
  if retval = socketError then return (retval, s)
  else return (0, { s with members := insert r s.members })

/-- `udp_joingrp`. `g_ipstr` is known by what `inet_addr` makes of it. -/
def udpJoingrp (s : Mcast) (lnk : Int) (gIpstr : Option UInt32) (gPort : UInt16)
    (o : JoinAnswers) : Exec (Int × Mcast) :=
  match gIpstr with
  | none => return (-einval, s)
  | some gAddr =>
    if lnk < 0 ∨ gPort = 0 then return (-einval, s)
    else if s.unloaded then return (-1, s)
    else if ¬ s.multicast then return (-1, s)
    else
      let retval := setsockopt o.multicastLoop
      if retval = socketError then return (retval, s)
      else
        let s := s.mallocMreq o.malloc
        match s.mreq with
        | none => return (retval, s)
        | some a => addMembership s a gAddr o.addMembership

/-- `udp_dropgrp`, with the answers to its two calls of `setsockopt`. -/
def udpDropgrp (s : Mcast) (lnk : Int) (multicastLoop dropMembership : Bool) :
    Exec (Int × Mcast) :=
  if lnk < 0 then return (-einval, s)
  else if s.unloaded then return (-1, s)
  else if ¬ s.multicast then return (-1, s)
  else match s.mreq with
    | none => return (-1, s)
    | some a => do
      let retval := setsockopt multicastLoop
      if retval = socketError then return (retval, s)
      else do
        let r ← (s.heap a).get
        let retval := setsockopt dropMembership
        if retval = socketError then return (retval, s)
        else return (0, { s with members := s.members.erase r })

/-- What `udp_unload` does to the groups: with the socket the memberships end. -/
def udpUnloadGrps (s : Mcast) : Mcast :=
  if s.unloaded then s else { s with members := ∅, unloaded := true }

/-! ## Sequences of calls -/

inductive McastOp where
  | joingrp (lnk : Int) (gIpstr : Option UInt32) (gPort : UInt16) (o : JoinAnswers)
  | dropgrp (lnk : Int) (multicastLoop dropMembership : Bool)
  | unload

def mcastStep (s : Mcast) : McastOp → Exec (Int × Mcast)
  | .joingrp lnk gIpstr gPort o => udpJoingrp s lnk gIpstr gPort o
  | .dropgrp lnk multicastLoop dropMembership => udpDropgrp s lnk multicastLoop dropMembership
  | .unload => return (0, udpUnloadGrps s)

def mcastRun (s : Mcast) : List McastOp → Exec Mcast
  | [] => return s
  | op :: ops => do
    let (_, s) ← mcastStep s op
    mcastRun s ops

/-! ## What is promised -/

/-- A call of `udp_dropgrp`: the link and the answers. -/
structure DropCall where
  lnk : Int
  multicastLoop : Bool
  dropMembership : Bool

def DropCall.op (d : DropCall) : McastOp := .dropgrp d.lnk d.multicastLoop d.dropMembership

/-- Later calls of `udp_dropgrp` can end the membership in `g`. -/
def Mcast.Droppable (s : Mcast) (g : IpMreq) : Prop :=
  ∃ (drops : List DropCall) (s' : Mcast), mcastRun s (drops.map DropCall.op) = .ok s'
    ∧ g ∉ s'.members

/-- The record is right: it holds a group the socket is a member of, it is absent when there is
none, every group can still be left, and no block is left once the link is unloaded. -/
structure Mcast.Recorded (s : Mcast) : Prop where
  recorded : s.unloaded = false → ∀ a, s.mreq = some a → ∃ r ∈ s.members, s.heap a = .live r
  absent : s.unloaded = false → s.members = ∅ → s.mreq = none
  droppable : ∀ g ∈ s.members, s.Droppable g
  freed : s.unloaded = true → s.heap.Owns s.allocated none

/-- `udp_joingrp` returns 0 only when the socket is a member of the group. -/
def McastOp.Reports (s : Mcast) : McastOp → Int → Mcast → Prop
  | .joingrp _ gIpstr _ _, retval, s' => retval = 0 →
      ∃ gAddr, gIpstr = some gAddr ∧ ⟨gAddr, s.localAddr⟩ ∈ s'.members
  | _, _, _ => True

/-- The promise over a sequence of calls: none stops with a fault, and the record is right in
every state. -/
def MreqKept (s : Mcast) : List McastOp → Prop
  | [] => s.Recorded
  | op :: ops => s.Recorded ∧ ∃ r s', mcastStep s op = .ok (r, s') ∧ op.Reports s r s'
      ∧ MreqKept s' ops

/-- What a call must respect. The first group that a link asks for gets its memory and is joined,
and any later join is for that group; it is never left; and a link with a record is not
unloaded. -/
def McastOp.Clean (s : Mcast) : McastOp → Prop
  | .joingrp lnk gIpstr gPort o => ∀ gAddr, gIpstr = some gAddr → 0 ≤ lnk → gPort ≠ 0 →
      s.unloaded = false → s.multicast = true → o.multicastLoop = true →
      match s.mreq with
      | none => o.malloc.isSome ∧ o.addMembership = true
      | some a => s.heap a = .live ⟨gAddr, s.localAddr⟩
  | .dropgrp lnk multicastLoop dropMembership => 0 ≤ lnk → s.unloaded = false →
      s.multicast = true → s.mreq.isSome → ¬ (multicastLoop = true ∧ dropMembership = true)
  | .unload => s.unloaded = false → s.mreq = none

/-- Every call of the sequence respects it. -/
def MreqClean (s : Mcast) : List McastOp → Prop
  | [] => True
  | op :: ops => op.Clean s ∧ ∀ r s', mcastStep s op = .ok (r, s') → MreqClean s' ops

/-! ## The states -/

/-- Where the record is right: no group was ever joined, one was and is recorded, or the link was
unloaded without a record. -/
inductive Mcast.Keeps (s : Mcast) : Prop
  | bare (hu : s.unloaded = false) (hmreq : s.mreq = none) (hmem : s.members = ∅)
      (hown : s.heap.Owns s.allocated none) : Keeps s
  | joined (hu : s.unloaded = false) (hmulti : s.multicast = true) (a : Nat) (r : IpMreq)
      (hmreq : s.mreq = some a) (hmem : s.members = {r})
      (hown : s.heap.Owns s.allocated (some (a, r))) : Keeps s
  | gone (hu : s.unloaded = true) (hmem : s.members = ∅) (hown : s.heap.Owns s.allocated none) :
      Keeps s

section

variable {s s' : Mcast} {a : Nat} {r g : IpMreq} {retval lnk : Int} {gAddr : UInt32}
  {gIpstr : Option UInt32} {gPort : UInt16} {o : JoinAnswers} {multicastLoop dropMembership : Bool}

@[simp] theorem setsockopt_false : setsockopt false = socketError := rfl

@[simp] theorem setsockopt_true : setsockopt true = 0 := rfl

/-! ### Leaving -/

/-- A call of `udp_dropgrp` changes nothing, or ends the membership in the group on record. -/
theorem udpDropgrp_cases
    (h : udpDropgrp s lnk multicastLoop dropMembership = .ok (retval, s')) :
    s' = s ∨ multicastLoop = true ∧ dropMembership = true ∧ ∃ a r, s.mreq = some a
      ∧ s.heap a = .live r ∧ s' = { s with members := s.members.erase r } := by
  unfold udpDropgrp at h
  -- a link that is not there, is gone, is no multicast link: nothing is done
  split at h
  · cases h
    exact .inl rfl
  split at h
  · cases h
    exact .inl rfl
  split at h
  · cases h
    exact .inl rfl
  split at h
  next =>
    cases h
    exact .inl rfl
  -- with a record: the two options are set one after the other
  next a hmreq =>
    cases multicastLoop with
    | false =>
      cases h
      exact .inl rfl
    | true =>
      dsimp only at h
      rw [if_neg (show ¬ setsockopt true = socketError by decide)] at h
      cases hcell : s.heap a with
      | absent =>
        rw [hcell] at h
        cases h
      | freed =>
        rw [hcell] at h
        cases h
      | live r =>
        rw [hcell] at h
        cases dropMembership with
        | false =>
          cases h
          exact .inl rfl
        | true =>
          cases h
          exact .inr ⟨rfl, rfl, a, r, hmreq, hcell, rfl⟩

/-- On a link with a record the call ends the membership where the system agrees. -/
theorem udpDropgrp_leaves (hlnk : 0 ≤ lnk) (hu : s.unloaded = false) (hmulti : s.multicast = true)
    (hmreq : s.mreq = some a) (hlive : s.heap a = .live r) :
    udpDropgrp s lnk true true = .ok (0, { s with members := s.members.erase r }) := by
  rw [udpDropgrp, if_neg (not_lt.mpr hlnk), if_neg (by rw [hu]; decide),
    if_neg (by rw [hmulti]; decide), hmreq]
  simp [hlive, socketError]

/-- A group that is not on record cannot be left any more. -/
theorem Mcast.not_droppable (hmreq : s.mreq = some a) (hlive : s.heap a = .live r)
    (hg : g ∈ s.members) (hne : g ≠ r) : ¬ s.Droppable g := by
  rintro ⟨drops, s', hrun, hno⟩
  induction drops generalizing s with
  | nil =>
    cases hrun
    exact hno hg
  | cons d drops ih =>
    cases hstep : mcastStep s d.op with
    | error e =>
      rw [List.map_cons, mcastRun, hstep] at hrun
      cases hrun
    | ok res =>
      obtain ⟨retval, s₁⟩ := res
      rw [List.map_cons, mcastRun, hstep] at hrun
      rcases udpDropgrp_cases hstep with rfl | ⟨-, -, b, q, hb, hq, rfl⟩
      · exact ih hmreq hlive hg hrun
      · -- it was the group on record that was left
        rw [hmreq] at hb
        cases hb
        rw [hlive] at hq
        cases hq
        exact ih (s := { s with members := s.members.erase r }) hmreq hlive
          (Finset.mem_erase.mpr ⟨hne, hg⟩) hrun

/-- In these states the record is right. -/
theorem Mcast.Keeps.recorded (h : s.Keeps) : s.Recorded := by
  cases h with
  | bare hu hmreq hmem hown =>
    refine ⟨fun _ a ha => ?_, fun _ _ => hmreq, fun g hg => ?_, fun hu' => ?_⟩
    · rw [hmreq] at ha
      cases ha
    · rw [hmem] at hg
      exact absurd hg (Finset.notMem_empty g)
    · rw [hu] at hu'
      cases hu'
  | joined hu hmulti a r hmreq hmem hown =>
    refine ⟨fun _ b hb => ?_, fun _ hempty => ?_, fun g hg => ?_, fun hu' => ?_⟩
    · rw [hmreq] at hb
      cases hb
      exact ⟨r, by rw [hmem]; exact Finset.mem_singleton_self r, hown.eq_live⟩
    · rw [hmem] at hempty
      exact absurd hempty (Finset.singleton_ne_empty r)
    -- the group that is recorded can be left
    · rw [hmem, Finset.mem_singleton] at hg
      subst hg
      refine ⟨[⟨0, true, true⟩], { s with members := s.members.erase g }, ?_, ?_⟩
      · have hleave := udpDropgrp_leaves le_rfl hu hmulti hmreq hown.eq_live
        show mcastRun s [.dropgrp 0 true true] = _
        rw [mcastRun, mcastStep, hleave]
        rfl
      · exact Finset.notMem_erase g s.members
    · rw [hu] at hu'
      cases hu'
  | gone hu hmem hown =>
    refine ⟨fun hu' => ?_, fun hu' => ?_, fun g hg => ?_, fun _ => hown⟩
    · rw [hu] at hu'
      cases hu'
    · rw [hu] at hu'
      cases hu'
    · rw [hmem] at hg
      exact absurd hg (Finset.notMem_empty g)

/-! ### Joining -/

/-- The call gets to the point where it needs a block. -/
def JoinAsks (s : Mcast) (lnk : Int) (gPort : UInt16) (o : JoinAnswers) : Prop :=
  0 ≤ lnk ∧ gPort ≠ 0 ∧ s.unloaded = false ∧ s.multicast = true ∧ o.multicastLoop = true

/-- Where it does not, it fails and changes nothing. -/
theorem udpJoingrp_refuses (h : gIpstr = none ∨ ¬ JoinAsks s lnk gPort o) :
    ∃ retval, retval ≠ 0 ∧ udpJoingrp s lnk gIpstr gPort o = .ok (retval, s) := by
  unfold udpJoingrp
  split
  next => exact ⟨_, by decide, rfl⟩
  next gAddr =>
    have hno := h.resolve_left (Option.some_ne_none gAddr)
    by_cases hargs : lnk < 0 ∨ gPort = 0
    · exact ⟨-einval, by decide, if_pos hargs⟩
    rw [if_neg hargs]
    cases hu : s.unloaded with
    | true => exact ⟨-1, by decide, rfl⟩
    | false =>
      cases hmulti : s.multicast with
      | false => exact ⟨-1, by decide, rfl⟩
      | true =>
        cases hloop : o.multicastLoop with
        | false => exact ⟨socketError, by decide, rfl⟩
        | true =>
          obtain ⟨hlnk, hport⟩ := not_or.mp hargs
          exact absurd ⟨not_lt.mp hlnk, hport, hu, hmulti, hloop⟩ hno

/-- Where it does, the block decides. -/
theorem udpJoingrp_asks (h : JoinAsks s lnk gPort o) :
    udpJoingrp s lnk (some gAddr) gPort o = match (s.mallocMreq o.malloc).mreq with
      | none => .ok (0, s.mallocMreq o.malloc)
      | some a => addMembership (s.mallocMreq o.malloc) a gAddr o.addMembership := by
  obtain ⟨hlnk, hport, hu, hmulti, hloop⟩ := h
  have hargs : ¬ (lnk < 0 ∨ gPort = 0) := not_or.mpr ⟨not_lt.mpr hlnk, hport⟩
  unfold udpJoingrp
  dsimp only
  rw [if_neg hargs, if_neg (by rw [hu]; decide), if_neg (by rw [hmulti]; decide), hloop,
    if_neg (show ¬ setsockopt true = socketError by decide)]
  rfl

/-- The group is recorded, whether it is joined or not. -/
theorem addMembership_records (gAddr : UInt32) (hlive : s.heap a = .live r) (successful : Bool) :
    ∃ retval, addMembership s a gAddr successful = .ok (retval, { s with
      heap := Function.update s.heap a (.live ⟨gAddr, s.localAddr⟩)
      members := if successful then insert ⟨gAddr, s.localAddr⟩ s.members else s.members }) := by
  unfold addMembership
  rw [hlive]
  cases successful with
  | false => exact ⟨socketError, rfl⟩
  | true => exact ⟨0, rfl⟩

/-- Without memory for the first group, 0 is returned. -/
theorem udpJoingrp_starved (h : JoinAsks s lnk gPort o) (hmreq : s.mreq = none)
    (hmalloc : o.malloc = none) : udpJoingrp s lnk (some gAddr) gPort o = .ok (0, s) := by
  have hsame : s.mallocMreq o.malloc = s := by simp [Mcast.mallocMreq, hmalloc]
  rw [udpJoingrp_asks h, hsame, hmreq]

/-- The first group is recorded in a new block. -/
theorem udpJoingrp_first (gAddr : UInt32) (h : JoinAsks s lnk gPort o) (hmreq : s.mreq = none)
    (hmalloc : o.malloc = some r) :
    ∃ retval, udpJoingrp s lnk (some gAddr) gPort o = .ok (retval, { s with
      mreq := some s.allocated
      heap := Function.update (Function.update s.heap s.allocated (.live r)) s.allocated
        (.live ⟨gAddr, s.localAddr⟩)
      allocated := s.allocated + 1
      members :=
        if o.addMembership then insert ⟨gAddr, s.localAddr⟩ s.members else s.members }) := by
  have hblock : s.mallocMreq o.malloc = { s with
      mreq := some s.allocated
      heap := Function.update s.heap s.allocated (.live r)
      allocated := s.allocated + 1 } := by
    simp [Mcast.mallocMreq, hmreq, hmalloc]
  rw [udpJoingrp_asks h, hblock]
  exact addMembership_records gAddr (Function.update_self ..) o.addMembership

/-- Any later one in the block that is there. -/
theorem udpJoingrp_again (gAddr : UInt32) (h : JoinAsks s lnk gPort o) (hmreq : s.mreq = some a)
    (hlive : s.heap a = .live r) :
    ∃ retval, udpJoingrp s lnk (some gAddr) gPort o = .ok (retval, { s with
      heap := Function.update s.heap a (.live ⟨gAddr, s.localAddr⟩)
      members :=
        if o.addMembership then insert ⟨gAddr, s.localAddr⟩ s.members else s.members }) := by
  have hsame : s.mallocMreq o.malloc = s := by simp [Mcast.mallocMreq, hmreq]
  have hrecords := addMembership_records gAddr hlive o.addMembership
  rw [udpJoingrp_asks h, hsame]
  rw [hmreq] at hrecords ⊢
  exact hrecords

/-! ### One call -/

/-- A link that is asked is not unloaded. -/
theorem JoinAsks.not_unloaded (h : JoinAsks s lnk gPort o) : s.unloaded = false := h.2.2.1

/-- A call of `udp_joingrp` that meets the condition keeps the promise. -/
theorem udpJoingrp_keeps (h : s.Keeps) (hclean : (McastOp.joingrp lnk gIpstr gPort o).Clean s) :
    ∃ retval s', udpJoingrp s lnk gIpstr gPort o = .ok (retval, s')
      ∧ (McastOp.joingrp lnk gIpstr gPort o).Reports s retval s' ∧ s'.Keeps := by
  by_cases hrefused : gIpstr = none ∨ ¬ JoinAsks s lnk gPort o
  · obtain ⟨retval, hne, heq⟩ := udpJoingrp_refuses hrefused
    exact ⟨retval, s, heq, fun hzero => absurd hzero hne, h⟩
  obtain ⟨hsome, hasks⟩ := not_or.mp hrefused
  have hasks := not_not.mp hasks
  obtain ⟨gAddr, rfl⟩ := Option.ne_none_iff_exists'.mp hsome
  have hclean := hclean gAddr rfl hasks.1 hasks.2.1 hasks.2.2.1 hasks.2.2.2.1 hasks.2.2.2.2
  cases h with
  | bare hu hmreq hmem hown =>
    rw [hmreq] at hclean
    obtain ⟨hmalloc, hadd⟩ := hclean
    obtain ⟨r, hr⟩ := Option.isSome_iff_exists.mp hmalloc
    obtain ⟨retval, heq⟩ := udpJoingrp_first gAddr hasks hmreq hr
    refine ⟨retval, _, heq, fun _ => ⟨gAddr, rfl, ?_⟩, ?_⟩
    · rw [hadd, if_pos rfl]
      exact Finset.mem_insert_self ..
    · refine .joined hu hasks.2.2.2.1 s.allocated ⟨gAddr, s.localAddr⟩ rfl ?_
        ((hown.alloc r).write _)
      rw [hadd, if_pos rfl, hmem]
      rfl
  | joined hu hmulti a r hmreq hmem hown =>
    -- the group on record is asked for again
    rw [hmreq] at hclean
    have hsame : r = ⟨gAddr, s.localAddr⟩ := by
      have hlive := hown.eq_live
      rw [hclean] at hlive
      cases hlive
      rfl
    obtain ⟨retval, heq⟩ := udpJoingrp_again gAddr hasks hmreq hown.eq_live
    have hstays : (if o.addMembership then insert ⟨gAddr, s.localAddr⟩ s.members else s.members)
        = {r} := by
      rw [hmem, hsame]
      split
      · exact Finset.insert_eq_self.mpr (Finset.mem_singleton_self _)
      · rfl
    refine ⟨retval, _, heq, fun _ => ⟨gAddr, rfl, ?_⟩, ?_⟩
    · show _ ∈ (if o.addMembership then insert ⟨gAddr, s.localAddr⟩ s.members else s.members)
      rw [hstays, hsame]
      exact Finset.mem_singleton_self _
    · refine .joined hu hmulti a r hmreq hstays ?_
      rw [← hsame]
      exact hown.write r
  | gone hu hmem hown =>
    have hno := hasks.not_unloaded
    rw [hu] at hno
    cases hno

/-- One that does not breaks it. -/
theorem udpJoingrp_breaks (h : s.Keeps) (hno : ¬ (McastOp.joingrp lnk gIpstr gPort o).Clean s)
    (heq : udpJoingrp s lnk gIpstr gPort o = .ok (retval, s'))
    (hreports : (McastOp.joingrp lnk gIpstr gPort o).Reports s retval s') : ¬ s'.Recorded := by
  intro hrec
  refine hno fun gAddr hsome hlnk hport hu hmulti hloop => ?_
  subst hsome
  have hasks : JoinAsks s lnk gPort o := ⟨hlnk, hport, hu, hmulti, hloop⟩
  cases h with
  | bare hu hmreq hmem hown =>
    rw [hmreq]
    cases hmalloc : o.malloc with
    | none =>
      -- no memory: 0 is returned, and there is no member
      rw [udpJoingrp_starved hasks hmreq hmalloc] at heq
      cases heq
      obtain ⟨g, -, hmember⟩ := hreports rfl
      rw [hmem] at hmember
      exact absurd hmember (Finset.notMem_empty _)
    | some r =>
      refine ⟨rfl, ?_⟩
      by_contra hadd
      obtain ⟨retval', heq'⟩ := udpJoingrp_first gAddr hasks hmreq hmalloc
      rw [heq'] at heq
      cases heq
      -- the group is on record, and was not joined
      obtain ⟨q, hq, -⟩ := hrec.recorded hu _ rfl
      rw [if_neg hadd, hmem] at hq
      exact absurd hq (Finset.notMem_empty q)
  | joined hu hmulti a r hmreq hmem hown =>
    rw [hmreq]
    obtain ⟨retval', heq'⟩ := udpJoingrp_again gAddr hasks hmreq hown.eq_live
    rw [heq'] at heq
    obtain ⟨-, hs'⟩ := Prod.mk.inj (Except.ok.inj heq)
    have hu' : s'.unloaded = false := by rw [← hs']; exact hu
    have hmreq' : s'.mreq = some a := by rw [← hs']; exact hmreq
    have hlive' : s'.heap a = .live ⟨gAddr, s.localAddr⟩ := by
      rw [← hs']
      exact Function.update_self ..
    have hmem' : s'.members = if o.addMembership then {⟨gAddr, s.localAddr⟩, r} else {r} := by
      rw [← hs', ← hmem]
    show s.heap a = .live ⟨gAddr, s.localAddr⟩
    rw [hown.eq_live]
    by_contra hdiffer
    have hne : r ≠ ⟨gAddr, s.localAddr⟩ := fun hsame => hdiffer (by rw [hsame])
    cases hadd : o.addMembership with
    | false =>
      -- the group on record was not joined
      obtain ⟨q, hq, hlive⟩ := hrec.recorded hu' a hmreq'
      rw [hlive'] at hlive
      cases hlive
      rw [hmem', hadd, if_neg Bool.false_ne_true, Finset.mem_singleton] at hq
      exact hne hq.symm
    | true =>
      -- the first group cannot be left any more
      have hr : r ∈ s'.members := by
        rw [hmem', hadd, if_pos rfl]
        exact Finset.mem_insert_of_mem (Finset.mem_singleton_self r)
      exact Mcast.not_droppable hmreq' hlive' hr hne (hrec.droppable r hr)
  | gone hu' hmem hown =>
    rw [hu] at hu'
    cases hu'

/-- A call of `udp_dropgrp` that meets the condition changes nothing. -/
theorem udpDropgrp_keeps (h : s.Keeps)
    (hclean : (McastOp.dropgrp lnk multicastLoop dropMembership).Clean s) :
    ∃ retval, udpDropgrp s lnk multicastLoop dropMembership = .ok (retval, s) := by
  unfold udpDropgrp
  by_cases hlnk : lnk < 0
  · exact ⟨-einval, if_pos hlnk⟩
  rw [if_neg hlnk]
  cases hu : s.unloaded with
  | true => exact ⟨-1, rfl⟩
  | false =>
    cases hmulti : s.multicast with
    | false => exact ⟨-1, rfl⟩
    | true =>
      have hclean := hclean (not_lt.mp hlnk) hu hmulti
      cases h with
      | bare _ hmreq hmem hown => exact ⟨-1, by rw [hmreq]; rfl⟩
      | joined _ _ a r hmreq hmem hown =>
        rw [hmreq] at hclean ⊢
        cases multicastLoop with
        | false => exact ⟨socketError, rfl⟩
        | true =>
          cases dropMembership with
          | false => exact ⟨socketError, by simp [hown.eq_live, socketError]⟩
          -- to leave the group for good would leave the record behind
          | true => exact absurd ⟨rfl, rfl⟩ (hclean rfl)
      | gone hu' =>
        rw [hu] at hu'
        cases hu'

/-- One that does not leaves the group, and its record. -/
theorem udpDropgrp_breaks (h : s.Keeps)
    (hno : ¬ (McastOp.dropgrp lnk multicastLoop dropMembership).Clean s)
    (heq : udpDropgrp s lnk multicastLoop dropMembership = .ok (retval, s')) : ¬ s'.Recorded := by
  intro hrec
  refine hno fun hlnk hu hmulti hsome hagreed => ?_
  obtain ⟨hloop, hdrop⟩ := hagreed
  cases h with
  | bare _ hmreq =>
    rw [hmreq] at hsome
    cases hsome
  | joined _ _ a r hmreq hmem hown =>
    rw [hloop, hdrop, udpDropgrp_leaves hlnk hu hmulti hmreq hown.eq_live] at heq
    obtain ⟨-, hs'⟩ := Prod.mk.inj (Except.ok.inj heq)
    obtain ⟨q, hq, -⟩ := hrec.recorded (by rw [← hs']; exact hu) a (by rw [← hs']; exact hmreq)
    have hempty : s'.members = ∅ := by
      rw [← hs', hmem]
      exact Finset.erase_singleton r
    rw [hempty] at hq
    exact absurd hq (Finset.notMem_empty q)
  | gone hu' =>
    rw [hu] at hu'
    cases hu'

/-- An unload without a record. -/
theorem udpUnloadGrps_keeps (h : s.Keeps) (hclean : McastOp.unload.Clean s) :
    (udpUnloadGrps s).Keeps := by
  unfold udpUnloadGrps
  cases h with
  | bare hu hmreq hmem hown =>
    rw [if_neg (by rw [hu]; decide)]
    exact .gone rfl rfl hown
  | joined hu _ a r hmreq =>
    have hnone := hclean hu
    rw [hmreq] at hnone
    cases hnone
  | gone hu hmem hown =>
    rw [if_pos hu]
    exact .gone hu hmem hown

/-- An unload with one leaves the block. -/
theorem udpUnloadGrps_breaks (h : s.Keeps) (hno : ¬ McastOp.unload.Clean s) :
    ¬ (udpUnloadGrps s).Recorded := by
  intro hrec
  refine hno fun hu => ?_
  cases h with
  | bare _ hmreq => exact hmreq
  | joined _ _ a r hmreq hmem hown =>
    rw [udpUnloadGrps, if_neg (by rw [hu]; decide)] at hrec
    have hdead := (hrec.freed rfl).dead a
    rw [hown.eq_live] at hdead
    exact hdead.elim
  | gone hu' =>
    rw [hu] at hu'
    cases hu'

/-- **A call within the condition keeps the record.** -/
theorem mcastStep_keeps (h : s.Keeps) {op : McastOp} (hclean : op.Clean s) :
    ∃ retval s', mcastStep s op = .ok (retval, s') ∧ op.Reports s retval s' ∧ s'.Keeps := by
  cases op with
  | joingrp lnk gIpstr gPort o => exact udpJoingrp_keeps h hclean
  | dropgrp lnk multicastLoop dropMembership =>
    obtain ⟨retval, heq⟩ := udpDropgrp_keeps h hclean
    exact ⟨retval, s, heq, trivial, h⟩
  | unload => exact ⟨0, _, rfl, trivial, udpUnloadGrps_keeps h hclean⟩

/-- **A call outside of it breaks it.** -/
theorem mcastStep_breaks (h : s.Keeps) {op : McastOp} (hno : ¬ op.Clean s)
    (heq : mcastStep s op = .ok (retval, s')) (hreports : op.Reports s retval s') :
    ¬ s'.Recorded := by
  cases op with
  | joingrp lnk gIpstr gPort o => exact udpJoingrp_breaks h hno heq hreports
  | dropgrp lnk multicastLoop dropMembership => exact udpDropgrp_breaks h hno heq
  | unload =>
    cases heq
    exact udpUnloadGrps_breaks h hno

/-- The promise holds at the start. -/
theorem MreqKept.recorded {ops : List McastOp} (h : MreqKept s ops) : s.Recorded := by
  cases ops with
  | nil => exact h
  | cons op ops => exact h.1

/-- One call at a time, from any state in which the record is right. -/
theorem mreqKept_iff_of_keeps (h : s.Keeps) (ops : List McastOp) :
    MreqKept s ops ↔ MreqClean s ops := by
  induction ops generalizing s with
  | nil => exact ⟨fun _ => trivial, fun _ => h.recorded⟩
  | cons op ops ih =>
    constructor
    · rintro ⟨-, retval, s₁, hstep, hreports, hrest⟩
      have hclean : op.Clean s := by
        by_contra hno
        exact mcastStep_breaks h hno hstep hreports hrest.recorded
      refine ⟨hclean, fun retval' s' hstep' => ?_⟩
      obtain ⟨retval₂, s₂, hstep₂, -, hkeeps⟩ := mcastStep_keeps h hclean
      rw [hstep] at hstep' hstep₂
      cases hstep'
      cases hstep₂
      exact (ih hkeeps).mp hrest
    · rintro ⟨hclean, hrest⟩
      obtain ⟨retval, s₁, hstep, hreports, hkeeps⟩ := mcastStep_keeps h hclean
      exact ⟨h.recorded, retval, s₁, hstep, hreports, (ih hkeeps).mpr (hrest retval s₁ hstep)⟩

end

/-! ## Every sequence of calls -/

/-- **When the record of the groups is right.** Over any sequence of calls on a new link, unloading
included, a join that returns 0 has joined, the record holds the one group of the link, which can
be left, and its block is freed in the end, if and only if the link joins no group but the first,
which is granted its memory and by the system, never leaves it, and is not unloaded after it. -/
theorem mreqKept_iff (multicast : Bool) (localAddr : UInt32) (ops : List McastOp) :
    MreqKept (.start multicast localAddr) ops ↔ MreqClean (.start multicast localAddr) ops :=
  mreqKept_iff_of_keeps (.bare rfl rfl rfl .empty) ops

/-- 224.0.0.251 and 239.255.255.250, in network order. -/
def mdnsGroup : UInt32 := 0xFB0000E0

def ssdpGroup : UInt32 := 0xFAFFFFEF

/-- A call that joins the group `gAddr`, and is granted everything. -/
def joined (gAddr : UInt32) : McastOp := .joingrp 0 (some gAddr) 1 ⟨true, some ⟨0, 0⟩, true⟩

/-- No memory, and 0 is returned; the system refuses, and the group is recorded; the record of a
second group replaces the first; a group that was left stays on record; the block is not freed. -/
theorem mreqKept_lost :
    ¬ MreqKept (.start true 0) [.joingrp 0 (some mdnsGroup) 1 ⟨true, none, true⟩]
    ∧ ¬ MreqKept (.start true 0) [.joingrp 0 (some mdnsGroup) 1 ⟨true, some ⟨0, 0⟩, false⟩]
    ∧ ¬ MreqKept (.start true 0) [joined mdnsGroup, joined ssdpGroup]
    ∧ ¬ MreqKept (.start true 0) [joined mdnsGroup, .dropgrp 0 true true]
    ∧ ¬ MreqKept (.start true 0) [joined mdnsGroup, .unload] := by
  have hstart : (Mcast.start true 0).Keeps := .bare rfl rfl rfl .empty
  have hfirst : ∀ op, MreqKept (.start true 0) [op] → op.Clean (.start true 0) :=
    fun op h => ((mreqKept_iff_of_keeps hstart [op]).mp h).1
  have hsecond : ∀ op, MreqKept (.start true 0) [joined mdnsGroup, op] → op.Clean
      { Mcast.start true 0 with
        mreq := some 0
        heap := Function.update (Function.update (fun _ => .absent) 0 (.live ⟨0, 0⟩)) 0
          (.live ⟨mdnsGroup, 0⟩)
        allocated := 1
        members := insert ⟨mdnsGroup, 0⟩ ∅ } :=
    fun op h => (((mreqKept_iff_of_keeps hstart [joined mdnsGroup, op]).mp h).2 0 _ rfl).1
  refine ⟨fun h => ?_, fun h => ?_, fun h => ?_, fun h => ?_, fun h => ?_⟩
  · have hclean := hfirst _ h mdnsGroup rfl le_rfl (by decide) rfl rfl rfl
    exact Bool.false_ne_true hclean.1
  · have hclean := hfirst _ h mdnsGroup rfl le_rfl (by decide) rfl rfl rfl
    exact Bool.false_ne_true hclean.2
  · have hclean := hsecond _ h ssdpGroup rfl le_rfl (by decide) rfl rfl rfl
    dsimp only at hclean
    rw [Function.update_self] at hclean
    exact absurd hclean (by decide)
  · exact hsecond _ h le_rfl rfl rfl rfl ⟨rfl, rfl⟩
  · exact absurd (hsecond _ h rfl) (Option.some_ne_none 0)

end Swnet
