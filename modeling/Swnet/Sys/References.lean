import Swnet.Sys.Ownership

/-!
# Swnet — references

Every job gives back the references it takes, but for three that never do: `tcp_awaken` and
`udp_awaken`, `nis_cntl` with a command it does not know, and the dispatch of a pipe event. As
long as it holds a reference the control block is there, and no job accesses one that it does
not hold, but for one that has released it too early: `tcp_dispatch_io_connected`, when the
first receive cannot be posted.

A job keeps a record of the references it holds (`RefRecord`), which one call changes at a time.
A function is `Balanced` where it holds in the end what it held before, whatever its calls are
answered, and needs on the way only what it holds; most functions are one reference that is taken
and released around a part that is balanced in its turn (`Refers.bind`). The functions are gone
through from the bottom up, each by its calls and the lemmas of the functions it calls, until every
exported call and every dispatch is covered (`userCall_refs`, `soDispatchIoEvent_refs`, and with the
exceptions `job_refs`). What holds of the runs is drawn from this in `Counting`.
-/

namespace Swnet.Sys

open Jobs Jobs.Prog

/-! ## The record -/

/-- The dispatch of the completion of a connect request that succeeded. -/
def Job.Connects : Job → Bool
  | .completion p status _ _ _ => p.proto = .tcp ∧ p.type = .connect ∧ ntSuccess status = true
  | .user _ => false

/-- A call that can fail on the way to the first receive request of a link. -/
@[simp] def Call.ForReceive : Call → Bool
  | .allocatePacket .. | .objrefr _ | .post _ => true
  | _ => false

/-- What is kept on record of the references of a job. -/
structure RefRecord where
  connects : Bool
  /-- The references it holds. -/
  held : List Int
  /-- The object it allocated with its last call. -/
  fresh : Option Int
  acquired : List Int
  released : List Int
  /-- What it asked to be closed with `objreff`. -/
  shut : List Int
  /-- A step towards a receive request failed while it held a reference. -/
  failed : Bool

namespace RefRecord

/-- The record after a call that was answered with `a`. -/
def after (g : RefRecord) (c : Call) (a : Int) : RefRecord where
  connects := g.connects
  held := match c with
    | .objrefr h | .objreff h => if a < 0 then g.held else h :: g.held
    | .objdefr h => g.held.erase h
    | _ => g.held
  fresh := match c with
    | .objallo .. => some a
    | _ => none
  acquired := match c with
    | .objrefr h | .objreff h => if a < 0 then g.acquired else h :: g.acquired
    | _ => g.acquired
  released := match c with
    | .objdefr h => h :: g.released
    | _ => g.released
  shut := match c with
    | .objreff h => h :: g.shut
    | _ => g.shut
  failed := g.failed || (c.ForReceive && decide (a < 0 ∧ g.held ≠ []))

/-- Only what is held is released, and accessed. -/
@[simp] def Need (g : RefRecord) : Call → Prop
  | .objdefr h => h ∈ g.held
  | .ncb h _ => h ∈ g.held ∨ g.connects = true ∧ g.failed = true
  | .emit n => n.link ∈ g.held
  | _ => True

/-- A reference to what was just allocated is granted. -/
@[simp] def Ok (g : RefRecord) : Call → Int → Prop
  | .objrefr h, a => g.fresh = some h → 0 ≤ h → 0 ≤ a
  | _, _ => True

section

variable {g : RefRecord} {h a : Int}

-- what a call leaves of the references held, one lemma a call
@[simp] theorem held_objrefr :
    (g.after (.objrefr h) a).held = if a < 0 then g.held else h :: g.held := rfl

@[simp] theorem held_objreff :
    (g.after (.objreff h) a).held = if a < 0 then g.held else h :: g.held := rfl

@[simp] theorem held_objdefr : (g.after (.objdefr h) a).held = g.held.erase h := rfl

@[simp] theorem held_objallo {proto : ProtoType} {remote : Bool} :
    (g.after (.objallo proto remote) a).held = g.held := rfl

@[simp] theorem held_objclos : (g.after (.objclos h) a).held = g.held := rfl

@[simp] theorem held_ncb {x : Access} : (g.after (.ncb h x) a).held = g.held := rfl

@[simp] theorem held_allocatePacket {proto : ProtoType} {type : PktType} :
    (g.after (.allocatePacket h proto type) a).held = g.held := rfl

@[simp] theorem held_freepkt : (g.after (.freepkt h) a).held = g.held := rfl

@[simp] theorem held_post {p : IoPacket} : (g.after (.post p) a).held = g.held := rfl

@[simp] theorem held_emit {n : Notice} : (g.after (.emit n) a).held = g.held := rfl

@[simp] theorem held_other {x : OtherCall} : (g.after (.other x) a).held = g.held := rfl

@[simp] theorem held_stuck : (g.after .stuck a).held = g.held := rfl

end

/-- The record of a thread that does nothing. -/
def blank : RefRecord := ⟨false, [], none, [], [], [], false⟩

/-- A job starts with no reference. -/
def start (j : Job) : RefRecord := { blank with connects := j.Connects }

end RefRecord

/-- The link of which a job does not give back its reference. -/
def Job.forgets : Job → Option Int
  | .user (.tcpAwaken l _ _) | .user (.udpAwaken l _ _) | .user (.nisCntl l .unknown) => some l
  | .completion p _ _ _ _ => if p.proto = .pipe then some p.link else none
  | _ => none

/-- What a job can end in. -/
def RefRecord.Post (j : Job) (g : RefRecord) (_ : Int) : Prop :=
  (match j.forgets with
    | none => g.held = []
    | some l => g.held = if l ∈ g.acquired then [l] else [])
  ∧ match j with
    | .user (.tcpDestroy l) | .user (.udpDestroy l) => l ∈ g.shut
    | _ => True

/-- The ledger of references. -/
def references : Ledger Job Call Int Int RefRecord where
  idle := .blank
  init := .start
  upd := .after
  need := RefRecord.Need
  ok := RefRecord.Ok
  post := RefRecord.Post

/-- A call that takes and releases no reference, and only touches what is held. -/
@[simp] def Call.Calm (H : List Int) : Call → Prop
  | .objrefr _ | .objreff _ | .objdefr _ => False
  | .ncb h _ => h ∈ H
  | .emit n => n.link ∈ H
  | _ => True

/-! ## Blocks -/

section

variable {g : RefRecord} {l : Int} {α β : Type}

/-- The program stays within the bounds of the ledger, and holds `H` in the end. -/
abbrev Ends (H : List Int) (p : CallProg α) (g : RefRecord) : Prop :=
  p.Meets RefRecord.after RefRecord.Need RefRecord.Ok g fun g' _ => g'.held = H

/-- It gives back what it takes. -/
abbrev Balanced (p : CallProg α) (g : RefRecord) : Prop := Ends g.held p g

/-- It takes a reference to `l` unless it answers a negative number. -/
abbrev Refers (l : Int) (p : CallProg Int) (g : RefRecord) : Prop :=
  p.Meets RefRecord.after RefRecord.Need RefRecord.Ok g fun g' r =>
    g'.held = if r < 0 then g.held else l :: g.held

/-- A balanced part can be put in front of any program. -/
theorem Ends.bind {H : List Int} {p : CallProg α} {f : α → CallProg β} (hp : Balanced p g)
    (hf : ∀ r g', g'.held = g.held → Ends H (f r) g') : Ends H (p >>= f) g :=
  meets_bind.mpr (hp.mono fun g' r hheld => hf r g' hheld)

/-- Between a reference that is taken and its release. -/
theorem Refers.bind {p : CallProg Int} {f : Int → CallProg α} (hp : Refers l p g)
    (hfail : ∀ r g', r < 0 → g'.held = g.held → Ends g.held (f r) g')
    (hf : ∀ r g', ¬ r < 0 → g'.held = l :: g.held → Ends g.held (f r) g') :
    Balanced (p >>= f) g := by
  refine meets_bind.mpr (hp.mono fun g' r hheld => ?_)
  by_cases hr : r < 0
  · exact hfail r g' hr (hheld.trans (if_pos hr))
  · exact hf r g' hr (hheld.trans (if_neg hr))

/-- A program is balanced whose calls take and release nothing. By induction on the program. -/
theorem calm_refs {p : CallProg α} (hp : p.Uses (Call.Calm g.held)) : Balanced p g := by
  refine hp.keeps (I := fun g' : RefRecord => g'.held = g.held) ?_ ?_ rfl
  · intro g' c hg hc
    cases c <;> simp only [Call.Calm] at hc <;> simp [hc, hg]
  · intro g' c a hg hc
    cases c <;> simp only [Call.Calm] at hc <;> simp [hg]

/-- `tcprefr` and `udprefr` give the reference back where the protocol is another, and then they
answer a negative number. -/
theorem protoRefr_refs {proto : ProtoType} {negative : Int} (hn : negative < 0) :
    Refers l (protoRefr proto negative l) g := by
  simp +contextual [protoRefr, eNOENT, ePROTOTYPE, hn, -not_lt, -Int.not_lt]

/-- `tcprefr` takes a reference to `l`, or fails and takes none. -/
theorem tcprefr_refs : Refers l (tcprefr l) g := protoRefr_refs (by decide)

theorem udprefr_refs : Refers l (udprefr l) g := protoRefr_refs (by decide)

theorem objrefr_refs : Refers l (perform (.objrefr l)) g := by
  simp

/-- `objdefr(ncb->hld)` reads the control block before it gives up the reference to it. -/
theorem objdefrHld_refs {H : List Int} (hg : g.held = l :: H) : Ends H (objdefrHld l) g := by
  simp [hg]

/-- A request takes a reference of its own, and releases it when the system has answered. -/
theorem asioTransfer_refs {p : IoPacket} : Balanced (asioTransfer p) g := by
  simp +contextual [asioTransfer, -not_lt, -Int.not_lt]

/-- `asio_tcp_connect` has one more way out: `ConnectEx` cannot be looked up. -/
theorem asioTcpConnect_refs {p : IoPacket} : Balanced (asioTcpConnect p) g := by
  simp +contextual [asioTcpConnect, -not_lt, -Int.not_lt]

/-- `asio_tcp_accept` references the listener and the accepted link, one after the other. -/
theorem asioTcpAccept_refs {p : IoPacket} : Balanced (asioTcpAccept p) g := by
  simp +contextual [asioTcpAccept, -not_lt, -Int.not_lt]

/-- `tcp_update_local_addr` asks the system, and writes the control block. -/
theorem updateLocalAddr_refs (hl : l ∈ g.held) : Balanced (updateLocalAddr l) g :=
  calm_refs (by simp [updateLocalAddr, hl])

/-- **The shape of most exported functions**: a link is referenced, the body works on it, and it is
released whatever the body returns. The three parts may be those of either protocol. -/
theorem withLink_refs {refr body : CallProg Int} {failed : Int → Int} {defr : CallProg Unit}
    (hrefr : Refers l refr g) (hbody : ∀ g', l ∈ g'.held → Balanced body g')
    (hdefr : ∀ g' H, g'.held = l :: H → Ends H defr g') :
    Balanced (withLink refr failed body defr) g := by
  refine Refers.bind hrefr (fun r g₁ hr h₁ => ?_) fun r g₁ hr h₁ => ?_
  · rw [if_pos hr]
    exact h₁
  · rw [if_neg hr]
    refine Ends.bind (hbody g₁ (by simp [h₁])) fun r₂ g₂ h₂ => ?_
    exact meets_bind.mpr ((hdefr g₂ g.held (h₂.trans h₁)).mono fun g₃ _ h₃ => h₃)

/-! ## Making links -/

/-- The steps of `tcp_entry` touch nothing but the new control block. -/
theorem tcpEntrySteps_refs {remote : Bool} (hl : l ∈ g.held) :
    Balanced (tcpEntrySteps l remote) g :=
  calm_refs (by simp [tcpEntrySteps, tcpEntryLocal, tcpUpdateOpts, hl])

/-- `tcp_entry` works on a control block that its caller holds. -/
theorem tcpEntry_refs {remote : Bool} (hl : l ∈ g.held) : Balanced (tcpEntry l remote) g := by
  refine meets_bind.mpr (meets_void.mpr ⟨.inl hl, fun a _ => ?_⟩)
  refine meets_bind.mpr (meets_void.mpr ⟨.inl hl, fun b _ => ?_⟩)
  refine Ends.bind (tcpEntrySteps_refs hl) fun r g₁ h₁ => ?_
  simp +contextual [hl, h₁]

/-- `tcp_allocate_object` references the object it allocated with the call before: that reference is
granted, so that the failure branch of the code is never taken. -/
theorem tcpAllocateObject_refs {remote : Bool} : Balanced (tcpAllocateObject remote) g := by
  refine meets_bind.mpr (meets_perform.mpr ⟨trivial, fun h _ => ?_⟩)
  refine meets_ite.mpr ⟨fun _ => rfl, fun hh => ?_⟩
  refine meets_bind.mpr (meets_perform.mpr ⟨trivial, fun ncb hncb => ?_⟩)
  -- what was just allocated can be referenced
  have hgranted : ¬ ncb < 0 := by
    have := hncb rfl (by omega)
    omega
  dsimp only
  rw [if_neg hgranted]
  refine Ends.bind (tcpEntry_refs (by simp [hgranted])) fun r g₁ h₁ => ?_
  simp [h₁, hgranted]

/-- `udp_entry`, which takes no reference either. -/
theorem udpEntry_refs {anyPort broadcast : Bool} (hl : l ∈ g.held) :
    Balanced (udpEntry l anyPort broadcast) g :=
  calm_refs (by simp [udpEntry, udpEntryOpts, udpUpdateOpts, hl])

/-- `udp_allocate_object` is written as `tcp_allocate_object` is. -/
theorem udpAllocateObject_refs {anyPort broadcast : Bool} :
    Balanced (udpAllocateObject anyPort broadcast) g := by
  refine meets_bind.mpr (meets_perform.mpr ⟨trivial, fun h _ => ?_⟩)
  refine meets_ite.mpr ⟨fun _ => rfl, fun hh => ?_⟩
  refine meets_bind.mpr (meets_perform.mpr ⟨trivial, fun ncb hncb => ?_⟩)
  have hgranted : ¬ ncb < 0 := by
    have := hncb rfl (by omega)
    omega
  dsimp only
  rw [if_neg hgranted]
  refine Ends.bind (udpEntry_refs (by simp [hgranted])) fun r g₁ h₁ => ?_
  simp [h₁, hgranted]

/-- `tcp_create` checks its arguments, and then allocates the object. -/
theorem tcpCreate_refs {userCallback lIpstr : Bool} :
    Balanced (tcpCreate userCallback lIpstr) g := by
  cases userCallback <;> cases lIpstr
  · simp [tcpCreate]
  · simp [tcpCreate]
  · simpa [tcpCreate] using tcpAllocateObject_refs
  · refine meets_bind.mpr (meets_perform.mpr ⟨trivial, fun a _ => ?_⟩)
    exact meets_ite.mpr ⟨fun _ => rfl, fun _ => tcpAllocateObject_refs⟩

/-- `udp_create` goes on after that: it allocates and posts its receive, and closes the object where
there is no memory for that. -/
theorem udpCreate_refs {userCallback lIpstr anyPort broadcast : Bool} :
    Balanced (udpCreate userCallback lIpstr anyPort broadcast) g := by
  have hmake : ∀ g₁ : RefRecord, Balanced (do
      let h ← udpAllocateObject anyPort broadcast
      if h < 0 then return -1
      else do
        let array ← perform (.other .malloc)
        let packet ← if array < 0 then pure (-1) else perform (.allocatePacket h .udp .recv)
        if packet < 0 then do
          if 0 ≤ array then void (.other .free)
          void (.objclos h)
          return -1
        else do
          let _ ← asioUdpRecv (.plain packet .udp .recv h)
          void (.other .free)
          return h) g₁ := by
    intro g₁
    refine Ends.bind udpAllocateObject_refs fun h g₂ h₂ => ?_
    simp +contextual [asioUdpRecv, asioTransfer, h₂, -not_lt, -Int.not_lt]
  cases userCallback <;> cases lIpstr
  · simp [udpCreate]
  · simp [udpCreate]
  · simpa [udpCreate] using hmake g
  · refine meets_bind.mpr (meets_perform.mpr ⟨trivial, fun a _ => ?_⟩)
    exact meets_ite.mpr ⟨fun _ => rfl, fun _ => hmake _⟩

/-! ## Accepting -/

/-- The rounds of `tcp_syn`: each makes a link and posts an accept request for it. Induction on the
rounds left; a round that fails leaves what it found to the next. -/
theorem tcpSynRounds_refs {k : Int} {n : Nat} (hl : l ∈ g.held) :
    Balanced (tcpSynRounds l k n) g := by
  induction n generalizing g with
  | zero => simp [tcpSynRounds, hl]
  | succ n ih =>
      refine meets_bind.mpr (meets_void.mpr ⟨.inl hl, fun a _ => ?_⟩)
      refine Ends.bind tcpAllocateObject_refs fun h g₁ h₁ => ?_
      replace h₁ : g₁.held = g.held := h₁
      refine meets_ite.mpr ⟨fun _ => by simp [h₁, hl], fun _ => ?_⟩
      refine Ends.bind asioTcpAccept_refs fun r g₂ h₂ => ?_
      have h₃ : g₂.held = g.held := h₂.trans h₁
      refine meets_ite.mpr ⟨fun _ => h₃, fun _ => ?_⟩
      refine meets_bind.mpr (meets_void.mpr ⟨trivial, fun b _ => ?_⟩)
      refine (ih ?_).mono fun g₄ _ h₄ => h₄.trans h₃
      simpa [h₃] using hl

/-- `tcp_syn`, on a listener that its caller holds. -/
theorem tcpSyn_refs (hl : l ∈ g.held) : Balanced (tcpSyn l) g := by
  refine meets_bind.mpr (meets_void.mpr ⟨.inl hl, fun a _ => ?_⟩)
  refine meets_bind.mpr (meets_perform.mpr ⟨trivial, fun k _ => ?_⟩)
  exact meets_ite.mpr ⟨fun _ => rfl, fun _ => tcpSynRounds_refs hl⟩

/-- `tcp_syn_copy` reads the listener and writes the accepted link, both held by its caller. -/
theorem tcpSynCopy_refs {h : Int} {irp : AcceptAddrs} (hl : l ∈ g.held) (hh : h ∈ g.held) :
    Balanced (tcpSynCopy l h irp) g :=
  calm_refs (by simp [tcpSynCopy, tcpSynCopyKnown, Notice.link, hl, hh])

/-- The first receive of an accepted link. -/
theorem firstRecv_refs (hl : l ∈ g.held) : Balanced (firstRecv l) g := by
  refine meets_bind.mpr (meets_void.mpr ⟨.inl hl, fun a _ => ?_⟩)
  refine meets_bind.mpr (meets_perform.mpr ⟨trivial, fun k _ => ?_⟩)
  exact meets_ite.mpr ⟨fun _ => rfl, fun _ => asioTransfer_refs⟩

/-- It works on the accepted link, and releases it. -/
theorem takeAccepted_refs {h : Int} {irp : AcceptAddrs} {H : List Int} (hg : g.held = h :: H)
    (hl : l ∈ H) : Ends H (takeAccepted l h irp) g := by
  have hend : ∀ (r : Int) (g' : RefRecord), g'.held = h :: H → Ends H (do
      if r < 0 then objclosHld h
      objdefrHld h : CallProg Unit) g' := by
    intro r g' hg'
    simp [hg']
  refine Ends.bind (tcpSynCopy_refs (by simp [hg, hl]) (by simp [hg])) fun r g₁ h₁ => ?_
  rw [hg] at h₁
  dsimp only
  refine meets_ite.mpr ⟨fun hr => ?_, fun hr => ?_⟩
  · exact hend r g₁ h₁
  · refine Ends.bind (firstRecv_refs (by simp [h₁])) fun r₂ g₂ h₂ => ?_
    exact hend r₂ g₂ (h₂.trans h₁)

/-- `tcp_dispatch_io_syn` holds two references for a while: to the listener, and inside of that to
the accepted link, which may be gone. -/
theorem tcpDispatchIoSyn_refs {p : IoPacket} {irp : AcceptAddrs} :
    Balanced (tcpDispatchIoSyn p irp) g := by
  refine Refers.bind tcprefr_refs (fun r g₁ hr h₁ => ?_) fun r g₁ hr h₁ => ?_
  · rw [if_pos hr]
    exact h₁
  rw [if_neg hr]
  -- the accept request is made again whatever became of the accepted link
  have hagain : ∀ g₂ : RefRecord, g₂.held = p.link :: g.held → Ends g.held (do
      let retval ← tcpSyn p.link
      if retval < 0 then objclosHld p.link
      objdefrHld p.link : CallProg Unit) g₂ := by
    intro g₂ h₂
    refine Ends.bind (tcpSyn_refs (by simp [h₂])) fun r₃ g₃ h₃ => ?_
    simp [h₃, h₂]
  refine meets_bind.mpr (tcprefr_refs.mono fun g₂ r₂ h₂ => ?_)
  dsimp only
  refine meets_ite.mpr ⟨fun hr₂ => ?_, fun hr₂ => ?_⟩
  · rw [if_neg (by omega), h₁] at h₂
    exact meets_bind.mpr ((takeAccepted_refs h₂ List.mem_cons_self).mono fun g₃ _ h₃ =>
      hagain g₃ h₃)
  · rw [if_pos (by omega), h₁] at h₂
    exact hagain g₂ h₂

/-- The `kSyn` case of `tcp_shutdown_by_packet` references the listener to make the request again,
and closes the accepted link in either case. -/
theorem tcpShutdownSyn_refs {p : IoPacket} : Balanced (tcpShutdownSyn p) g := by
  have hend : ∀ g₁ : RefRecord, g₁.held = g.held → Ends g.held (do
      void (.objclos p.acceptedLink)
      void (.freepkt p.packet) : CallProg Unit) g₁ := by
    intro g₁ h₁
    simp [h₁]
  refine Refers.bind tcprefr_refs (fun r g₁ hr h₁ => ?_) fun r g₁ hr h₁ => ?_
  · dsimp only
    exact meets_ite.mpr ⟨fun _ => by omega, fun _ => hend g₁ h₁⟩
  · dsimp only
    refine meets_ite.mpr ⟨fun _ => ?_, fun _ => by omega⟩
    refine Ends.bind (tcpSyn_refs (by simp [h₁])) fun r₂ g₂ h₂ => ?_
    exact meets_bind.mpr ((objdefrHld_refs (h₂.trans h₁)).mono fun g₃ _ h₃ => hend g₃ h₃)

/-- `tcp_shutdown_by_packet`, by the type of the packet. -/
theorem tcpShutdownByPacket_refs {p : IoPacket} : Balanced (tcpShutdownByPacket p) g := by
  unfold tcpShutdownByPacket
  split
  · simp
  · simp
  · simp
  · exact tcpShutdownSyn_refs
  · simp

/-- The loop of `tcp_listen`: one `tcp_syn` a turn, by induction on the turns left. -/
theorem tcpListenRounds_refs {n : Nat} (hl : l ∈ g.held) : Balanced (tcpListenRounds l n) g := by
  induction n generalizing g with
  | zero => exact tcpSyn_refs hl
  | succ n ih =>
      refine Ends.bind (tcpSyn_refs hl) fun r g₁ h₁ => ?_
      refine meets_ite.mpr ⟨fun _ => h₁, fun _ => ?_⟩
      exact (ih (by rwa [h₁])).mono fun g₂ _ h₂ => h₂.trans h₁

/-- `tcp_listen` references the link around `listen` and the loop. -/
theorem tcpListen_refs {block : Int} : Balanced (tcpListen l block) g := by
  refine Refers.bind tcprefr_refs (fun r g₁ hr h₁ => ?_) fun r g₁ hr h₁ => ?_
  · rw [if_pos hr]
    exact h₁
  rw [if_neg hr]
  refine meets_bind.mpr (meets_perform.mpr ⟨.inl (by simp [h₁]), fun r₂ _ => ?_⟩)
  dsimp only
  refine meets_ite.mpr ⟨fun _ => by simp [h₁], fun _ => ?_⟩
  refine Ends.bind (tcpListenRounds_refs (by simp [h₁])) fun r₃ g₃ h₃ => ?_
  simp [h₃, h₁]

/-! ## Sending and receiving -/

/-- The loop of `tcp_try_write` on the pending counter takes no reference, however often it
turns. -/
theorem tcpWritePendingLoop_calm {H : List Int} {turns : Nat} (hl : l ∈ H) :
    (tcpWritePendingLoop l turns).Uses (Call.Calm H) := by
  induction turns with
  | zero => simp [tcpWritePendingLoop]
  | succ turns ih => simp [tcpWritePendingLoop, ih, hl]

/-- The part of `tcp_try_write` behind the queue: the send request has a reference of its own, and a
request that is refused takes the link down. -/
theorem tcpTryWriteNext_refs {turns : Nat} (hl : l ∈ g.held) :
    Balanced (tcpTryWriteNext turns l) g := by
  refine Ends.bind (calm_refs (tcpWritePendingLoop_calm hl)) fun first g₁ h₁ => ?_
  cases first with
  | false => simp [h₁, hl]
  | true =>
      refine meets_bind.mpr (meets_perform.mpr ⟨.inl (by rwa [h₁]), fun next _ => ?_⟩)
      refine meets_bind.mpr (meets_void.mpr ⟨.inl (by simpa [h₁] using hl), fun _ _ => ?_⟩)
      refine meets_bind.mpr (meets_void.mpr ⟨.inl (by simpa [h₁] using hl), fun _ _ => ?_⟩)
      refine Ends.bind asioTransfer_refs fun r g₂ h₂ => ?_
      replace h₂ : g₂.held = g.held := h₂.trans h₁
      dsimp only
      refine meets_ite.mpr ⟨fun _ => ?_, fun _ => h₂⟩
      exact meets_bind.mpr (tcpShutdownByPacket_refs.mono fun g₃ _ h₃ => h₃.trans h₂)

/-- `tcp_try_write`, with a packet to queue or without. -/
theorem tcpTryWrite_refs {turns : Nat} {packet : Option Int} (hl : l ∈ g.held) :
    Balanced (tcpTryWrite turns l packet) g := by
  refine meets_bind.mpr (meets_void.mpr ⟨.inl hl, fun a _ => ?_⟩)
  cases packet with
  | none =>
      refine meets_bind.mpr (meets_perform.mpr ⟨.inl hl, fun empty _ => ?_⟩)
      exact meets_ite.mpr ⟨fun _ => by simp [hl], fun _ => tcpTryWriteNext_refs hl⟩
  | some k =>
      refine meets_bind.mpr (meets_perform.mpr ⟨.inl hl, fun size _ => ?_⟩)
      refine meets_ite.mpr ⟨fun _ => by simp [hl], fun _ => ?_⟩
      exact meets_bind.mpr (meets_void.mpr ⟨.inl hl, fun _ _ => tcpTryWriteNext_refs hl⟩)

/-- `tcp_write` releases its reference on each of its ways out: the queue is full, the packet cannot
be made, it is refused, or it was queued. -/
theorem tcpWrite_refs {turns : Nat} {origin serializer : Bool} {cb : Int} :
    Balanced (tcpWrite turns l origin cb serializer) g := by
  refine meets_ite.mpr ⟨fun _ => rfl, fun _ => ?_⟩
  refine Refers.bind tcprefr_refs (fun r g₁ hr h₁ => ?_) fun r g₁ hr h₁ => ?_
  · rw [if_pos hr]
    exact h₁
  rw [if_neg hr]
  have hend : ∀ (r : Int) (g₂ : RefRecord), g₂.held = l :: g.held → Ends g.held (do
      objdefrHld l
      return r : CallProg Int) g₂ := by
    intro r g₂ h₂
    simp [h₂]
  -- from the packet on the reference is held, and every way out releases it
  have hwrite : ∀ (b : Bool) (g₂ : RefRecord), g₂.held = l :: g.held → Ends g.held (do
      let packet ← tcpWritePacket l b serializer
      if packet < 0 then do
        objdefrHld l
        return -1
      else do
        let retval ← tcpTryWrite turns l (some packet)
        if retval < 0 then do
          void (.freepkt packet)
          objdefrHld l
          return retval
        else do
          objdefrHld l
          return retval : CallProg Int) g₂ := by
    intro b g₂ h₂
    have hcalm : (tcpWritePacket l b serializer).Uses (Call.Calm g₂.held) := by
      cases b <;> cases serializer <;> simp [tcpWritePacket]
    refine Ends.bind (calm_refs hcalm) fun packet g₃ h₃ => ?_
    rw [h₂] at h₃
    refine meets_ite.mpr ⟨fun _ => hend _ g₃ h₃, fun _ => ?_⟩
    refine Ends.bind (tcpTryWrite_refs (by simp [h₃])) fun r g₄ h₄ => ?_
    rw [h₃] at h₄
    refine meets_ite.mpr ⟨fun _ => ?_, fun _ => hend r g₄ h₄⟩
    exact meets_bind.mpr (meets_void.mpr ⟨trivial, fun _ _ => hend r _ h₄⟩)
  refine meets_bind.mpr (meets_perform.mpr ⟨.inl (by simp [h₁]), fun size _ => ?_⟩)
  dsimp only
  refine meets_ite.mpr ⟨fun _ => hend _ _ (by simp [h₁]), fun _ => ?_⟩
  refine meets_bind.mpr (meets_perform.mpr ⟨.inl (by simp [h₁]), fun builder _ => ?_⟩)
  refine meets_ite.mpr ⟨fun _ => hwrite _ _ (by simp [h₁]), fun _ => ?_⟩
  exact meets_bind.mpr (meets_perform.mpr
    ⟨.inl (by simp [h₁]), fun noBuild _ => hwrite _ _ (by simp [h₁])⟩)

/-- `tcp_dispatch_io_send` references the link around the next `tcp_try_write`. -/
theorem tcpDispatchIoSend_refs {p : IoPacket} {transfer : Int} {turns : Nat} :
    Balanced (tcpDispatchIoSend p transfer turns) g := by
  refine meets_ite.mpr ⟨fun _ => tcpShutdownByPacket_refs, fun _ => ?_⟩
  refine Refers.bind tcprefr_refs (fun r g₁ hr h₁ => ?_) fun r g₁ hr h₁ => ?_
  · simp [hr, h₁]
  rw [if_neg hr]
  refine meets_bind.mpr (meets_void.mpr ⟨.inl (by simp [h₁]), fun _ _ => ?_⟩)
  refine Ends.bind (tcpTryWrite_refs (by simp [h₁])) fun r g₂ h₂ => ?_
  replace h₂ : g₂.held = p.link :: g.held := h₂.trans h₁
  simp [h₂]

/-- What `tcp_dispatch_io_exception` does to a send packet, inside of its own reference. -/
theorem tcpExceptionSend_refs {p : IoPacket} {status : NtStatus} {turns : Nat}
    (hl : p.link ∈ g.held) : Balanced (tcpExceptionSend p status turns) g := by
  refine meets_ite.mpr ⟨fun _ => tcpShutdownByPacket_refs, fun _ => ?_⟩
  refine meets_bind.mpr (meets_void.mpr ⟨.inl hl, fun _ _ => ?_⟩)
  refine meets_bind.mpr (meets_void.mpr ⟨trivial, fun _ _ => ?_⟩)
  exact Ends.bind (tcpTryWrite_refs hl) fun _ g₂ h₂ => h₂

/-- The parsing of what was received only reads and writes the control block, and tells the user.
Induction on the turns of the loop. -/
theorem tcpParse_calm {H : List Int} {turns : Nat} (hl : l ∈ H) :
    (tcpParse l turns).Uses (Call.Calm H) := by
  have hloop : ∀ turns, (tcpPraseLogicPacket l turns).Uses (Call.Calm H) := by
    intro turns
    induction turns with
    | zero => simp [tcpPraseLogicPacket]
    | succ turns ih => simp [tcpPraseLogicPacket, ih, hl, Notice.link]
  simp [tcpParse, tcpLbAssemble, hloop, hl, Notice.link]

/-- `tcp_dispatch_io_recv` parses and posts the receive again inside of one reference, or closes the
link inside of it. -/
theorem tcpDispatchIoRecv_refs {p : IoPacket} {transfer : Int} {turns : Nat} :
    Balanced (tcpDispatchIoRecv p transfer turns) g := by
  refine meets_ite.mpr ⟨fun _ => tcpShutdownByPacket_refs, fun _ => ?_⟩
  refine Refers.bind tcprefr_refs (fun r g₁ hr h₁ => ?_) fun r g₁ hr h₁ => ?_
  · simp [hr, h₁]
  rw [if_neg hr]
  refine Ends.bind (calm_refs (tcpParse_calm (by simp [h₁]))) fun r₂ g₂ h₂ => ?_
  replace h₂ : g₂.held = p.link :: g.held := h₂.trans h₁
  have hend : ∀ (r : Int) (g₃ : RefRecord), g₃.held = p.link :: g.held → Ends g.held (do
      if r < 0 then do
        objclosHld p.link
        void (.freepkt p.packet)
      objdefrHld p.link : CallProg Unit) g₃ := by
    intro r g₃ h₃
    simp [h₃]
  dsimp only
  refine meets_ite.mpr ⟨fun _ => ?_, fun _ => hend _ g₂ h₂⟩
  exact Ends.bind asioTransfer_refs fun r₃ g₃ h₃ => hend r₃ g₃ (h₃.trans h₂)

/-! ## Connecting -/

/-- The rest of `tcp_connect` once the system has connected. -/
theorem tcpConnectDone_refs {addr : SockaddrIn} (hl : l ∈ g.held) :
    Balanced (tcpConnectDone l addr) g := by
  refine Ends.bind (updateLocalAddr_refs hl) fun _ g₁ h₁ => ?_
  rw [← h₁] at hl ⊢
  refine meets_bind.mpr (meets_void.mpr ⟨.inl hl, fun _ _ => ?_⟩)
  refine meets_bind.mpr (meets_perform.mpr ⟨trivial, fun packet _ => ?_⟩)
  refine meets_ite.mpr ⟨fun _ => rfl, fun _ => ?_⟩
  refine Ends.bind asioTransfer_refs fun r g₂ h₂ => ?_
  replace h₂ : g₂.held = g₁.held := h₂
  simp [h₂, hl, Notice.link]

/-- `tcp_connect` releases its reference whether it connects or not. -/
theorem tcpConnect_refs {rIpstr : Bool} {addr : SockaddrIn} :
    Balanced (tcpConnect l rIpstr addr) g := by
  refine meets_ite.mpr ⟨fun _ => rfl, fun _ => ?_⟩
  refine Refers.bind tcprefr_refs (fun r g₁ hr h₁ => ?_) fun r g₁ hr h₁ => ?_
  · simp [hr, h₁]
  rw [if_neg hr]
  refine meets_bind.mpr (meets_perform.mpr ⟨trivial, fun parsed _ => ?_⟩)
  refine meets_ite.mpr ⟨fun _ => by simp [h₁], fun _ => ?_⟩
  refine meets_bind.mpr (meets_perform.mpr ⟨.inl (by simp [h₁]), fun connected _ => ?_⟩)
  dsimp only
  refine meets_ite.mpr ⟨fun _ => by simp [h₁], fun _ => ?_⟩
  refine Ends.bind (tcpConnectDone_refs (by simp [h₁])) fun r₂ g₂ h₂ => ?_
  replace h₂ : g₂.held = l :: g.held := h₂.trans h₁
  simp [h₂]

/-- `tcp_connect2` references the link around the request, and the request references it once
more. -/
theorem tcpConnect2_refs {rIpstr : Bool} {addr : SockaddrIn} :
    Balanced (tcpConnect2 l rIpstr addr) g := by
  refine meets_ite.mpr ⟨fun _ => rfl, fun _ => ?_⟩
  refine Refers.bind tcprefr_refs (fun r g₁ hr h₁ => ?_) fun r g₁ hr h₁ => ?_
  · simp [hr, h₁]
  rw [if_neg hr]
  have hend : ∀ (r : Int) (g₂ : RefRecord), g₂.held = l :: g.held → Ends g.held (do
      objdefrHld l
      return r : CallProg Int) g₂ := by
    intro r g₂ h₂
    simp [h₂]
  have hpost : Balanced (tcpConnect2Post l addr) g₁ := by
    refine meets_bind.mpr (meets_void.mpr ⟨.inl (by simp [h₁]), fun _ _ => ?_⟩)
    refine meets_bind.mpr (meets_perform.mpr ⟨trivial, fun packet _ => ?_⟩)
    refine meets_ite.mpr ⟨fun _ => rfl, fun _ => ?_⟩
    refine meets_bind.mpr (meets_perform.mpr ⟨trivial, fun parsed _ => ?_⟩)
    dsimp only
    refine meets_ite.mpr ⟨fun _ => by simp, fun _ => ?_⟩
    refine Ends.bind asioTcpConnect_refs fun r₂ g₂ h₂ => ?_
    replace h₂ : g₂.held = g₁.held := h₂
    simp [h₂]
  exact Ends.bind hpost fun r₂ g₂ h₂ => hend r₂ g₂ (h₂.trans h₁)

/-- What calls leave on record for good. -/
structure RefRecord.Grows (g g' : RefRecord) : Prop where
  connects : g'.connects = g.connects
  failed : g.failed = true → g'.failed = true

/-- A program never takes anything off the record that stands there for good. -/
theorem refs_along {p : CallProg α} {Q : RefRecord → α → Prop}
    (hp : p.Meets RefRecord.after RefRecord.Need RefRecord.Ok g Q) :
    p.Meets RefRecord.after RefRecord.Need RefRecord.Ok g fun g' r => g.Grows g' ∧ Q g' r := by
  have hrefl : ∀ g : RefRecord, g.Grows g := fun g => ⟨rfl, id⟩
  have htrans : ∀ g₁ g₂ g₃ : RefRecord, g₁.Grows g₂ → g₂.Grows g₃ → g₁.Grows g₃ :=
    fun g₁ g₂ g₃ h h' => ⟨h'.connects.trans h.connects, h'.failed ∘ h.failed⟩
  have hstep : ∀ (g : RefRecord) (c : Call) (a : Int), g.Grows (g.after c a) :=
    fun g c a => ⟨rfl, fun h => by simp [RefRecord.after, h]⟩
  exact Meets.along hrefl htrans hstep hp

/-- A receive request that fails while a reference is held is on record. -/
theorem asioTransfer_failed {p : IoPacket} (hne : g.held ≠ []) :
    (asioTransfer p).Meets RefRecord.after RefRecord.Need RefRecord.Ok g fun g' r =>
      g'.held = g.held ∧ (r < 0 → g'.failed = true) := by
  simp only [asioTransfer, meets_bind, meets_perform, meets_ite]
  refine ⟨trivial, fun a _ => ⟨fun ha => ?_, fun ha => ⟨trivial, fun b _ => ?_⟩⟩⟩
  · simp [RefRecord.after, ha, hne]
  · by_cases hb : b < 0
    · simp [RefRecord.after, ha, hb]
    · simp [ha, hb]

/-- Where no receive can be posted, the reference is released first and `ncb->hld` is read for
`objclos` after that. -/
theorem connectedFailed_refs {H : List Int} (hg : g.held = l :: H) (hc : g.connects = true)
    (hf : g.failed = true) : Ends H (connectedFailed l) g := by
  simp [connectedFailed, RefRecord.after, hg, hc, hf]

/-- The dispatch of a connect, once the link is referenced, gives the reference back on every way.
Where no receive can be posted it reads the control block after that: the record has the failure
then, and that is what `Need` asks for. -/
theorem tcpConnected_refs {H : List Int} (hg : g.held = l :: H) (hc : g.connects = true) :
    Ends H (tcpConnected l) g := by
  -- from the request of the packet on
  have hrest : ∀ g₂ : RefRecord, g₂.held = l :: H → g₂.connects = true → Ends H (do
      ncbHld l
      let packet ← perform (.allocatePacket l .tcp .recv)
      if packet < 0 then do
        nisCallEcr l
        connectedFailed l
      else do
        let retval ← asioTcpRecv (.plain packet .tcp .recv l)
        if retval < 0 then do
          nisCallEcr l
          tcpShutdownByPacket (.plain packet .tcp .recv l)
          connectedFailed l
        else do
          void (.emit (.connected l))
          nisCallEcr l
          objdefrHld l : CallProg Unit) g₂ := by
    intro g₂ h₂ hc₂
    refine meets_bind.mpr (meets_void.mpr ⟨.inl (by simp [h₂]), fun _ _ => ?_⟩)
    refine meets_bind.mpr (meets_perform.mpr ⟨trivial, fun packet _ => ?_⟩)
    refine meets_ite.mpr ⟨fun hneg => ?_, fun _ => ?_⟩
    · refine meets_bind.mpr (meets_void.mpr ⟨.inl (by simp [h₂]), fun _ _ => ?_⟩)
      refine connectedFailed_refs h₂ hc₂ ?_
      simp [RefRecord.after, hneg, h₂]
    refine meets_bind.mpr ((refs_along (asioTransfer_failed (by simp [h₂]))).mono ?_)
    rintro g₃ r ⟨⟨hc₃, -⟩, h₃, hf₃⟩
    replace h₃ : g₃.held = l :: H := h₃.trans h₂
    refine meets_ite.mpr ⟨fun hneg => ?_, fun _ => ?_⟩
    · refine meets_bind.mpr (meets_void.mpr ⟨.inl (by simp [h₃]), fun _ _ => ?_⟩)
      refine meets_bind.mpr ((refs_along tcpShutdownByPacket_refs).mono ?_)
      rintro g₄ - ⟨⟨hc₄, hf₄⟩, h₄⟩
      -- after a failed receive the link may be used once more, without a reference
      exact connectedFailed_refs (h₄.trans h₃) (hc₄.trans (hc₃.trans hc₂))
        (hf₄ (by simp [RefRecord.after, hf₃ hneg]))
    · simp [h₃, Notice.link]
  refine meets_bind.mpr ((refs_along (updateLocalAddr_refs (by simp [hg]))).mono ?_)
  rintro g₁ - ⟨⟨hc₁, -⟩, h₁⟩
  rw [hc] at hc₁
  rw [hg] at h₁
  refine meets_bind.mpr (meets_perform.mpr ⟨.inl (by simp [h₁]), fun updated _ => ?_⟩)
  dsimp only
  refine meets_ite.mpr ⟨fun _ => ?_, fun _ => hrest _ h₁ hc₁⟩
  exact meets_bind.mpr (meets_void.mpr ⟨.inl (by simp [h₁]), fun _ _ => hrest _ h₁ hc₁⟩)

/-- `tcp_dispatch_io_connected`: only the dispatch of a connect that succeeded runs it. -/
theorem tcpDispatchIoConnected_refs {p : IoPacket} (hc : g.connects = true) :
    Balanced (tcpDispatchIoConnected p) g := by
  refine meets_bind.mpr ((refs_along tcprefr_refs).mono ?_)
  rintro g₁ r ⟨⟨hc₁, -⟩, h₁⟩
  refine meets_ite.mpr ⟨fun hr => ?_, fun hr => ?_⟩
  · simp [h₁, hr]
  · rw [if_neg hr] at h₁
    exact meets_bind.mpr (meets_void.mpr ⟨trivial, fun _ _ => tcpConnected_refs h₁ (hc₁.trans hc)⟩)

/-! ## Dispatch -/

/-- `tcp_dispatch_io_exception` references the link around the case of the send packet and that of
all others. -/
theorem tcpDispatchIoException_refs {p : IoPacket} {status : NtStatus} {turns : Nat} :
    Balanced (tcpDispatchIoException p status turns) g := by
  refine Refers.bind tcprefr_refs (fun r g₁ hr h₁ => ?_) fun r g₁ hr h₁ => ?_
  · simp [hr, h₁]
  rw [if_neg hr]
  have hend : ∀ g₂ : RefRecord, g₂.held = g₁.held → Ends g.held (objdefrHld p.link) g₂ :=
    fun g₂ h₂ => objdefrHld_refs (h₂.trans h₁)
  dsimp only
  refine meets_ite.mpr ⟨fun _ => ?_, fun _ => ?_⟩
  · exact Ends.bind (tcpExceptionSend_refs (by simp [h₁])) fun _ => hend
  · exact Ends.bind tcpShutdownByPacket_refs fun _ => hend

/-- `tcp_dispatch_io_event`, by the status and the type of the packet. -/
theorem tcpDispatchIoEvent_refs {p : IoPacket} {status : NtStatus} {transfer : Int} {turns : Nat}
    {irp : AcceptAddrs} (hc : p.type = .connect → ntSuccess status = true → g.connects = true) :
    Balanced (tcpDispatchIoEvent p status transfer turns irp) g := by
  refine meets_ite.mpr ⟨fun hs => ?_, fun _ => tcpDispatchIoException_refs⟩
  split
  · exact tcpDispatchIoSyn_refs
  · exact tcpDispatchIoRecv_refs
  · exact tcpDispatchIoSend_refs
  next hp => exact tcpDispatchIoConnected_refs (hc hp hs)
  · rfl

/-- `udp_dispatch_io_event`: a failed receive, an empty one, and the two dispatches. -/
theorem udpDispatchIoEvent_refs {p : IoPacket} {status : NtStatus} {transfer : Int} :
    Balanced (udpDispatchIoEvent p status transfer) g := by
  have hshut : ∀ g₁ : RefRecord, Balanced (udpShutdownByPacket p) g₁ := by
    intro g₁
    simp [udpShutdownByPacket]
  have hend : ∀ g₁ g₂ : RefRecord, g₁.held = p.link :: g.held → g₂.held = g₁.held →
      Ends g.held (objdefrHld p.link) g₂ :=
    fun g₁ g₂ h₁ h₂ => objdefrHld_refs (h₂.trans h₁)
  refine meets_ite.mpr ⟨fun _ => ?_, fun _ => ?_⟩
  · refine meets_ite.mpr ⟨fun _ => hshut g, fun _ => ?_⟩
    split
    · refine Refers.bind udprefr_refs (fun r g₁ hr h₁ => ?_) fun r g₁ hr h₁ => ?_
      · rw [if_pos hr]
        exact h₁
      rw [if_neg hr]
      refine meets_bind.mpr (meets_void.mpr ⟨by simp [h₁, Notice.link], fun _ _ => ?_⟩)
      exact Ends.bind asioTransfer_refs fun _ g₂ h₂ => hend g₁ g₂ h₁ h₂
    · simp
    · rfl
  · refine Refers.bind udprefr_refs (fun r g₁ hr h₁ => ?_) fun r g₁ hr h₁ => ?_
    · rw [if_pos hr]
      exact h₁
    rw [if_neg hr]
    dsimp only
    refine meets_ite.mpr ⟨fun _ => ?_, fun _ => ?_⟩
    · exact Ends.bind asioTransfer_refs fun _ g₂ h₂ => hend g₁ g₂ h₁ h₂
    · exact Ends.bind (hshut g₁) fun _ g₂ h₂ => hend g₁ g₂ h₁ h₂

/-! ## Every job -/

/-- `tcp_awaken` and `udp_awaken` return with the reference they took, where they got one. -/
theorem awaken_refs {data : Bool} {cb : Int} (hg : g.held = []) (ha : g.acquired = []) :
    (awaken l data cb).Meets RefRecord.after RefRecord.Need RefRecord.Ok g fun g' _ =>
      g'.held = if l ∈ g'.acquired then [l] else [] := by
  let I : RefRecord → Prop := fun g' => g'.held = [l] ∧ g'.acquired = [l]
  have hcalm : ∀ (p : CallProg Int) (g₁ : RefRecord), p.Uses (Call.Calm [l]) → I g₁ →
      p.Meets RefRecord.after RefRecord.Need RefRecord.Ok g₁ fun g' _ => I g' := by
    intro p g₁ hp hg₁
    refine hp.keeps (I := I) ?_ ?_ hg₁
    · rintro g' c ⟨hh, -⟩ hc
      cases c <;> simp only [Call.Calm] at hc <;> simp_all
    · rintro g' c a ⟨hh, hacq⟩ hc
      cases c <;> simp only [Call.Calm] at hc <;> exact ⟨hh, hacq⟩
  refine meets_bind.mpr (meets_perform.mpr ⟨trivial, fun ncb _ => ?_⟩)
  refine meets_ite.mpr ⟨fun hneg => ?_, fun hpos => ?_⟩
  · simp [RefRecord.after, hneg, hg, ha]
  · refine (hcalm _ _ ?_ ?_).mono fun g' _ h => by simp [h.1, h.2]
    · simp
    · simp [I, RefRecord.after, hpos, hg, ha]

/-- `tcp_destroy` asks for the object to be closed, and gives back the reference it has from
that. -/
theorem tcpDestroy_refs : (tcpDestroy l).Meets RefRecord.after RefRecord.Need RefRecord.Ok g
    fun g' _ => g'.held = g.held ∧ l ∈ g'.shut := by
  simp +contextual [tcpDestroy, RefRecord.after, -not_lt, -Int.not_lt]

/-- `tcp_settst_r`, by the shape of the exported functions. -/
theorem tcpSettstR_refs {tst : Bool} {cb : Int} : Balanced (tcpSettstR l tst cb) g := by
  refine meets_ite.mpr ⟨fun _ => rfl, fun _ => meets_ite.mpr ⟨fun _ => rfl, fun _ => ?_⟩⟩
  exact withLink_refs tcprefr_refs (fun g' hl => by simp [hl]) fun g' H hg => by simp [hg]

theorem tcpGettstR_refs {tst : Bool} : Balanced (tcpGettstR l tst) g := by
  refine meets_ite.mpr ⟨fun _ => rfl, fun _ => ?_⟩
  exact withLink_refs tcprefr_refs (fun g' hl => by simp [hl]) fun g' H hg => by simp [hg]

theorem tcpSockopt_refs {c : SockCall} {ptrs : Bool} : Balanced (tcpSockopt c l ptrs) g := by
  refine meets_ite.mpr ⟨fun _ => rfl, fun _ => ?_⟩
  exact withLink_refs tcprefr_refs (fun g' hl => calm_refs (by simp [hl])) fun g' H =>
    objdefrHld_refs

theorem udpSockopt_refs {c : SockCall} {ptrs : Bool} : Balanced (udpSockopt c l ptrs) g := by
  refine meets_ite.mpr ⟨fun _ => rfl, fun _ => ?_⟩
  exact withLink_refs udprefr_refs (fun g' hl => calm_refs (by simp [hl])) fun g' H =>
    objdefrHld_refs

/-- `udp_write` sends from the calling thread, inside of one reference. -/
theorem udpWrite_refs {turns : Nat} {valid serializer : Bool} :
    Balanced (udpWrite turns l valid serializer) g := by
  have hloop : ∀ (H : List Int) (turns : Nat), l ∈ H →
      (udpTxSinglePacket l turns).Uses (Call.Calm H) := by
    intro H turns hl
    induction turns with
    | zero => simp [udpTxSinglePacket]
    | succ turns ih => simp [udpTxSinglePacket, ih, hl]
  refine meets_ite.mpr ⟨fun _ => rfl, fun _ => ?_⟩
  refine withLink_refs objrefr_refs (fun g' hl => calm_refs ?_) fun g' H hg => by simp [hg]
  simp only [Int.reduceNeg, pure_eq, done_bind, uses_perform_bind, Call.Calm, uses_ite, uses_done,
    implies_true, not_lt, uses_void_bind, and_self, not_and, true_and]
  intro _ _ _ _
  exact Uses.bind (hloop _ _ hl) fun _ => by simp

/-- `udp_initialize_grp` allocates inside of one reference, a block for each item. -/
theorem udpInitializeGrp_refs {grp : Bool} {count : Nat} :
    Balanced (udpInitializeGrp l grp count) g := by
  have hloop : ∀ (H : List Int) (count : Nat), (initializeItems count).Uses (Call.Calm H) := by
    intro H count
    induction count with
    | zero => simp [initializeItems]
    | succ count ih => simp [initializeItems, ih]
  refine meets_ite.mpr ⟨fun _ => rfl, fun _ => ?_⟩
  refine withLink_refs udprefr_refs (fun g' hl => calm_refs ?_) fun g' H => objdefrHld_refs
  simp only [Int.reduceNeg, pure_eq, uses_perform_bind, Call.Calm, hl, uses_ite, uses_done,
    implies_true, true_and]
  intro _ _
  exact Uses.bind (hloop _ _) fun _ => by simp

theorem udpRaiseGrp_refs : Balanced (udpRaiseGrp l) g := by
  refine withLink_refs udprefr_refs (fun g' hl => calm_refs ?_) fun g' H => objdefrHld_refs
  simp [syioVConnect, updateLocalAddr, hl]

theorem udpDetachGrp_refs : Balanced (udpDetachGrp l) g :=
  withLink_refs udprefr_refs (fun g' hl => calm_refs (by simp [hl])) fun g' H => objdefrHld_refs

/-- The send of a group references the link once more. -/
theorem syioGrpSend_refs : Balanced (syioGrpSend l) g :=
  withLink_refs objrefr_refs (fun g' hl => calm_refs (by simp [hl])) fun g' H => objdefrHld_refs

/-- `udp_write_grp` holds its reference around the send. -/
theorem udpWriteGrp_refs {grp : Bool} {count : Nat} : Balanced (udpWriteGrp l grp count) g := by
  refine meets_ite.mpr ⟨fun _ => rfl, fun _ => ?_⟩
  refine withLink_refs udprefr_refs (fun g' hl => ?_) fun g' H => objdefrHld_refs
  refine meets_bind.mpr (meets_perform.mpr ⟨.inl hl, fun connected _ => ?_⟩)
  refine meets_ite.mpr ⟨fun _ => rfl, fun _ => ?_⟩
  refine meets_bind.mpr (meets_perform.mpr ⟨trivial, fun packet _ => ?_⟩)
  refine meets_ite.mpr ⟨fun _ => rfl, fun _ => ?_⟩
  refine meets_bind.mpr (meets_perform.mpr ⟨trivial, fun elements _ => ?_⟩)
  dsimp only
  refine meets_ite.mpr ⟨fun _ => by simp, fun _ => ?_⟩
  exact Ends.bind syioGrpSend_refs fun r g₂ h₂ => by simp [h₂]

theorem udpJoingrp_refs {valid : Bool} : Balanced (udpJoingrp l valid) g := by
  refine meets_ite.mpr ⟨fun _ => rfl, fun _ => ?_⟩
  exact withLink_refs objrefr_refs (fun g' hl => calm_refs (by simp [hl]))
    fun g' H hg => by simp [hg]

theorem udpDropgrp_refs : Balanced (udpDropgrp l) g := by
  refine meets_ite.mpr ⟨fun _ => rfl, fun _ => ?_⟩
  exact withLink_refs objrefr_refs (fun g' hl => calm_refs (by simp [hl]))
    fun g' H hg => by simp [hg]

/-- The getters and setters of `mxx.c`. -/
theorem nisLink_refs {body : CallProg Int} {failed : Int → Int} {defr : CallProg Unit}
    (hbody : ∀ H : List Int, l ∈ H → body.Uses (Call.Calm H))
    (hdefr : ∀ g' H, g'.held = l :: H → Ends H defr g') :
    Balanced (withLink (perform (.objrefr l)) failed body defr) g :=
  withLink_refs objrefr_refs (fun g' hl => calm_refs (hbody g'.held hl)) hdefr

/-- Those of `tcp.c`. -/
theorem tcpLink_refs {body : CallProg Int} {failed : Int → Int} {defr : CallProg Unit}
    (hbody : ∀ H : List Int, l ∈ H → body.Uses (Call.Calm H))
    (hdefr : ∀ g' H, g'.held = l :: H → Ends H defr g') :
    Balanced (withLink (tcprefr l) failed body defr) g :=
  withLink_refs tcprefr_refs (fun g' hl => calm_refs (hbody g'.held hl)) hdefr

/-- `nis_cntl` gives back its reference in every branch but that of a command it does not know. -/
theorem nisCntl_refs {cmd : NiCmd} (hcmd : cmd ≠ .unknown) : Balanced (nisCntl l cmd) g := by
  refine Refers.bind objrefr_refs (fun r g₁ hr h₁ => ?_) fun r g₁ hr h₁ => ?_
  · simp [hr, h₁]
  rw [if_neg hr]
  cases cmd with
  | settst tst cb =>
      refine Ends.bind tcpSettstR_refs fun r g₂ h₂ => ?_
      simp [h₂, h₁]
  | gettst tst =>
      refine Ends.bind tcpGettstR_refs fun r g₂ h₂ => ?_
      simp [h₂, h₁]
  | unknown => exact absurd rfl hcmd
  | _ => simp [h₁]

/-- A release by the handle, which reads nothing. -/
theorem objdefr_refs {H : List Int} (hg : g.held = l :: H) : Ends H (void (.objdefr l)) g := by
  simp [hg]

/-- **Every exported function is balanced** that neither destroys a link nor is one of those that
forget their reference. -/
theorem userCall_refs {c : UserCall} (hf : (Job.user c).forgets = none)
    (ht : ∀ l, c ≠ .tcpDestroy l) (hu : ∀ l, c ≠ .udpDestroy l) : Balanced c.prog g := by
  cases c <;> simp only [UserCall.prog]
  case tcpCreate => exact tcpCreate_refs
  case tcpDestroy l => exact absurd rfl (ht l)
  case tcpListen => exact tcpListen_refs
  case tcpConnect => exact tcpConnect_refs
  case tcpConnect2 => exact tcpConnect2_refs
  case tcpWrite => exact tcpWrite_refs
  case tcpAwaken => cases hf
  case tcpSettst =>
    refine meets_ite.mpr ⟨fun _ => rfl, fun _ => ?_⟩
    exact tcpLink_refs (fun H hl => by simp [hl]) fun g' H => objdefrHld_refs
  case tcpGettst => exact tcpLink_refs (fun H hl => by simp [hl]) fun g' H => objdefrHld_refs
  case tcpGetaddr lnk ptrs kind =>
    refine meets_ite.mpr ⟨fun _ => rfl, fun _ => ?_⟩
    refine tcpLink_refs (fun H hl => ?_) fun g' H => objdefrHld_refs
    split <;> simp [hl]
  case tcpSetopt => exact tcpSockopt_refs
  case tcpGetopt => exact tcpSockopt_refs
  case tcpSetattr => exact tcpLink_refs (fun H hl => by simp [hl]) fun g' H => objdefr_refs
  case tcpGetattr => exact tcpLink_refs (fun H hl => by simp [hl]) fun g' H => objdefr_refs
  case udpCreate => exact udpCreate_refs
  case udpDestroy l => exact absurd rfl (hu l)
  case udpWrite => exact udpWrite_refs
  case udpAwaken => cases hf
  case udpGetaddr =>
    refine meets_ite.mpr ⟨fun _ => rfl, fun _ => ?_⟩
    exact withLink_refs udprefr_refs (fun g' hl => calm_refs (by simp [hl]))
      fun g' H => objdefrHld_refs
  case udpSetopt => exact udpSockopt_refs
  case udpGetopt => exact udpSockopt_refs
  case udpInitializeGrp => exact udpInitializeGrp_refs
  case udpRaiseGrp => exact udpRaiseGrp_refs
  case udpDetachGrp => exact udpDetachGrp_refs
  case udpWriteGrp => exact udpWriteGrp_refs
  case udpJoingrp => exact udpJoingrp_refs
  case udpDropgrp => exact udpDropgrp_refs
  case nisSetctx => exact nisLink_refs (fun H hl => by simp [hl]) fun g' H => objdefrHld_refs
  case nisGetctx =>
    refine meets_ite.mpr ⟨fun _ => rfl, fun _ => ?_⟩
    exact nisLink_refs (fun H hl => by simp [hl]) fun g' H => objdefrHld_refs
  case nisRefctx => exact nisLink_refs (fun H hl => by simp [hl]) fun g' H => objdefrHld_refs
  case nisCtxsize => exact nisLink_refs (fun H hl => by simp [hl]) fun g' H => objdefrHld_refs
  case nisSetmask => exact nisLink_refs (fun H hl => by simp [hl]) fun g' H => objdefr_refs
  case nisGetmask => exact nisLink_refs (fun H hl => by simp [hl]) fun g' H => objdefr_refs
  case nisCntl lnk cmd =>
    refine nisCntl_refs ?_
    rintro rfl
    cases hf

/-- **Every dispatch is balanced** but that of a pipe event. -/
theorem soDispatchIoEvent_refs {p : IoPacket} {status : NtStatus} {transfer : Int} {turns : Nat}
    {irp : AcceptAddrs} (hp : p.proto ≠ .pipe)
    (hc : p.proto = .tcp → p.type = .connect → ntSuccess status = true → g.connects = true) :
    Balanced (soDispatchIoEvent p status transfer turns irp) g := by
  unfold soDispatchIoEvent
  split
  · exact udpDispatchIoEvent_refs
  next htcp => exact tcpDispatchIoEvent_refs (hc htcp)
  next hpipe => exact absurd hpipe hp
  · rfl

/-- **What every job does with its references.** -/
theorem job_refs (j : Job) : j.prog.Meets RefRecord.after RefRecord.Need RefRecord.Ok (.start j)
    (RefRecord.Post j) := by
  cases j with
  | completion p status transfer turns irp =>
      refine meets_bind.mpr ?_
      -- the dispatch of a pipe event forgets the reference it was granted
      by_cases hp : p.proto = .pipe
      · simp [soDispatchIoEvent, hp, soDispatchPipeEvent, RefRecord.Post, Job.forgets,
          RefRecord.after, RefRecord.start, RefRecord.blank, Notice.link]
        grind
      · refine (soDispatchIoEvent_refs hp fun htcp hconn hs => ?_).mono fun g' _ hg' => ?_
        · simp [RefRecord.start, Job.Connects, htcp, hconn, hs]
        · simp only [pure_eq, meets_done, RefRecord.Post, Job.forgets, if_neg hp]
          exact ⟨hg', trivial⟩
  | user c =>
      -- most calls are balanced; the rest forget one, or are `destroy`
      have hplain : (Job.user c).forgets = none → (∀ l, c ≠ .tcpDestroy l) →
          (∀ l, c ≠ .udpDestroy l) → c.prog.Meets RefRecord.after RefRecord.Need RefRecord.Ok
            (.start (.user c)) (RefRecord.Post (.user c)) := by
        intro hf ht hu
        refine (userCall_refs hf ht hu).mono fun g' _ hg' => ?_
        simp only [RefRecord.Post, hf]
        refine ⟨hg', ?_⟩
        split
        next l hl => exact absurd (Job.user.inj hl) (ht l)
        next l hl => exact absurd (Job.user.inj hl) (hu l)
        · trivial
      have hawaken : ∀ l data cb, (awaken l data cb).Meets RefRecord.after RefRecord.Need
          RefRecord.Ok (.start (.user c)) fun g' _ =>
            g'.held = if l ∈ g'.acquired then [l] else [] :=
        fun l data cb => awaken_refs rfl rfl
      cases c with
      | tcpAwaken l data cb => exact (hawaken l data cb).mono fun g' _ hg' => ⟨hg', trivial⟩
      | udpAwaken l data cb => exact (hawaken l data cb).mono fun g' _ hg' => ⟨hg', trivial⟩
      | tcpDestroy l => exact tcpDestroy_refs
      | udpDestroy l => exact tcpDestroy_refs
      | nisCntl l cmd =>
          cases cmd with
          | unknown =>
              simp [Job.prog, UserCall.prog, nisCntl, RefRecord.Post, Job.forgets,
                RefRecord.after, RefRecord.start, RefRecord.blank]
              grind
          | _ => exact hplain rfl (by rintro _ ⟨⟩) (by rintro _ ⟨⟩)
      | _ => exact hplain rfl (by rintro _ ⟨⟩) (by rintro _ ⟨⟩)

end

end Swnet.Sys
