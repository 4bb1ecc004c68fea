import Swnet.Recv.Reassembly

/-!
# Swnet — a run of receive completions

An open link is known by the tail it holds (`OpenLink`): the bytes that have arrived and are not
decoded yet, wherever they lie. One completion adds its bytes to the tail and decodes, and
whatever the system answers the link is open again with a new tail, or closed.

* `recvStep_spec` — one completion, whatever the system answers: the link holds the tail of
  what it decoded, or is closed;
* `recvRun_spec` — a whole run, by `Format.decode_append`, which puts the tails together. It is
  by induction on the completions, from any link that holds a tail.
-/

namespace Swnet

open CMem Framing

/-! ## Open links -/

/-- An open link that waits for a completion and holds the undecoded bytes `r`. -/
structure OpenLink (T : Template) (s : RecvLink) (r : List Byte) : Prop where
  on : T.On s.ncb
  holding : Holding T s r
  opened : s.closed = false
  posted : s.posted = true

/-- The bytes a link keeps between two completions. -/
def RecvLink.held (s : RecvLink) : List Byte :=
  match s.ncb.lbData, s.packet.oriBuffer with
  | some lb, _ => lb.read 0 s.ncb.lbCpyOffset.toNat
  | none, some ori => ori.read 0 s.packet.analyzedOffset.toNat
  | none, none => []

namespace Holding

variable {T : Template} {s : RecvLink} {r : List Byte}

/-- The receive is posted again. -/
theorem post (h : Holding T s r) : Holding T { s with posted := true } r := by
  cases h with
  | small b window block analyzed bytes front fits =>
    exact .small b ⟨window.ori, window.size, window.irp, window.req⟩ block analyzed bytes front fits
  | large b window lb block analyzed bytes total announced size length offset missing =>
    exact .large b ⟨window.ori, window.size, window.irp, window.req⟩ lb block analyzed bytes total
      announced size length offset missing

theorem held_eq (h : Holding T s r) : s.held = r := by
  cases h with
  | small b window block analyzed bytes =>
    simp only [RecvLink.held, block, window.ori, analyzed, Int.toNat_natCast, bytes]
  | large b window lb block analyzed bytes total announced size length offset =>
    simp only [RecvLink.held, block, offset, Int.toNat_natCast, bytes]

theorem front_eq (h : Holding T s r) : T.format.front r = .wait := by
  cases h with
  | small b window block analyzed bytes front => exact front
  | large b window lb block analyzed bytes total announced size length offset missing =>
    obtain ⟨hhead, -, n, hacc, rfl⟩ := T.large_eq_some announced
    exact T.format.front_of_partial hhead hacc missing

end Holding

/-- The receive window of an open link, and its large block, for headers of `c` bytes. -/
structure RecvInvariant (c : Int) (s : RecvLink) : Prop where
  irp : s.packet.irp = s.packet.analyzedOffset
  sizeForReq : s.packet.sizeForReq = tcpRecvBufferSize - s.packet.analyzedOffset
  progress : 1 ≤ s.packet.sizeForReq
  marked : ncbLbMarked s.ncb = true → s.packet.analyzedOffset = 0 ∧ c ≤ s.ncb.lbCpyOffset
    ∧ s.ncb.lbCpyOffset < s.ncb.lbLength ∧ tcpRecvBufferSize < s.ncb.lbLength
    ∧ s.ncb.lbLength ≤ tcpMaximumPacketSize + c
  unmarked : ncbLbMarked s.ncb = false → s.ncb.lbData = none

/-- A link that holds a tail keeps the window of its receive. -/
theorem Holding.invariant {T : Template} {s : RecvLink} {r : List Byte} (h : Holding T s r) :
    RecvInvariant T.cb s := by
  cases h with
  | small b window block analyzed bytes front fits =>
    have hlt := length_lt_of_fits front fits
    have hunmarked : ncbLbMarked s.ncb = false := by simp [ncbLbMarked, block]
    refine ⟨window.irp, window.req, ?_, fun hm => ?_, fun _ => block⟩
    · rw [window.req, analyzed]
      omega
    · rw [hunmarked] at hm
      cases hm
  | large b window lb block analyzed bytes total announced size length offset missing =>
    obtain ⟨hhead, hbig, n, hacc, htotal⟩ := T.large_eq_some announced
    have hmax := acceptedSize_le hacc
    refine ⟨window.irp, window.req, ?_, fun _ => ⟨analyzed, ?_⟩, fun hm => ?_⟩
    · rw [window.req, analyzed]
      decide
    · rw [offset, length]
      exact ⟨by omega, by omega, by omega, by omega⟩
    · simp only [ncbLbMarked, block, length, Option.isSome_some, Bool.true_and,
        decide_eq_false_iff_not] at hm
      omega

/-! ## One completion -/

/-- `s'` is what a completion leaves of `s` when `w` is the tail `s` held with the completion
appended. -/
structure Stepped (A : Linkattr) (T : Template) (s : RecvLink) (w : List Byte)
    (o : RecvOutcome) (s' : RecvLink) : Prop where
  config : SameConfig s s'
  events : s'.events
    = s.events ++ if o.refr then frameEvents A s.ncb (T.format.decode w).1 else []
  marks : ∀ call ∈ s'.marks, call ∈ s.marks ∨ call.Sound
  stays : s'.closed = false → ∃ r, (T.format.decode w).2 = some r ∧ OpenLink T s' r
  closes : s'.closed = true → o.Favourable → (T.format.decode w).2 = none

section

variable (A : Linkattr) {T : Template} (ndebug : Bool) {s : RecvLink} {r : List Byte}

/-- **One completion.** The link decodes the tail it held and the bytes that arrived, as one
stream. -/
theorem recvStep_spec (h : OpenLink T s r) {x : RecvCompletion} (hx : s.Accepts x) :
    ∃ s', recvStep A ndebug s x = .ok s' ∧ Stepped A T s (r ++ x.data) x.outcome s' := by
  obtain ⟨b, a, retval, s', hcomplete, hbody, hdec⟩ := tcpRecvBody_spec A ndebug x.outcome.malloc
    h.on h.holding hx.1 hx.2
  have harrived : ¬ (s.arrived b a x.data).packet.sizeForTranslation ≤ 0 := by
    have hpos := List.length_pos_iff.mpr hx.1
    change ¬ (x.data.length : Int) ≤ 0
    omega
  rw [recvStep, hcomplete, ok_bind, tcpDispatchIoRecv, if_neg harrived]
  cases hrefr : x.outcome.refr with
  | false =>
    -- the link was closed by somebody else
    rw [if_pos (by simp)]
    refine ⟨_, rfl, ?_⟩
    exact {
      config := ⟨rfl, rfl, rfl, rfl⟩
      events := by simp [RecvLink.close, RecvLink.arrived, hrefr]
      marks := fun call hcall => Or.inl hcall
      stays := fun hopen => by cases hopen
      closes := fun _ hfav => by rw [hfav.refr] at hrefr; cases hrefr }
  | true =>
    rw [if_neg (by simp), hbody, ok_bind]
    dsimp only
    -- the link stays open where the parser is content and the next receive is posted
    by_cases hgo : 0 ≤ retval ∧ x.outcome.post
    · obtain ⟨r', htail, hholding⟩ := hdec.holds hgo.1
      rw [if_pos hgo]
      refine ⟨_, rfl, ?_⟩
      have hopen : s'.closed = false := hdec.closed.trans h.opened
      exact {
        config := ⟨hdec.config.hld, hdec.config.nisCallback, hdec.config.attr,
          hdec.config.tcpTst⟩
        events := by simp only [hrefr, if_true]; exact hdec.events
        marks := hdec.marks
        stays := fun _ => ⟨r', htail, hdec.config.on h.on, hholding.post, hopen, rfl⟩
        closes := fun hclosed => by
          change s'.closed = true at hclosed
          rw [hopen] at hclosed
          cases hclosed }
    · rw [if_neg hgo]
      refine ⟨_, rfl, ?_⟩
      exact {
        config := ⟨hdec.config.hld, hdec.config.nisCallback, hdec.config.attr,
          hdec.config.tcpTst⟩
        events := by simp only [hrefr, if_true]; exact hdec.events
        marks := hdec.marks
        stays := fun hopen => by cases hopen
        closes := fun _ hfav => by
          have hret : retval < 0 := by
            by_contra hret
            exact hgo ⟨by omega, hfav.post⟩
          rcases hdec.failed hret with hnone | hmalloc
          · exact hnone
          · have hsome := hfav.malloc
            rw [hmalloc] at hsome
            cases hsome }

end

/-! ## A run -/

/-- The bytes a run of completions brings. -/
def received (xs : List RecvCompletion) : List Byte := xs.flatMap RecvCompletion.data

/-- The bytes of a run are those of its completions, in order. -/
theorem received_cons (x : RecvCompletion) (xs : List RecvCompletion) :
    received (x :: xs) = x.data ++ received xs := rfl

theorem recvRun_of_closed (A : Linkattr) (ndebug : Bool) {s : RecvLink} (h : s.closed = true)
    (xs : List RecvCompletion) : recvRun A ndebug s xs = .ok s := by
  cases xs with
  | nil => rfl
  | cons x xs => rw [recvRun, if_pos h]

/-- On an open one the first completion is dispatched first. -/
theorem recvRun_cons_of_open (A : Linkattr) (ndebug : Bool) {s : RecvLink} (h : s.closed = false)
    (x : RecvCompletion) (xs : List RecvCompletion) :
    recvRun A ndebug s (x :: xs)
      = recvStep A ndebug s x >>= fun s => recvRun A ndebug s xs := by
  rw [recvRun, if_neg (by rw [h]; decide)]

/-- `s'` is what a run leaves of `s` when `w` is the tail `s` held with the run's bytes
appended. -/
structure Ran (A : Linkattr) (T : Template) (s : RecvLink) (w : List Byte)
    (xs : List RecvCompletion) (s' : RecvLink) : Prop where
  config : SameConfig s s'
  marks : ∀ call ∈ s'.marks, call ∈ s.marks ∨ call.Sound
  stays : s'.closed = false → ∃ r, (T.format.decode w).2 = some r ∧ OpenLink T s' r
  closes : (∀ x ∈ xs, x.outcome.Favourable) → s'.closed = true → (T.format.decode w).2 = none
  events : (∀ x ∈ xs, x.outcome.Favourable) →
    s'.events = s.events ++ frameEvents A s.ncb (T.format.decode w).1

section

variable {A : Linkattr} {T : Template} {ndebug : Bool} {s : RecvLink} {r : List Byte}

/-- **A run decodes.** Induction on the completions. A completion that leaves the link open
extends the decoding by `Format.decode_append`; one that closes it ends the run, and the
bytes nobody receives do not change a decoding that was refused. -/
theorem recvRun_spec (h : OpenLink T s r) {xs : List RecvCompletion}
    (hadm : RecvAdmissible A ndebug s xs) :
    ∃ s', recvRun A ndebug s xs = .ok s' ∧ Ran A T s (r ++ received xs) xs s' := by
  induction xs generalizing s r with
  -- the tail stays what it is: nothing complete is in it
  | nil =>
    have hdecode := T.format.decode_of_wait h.holding.front_eq
    refine ⟨s, rfl, ?_⟩
    rw [show r ++ received [] = r from List.append_nil r]
    exact {
      config := .refl s
      marks := fun call hcall => Or.inl hcall
      stays := fun _ => ⟨r, by rw [hdecode], h⟩
      closes := fun _ hclosed => by rw [h.opened] at hclosed; cases hclosed
      events := fun _ => by simp [hdecode] }
  | cons x xs ih =>
    obtain ⟨hx, hrest⟩ := hadm h.opened
    obtain ⟨s₁, hstep, hs₁⟩ := recvStep_spec A ndebug h hx
    rw [recvRun_cons_of_open A ndebug h.opened, hstep, ok_bind, received_cons, ← List.append_assoc]
    cases hclosed : s₁.closed with
    -- the link was closed: the rest of the run is not dispatched, and what was refused stays so
    | true =>
      rw [recvRun_of_closed A ndebug hclosed]
      refine ⟨s₁, rfl, ?_⟩
      have hnone : (∀ y ∈ x :: xs, y.outcome.Favourable) →
          (T.format.decode (r ++ x.data)).2 = none :=
        fun hfav => hs₁.closes hclosed (hfav x (List.mem_cons_self ..))
      exact {
        config := hs₁.config
        marks := hs₁.marks
        stays := fun hopen => by rw [hclosed] at hopen; cases hopen
        closes := fun hfav _ => by
          rw [T.format.decode_append_of_refused _ (hnone hfav)]
          exact hnone hfav
        events := fun hfav => by
          have hrefr := (hfav x (List.mem_cons_self ..)).refr
          rw [T.format.decode_append_of_refused _ (hnone hfav), hs₁.events, hrefr, if_pos rfl] }
    -- the link goes on with the tail of what was decoded, and so does the decoder
    | false =>
      obtain ⟨r₁, htail, hopen⟩ := hs₁.stays hclosed
      obtain ⟨s', hrun, hs'⟩ := ih hopen (hrest s₁ hstep)
      refine ⟨s', hrun, ?_⟩
      have happend := T.format.decode_append (received xs) htail
      exact {
        config := hs₁.config.trans hs'.config
        marks := fun call hcall => by
          rcases hs'.marks call hcall with hin | hsound
          · exact hs₁.marks call hin
          · exact Or.inr hsound
        stays := fun hstill => by rw [happend]; exact hs'.stays hstill
        closes := fun hfav hend => by
          rw [happend]
          exact hs'.closes (fun y hy => hfav y (List.mem_cons_of_mem _ hy)) hend
        events := fun hfav => by
          have hrefr := (hfav x (List.mem_cons_self ..)).refr
          rw [happend, hs'.events fun y hy => hfav y (List.mem_cons_of_mem _ hy), hs₁.events, hrefr,
            if_pos rfl, hs₁.config.frameEvents, List.append_assoc, ← frameEvents_append] }

end

/-! ## The start of a link -/

/-- The `tst_t` of a template. -/
def Template.tst (T : Template) (builder : Option (Int → Option (List Byte))) : Tst :=
  ⟨T.cb, builder, some T.parser⟩

theorem openLink_start (T : Template) (hld : Int) (nisCallback : Bool) (attr : BitVec 32)
    (builder : Option (Int → Option (List Byte))) (cell : Nat → Byte) :
    OpenLink T (.start hld nisCallback attr (T.tst builder) cell) [] where
  on := ⟨rfl, rfl⟩
  holding := .small ⟨tcpRecvBufferSize, cell⟩ ⟨rfl, rfl, rfl, rfl⟩ rfl rfl rfl
    (T.format.front_of_short T.cb_pos) (T.large_of_short T.cb_pos)
  opened := rfl
  posted := rfl

end Swnet
