import Swnet.Sys.Machine

/-!
# Swnet — what one call can change

Said once for each part of the world, so that no invariant has to look into `World.answer`:
objects (`answer_obj`), requests (`answer_posted`), what the user knows and was told
(`answer_notices`). `settle`, which runs the unload routine, only changes the object it
unloads, the packets freed, and what the user is told.

The start of a job and its end are told in the same way (`startJob_spec`, `finishJob_spec`). The
cases of `ObjStep` and `Tells` are complete, guards included: the invariants of the modules that
follow go by them and by nothing else, so that a new call of the library costs its cases here and
those where it matters.
-/

namespace Swnet.Sys

open Jobs

/-! ## Unloading -/

/-- What stays of an object whatever is done to it, but for its being closed. -/
structure Obj.Kin (o o' : Obj) : Prop where
  proto : o'.proto = o.proto
  remote : o'.remote = o.remote

theorem Obj.Kin.refl (o : Obj) : o.Kin o := ⟨rfl, rfl⟩

theorem Obj.Kin.trans {o₁ o₂ o₃ : Obj} (h₁ : o₁.Kin o₂) (h₂ : o₂.Kin o₃) : o₁.Kin o₃ :=
  ⟨h₂.proto.trans h₁.proto, h₂.remote.trans h₁.remote⟩

/-- What the unload routine leaves alone. -/
structure Obj.Husk (o o' : Obj) : Prop where
  kin : o.Kin o'
  closed : o'.closed = o.closed
  refs : o'.refs = o.refs
  callback : o'.callback = o.callback
  remoteAddr : o'.remoteAddr = o.remoteAddr
  peer : o'.peer = o.peer
  socketsMade : o'.socketsMade = o.socketsMade
  lockerInits : o'.lockerInits = o.lockerInits

namespace Obj

theorem Husk.refl (o : Obj) : o.Husk o := ⟨.refl o, rfl, rfl, rfl, rfl, rfl, rfl, rfl⟩

theorem Husk.trans {o₁ o₂ o₃ : Obj} (h₁ : o₁.Husk o₂) (h₂ : o₂.Husk o₃) : o₁.Husk o₃ where
  kin := h₁.kin.trans h₂.kin
  closed := h₂.closed.trans h₁.closed
  refs := h₂.refs.trans h₁.refs
  callback := h₂.callback.trans h₁.callback
  remoteAddr := h₂.remoteAddr.trans h₁.remoteAddr
  peer := h₂.peer.trans h₁.peer
  socketsMade := h₂.socketsMade.trans h₁.socketsMade
  lockerInits := h₂.lockerInits.trans h₁.lockerInits

theorem ioclose_husk (o : Obj) : o.Husk o.ioclose := by
  unfold ioclose
  split
  · exact ⟨⟨rfl, rfl⟩, rfl, rfl, rfl, rfl, rfl, rfl, rfl⟩
  · exact .refl o

/-- The drain loop frees the packets of the queue in order, and leaves an empty list. -/
theorem drain_eq (o : Obj) (queue : List Int) :
    o.drain queue = ({ o with cacheHead := some [] }, queue) := by
  induction queue with
  | nil => rfl
  | cons k queue ih => rw [drain, ih]

/-- `tcp_unload` takes the queue, the context and the socket. -/
theorem tcpUnload_husk (o : Obj) : o.Husk o.tcpUnload.1 := by
  unfold tcpUnload
  have hclose := ioclose_husk o
  dsimp only
  split
  · rw [drain_eq]
    exact hclose.trans ⟨⟨rfl, rfl⟩, rfl, rfl, rfl, rfl, rfl, rfl, rfl⟩
  · exact hclose.trans ⟨⟨rfl, rfl⟩, rfl, rfl, rfl, rfl, rfl, rfl, rfl⟩

/-- Either unload routine leaves a husk. -/
theorem unload_husk (o : Obj) : o.Husk o.unload.1 := by
  have hmark : o.Husk { o with unloaded := true } := ⟨⟨rfl, rfl⟩, rfl, rfl, rfl, rfl, rfl, rfl, rfl⟩
  unfold unload
  dsimp only
  split
  · exact hmark.trans (tcpUnload_husk _)
  · exact hmark.trans (ioclose_husk _)

/-- Closing the socket unloads nothing. -/
theorem ioclose_unloaded (o : Obj) : o.ioclose.unloaded = o.unloaded := by
  unfold ioclose
  split <;> rfl

/-- The unload routine is recorded. -/
theorem unload_unloaded (o : Obj) : o.unload.1.unloaded = true := by
  unfold unload
  dsimp only
  split
  · unfold tcpUnload
    dsimp only
    split
    · rw [drain_eq]
      exact ioclose_unloaded _
    · exact ioclose_unloaded _
  · exact ioclose_unloaded _

end Obj

namespace World

variable {w w' : World} {h k : Int} {o : Obj}

@[simp] theorem setObj_obj (w : World) (h : Int) (o : Obj) :
    (w.setObj h o).obj = Function.update w.obj h (some o) := rfl

@[simp] theorem note_obj (w : World) (n : Notice) : (w.note n).obj = w.obj := rfl

@[simp] theorem tell_obj (w : World) (h : Int) (n : Notice) : (w.tell h n).obj = w.obj := by
  unfold tell
  split
  · split <;> rfl
  · rfl

/-- The unload routine works on its object alone. -/
theorem unload_obj (w : World) (h : Int) (o : Obj) :
    (w.unload h o).obj = Function.update w.obj h (some o.unload.1) := by
  unfold unload
  simp

/-- What settles is the object of the call. -/
theorem settle_obj_of_ne (hk : k ≠ h) : (w.settle h).obj k = w.obj k := by
  unfold settle
  split
  · split
    · rw [unload_obj, Function.update_of_ne hk]
    · rfl
  · rfl

/-- There is nothing to settle for a handle without object. -/
theorem settle_obj_none (hobj : w.obj h = none) : w.settle h = w := by
  unfold settle
  rw [hobj]

/-- An object that nobody holds is unloaded once it is closed; one that is still open or held
is left alone. -/
theorem settle_obj_self (hobj : w.obj h = some o) :
    ∃ o', (w.settle h).obj h = some o' ∧ o.Husk o'
      ∧ (o'.closed = true → o'.refs = 0 → o'.unloaded = true)
      ∧ (o' = o ∨ o.closed = true ∧ o.refs = 0 ∧ o.unloaded = false ∧ o' = o.unload.1) := by
  unfold settle
  rw [hobj]
  dsimp only
  split
  next hcond =>
    obtain ⟨hclosed, hrefs, hloaded⟩ := hcond
    refine ⟨o.unload.1, by rw [unload_obj, Function.update_self], o.unload_husk, ?_,
      Or.inr ⟨hclosed, hrefs, hloaded, rfl⟩⟩
    intro _ _
    exact o.unload_unloaded
  next hcond =>
    refine ⟨o, hobj, .refl o, ?_, Or.inl rfl⟩
    intro hclosed hrefs
    by_contra hloaded
    exact hcond ⟨hclosed, hrefs, Bool.eq_false_iff.mpr hloaded⟩

/-- The unload routine of the object of a handle has run. -/
def gone (w : World) (k : Int) : Bool :=
  match w.obj k with
  | some o => o.unloaded
  | none => false

/-- An object is gone once it was unloaded. -/
theorem gone_some (ho : w.obj k = some o) : w.gone k = o.unloaded := by
  rw [gone, ho]

/-- What is gone is read off the objects. -/
theorem gone_of_obj (hobj : w'.obj = w.obj) : w'.gone = w.gone := by
  funext k
  rw [gone, gone, hobj]

/-- Put in its place, an object tells itself whether it is gone. -/
theorem gone_setObj (w : World) (h : Int) (o : Obj) :
    (w.setObj h o).gone = Function.update w.gone h o.unloaded := by
  funext k
  unfold gone
  rw [setObj_obj]
  by_cases hk : k = h
  · subst hk
    rw [Function.update_self, Function.update_self]
  · rw [Function.update_of_ne hk, Function.update_of_ne hk]

/-- An object that is changed is gone when it was. -/
theorem gone_setObj_of {o₁ : Obj} (ho : w.obj h = some o) (h₁ : o₁.unloaded = o.unloaded) :
    (w.setObj h o₁).gone = w.gone := by
  rw [gone_setObj, h₁, ← gone_some ho, Function.update_eq_self]

theorem tell_notices (ho : w.obj h = some o) (n : Notice) :
    (w.tell h n).notices = w.notices ++ (if o.callback then [n] else []) := by
  unfold tell
  rw [ho]
  dsimp only
  split
  · rfl
  · exact (List.append_nil _).symm

theorem tell_known (ho : w.obj h = some o) (n : Notice) :
    (w.tell h n).known = (if o.callback then n.gives else []) ++ w.known := by
  unfold tell
  rw [ho]
  dsimp only
  split <;> rfl

/-- What the user is told when an object is unloaded. -/
def closing (h : Int) (o : Obj) : List Notice :=
  if o.callback then [.preClose h, .closed h] else []

/-- The unload routine tells the user of the end of a link, and of no link it did not know. -/
theorem unload_notices (ho : w.obj h = some o) :
    (w.unload h o).notices = w.notices ++ closing h o ∧ (w.unload h o).known = w.known := by
  have hcb := o.unload_husk.callback
  have ho₁ : ({ (w.tell h (.preClose h)).setObj h o.unload.1 with
      freed := o.unload.2 ++ (w.tell h (.preClose h)).freed } : World).obj h
        = some o.unload.1 := by
    show Function.update _ h _ h = _
    rw [Function.update_self]
  unfold unload closing
  dsimp only
  rw [tell_notices ho₁, tell_known ho₁, hcb]
  constructor
  · show (w.tell h (.preClose h)).notices ++ _ = _
    rw [tell_notices ho]
    split <;> simp
  · show _ ++ (w.tell h (.preClose h)).known = _
    rw [tell_known ho]
    split <;> rfl

theorem unload_gone (w : World) (h : Int) (o : Obj) :
    (w.unload h o).gone = Function.update w.gone h true := by
  have hobj : (w.unload h o).obj = (w.setObj h o.unload.1).obj := unload_obj w h o
  rw [gone_of_obj hobj, gone_setObj, o.unload_unloaded]

/-- When an object is looked at for unloading, it is unloaded, and the user hears of it, or
nothing happens. -/
theorem settle_notices (ho : w.obj h = some o) :
    ((w.settle h).notices = w.notices ∧ (w.settle h).gone = w.gone
        ∨ (o.closed = true ∧ o.refs = 0 ∧ o.unloaded = false
          ∧ (w.settle h).notices = w.notices ++ closing h o
          ∧ (w.settle h).gone = Function.update w.gone h true))
      ∧ (w.settle h).known = w.known := by
  unfold settle
  rw [ho]
  dsimp only
  split
  next hcond =>
    obtain ⟨hclosed, hrefs, hloaded⟩ := hcond
    obtain ⟨hnotices, hknown⟩ := unload_notices ho
    exact ⟨Or.inr ⟨hclosed, hrefs, hloaded, hnotices, unload_gone w h o⟩, hknown⟩
  · exact ⟨Or.inl ⟨rfl, rfl⟩, rfl⟩

@[simp] theorem tell_posted (w : World) (h : Int) (n : Notice) :
    (w.tell h n).posted = w.posted := by
  unfold tell
  split
  · split <;> rfl
  · rfl

@[simp] theorem settle_posted (w : World) (h : Int) : (w.settle h).posted = w.posted := by
  unfold settle unload
  split
  · split
    · simp [setObj]
    · rfl
  · rfl

@[simp] theorem tell_busy (w : World) (h : Int) (n : Notice) : (w.tell h n).busy = w.busy := by
  unfold tell
  split
  · split <;> rfl
  · rfl

@[simp] theorem settle_busy (w : World) (h : Int) : (w.settle h).busy = w.busy := by
  unfold settle unload
  split
  · split
    · simp [setObj]
    · rfl
  · rfl

@[simp] theorem tell_listens (w : World) (h : Int) (n : Notice) :
    (w.tell h n).listens = w.listens := by
  unfold tell
  split
  · split <;> rfl
  · rfl

@[simp] theorem settle_listens (w : World) (h : Int) : (w.settle h).listens = w.listens := by
  unfold settle unload
  split
  · split
    · simp [setObj]
    · rfl
  · rfl

@[simp] theorem tell_allocated (w : World) (h : Int) (n : Notice) :
    (w.tell h n).allocated = w.allocated := by
  unfold tell
  split
  · split <;> rfl
  · rfl

end World

/-! ## One call -/

/-- The link a call closes. -/
def Call.closes : Call → Option Int
  | .objclos h | .objreff h => some h
  | _ => none

/-- An access leaves the kind of the object, its closing, its references and its unloading
alone. -/
theorem Access.apply_spec {x : Access} {a : Int} {o o' : Obj} (h : x.apply a o = some o') :
    o.Kin o' ∧ o'.closed = o.closed ∧ o'.refs = o.refs ∧ o'.unloaded = o.unloaded := by
  have hclose := o.ioclose_husk
  have hunloaded := o.ioclose_unloaded
  cases x <;> simp only [Access.apply] at h <;>
    grind [Obj.Kin, Obj.Husk]

/-- A callback that is set stays set. -/
theorem Access.apply_callback {x : Access} {a : Int} {o o' : Obj} (h : x.apply a o = some o') :
    (o.callback = true → o'.callback = true) ∧ (x ≠ .setCallback → o'.callback = o.callback) := by
  have hclose := o.ioclose_husk.callback
  cases x <;> simp only [Access.apply] at h <;> grind

/-- An object after it was looked at for unloading. -/
structure Obj.Settled (o o' : Obj) : Prop where
  husk : o.Husk o'
  idle : o'.closed = true → o'.refs = 0 → o'.unloaded = true
  cases : o' = o ∨ o.closed = true ∧ o.refs = 0 ∧ o.unloaded = false ∧ o' = o.unload.1

/-- An object is unloaded because it was before, or because it is closed and nobody refers to it. -/
theorem Obj.Settled.loaded {o o' : Obj} (h : o.Settled o') (hu : o'.unloaded = true) :
    o.unloaded = true ∨ o.closed = true ∧ o.refs = 0 := by
  rcases h.cases with rfl | ⟨hclosed, hrefs, -⟩
  · exact .inl hu
  · exact .inr ⟨hclosed, hrefs⟩

/-- What one call does to the object of a handle. -/
inductive ObjStep (c : Call) (a k : Int) : Option Obj → Option Obj → Prop where
  | same (x : Option Obj) : ObjStep c a k x x
  | allo {proto : ProtoType} {remote : Bool} (hc : c = .objallo proto remote) (ha : 0 ≤ a)
      (hk : a = k) : ObjStep c a k none (some (.new proto remote))
  | refer {o : Obj} (hc : c = .objrefr k) (ha : 0 ≤ a) (ho : o.Referable) :
      ObjStep c a k (some o) (some { o with refs := o.refs + 1 })
  | reff {o : Obj} (hc : c = .objreff k) (ha : 0 ≤ a) (ho : o.closed = false) :
      ObjStep c a k (some o) (some { o with refs := o.refs + 1, closed := true })
  | defr {o o' : Obj} (hc : c = .objdefr k)
    (ho : ({ o with refs := o.refs - 1 } : Obj).Settled o') :
      ObjStep c a k (some o) (some o')
  | clos {o o' : Obj} (hc : c = .objclos k) (ho : ({ o with closed := true } : Obj).Settled o') :
      ObjStep c a k (some o) (some o')
  | access {o o' : Obj} {x : Access} (hc : c = .ncb k x) (ho : x.apply a o = some o') :
      ObjStep c a k (some o) (some o')

namespace World

variable {w w' : World} {c : Call} {a : Int}

/-- The object is changed and looked at for unloading. -/
theorem settle_step (w : World) (h : Int) (o₁ : Obj) :
    ∃ o', ((w.setObj h o₁).settle h).obj h = some o' ∧ o₁.Settled o' := by
  have hself : (w.setObj h o₁).obj h = some o₁ := by simp
  obtain ⟨o', hobj, hhusk, hidle, hcases⟩ := settle_obj_self hself
  exact ⟨o', hobj, hhusk, hidle, hcases⟩

/-- **What a call does to an object**, one constructor a kind of call. Everything that is shown of
the objects in a run goes through this. -/
theorem answer_obj (h : w.answer c a = some w') (k : Int) : ObjStep c a k (w.obj k) (w'.obj k) := by
  -- a settled object may be unloaded, but no other one changes
  have hother : ∀ {l : Int} {o₁ : Obj}, k ≠ l → ((w.setObj l o₁).settle l).obj k = w.obj k := by
    intro l o₁ hkl
    rw [settle_obj_of_ne hkl, setObj_obj, Function.update_of_ne hkl]
  cases c with
  | objallo proto remote =>
      simp only [answer] at h
      split at h
      · cases h
        exact .same _
      next hneg =>
        split at h
        next hnone =>
          cases h
          by_cases hk : k = a
          · subst hk
            rw [hnone, setObj_obj, Function.update_self]
            exact .allo rfl (by omega) rfl
          · rw [setObj_obj, Function.update_of_ne hk]
            exact .same _
        · cases h
  | objrefr l =>
      simp only [answer] at h
      split at h
      · split at h
        · cases h
          exact .same _
        · cases h
      next o ho =>
        split at h
        · split at h
          · cases h
            exact .same _
          · cases h
        next hneg =>
          split at h
          next href =>
            cases h
            by_cases hk : k = l
            · subst hk
              rw [ho, setObj_obj, Function.update_self]
              -- the reference is counted: the object is there and open
              exact .refer rfl (by omega) href
            · rw [setObj_obj, Function.update_of_ne hk]
              exact .same _
          · cases h
  | objreff l =>
      simp only [answer] at h
      split at h
      · split at h
        · cases h
          exact .same _
        · cases h
      next o ho =>
        split at h
        · split at h
          · cases h
            exact .same _
          · cases h
        next hneg =>
          split at h
          · cases h
          next hopen =>
            cases h
            by_cases hk : k = l
            · subst hk
              rw [ho, setObj_obj, Function.update_self]
              exact .reff rfl (by omega) (Bool.eq_false_iff.mpr hopen)
            · rw [setObj_obj, Function.update_of_ne hk]
              exact .same _
  | objdefr l =>
      simp only [answer] at h
      split at h
      · cases h
        exact .same _
      next o ho =>
        cases h
        by_cases hk : k = l
        · subst hk
          obtain ⟨o', hobj, hset⟩ := settle_step w k { o with refs := o.refs - 1 }
          rw [ho, hobj]
          exact .defr rfl hset
        · rw [hother hk]
          exact .same _
  | objclos l =>
      simp only [answer] at h
      split at h
      · cases h
        exact .same _
      next o ho =>
        cases h
        by_cases hk : k = l
        · subst hk
          obtain ⟨o', hobj, hset⟩ := settle_step w k { o with closed := true }
          rw [ho, hobj]
          exact .clos rfl hset
        · rw [hother hk]
          exact .same _
  | ncb l x =>
      simp only [answer] at h
      split at h
      · cases h
        exact .same _
      next o ho =>
        obtain ⟨o', happly, rfl⟩ := Option.map_eq_some_iff.mp h
        by_cases hk : k = l
        · subst hk
          rw [ho, setObj_obj, Function.update_self]
          exact .access rfl happly
        · rw [setObj_obj, Function.update_of_ne hk]
          exact .same _
  | allocatePacket l proto type =>
      simp only [answer] at h
      split at h
      · cases h
        exact .same _
      · split at h
        · cases h
        · cases h
          exact .same _
  | freepkt p =>
      cases h
      exact .same _
  | post p =>
      simp only [answer, Option.some.injEq] at h
      subst h
      split <;> exact .same _
  | emit n =>
      cases h
      rw [tell_obj]
      exact .same _
  | other x =>
      cases h
      exact .same _
  | stuck => cases h

/-- What is there stays there, as what it is; it stays closed, and is closed by `objclos` and
`objreff` only. -/
structure Keeps (c : Call) (k : Int) (o o' : Obj) : Prop where
  kin : o.Kin o'
  callback : o.callback = true → o'.callback = true
  silent : c ≠ .ncb k .setCallback → o'.callback = o.callback
  closed : o.closed = true → o'.closed = true
  opened : c.closes ≠ some k → o'.closed = o.closed

/-- What no call changes of an object, but for the calls that are there to change it. -/
theorem answer_keeps (h : w.answer c a = some w') {k : Int} {o : Obj} (ho : w.obj k = some o) :
    ∃ o', w'.obj k = some o' ∧ Keeps c k o o' := by
  have hstep := answer_obj h k
  rw [ho] at hstep
  generalize w'.obj k = x' at hstep
  cases hstep with
  | same => exact ⟨o, rfl, .refl o, id, fun _ => rfl, id, fun _ => rfl⟩
  | refer hc ha hr => exact ⟨_, rfl, ⟨rfl, rfl⟩, id, fun _ => rfl, id, fun _ => rfl⟩
  | reff hc ha hr =>
      subst hc
      exact ⟨_, rfl, ⟨rfl, rfl⟩, id, fun _ => rfl, fun _ => rfl, fun hne => absurd rfl hne⟩
  | defr hc hs =>
      have hhusk := hs.husk
      exact ⟨_, rfl, ⟨hhusk.kin.proto, hhusk.kin.remote⟩, fun hcb => hhusk.callback.trans hcb,
        fun _ => hhusk.callback, fun hcl => hhusk.closed.trans hcl, fun _ => hhusk.closed⟩
  | clos hc hs =>
      subst hc
      have hhusk := hs.husk
      exact ⟨_, rfl, ⟨hhusk.kin.proto, hhusk.kin.remote⟩, fun hcb => hhusk.callback.trans hcb,
        fun _ => hhusk.callback, fun _ => hhusk.closed, fun hne => absurd rfl hne⟩
  | access hc hx =>
      subst hc
      obtain ⟨hkin, hclosed, -, -⟩ := Access.apply_spec hx
      obtain ⟨hset, hsilent⟩ := Access.apply_callback hx
      refine ⟨_, rfl, hkin, hset, fun hne => hsilent ?_, fun hcl => hclosed.trans hcl,
        fun _ => hclosed⟩
      rintro rfl
      exact hne rfl

/-- What was not there was allocated. -/
theorem answer_made (h : w.answer c a = some w') {k : Int} {o' : Obj} (hn : w.obj k = none)
    (ho' : w'.obj k = some o') : ∃ proto remote, c = .objallo proto remote ∧ 0 ≤ a ∧ a = k
      ∧ o' = .new proto remote := by
  have hstep := answer_obj h k
  rw [hn, ho'] at hstep
  cases hstep with
  | allo hc ha hk => exact ⟨_, _, hc, ha, hk, rfl⟩

/-- Memory is handed out once. -/
theorem answer_allo {proto : ProtoType} {remote : Bool} (ha : 0 ≤ a)
    (h : w.answer (.objallo proto remote) a = some w') :
    w.obj a = none ∧ w'.obj a = some (.new proto remote) := by
  simp only [answer, if_neg (show ¬ a < 0 by omega)] at h
  split at h
  next hnone =>
    cases h
    exact ⟨hnone, Function.update_self ..⟩
  · cases h

/-- The protocol that is read is that of the object. -/
theorem answer_proto {k : Int} {o : Obj} (ho : w.obj k = some o)
    (h : w.answer (.ncb k .proto) a = some w') : a = o.proto.code := by
  simp only [answer, ho, Access.apply] at h
  split at h
  next heq => exact heq
  · cases h

/-- The callback is set once the call is done. -/
theorem answer_setCallback {k : Int} {o : Obj} (ho : w.obj k = some o)
    (h : w.answer (.ncb k .setCallback) a = some w') :
    ∃ o', w'.obj k = some o' ∧ o'.callback = true := by
  simp only [answer, ho, Access.apply, Option.map_some, Option.some.injEq] at h
  subst h
  exact ⟨_, Function.update_self .., rfl⟩

/-- A reference is refused to what is not there or closed. -/
theorem answer_refused {l : Int} (hc : c = .objrefr l ∨ c = .objreff l) (ha : a < 0)
    (h : w.answer c a = some w') : ∀ o, w.obj l = some o → o.closed = true := by
  intro o ho
  rcases hc with rfl | rfl <;>
  · simp only [answer, ho, if_pos ha] at h
    split at h
    next hclosed => exact hclosed
    · cases h

/-- A reference is only granted to what is there. -/
theorem answer_granted {l : Int} (hc : c = .objrefr l ∨ c = .objreff l) (ha : 0 ≤ a)
    (h : w.answer c a = some w') : ∃ o, w.obj l = some o := by
  cases ho : w.obj l with
  | some o => exact ⟨o, rfl⟩
  | none =>
      rcases hc with rfl | rfl <;>
      · simp only [answer, ho, if_neg (show ¬ a < 0 by omega)] at h
        cases h

/-- Requests are only added, by `post`. -/
theorem answer_posted (h : w.answer c a = some w') :
    (∃ p, c = .post p ∧ 0 ≤ a ∧ w'.posted = p :: w.posted)
      ∨ (w'.posted = w.posted ∧ ∀ p, c = .post p → a < 0) := by
  cases c <;> simp only [answer] at h <;>
    grind [tell_posted, settle_posted, setObj, Option.map_eq_some_iff]

/-- What is never changed by a call. -/
theorem answer_frame (h : w.answer c a = some w') :
    w'.busy = w.busy ∧ w'.listens = w.listens := by
  cases c <;> simp only [answer] at h <;>
    grind [tell_busy, settle_busy, tell_listens, settle_listens, setObj, Option.map_eq_some_iff]

/-- What the user is told by a call: nothing, the event it raises, or that a link was closed,
which is when the link is gone. -/
inductive Tells (w w' : World) (c : Call) : List Notice → Prop where
  | nothing (hg : w'.gone = w.gone) : Tells w w' c []
  | event {n : Notice} {o : Obj} (hc : c = .emit n) (ho : w.obj n.link = some o)
      (hcb : o.callback = true) (hg : w'.gone = w.gone) : Tells w w' c [n]
  | closing {h : Int} {o o₁ : Obj} (hc : c = .objdefr h ∨ c = .objclos h) (ho : w.obj h = some o)
      (h₁ : o₁ = { o with refs := o.refs - 1 } ∨ o₁ = { o with closed := true })
      (hclosed : o₁.closed = true) (hrefs : o₁.refs = 0) (hloaded : o₁.unloaded = false)
      (hg : w'.gone = Function.update w.gone h true) :
      Tells w w' c (closing h o₁)

/-- **What a call tells the user**: at most one event, and the end of the link it unloads. -/
theorem answer_notices (h : w.answer c a = some w') :
    ∃ new, Tells w w' c new ∧ w'.notices = w.notices ++ new
      ∧ w'.known = new.flatMap Notice.gives ++ w.known := by
  have hquiet : ∀ {w' : World}, w'.notices = w.notices → w'.known = w.known →
      w'.gone = w.gone →
      ∃ new, Tells w w' c new ∧ w'.notices = w.notices ++ new
        ∧ w'.known = new.flatMap Notice.gives ++ w.known :=
    fun hn hk hg => ⟨[], .nothing hg, by rw [hn, List.append_nil], hk⟩
  -- the last reference of a closed object unloads it, which the user is told
  have hsettle : ∀ {l : Int} {o o₁ : Obj}, (c = .objdefr l ∨ c = .objclos l) →
      w.obj l = some o → (o₁ = { o with refs := o.refs - 1 } ∨ o₁ = { o with closed := true }) →
      ∃ new, Tells w ((w.setObj l o₁).settle l) c new
        ∧ ((w.setObj l o₁).settle l).notices = w.notices ++ new
        ∧ ((w.setObj l o₁).settle l).known = new.flatMap Notice.gives ++ w.known := by
    intro l o o₁ hc ho h₁
    have hself : (w.setObj l o₁).obj l = some o₁ := by simp
    have hgone : (w.setObj l o₁).gone = w.gone := by
      refine gone_setObj_of ho ?_
      rcases h₁ with rfl | rfl <;> rfl
    obtain ⟨hnotices, hknown⟩ := settle_notices hself
    rw [hgone] at hnotices
    rcases hnotices with ⟨hnotices, hg⟩ | ⟨hclosed, hrefs, hloaded, hnotices, hg⟩
    · exact ⟨[], .nothing hg, by rw [hnotices, List.append_nil]; rfl, hknown⟩
    · refine ⟨closing l o₁, .closing hc ho h₁ hclosed hrefs hloaded hg, hnotices, ?_⟩
      rw [hknown]
      unfold closing
      split <;> rfl
  cases c with
  | objallo proto remote =>
      simp only [answer] at h
      split at h
      · cases h
        exact hquiet rfl rfl rfl
      · split at h
        next hnone =>
          cases h
          refine hquiet rfl rfl ?_
          rw [gone_setObj, show (Obj.new proto remote).unloaded = w.gone a by rw [gone, hnone]; rfl,
            Function.update_eq_self]
        · cases h
  | objrefr l =>
      simp only [answer] at h
      split at h
      · split at h
        · cases h
          exact hquiet rfl rfl rfl
        · cases h
      next o ho =>
        split at h <;> split at h
        · cases h
          exact hquiet rfl rfl rfl
        · cases h
        · cases h
          exact hquiet rfl rfl (gone_setObj_of ho rfl)
        · cases h
  | objreff l =>
      simp only [answer] at h
      split at h
      · split at h
        · cases h
          exact hquiet rfl rfl rfl
        · cases h
      next o ho =>
        split at h <;> split at h
        · cases h
          exact hquiet rfl rfl rfl
        · cases h
        · cases h
        · cases h
          exact hquiet rfl rfl (gone_setObj_of ho rfl)
  | objdefr l =>
      simp only [answer] at h
      split at h
      · cases h
        exact hquiet rfl rfl rfl
      next o ho =>
        cases h
        exact hsettle (.inl rfl) ho (.inl rfl)
  | objclos l =>
      simp only [answer] at h
      split at h
      · cases h
        exact hquiet rfl rfl rfl
      next o ho =>
        cases h
        exact hsettle (.inr rfl) ho (.inr rfl)
  | ncb l x =>
      simp only [answer] at h
      split at h
      · cases h
        exact hquiet rfl rfl rfl
      next o ho =>
        obtain ⟨o', happly, rfl⟩ := Option.map_eq_some_iff.mp h
        exact hquiet rfl rfl (gone_setObj_of ho (Access.apply_spec happly).2.2.2)
  | allocatePacket l proto type =>
      simp only [answer] at h
      split at h
      · cases h
        exact hquiet rfl rfl rfl
      · split at h
        · cases h
        · cases h
          exact hquiet rfl rfl rfl
  | post p =>
      simp only [answer, Option.some.injEq] at h
      subst h
      split <;> exact hquiet rfl rfl rfl
  | emit n =>
    -- an event reaches the user where the link is there and has a callback
      cases h
      unfold tell
      split
      next o ho =>
        split
        next hcb => exact ⟨[n], .event rfl ho hcb rfl, rfl, by simp [note]⟩
        · exact hquiet rfl rfl rfl
      · exact hquiet rfl rfl rfl
  | freepkt p | other x =>
      cases h
      exact hquiet rfl rfl rfl
  | stuck => cases h

theorem tell_freed (w : World) (h : Int) (n : Notice) : (w.tell h n).freed = w.freed := by
  unfold tell
  split
  · split <;> rfl
  · rfl

/-- The object is changed, and unloaded for that. -/
theorem settle_gone {h : Int} {o₁ : Obj} (hload : o₁.unloaded = false)
    (hg : ((w.setObj h o₁).settle h).gone h = true) :
    o₁.closed = true ∧ o₁.refs = 0 ∧ ((w.setObj h o₁).settle h).obj h = some o₁.unload.1
      ∧ ((w.setObj h o₁).settle h).freed = o₁.unload.2 ++ w.freed := by
  have hself : (w.setObj h o₁).obj h = some o₁ := by simp
  have hcond : o₁.closed = true ∧ o₁.refs = 0 ∧ o₁.unloaded = false := by
    by_contra hn
    rw [settle, hself] at hg
    dsimp only at hg
    rw [if_neg hn, gone_some hself, hload] at hg
    cases hg
  have hsettle : (w.setObj h o₁).settle h = (w.setObj h o₁).unload h o₁ := by
    rw [settle, hself]
    dsimp only
    rw [if_pos hcond]
  refine ⟨hcond.1, hcond.2.1, ?_, ?_⟩
  · rw [hsettle, unload_obj, Function.update_self]
  · rw [hsettle, unload]
    dsimp only
    rw [tell_freed, tell_freed]
    rfl

/-- The unload routine runs for a call that closes an object or releases a reference. -/
theorem answer_gone (h : w.answer c a = some w') {k : Int} {o : Obj} (ho : w.obj k = some o)
    (hload : o.unloaded = false) (hg : w'.gone k = true) :
    ∃ o₁, (o₁ = { o with refs := o.refs - 1 } ∨ o₁ = { o with closed := true })
      ∧ o₁.closed = true ∧ o₁.refs = 0 ∧ w'.obj k = some o₁.unload.1
      ∧ w'.freed = o₁.unload.2 ++ w.freed := by
  have hbefore : w.gone k = false := by rw [gone_some ho, hload]
  have hsame : w'.gone = w.gone → False := by
    intro heq
    rw [heq, hbefore] at hg
    cases hg
  obtain ⟨new, htells, -, -⟩ := answer_notices h
  cases htells with
  | nothing hg' => exact absurd hg' hsame
  | event hc ho hcb hg' => exact absurd hg' hsame
  | @closing l o₂ _ hc ho₂ h₁ hclosed hrefs hloaded hg' =>
      have hk : k = l := by
        by_contra hne
        rw [hg', Function.update_of_ne hne, hbefore] at hg
        cases hg
      subst hk
      rcases hc with rfl | rfl
      · simp only [answer, ho, Option.some.injEq] at h
        subst h
        exact ⟨{ o with refs := o.refs - 1 }, .inl rfl, settle_gone hload hg⟩
      · simp only [answer, ho, Option.some.injEq] at h
        subst h
        exact ⟨{ o with closed := true }, .inr rfl, settle_gone hload hg⟩

end World

/-! ## The start of a job -/

namespace World

variable {w w' : World}

/-- The objects are the same, but for the addresses their sockets are connected to. -/
def SameObj (w w' : World) : Prop :=
  ∀ k, (w.obj k = none ∧ w'.obj k = none) ∨ ∃ o peer,
    w.obj k = some o ∧ w'.obj k = some { o with peer := peer }

theorem SameObj.refl (w : World) : w.SameObj w := by
  intro k
  cases ho : w.obj k with
  | none => exact .inl ⟨rfl, rfl⟩
  | some o => exact .inr ⟨o, o.peer, rfl, rfl⟩

/-- A connection that is made touches nothing but the peers. -/
theorem connectPeer_same {h : Int} {addr : SockaddrIn} (hw : w.connectPeer h addr = some w') :
    w.SameObj w' ∧ w'.posted = w.posted ∧ w'.known = w.known ∧ w'.busy = w.busy
      ∧ w'.notices = w.notices ∧ w'.listens = w.listens := by
  simp only [connectPeer] at hw
  split at hw
  · cases hw
    exact ⟨.refl w, rfl, rfl, rfl, rfl, rfl⟩
  next o ho =>
    split at hw
    · cases hw
      refine ⟨fun k => ?_, rfl, rfl, rfl, rfl, rfl⟩
      by_cases hk : k = h
      · subst hk
        exact .inr ⟨o, _, ho, Function.update_self ..⟩
      · rw [setObj_obj, Function.update_of_ne hk]
        exact SameObj.refl w k
    · cases hw

/-- What the start of a job changes. -/
structure Started (w w' : World) (j : Job) : Prop where
  same : w.SameObj w'
  known : w'.known = w.known
  notices : w'.notices = w.notices
  listens : w'.listens = w.listens
  user : ∀ c, j = .user c → w'.posted = w.posted ∧ w'.busy = w.busy
    ∧ ∀ h, c.link = some h → w.Usable h
  completion : ∀ p status transfer turns irp, j = .completion p status transfer turns irp →
    p ∈ w.posted ∧ p.link ∉ w.busy ∧ w'.posted = w.posted.erase p ∧ w'.busy = p.link :: w.busy

/-- **What a job takes at its start**: a completion takes its request, and the link it brings. -/
theorem startJob_spec {j : Job} (hw : w.startJob j = some w') : Started w w' j := by
  cases j with
  | user c =>
      have hsame : w' = w ∧ ∀ h, c.link = some h → w.Usable h := by
        simp only [startJob] at hw
        split at hw
        next hl =>
          cases hw
          exact ⟨rfl, fun h hh => by rw [hl] at hh; cases hh⟩
        next h hl =>
          split at hw
          next hu =>
            cases hw
            refine ⟨rfl, fun h' hh => ?_⟩
            rw [hl] at hh
            cases hh
            exact hu
          · cases hw
      obtain ⟨rfl, husable⟩ := hsame
      refine ⟨.refl w', rfl, rfl, rfl, ?_, by rintro _ _ _ _ _ ⟨⟩⟩
      rintro _ ⟨⟩
      exact ⟨rfl, rfl, husable⟩
  | completion p status transfer turns irp =>
      simp only [startJob] at hw
      split at hw
      next hcond =>
        have hpeer : ∀ {w₁ w₂ : World} {h : Int} {addr : SockaddrIn},
            w₁.connectPeer h addr = some w₂ → w₁.obj = w.obj → w₁.known = w.known →
            w₁.notices = w.notices → w₁.listens = w.listens →
            w₁.posted = w.posted.erase p → w₁.busy = p.link :: w.busy →
            Started w w₂ (.completion p status transfer turns irp) := by
          intro w₁ w₂ h addr hpeer hobj hknown hnotices hlistens hposted hbusy
          obtain ⟨hsame, hposted', hknown', hbusy', hnotices', hlistens'⟩ := connectPeer_same hpeer
          refine ⟨fun k => hobj ▸ hsame k, hknown'.trans hknown, hnotices'.trans hnotices,
            hlistens'.trans hlistens, by rintro _ ⟨⟩, ?_⟩
          rintro _ _ _ _ _ ⟨⟩
          exact ⟨hcond.1, hcond.2, hposted'.trans hposted, hbusy'.trans hbusy⟩
        have hplain : ∀ {w₂ : World}, w₂ = { w with
            posted := w.posted.erase p
            busy := p.link :: w.busy } →
            Started w w₂ (.completion p status transfer turns irp) := by
          rintro w₂ rfl
          refine ⟨SameObj.refl w, rfl, rfl, rfl, by rintro _ ⟨⟩, ?_⟩
          rintro _ _ _ _ _ ⟨⟩
          exact ⟨hcond.1, hcond.2, rfl, rfl⟩
        split at hw
        · simp only [succeed] at hw
          split at hw
          · exact hpeer hw rfl rfl rfl rfl rfl rfl
          · exact hpeer hw rfl rfl rfl rfl rfl rfl
          · exact hplain (Option.some.inj hw).symm
        · exact hplain (Option.some.inj hw).symm
      · cases hw

/-- What the end of a job changes: a `create` call that succeeded hands its link to the user. -/
theorem finishJob_spec (w : World) (j : Job) (r : Int) :
    (w.finishJob j r).obj = w.obj ∧ (w.finishJob j r).posted = w.posted
      ∧ (((∃ b l, j = .user (.tcpCreate b l)) ∨ ∃ b l p c, j = .user (.udpCreate b l p c))
          ∧ 0 ≤ r ∧ (w.finishJob j r).known = r :: w.known
          ∧ (w.finishJob j r).notices = w.notices ++ [.created r]
        ∨ (w.finishJob j r).known = w.known ∧ (w.finishJob j r).notices = w.notices) := by
  have hcreate : (if 0 ≤ r then w.note (.created r) else w).obj = w.obj
      ∧ (if 0 ≤ r then w.note (.created r) else w).posted = w.posted
      ∧ (0 ≤ r ∧ (if 0 ≤ r then w.note (.created r) else w).known = r :: w.known
          ∧ (if 0 ≤ r then w.note (.created r) else w).notices = w.notices ++ [.created r]
        ∨ (if 0 ≤ r then w.note (.created r) else w).known = w.known
          ∧ (if 0 ≤ r then w.note (.created r) else w).notices = w.notices) := by
    by_cases hr : 0 ≤ r
    · rw [if_pos hr]
      exact ⟨rfl, rfl, .inl ⟨hr, rfl, rfl⟩⟩
    · rw [if_neg hr]
      exact ⟨rfl, rfl, .inr ⟨rfl, rfl⟩⟩
  cases j with
  | completion p => exact ⟨rfl, rfl, .inr ⟨rfl, rfl⟩⟩
  | user c =>
      cases c with
      | tcpCreate b l =>
          exact ⟨hcreate.1, hcreate.2.1, hcreate.2.2.imp_left fun h => ⟨.inl ⟨b, l, rfl⟩, h⟩⟩
      | udpCreate b l p c =>
          exact ⟨hcreate.1, hcreate.2.1, hcreate.2.2.imp_left fun h => ⟨.inr ⟨b, l, p, c, rfl⟩, h⟩⟩
      | _ => exact ⟨rfl, rfl, .inr ⟨rfl, rfl⟩⟩

end World

end Swnet.Sys
