import Swnet.Sys.Local

/-!
# Swnet — what each job does with the links it has in hand

A link that was allocated belongs to the job that allocated it, until that job closes it, hands
it to the system in an accept request, announces it to the user, or returns it. A completed
accept request brings its link back. The ledger `links` follows this: what a job has `held` in
hand, what it has `told` others of, and how many accept requests of its listener are `due`.

Two things are owed at the end of a job (`LinkRecord.Post`): it has no link in hand, unless the
reason is on record for which the code forgets it, and it has posted the accept requests it is to
post, unless its listener is closed or there was no memory. The record notes such reasons as the
calls are answered (`shut`, `starved`, `turned`, `failed`), so that the functions can be gone
through one by one: each lemma says what its function leaves in hand and due, by the sign of what
it returns. The functions that stay on their link are done in one (`Meets.of_local`); what is left
are those that make links and those that accept them.

* `job_links` — every job keeps to the ledger, and ends in what it owes.
-/

namespace Swnet.Sys

open Jobs Jobs.Prog

/-! ## The record -/

/-- What is kept on record of a job. -/
structure LinkRecord where
  /-- The link the job works on. -/
  link : Option Int
  /-- It may hand accept requests to the system. -/
  accepts : Bool
  /-- The links only this job knows. -/
  held : List Int
  /-- The links others know through it. -/
  told : List Int
  /-- The links it allocated, as what. -/
  made : List (Int × ProtoType × Bool)
  /-- The links it was granted a reference to. -/
  granted : List Int
  /-- The links it knows to be TCP links. -/
  tcp : List Int
  /-- The links whose callback is set. -/
  ready : List Int
  /-- The accept requests to be made good. -/
  due : Int
  /-- The links it closed or found closed. -/
  shut : List Int
  /-- No accept packet could be allocated. -/
  starved : Bool
  /-- It has made a call. -/
  begun : Bool
  /-- Its first call was refused a reference. -/
  turned : Bool
  /-- A call failed that a link in hand depends on. -/
  failed : Bool

/-- A link in hand is given up when such a call fails. -/
@[simp] def Call.Sensitive (accepts : Bool) : Call → Prop
  | .objrefr _ | .post _ => True
  | .ncb _ .soCreate | .ncb _ (.sock .bind) | .ncb _ (.sock .ioatth)
  | .ncb _ (.sock .wsaIoctl) => True
  | .ncb _ (.sock .setsockopt) => accepts = true
  | _ => False

instance (accepts : Bool) (c : Call) : Decidable (c.Sensitive accepts) := by
  unfold Call.Sensitive
  split <;> infer_instance

namespace LinkRecord

/-- The record after a call that was answered with `a`. -/
def after (g : LinkRecord) (c : Call) (a : Int) : LinkRecord where
  link := g.link
  accepts := g.accepts
  held := match c with
    | .objallo .. => if a < 0 then g.held else a :: g.held
    | .objclos h => g.held.erase h
    | .post p => if a < 0 then g.held else g.held.erase (if p.IsSyn then p.acceptedLink else p.link)
    | .emit (.accepted _ h) => g.held.erase h
    | _ => g.held
  told := match c with
    | .post p => if a < 0 ∨ p.IsSyn then g.told else p.link :: g.told
    | .emit (.accepted _ h) => h :: g.told
    | _ => g.told
  made := match c with
    | .objallo proto remote => if a < 0 then g.made else (a, proto, remote) :: g.made
    | _ => g.made
  granted := match c with
    | .objrefr h => if a < 0 then g.granted else h :: g.granted
    | _ => g.granted
  tcp := match c with
    | .objallo .tcp _ => if a < 0 then g.tcp else a :: g.tcp
    | .ncb h .proto => if a = ProtoType.tcp.code ∧ h ∈ g.granted then h :: g.tcp else g.tcp
    | _ => g.tcp
  ready := match c with
    | .ncb h .setCallback => h :: g.ready
    | _ => g.ready
  due := match c with
    | .post p => if a < 0 ∨ ¬ p.IsSyn then g.due else g.due - 1
    | _ => g.due
  shut := match c with
    | .objclos h | .objreff h => h :: g.shut
    | .objrefr h => if a < 0 then h :: g.shut else g.shut
    | _ => g.shut
  starved := match c with
    | .allocatePacket _ _ .syn => g.starved || decide (a < 0)
    | _ => g.starved
  begun := true
  turned := match c with
    | .objrefr _ => g.turned || (!g.begun && decide (a < 0))
    | _ => g.turned
  failed := g.failed || (g.begun && decide (a < 0 ∧ g.held ≠ [] ∧ c.Sensitive g.accepts))

-- a link that is closed is no longer in hand
example (g : LinkRecord) (h : Int) : (g.after (.objclos h) 0).held = g.held.erase h := by
  rw [after]

/-- The calls a job may make. -/
def Need (g : LinkRecord) : Call → Prop
  | .objclos h =>
    (h ∈ g.held ∧ (g.failed = true ∧ g.turned = false ∨ (h, .udp, false) ∈ g.made))
      ∨ h ∈ g.told ∨ g.link = some h
  | .objreff h => g.link = some h
  | .ncb h .setCallback => h ∈ g.held
  | .post p =>
    if p.IsSyn then
      g.accepts = true ∧ g.link = some p.link ∧ p.link ∈ g.tcp
        ∧ p.acceptedLink ∈ g.held ∧ p.acceptedLink ∈ g.tcp ∧ p.acceptedLink ∈ g.ready
    else g.link = some p.link ∨ p.link ∈ g.told
      ∨ (p.link ∈ g.held ∧ p.link ∈ g.ready ∧ (p.link, .udp, false) ∈ g.made)
  | .emit n =>
    match n with
    | .accepted l h => g.link = some l ∧ l ∈ g.tcp ∧ h ∈ g.held ∧ h ∈ g.ready
    | .connected _ | .receiveData _ | .pipeData _ => True
    | .created _ | .preClose _ | .closed _ => False
  | _ => True

/-- The answers that can be got: a link in hand is open, and a TCP link is one. -/
def Ok (g : LinkRecord) : Call → Int → Prop
  | .objrefr h, a => h ∈ g.held → 0 ≤ a
  | .ncb h .proto, a => h ∈ g.tcp → a = ProtoType.tcp.code
  | _, _ => True

/-- Nothing on record. -/
def blank : LinkRecord where
  link := none
  accepts := false
  held := []
  told := []
  made := []
  granted := []
  tcp := []
  ready := []
  due := 0
  shut := []
  starved := false
  begun := false
  turned := false
  failed := false

/-- What is on record when a job starts: the dispatch of an accept completion has its link in
hand. -/
def start : Job → LinkRecord
  | .user c => { blank with
      link := c.link
      accepts := match c with
        | .tcpListen .. => true
        | _ => false }
  | .completion p status _ _ _ =>
    if p.IsSyn then { blank with
      link := some p.link
      accepts := true
      held := [p.acceptedLink]
      tcp := [p.link, p.acceptedLink]
      ready := [p.acceptedLink]
      due := 1
      failed := !ntSuccess status }
    else { blank with link := some p.link }

end LinkRecord

/-- The accept requests that `tcp_listen` makes. -/
def listenSlots (block : Int) : Int := if block = 0 then tcpListenBlockCount else max 1 block

/-- What a job can end in. -/
def LinkRecord.Post (j : Job) (g : LinkRecord) (r : Int) : Prop :=
  match j with
  | .user (.tcpCreate ..) =>
    if r < 0 then g.held = []
    else g.held = [r] ∧ r ∈ g.ready ∧ (r, .tcp, false) ∈ g.made
  | .user (.udpCreate ..) =>
    if r < 0 then g.held = []
    else (g.held = [r] ∨ g.held = [] ∧ r ∈ g.told) ∧ r ∈ g.ready ∧ (r, .udp, false) ∈ g.made
  | .user (.tcpListen _ block) => g.held = [] ∧ (0 ≤ r → g.due = - listenSlots block)
  | .completion p status _ _ _ =>
    if p.IsSyn then
      (g.held = [] ∨ g.turned = true)
        ∧ (g.due = 0 ∨ p.link ∈ g.shut ∨ g.starved = true ∧ ntSuccess status = false)
    else g.held = [] ∧ g.due = 0
  | _ => g.held = [] ∧ g.due = 0

/-- The ledger of links. -/
def links : Ledger Job Call Int Int LinkRecord where
  idle := .blank
  init := .start
  upd := .after
  need := LinkRecord.Need
  ok := LinkRecord.Ok
  post := LinkRecord.Post

/-- What link a job works on is known from the start. -/
@[simp] theorem start_link (j : Job) : (LinkRecord.start j).link = j.link := by
  cases j with
  | user c => rfl
  | completion p =>
      simp only [LinkRecord.start]
      split <;> rfl

/-- A job starts with nothing in hand, but for the dispatch of an accept completion. -/
theorem start_cases (j : Job) :
    (∃ p status transfer turns irp, j = .completion p status transfer turns irp ∧ p.IsSyn
      ∧ LinkRecord.start j = { LinkRecord.blank with
          link := some p.link
          accepts := true
          held := [p.acceptedLink]
          tcp := [p.link, p.acceptedLink]
          ready := [p.acceptedLink]
          due := 1
          failed := !ntSuccess status })
    ∨ (∀ p status transfer turns irp, j = .completion p status transfer turns irp → ¬ p.IsSyn)
      ∧ ∃ accepts, LinkRecord.start j = { LinkRecord.blank with
          link := j.link
          accepts := accepts } := by
  cases j with
  | user c => exact .inr ⟨by rintro _ _ _ _ _ ⟨⟩, _, rfl⟩
  | completion p status transfer turns irp =>
      by_cases hp : p.IsSyn
      · exact .inl ⟨p, status, transfer, turns, irp, rfl, hp, by rw [LinkRecord.start, if_pos hp]⟩
      · refine .inr ⟨?_, false, by rw [LinkRecord.start, if_neg hp]; rfl⟩
        rintro _ _ _ _ _ ⟨⟩
        exact hp

/-! ## What only grows -/

namespace LinkRecord

/-- What calls leave on record for good. -/
structure Grows (g g' : LinkRecord) : Prop where
  link : g'.link = g.link
  accepts : g'.accepts = g.accepts
  told : g.told ⊆ g'.told
  made : g.made ⊆ g'.made
  tcp : g.tcp ⊆ g'.tcp
  ready : g.ready ⊆ g'.ready
  shut : g.shut ⊆ g'.shut
  starved : g.starved = true → g'.starved = true
  failed : g.failed = true → g'.failed = true
  begun : g.begun = true → g'.begun = true
  turned : g.begun = true → g'.turned = g.turned

theorem Grows.refl (g : LinkRecord) : g.Grows g :=
  ⟨rfl, rfl, fun _ => id, fun _ => id, fun _ => id, fun _ => id, fun _ => id, id, id, id,
    fun _ => rfl⟩

/-- What is on record for good stays there call after call. -/
theorem Grows.trans {g₁ g₂ g₃ : LinkRecord} (h₁ : g₁.Grows g₂) (h₂ : g₂.Grows g₃) :
    g₁.Grows g₃ where
  link := h₂.link.trans h₁.link
  accepts := h₂.accepts.trans h₁.accepts
  told _ h := h₂.told (h₁.told h)
  made _ h := h₂.made (h₁.made h)
  tcp _ h := h₂.tcp (h₁.tcp h)
  ready _ h := h₂.ready (h₁.ready h)
  shut _ h := h₂.shut (h₁.shut h)
  starved := h₂.starved ∘ h₁.starved
  failed := h₂.failed ∘ h₁.failed
  begun := h₂.begun ∘ h₁.begun
  turned h := (h₂.turned (h₁.begun h)).trans (h₁.turned h)

/-- One call takes nothing off the record. -/
theorem grows_after (g : LinkRecord) (c : Call) (a : Int) : g.Grows (g.after c a) := by
  constructor <;> simp only [after] <;> grind

section

variable {g : LinkRecord} {c : Call} {a : Int}

/-! What one call adds. -/

section

variable {h : Int} {x : Access}

/-! A call on a control block moves no link. -/

theorem held_ncb : (g.after (.ncb h x) a).held = g.held := rfl

theorem due_ncb : (g.after (.ncb h x) a).due = g.due := rfl

theorem accepts_ncb : (g.after (.ncb h x) a).accepts = g.accepts := rfl

end

/-- A reference is on record because it was there or was granted just now. -/
theorem granted_after {h : Int} (hm : h ∈ (g.after c a).granted) :
    h ∈ g.granted ∨ c = .objrefr h ∧ 0 ≤ a := by
  cases c <;> simp only [after] at hm <;> grind

/-- A link is known to be a TCP link because it was made as one, or because `tcprefr` has read its
protocol. -/
theorem tcp_after {h : Int} (hm : h ∈ (g.after c a).tcp) :
    h ∈ g.tcp ∨ (∃ remote, c = .objallo .tcp remote ∧ 0 ≤ a ∧ a = h)
      ∨ c = .ncb h .proto ∧ a = ProtoType.tcp.code ∧ h ∈ g.granted := by
  simp only [after] at hm
  grind

/-- The callback is set by the one call that sets it. -/
theorem ready_after {h : Int} (hm : h ∈ (g.after c a).ready) :
    h ∈ g.ready ∨ c = .ncb h .setCallback := by
  simp only [after] at hm
  grind

theorem made_after {h : Int} {proto : ProtoType} {remote : Bool}
    (hm : (h, proto, remote) ∈ (g.after c a).made) :
    (h, proto, remote) ∈ g.made ∨ c = .objallo proto remote ∧ 0 ≤ a ∧ a = h := by
  cases c <;> simp only [after] at hm <;> grind

/-- A call adds the object it allocates to what is in hand, or takes one link out of it, or leaves
it. -/
theorem held_shape : (g.after c a).held = g.held ∨ (∃ h, (g.after c a).held = g.held.erase h)
    ∨ ∃ proto remote, c = .objallo proto remote ∧ 0 ≤ a ∧ (g.after c a).held = a :: g.held := by
  cases c <;> simp only [after] <;> grind

/-- What is in hand was so before, or was allocated just now. -/
theorem held_after {h : Int} (hm : h ∈ (g.after c a).held) :
    h ∈ g.held ∨ (∃ proto remote, c = .objallo proto remote ∧ 0 ≤ a ∧ a = h) := by
  cases c <;> simp only [after] at hm <;> grind [List.mem_of_mem_erase]

/-- Others learn of a link through a request that was posted for it, or by an event that announces
it. -/
theorem told_after {h : Int} (hm : h ∈ (g.after c a).told) :
    h ∈ g.told ∨ (∃ p, c = .post p ∧ 0 ≤ a ∧ ¬ p.IsSyn ∧ p.link = h)
      ∨ ∃ l, c = .emit (.accepted l h) := by
  simp only [after] at hm
  grind

end

/-! What the calls of a trace leave on record. -/

/-- A job that has begun has made a call. -/
theorem begun_record {j : Job} {t : CallTrace} (hb : (record after (start j) t).begun = true) :
    t ≠ [] := by
  rintro rfl
  rcases start_cases j with ⟨p, status, transfer, turns, irp, -, -, hs⟩ | ⟨-, accepts, hs⟩ <;>
    · rw [record_nil, hs] at hb
      cases hb

/-- What a job starts with on record stays there to its end. Induction on its calls. -/
theorem grows_record (j : Job) (t : CallTrace) : (start j).Grows (record after (start j) t) := by
  induction t with
  | nil => exact .refl _
  | cons x t ih => exact ih.trans (grows_after _ _ _)

/-- The job turned back at its first call. -/
theorem turned_record {j : Job} {t : CallTrace} (ht : (record after (start j) t).turned = true) :
    ∃ t₁ h a, t = t₁ ++ [(.objrefr h, a)] ∧ a < 0 := by
  induction t with
  | nil =>
      rcases start_cases j with ⟨p, status, transfer, turns, irp, -, -, hs⟩ | ⟨-, accepts, hs⟩ <;>
        · rw [record_nil, hs] at ht
          cases ht
  | cons x t ih =>
      obtain ⟨c, a⟩ := x
      rw [record_cons] at ht
      by_cases hold : (record after (start j) t).turned = true
      · obtain ⟨t₁, h, a', rfl, ha⟩ := ih hold
        exact ⟨(c, a) :: t₁, h, a', rfl, ha⟩
      · cases c with
        | objrefr h =>
            simp only [after, Bool.or_eq_true, Bool.and_eq_true, Bool.not_eq_true',
              decide_eq_true_eq] at ht
            obtain ⟨hb, ha⟩ := ht.resolve_left hold
            cases t with
            | nil => exact ⟨[], h, a, rfl, ha⟩
            | cons x t => cases hb
        | _ => exact absurd ht hold

/-- What a job has in hand it started with or allocated. -/
theorem held_record {j : Job} {t : CallTrace} {h : Int}
    (hh : h ∈ (record after (start j) t).held) :
    h ∈ (start j).held ∨ ∃ proto remote, (.objallo proto remote, h) ∈ t := by
  induction t with
  | nil => exact .inl hh
  | cons x t ih =>
      obtain ⟨c, a⟩ := x
      rcases held_after hh with hh | ⟨proto, remote, rfl, -, rfl⟩
      · refine (ih hh).imp_right ?_
        rintro ⟨proto, remote, hm⟩
        exact ⟨proto, remote, List.mem_cons_of_mem _ hm⟩
      · exact .inr ⟨proto, remote, List.mem_cons_self⟩

/-- The program stays within the bounds of the ledger. -/
abbrev Meets {α : Type} (p : CallProg α) (g : LinkRecord) (Q : LinkRecord → α → Prop) : Prop :=
  p.Meets LinkRecord.after LinkRecord.Need LinkRecord.Ok g Q

/-- So it does through any part of it. -/
theorem Meets.grows {α : Type} {p : CallProg α} {g : LinkRecord} {Q : LinkRecord → α → Prop}
    (h : Meets p g Q) : Meets p g fun g' r => g.Grows g' ∧ Q g' r :=
  Prog.Meets.along Grows.refl (fun _ _ _ => Grows.trans) grows_after h

/-- Calls that stay on the link of the job leave nothing in hand. -/
theorem Meets.of_local {α : Type} {p : CallProg α} {l : Int} (hp : p.Uses (Call.Local l))
    {g : LinkRecord} (hl : g.link = some l) (hheld : g.held = []) :
    Meets p g fun g' _ => g'.held = [] ∧ g'.due = g.due := by
  let I : LinkRecord → Prop := fun g' => g'.link = some l ∧ g'.held = [] ∧ g'.due = g.due
  refine (hp.keeps (I := I) ?_ ?_ ⟨hl, hheld, rfl⟩).mono fun g' _ h => h.2
  · rintro g' c ⟨hl, hh, hd⟩ hc
    cases c with
    | ncb h x => cases x <;> simp [Need] at hc ⊢
    | _ => simp only [Call.Local] at hc <;> simp [Need, *] <;> grind
  · rintro g' c a ⟨hl, hh, hd⟩ hc
    cases c <;> simp only [Call.Local] at hc <;> simp [I, after, *]
    all_goals grind

/-- The options of a socket: nothing but calls on it. -/
theorem Meets.of_sock {p : CallProg Unit} {h : Int}
    (hp : p.Uses fun c => ∃ x, c = .ncb h (.sock x)) {g : LinkRecord} :
    Meets p g fun g' _ => g'.held = g.held ∧ g'.due = g.due ∧ g'.accepts = g.accepts
      ∧ (g.begun = true → g'.begun = true) := by
  let I : LinkRecord → Prop := fun g' => g'.held = g.held ∧ g'.due = g.due ∧ g'.accepts = g.accepts
    ∧ (g.begun = true → g'.begun = true)
  refine hp.keeps (I := I) ?_ ?_ ⟨rfl, rfl, rfl, id⟩
  · rintro g' c - ⟨x, rfl⟩
    exact trivial
  · rintro g' c a ⟨hheld, hdue, hacc, -⟩ ⟨x, rfl⟩
    exact ⟨hheld, hdue, hacc, fun _ => rfl⟩

end LinkRecord

section

open LinkRecord (Meets)

variable {g : LinkRecord}

/-- `tcprefr` tells whether a link is an open TCP link. Where it fails on one that is known to be
TCP, that link is closed, and is none of those in hand. -/
theorem tcprefr_links {h : Int} : Meets (tcprefr h) g fun g' r =>
    g'.held = g.held ∧ g'.due = g.due
      ∧ (0 ≤ r → h ∈ g'.tcp ∧ g'.begun = true ∧ g'.turned = g.turned)
      ∧ (r < 0 → 0 ≤ h → h ∈ g.tcp →
          h ∈ g'.shut ∧ h ∉ g.held ∧ (g.begun = false → g'.turned = true)) := by
  simp only [tcprefr, protoRefr, pure_eq, meets_ite, meets_done, meets_bind, meets_perform,
    meets_void]
  refine ⟨fun hh => ?_, fun hh => ⟨trivial, fun ncb hncb => ⟨fun hneg => ?_, fun hpos => ?_⟩⟩⟩
  · simp [eINVAL]
    omega
  · have hout : h ∉ g.held := fun hmem => absurd (hncb hmem) (by omega)
    refine ⟨rfl, rfl, by simp [eNOENT], fun _ _ _ => ⟨?_, hout, fun hb => ?_⟩⟩
    · simp [LinkRecord.after, hneg]
    · simp [LinkRecord.after, hneg, hb]
  · refine ⟨trivial, fun type htype => ⟨fun heq => ?_, fun hne => ⟨trivial, fun _ _ => ?_⟩⟩⟩
    · simp [LinkRecord.after, heq, hpos]
    · refine ⟨rfl, rfl, by simp [ePROTOTYPE], fun _ _ hmem => absurd (htype hmem) hne⟩

/-! ## Making a link -/

/-- The first steps of `tcp_entry` on a link that is created: a failure is on record. -/
theorem tcpEntryLocal_links {h : Int} (hb : g.begun = true) (hne : g.held ≠ [])
    (hacc : g.accepts = false) : Meets (tcpEntryLocal h) g fun g' r =>
      g'.held = g.held ∧ g'.due = g.due ∧ (r < 0 → g'.failed = true) := by
  have hopts : (tcpUpdateOpts h).Uses fun c => ∃ x, c = .ncb h (.sock x) := by simp [tcpUpdateOpts]
  unfold tcpEntryLocal
  refine meets_bind.mpr ((Meets.of_sock hopts).mono ?_)
  rintro g₁ - ⟨hheld, hdue, hacc₁, hbegun⟩
  rw [← hheld] at hne
  rw [← hacc₁] at hacc
  simp [LinkRecord.after, LinkRecord.Need, LinkRecord.Ok, hbegun hb, hacc, hheld, hdue]
  grind

/-- The same of all its steps, where an accepted link skips the local address. -/
theorem tcpEntrySteps_links {h : Int} {remote : Bool} (hb : g.begun = true) (hh : h ∈ g.held)
    (hacc : remote = false → g.accepts = false) : Meets (tcpEntrySteps h remote) g fun g' r =>
      g'.held = g.held ∧ g'.due = g.due ∧ (r < 0 → g'.failed = true) := by
  have hne : g.held ≠ [] := List.ne_nil_of_mem hh
  cases remote with
  | true =>
      simp [tcpEntrySteps, LinkRecord.after, LinkRecord.Need, LinkRecord.Ok, hb, hne]
      grind
  | false =>
      have hlocal : ∀ {g₁ : LinkRecord}, g₁.begun = true → g₁.held = g.held → g₁.due = g.due →
          g₁.accepts = g.accepts → Meets (tcpEntryLocal h) g₁ fun g' r =>
            g'.held = g.held ∧ g'.due = g.due ∧ (r < 0 → g'.failed = true) := by
        intro g₁ hb₁ hheld hdue hacc₁
        rw [← hheld, ← hdue]
        exact tcpEntryLocal_links hb₁ (hheld ▸ hne) (hacc₁.trans (hacc rfl))
      simp only [tcpEntrySteps, meets_bind, meets_perform, meets_ite, meets_void]
      refine ⟨trivial, fun a _ => ⟨fun ha => ?_, fun ha => ?_⟩⟩
      · simp [LinkRecord.after, hb, hne, ha]
      · refine ⟨trivial,
          fun b _ => ⟨trivial, fun c _ => ⟨trivial, fun d _ => ⟨fun h => ?_, fun _ => ?_⟩⟩⟩⟩
        · cases h
        · apply hlocal
          · rfl
          · simp only [LinkRecord.held_ncb]
          · simp only [LinkRecord.due_ncb]
          · simp only [LinkRecord.accepts_ncb]

/-- `tcp_entry` sets the callback before anything can fail. -/
theorem tcpEntry_links {h : Int} {remote : Bool} (hh : h ∈ g.held)
    (hacc : remote = false → g.accepts = false) : Meets (tcpEntry h remote) g fun g' r =>
      g'.held = g.held ∧ g'.due = g.due ∧ h ∈ g'.ready ∧ (r < 0 → g'.failed = true) := by
  simp only [tcpEntry, meets_bind, meets_void, LinkRecord.Need, true_and]
  refine ⟨hh, fun a _ b _ => ?_⟩
  have hbegun : ((g.after (.ncb h .setCallback) a).after (.ncb h (.write .hld)) b).begun = true :=
    rfl
  refine (tcpEntrySteps_links hbegun hh hacc).grows.mono ?_
  rintro g' r ⟨hgr, hheld, hdue, hfailed⟩
  have hready : h ∈ g'.ready := hgr.ready List.mem_cons_self
  by_cases hr : r < 0
  · simp [hr, hfailed, hheld, hdue, hready, LinkRecord.after, LinkRecord.Need]
  · simpa [hr, hready, hheld, hdue] using ⟨rfl, rfl⟩

/-- `tcp_allocate_object` returns a link that is in hand, with its callback set, or leaves nothing
in hand. `turned` cannot be: the job would have returned. -/
theorem tcpAllocateObject_links (remote : Bool) (ht : g.turned = false)
    (hacc : remote = false → g.accepts = false) : Meets (tcpAllocateObject remote) g fun g' r =>
      g'.due = g.due ∧ if r < 0 then g'.held = g.held
        else g'.held = r :: g.held ∧ r ∈ g'.ready ∧ (r, .tcp, remote) ∈ g'.made ∧ r ∈ g'.tcp := by
  simp only [tcpAllocateObject, meets_bind, meets_perform, meets_ite, LinkRecord.Need, true_and]
  intro h _
  refine ⟨fun hh => ?_, fun hh => ?_⟩
  · simp [hh, LinkRecord.after]
  intro ncb hncb
  -- the link was just allocated: nobody else can have closed it
  have hgranted : 0 ≤ ncb := by
    refine hncb ?_
    simp only [LinkRecord.after, if_neg hh]
    exact List.mem_cons_self
  refine ⟨fun hneg => by omega, fun _ => ?_⟩
  have hheld : h ∈ ((g.after (.objallo .tcp remote) h).after (.objrefr h) ncb).held := by
    simp [LinkRecord.after, hh]
  refine (tcpEntry_links hheld hacc).grows.mono ?_
  rintro g' r ⟨hgr, hheld, hdue, hready, hfailed⟩
  have hmade : (h, .tcp, remote) ∈ g'.made := hgr.made (by simp [LinkRecord.after, hh])
  have htcp : h ∈ g'.tcp := hgr.tcp (by simp [LinkRecord.after, hh])
  have hturned : g'.turned = false := by
    rw [hgr.turned rfl]
    simp [LinkRecord.after, ht]
  simp only [LinkRecord.after, hh, if_false] at hheld hdue
  by_cases hr : r < 0
  · simp [hr, hfailed, hheld, hdue, hturned, LinkRecord.after, LinkRecord.Need]
  · simp [hr, hh, hready, hheld, hdue, hmade, htcp, LinkRecord.after, LinkRecord.Need]

/-- `tcp_create` returns what it has in hand. -/
theorem tcpCreate_links {userCallback lIpstr : Bool} (hh : g.held = []) (ht : g.turned = false)
    (hacc : g.accepts = false) : Meets (tcpCreate userCallback lIpstr) g
      (LinkRecord.Post (.user (.tcpCreate userCallback lIpstr))) := by
  have hmake : ∀ g' : LinkRecord, g'.held = [] → g'.turned = false → g'.accepts = false →
      Meets (tcpAllocateObject false) g'
        (LinkRecord.Post (.user (.tcpCreate userCallback lIpstr))) := by
    intro g' hh ht hacc
    refine (tcpAllocateObject_links false ht fun _ => hacc).mono ?_
    rintro g'' r ⟨-, hr⟩
    simp only [LinkRecord.Post]
    split at hr
    next hneg => rw [if_pos hneg, hr, hh]
    next hpos =>
      obtain ⟨hheld, hready, hmade, -⟩ := hr
      rw [if_neg hpos, hheld, hh]
      exact ⟨rfl, hready, hmade⟩
  have hfail : LinkRecord.Post (.user (.tcpCreate userCallback lIpstr)) g (-1) := by
    simp [LinkRecord.Post, hh]
  cases userCallback with
  | false => simp [tcpCreate, LinkRecord.Post, hh]
  | true =>
      cases lIpstr with
      | false => simpa [tcpCreate] using hmake g hh ht hacc
      | true =>
          simp only [tcpCreate, Bool.true_eq_false, if_false, if_true, meets_bind, meets_perform,
            meets_ite]
          refine ⟨trivial, fun a _ => ⟨fun _ => hfail, fun _ => hmake _ hh ?_ hacc⟩⟩
          simp [LinkRecord.after, ht]

/-! ## Accepting -/

/-- An accept request takes its link out of hand and makes one that is due good; one that is refused
leaves both. -/
theorem asioTcpAccept_links {p : IoPacket} (hp : p.IsSyn) (hb : g.begun = true)
    (hacc : g.accepts = true) (hl : g.link = some p.link) (hlink : p.link ∈ g.tcp)
    (hh : p.acceptedLink ∈ g.held) (ht : p.acceptedLink ∈ g.tcp)
    (hr : p.acceptedLink ∈ g.ready) : Meets (asioTcpAccept p) g fun g' r =>
      if r < 0 then g'.held = g.held ∧ g'.due = g.due ∧ g'.failed = true
      else g'.held = g.held.erase p.acceptedLink ∧ g'.due = g.due - 1 := by
  have hne : g.held ≠ [] := List.ne_nil_of_mem hh
  simp [asioTcpAccept, LinkRecord.after, LinkRecord.Need, LinkRecord.Ok, *]
  grind

/-- The rounds of `tcp_syn`, by induction: a link whose request is refused is closed before the
next round makes another, so that after the last none is left in hand; and then the listener is
closed. -/
theorem tcpSynRounds_links {l k : Int} {n : Nat} (ht : g.turned = false)
    (hacc : g.accepts = true) (hl : g.link = some l) (hlink : l ∈ g.tcp) (hlh : l ∉ g.held) :
    Meets (tcpSynRounds l k n) g fun g' r => g'.held = g.held ∧
      if r < 0 then g'.due = g.due ∧ l ∈ g'.shut else g'.due = g.due - 1 := by
  induction n generalizing g with
  | zero => simp [tcpSynRounds, LinkRecord.after, LinkRecord.Need, hl, List.erase_of_not_mem hlh]
  | succ n ih =>
      simp only [tcpSynRounds, meets_bind, meets_void, LinkRecord.Need, true_and]
      intro a _
      refine (tcpAllocateObject_links (g := g.after (.ncb l (.read .callback)) a) true ht
        (by simp)).grows.mono ?_
      rintro g₁ h ⟨hgr₁, hdue₁, hh⟩
      have hl₁ : g₁.link = some l := hgr₁.link.trans hl
      have hlink₁ : l ∈ g₁.tcp := hgr₁.tcp hlink
      have ht₁ : g₁.turned = false := (hgr₁.turned rfl).trans ht
      have hacc₁ : g₁.accepts = true := hgr₁.accepts.trans hacc
      simp only [meets_ite]
      refine ⟨fun hneg => ?_, fun hpos => ?_⟩
      · rw [if_pos hneg] at hh
        simp [LinkRecord.after, LinkRecord.Need, hl₁, hh, hdue₁, List.erase_of_not_mem hlh]
      rw [if_neg hpos] at hh
      obtain ⟨hheld, hready, hmade, htcp⟩ := hh
      rw [meets_bind]
      refine (asioTcpAccept_links (p := ⟨k, .tcp, .syn, l, h, noAddr⟩) ⟨rfl, rfl⟩ (hgr₁.begun rfl)
        hacc₁ hl₁ hlink₁ (by simp [hheld]) htcp hready).grows.mono ?_
      rintro g₂ r ⟨hgr₂, hr⟩
      simp only [meets_ite]
      refine ⟨fun hr₀ => ?_, fun hneg => ?_⟩
      · rw [if_neg (by omega), hheld, List.erase_cons_head] at hr
        exact ⟨hr.1, by simpa [hdue₁, LinkRecord.after] using hr.2⟩
      · rw [if_pos (by omega)] at hr
        obtain ⟨hheld₂, hdue₂, hfailed⟩ := hr
        have ht₂ : g₂.turned = false := (hgr₂.turned (hgr₁.begun rfl)).trans ht₁
        simp only [meets_bind, meets_void]
        refine ⟨?_, fun b _ => ?_⟩
        · simp [LinkRecord.Need, hheld₂, hheld, hfailed, ht₂]
        · have hheld₃ : (g₂.after (.objclos h) b).held = g.held := by
            simp [LinkRecord.after, hheld₂, hheld]
          have hdue₃ : (g₂.after (.objclos h) b).due = g.due := by
            simp [LinkRecord.after, hdue₂, hdue₁]
          have hgr₃ := hgr₂.trans (LinkRecord.grows_after g₂ (.objclos h) b)
          refine (ih ((hgr₃.turned (hgr₁.begun rfl)).trans ht₁) (hgr₃.accepts.trans hacc₁)
            (hgr₃.link.trans hl₁) (hgr₃.tcp hlink₁) (by rwa [hheld₃])).mono ?_
          intro g₄ r
          rw [hheld₃, hdue₃]
          exact id

/-- `tcp_syn` posts one of the requests that are due, or its listener is closed, or there was no
memory for the packet. -/
theorem tcpSyn_links {l : Int} (ht : g.turned = false) (hacc : g.accepts = true)
    (hl : g.link = some l) (hlink : l ∈ g.tcp) (hlh : l ∉ g.held) :
    Meets (tcpSyn l) g fun g' r => g'.held = g.held ∧
      if r < 0 then g'.due = g.due ∧ (l ∈ g'.shut ∨ g'.starved = true)
      else g'.due = g.due - 1 := by
  simp only [tcpSyn, ncbHld, meets_bind, meets_void, meets_perform, LinkRecord.Need, true_and]
  intro a _ k _
  rw [meets_ite]
  refine ⟨fun hk => ?_, fun hk => ?_⟩
  · simp [LinkRecord.after, hk]
  · refine (tcpSynRounds_links (g := (g.after (.ncb l (.read .hld)) a).after
      (.allocatePacket l .tcp .syn) k) ht hacc hl hlink hlh).mono ?_
    rintro g' r ⟨hheld, hr⟩
    refine ⟨hheld, ?_⟩
    split at hr
    next hneg => exact (if_pos hneg).symm ▸ ⟨hr.1, .inl hr.2⟩
    next hpos => exact (if_neg hpos).symm ▸ hr

/-- The loop of `tcp_listen` posts one request a turn. By induction on the turns, it has posted all
of them if it returns no failure. -/
theorem tcpListenRounds_links {l : Int} {n : Nat} (ht : g.turned = false) (hb : g.begun = true)
    (hacc : g.accepts = true) (hl : g.link = some l) (hlink : l ∈ g.tcp) (hlh : l ∉ g.held) :
    Meets (tcpListenRounds l n) g fun g' r =>
      g'.held = g.held ∧ (0 ≤ r → g'.due = g.due - (n + 1)) := by
  induction n generalizing g with
  | zero =>
      refine (tcpSyn_links ht hacc hl hlink hlh).mono ?_
      rintro g' r ⟨hheld, hr⟩
      refine ⟨hheld, fun hpos => ?_⟩
      rw [if_neg (by omega)] at hr
      simpa using hr
  | succ n ih =>
      refine meets_bind.mpr ?_
      refine (tcpSyn_links ht hacc hl hlink hlh).grows.mono ?_
      rintro g₁ r₁ ⟨hgr, hheld, hr₁⟩
      refine meets_ite.mpr ⟨fun hneg => ⟨hheld, fun hpos => by omega⟩, fun hpos => ?_⟩
      rw [if_neg hpos] at hr₁
      refine (ih ((hgr.turned hb).trans ht) (hgr.begun hb) (hgr.accepts.trans hacc)
        (hgr.link.trans hl) (hgr.tcp hlink) (by rwa [hheld])).mono ?_
      rintro g₂ r ⟨hheld₂, hr⟩
      refine ⟨hheld₂.trans hheld, fun hr₀ => ?_⟩
      rw [hr hr₀, hr₁]
      push_cast
      ring

/-- `tcp_listen` owes as many requests as it was asked for. -/
theorem tcpListen_links {l block : Int} (hheld : g.held = []) (hdue : g.due = 0)
    (ht : g.turned = false) (hacc : g.accepts = true) (hl : g.link = some l) :
    Meets (tcpListen l block) g (LinkRecord.Post (.user (.tcpListen l block))) := by
  refine meets_bind.mpr (tcprefr_links.grows.mono ?_)
  rintro g₁ r₁ ⟨hgr₁, hheld₁, hdue₁, hgranted, -⟩
  rw [hheld] at hheld₁
  rw [hdue] at hdue₁
  refine meets_ite.mpr ⟨fun _ => ⟨hheld₁, nofun⟩, fun hr₁ => ?_⟩
  obtain ⟨htcp, hbegun, hturned⟩ := hgranted (by omega)
  refine meets_bind.mpr (meets_perform.mpr ⟨trivial, fun r₂ _ => ?_⟩)
  dsimp only
  refine meets_ite.mpr ⟨fun hneg => ?_, fun _ => meets_bind.mpr ?_⟩
  · simp [LinkRecord.Post, LinkRecord.after, LinkRecord.Need, hheld₁, hneg]
  -- the number of rounds after the first one is `block - 1`
  refine (tcpListenRounds_links (g := g₁.after (.ncb l (.sock .listen)) r₂) (hturned.trans ht) rfl
    (hgr₁.accepts.trans hacc) (hgr₁.link.trans hl) htcp (by simp [LinkRecord.after, hheld₁])).mono
      ?_
  rintro g₂ r ⟨hheld₂, hdue₂⟩
  have hslots : (((if block = 0 then tcpListenBlockCount else block) - 1).toNat : Int) + 1
      = listenSlots block := by
    unfold listenSlots
    have : tcpListenBlockCount = 5 := rfl
    split <;> omega
  simp only [LinkRecord.after, hheld₁, hdue₁, hslots] at hheld₂ hdue₂
  rw [zero_sub] at hdue₂
  simpa [LinkRecord.Post, LinkRecord.after, LinkRecord.Need, hheld₂] using
    fun _ _ _ _ => hdue₂

/-- `tcp_syn_copy` announces the accepted link, once it has read its addresses. -/
theorem tcpSynCopyKnown_links {l h : Int} {irp : AcceptAddrs} (hl : g.link = some l)
    (hacc : g.accepts = true) (hlink : l ∈ g.tcp) (hb : g.begun = true) (hh : h ∈ g.held)
    (hr : h ∈ g.ready) : Meets (tcpSynCopyKnown l h irp) g fun g' r => g'.due = g.due ∧
      if r < 0 then g'.held = g.held ∧ g'.failed = true
      else g'.held = g.held.erase h ∧ h ∈ g'.told := by
  have hne : g.held ≠ [] := List.ne_nil_of_mem hh
  simp [tcpSynCopyKnown, LinkRecord.after, LinkRecord.Need, LinkRecord.Ok, *]
  grind

/-- Where it cannot, the failure is on record and the link stays in hand. -/
theorem tcpSynCopy_links {l h : Int} {irp : AcceptAddrs} (hl : g.link = some l)
    (hacc : g.accepts = true) (hlink : l ∈ g.tcp) (hb : g.begun = true) (hh : h ∈ g.held)
    (hr : h ∈ g.ready) : Meets (tcpSynCopy l h irp) g fun g' r => g'.due = g.due ∧
      if r < 0 then g'.held = g.held ∧ g'.failed = true
      else g'.held = g.held.erase h ∧ h ∈ g'.told := by
  have hne : g.held ≠ [] := List.ne_nil_of_mem hh
  simp only [tcpSynCopy, meets_bind, meets_perform, meets_ite, LinkRecord.Need, true_and]
  refine fun known _ => ⟨fun _ status _ => ⟨fun hneg => ?_, fun _ => ?_⟩, fun _ => ?_⟩
  · simp [LinkRecord.after, LinkRecord.Need, LinkRecord.Ok, *]
  · exact tcpSynCopyKnown_links hl hacc hlink rfl hh hr
  · exact tcpSynCopyKnown_links hl hacc hlink rfl hh hr

/-- The first receive of a link that was announced. -/
theorem firstRecv_links {h : Int} (ht : h ∈ g.told) (hheld : g.held = []) :
    Meets (firstRecv h) g fun g' _ => g'.held = [] ∧ g'.due = g.due := by
  simp [firstRecv, asioTcpRecv, asioTransfer, LinkRecord.after, LinkRecord.Need, LinkRecord.Ok, *]

/-- An accepted link is announced, or closed where it could not be. -/
theorem takeAccepted_links {l h : Int} {irp : AcceptAddrs} (hl : g.link = some l)
    (hacc : g.accepts = true) (hlink : l ∈ g.tcp) (hb : g.begun = true) (hh : g.held = [h])
    (hr : h ∈ g.ready) (ht : g.turned = false) :
    Meets (takeAccepted l h irp) g fun g' _ => g'.held = [] ∧ g'.due = g.due := by
  refine meets_bind.mpr ((tcpSynCopy_links hl hacc hlink hb (by simp [hh]) hr).grows.mono ?_)
  rintro g₁ r ⟨hgr, hdue, hr⟩
  have ht₁ : g₁.turned = false := (hgr.turned hb).trans ht
  by_cases hneg : r < 0
  · rw [if_pos hneg, hh] at hr
    simp [hneg, LinkRecord.after, LinkRecord.Need, LinkRecord.Ok, hr.1, hr.2, ht₁, hdue]
  · rw [if_neg hneg, hh, List.erase_cons_head] at hr
    simp only [hneg, if_false]
    refine meets_bind.mpr ((firstRecv_links hr.2 hr.1).grows.mono ?_)
    rintro g₂ r ⟨hgr₂, hheld, hdue₂⟩
    have htold := hgr₂.told hr.2
    simp [LinkRecord.after, LinkRecord.Need, LinkRecord.Ok, hheld, htold, hdue, hdue₂]

/-- What the dispatch of an accept completion starts with. -/
structure LinkRecord.Accepting (p : IoPacket) (g : LinkRecord) : Prop where
  link : g.link = some p.link
  accepts : g.accepts = true
  held : g.held = [p.acceptedLink]
  listener : p.link ∈ g.tcp
  accepted : p.acceptedLink ∈ g.tcp
  ready : p.acceptedLink ∈ g.ready
  due : g.due = 1
  turned : g.turned = false

/-- The listener is referenced at the start of the dispatch. Where it cannot be, the job turns back
with the accepted link in hand. -/
theorem tcprefr_accepting {p : IoPacket} (hp : 0 ≤ p.link) (hg : g.Accepting p) :
    Meets (tcprefr p.link) g fun g' r => g.Grows g' ∧
      if r < 0 then g'.held = [p.acceptedLink] ∧ g'.due = 1 ∧ p.link ∈ g'.shut
          ∧ (g.begun = false → g'.turned = true)
      else g'.Accepting p ∧ g'.begun = true := by
  refine tcprefr_links.grows.mono ?_
  rintro g' r ⟨hgr, hheld, hdue, hgranted, hrefused⟩
  refine ⟨hgr, ?_⟩
  split
  next hneg =>
    obtain ⟨hshut, -, hturned⟩ := hrefused hneg hp hg.listener
    exact ⟨hheld.trans hg.held, hdue.trans hg.due, hshut, hturned⟩
  next hpos =>
    obtain ⟨-, hbegun, hturned⟩ := hgranted (by omega)
    exact ⟨⟨hgr.link.trans hg.link, hgr.accepts.trans hg.accepts, hheld.trans hg.held,
      hgr.tcp hg.listener, hgr.tcp hg.accepted, hgr.ready hg.ready, hdue.trans hg.due,
      hturned.trans hg.turned⟩, hbegun⟩

/-- **The dispatch of an accept.** It is done with the accepted link unless it turned back, and has
posted the request again unless the listener is closed. -/
theorem tcpDispatchIoSyn_links {p : IoPacket} {irp : AcceptAddrs} (hp : 0 ≤ p.link)
    (hh : 0 ≤ p.acceptedLink) (hg : g.Accepting p) (hb : g.begun = false) :
    Meets (tcpDispatchIoSyn p irp) g fun g' _ =>
      (g'.held = [] ∨ g'.turned = true) ∧ (g'.due = 0 ∨ p.link ∈ g'.shut) := by
  refine meets_bind.mpr ((tcprefr_accepting hp hg).mono ?_)
  rintro g₁ r₁ ⟨-, hr₁⟩
  refine meets_ite.mpr ⟨fun hneg => ?_, fun hpos => ?_⟩
  · rw [if_pos hneg] at hr₁
    exact ⟨.inr (hr₁.2.2.2 hb), .inr hr₁.2.2.1⟩
  rw [if_neg hpos] at hr₁
  obtain ⟨hg₁, hb₁⟩ := hr₁
  refine meets_bind.mpr (tcprefr_links.grows.mono ?_)
  rintro g₂ r₂ ⟨hgr₂, hheld₂, hdue₂, hgranted, hrefused⟩
  -- the accepted link is in hand: it is open
  have hpos₂ : 0 ≤ r₂ := by
    by_contra hneg
    exact (hrefused (by omega) hh hg₁.accepted).2.1 (by simp [hg₁.held])
  obtain ⟨-, hb₂, hturned₂⟩ := hgranted hpos₂
  have ht₂ := hturned₂.trans hg₁.turned
  have hl₂ := hgr₂.link.trans hg₁.link
  have hacc₂ := hgr₂.accepts.trans hg₁.accepts
  rw [hg₁.held] at hheld₂
  rw [hg₁.due] at hdue₂
  rw [if_pos hpos₂]
  refine meets_bind.mpr ((takeAccepted_links hl₂ hacc₂ (hgr₂.tcp hg₁.listener) hb₂ hheld₂
    (hgr₂.ready hg₁.ready) ht₂).grows.mono ?_)
  rintro g₃ - ⟨hgr₃, hheld₃, hdue₃⟩
  have hl₃ := hgr₃.link.trans hl₂
  refine meets_bind.mpr ((tcpSyn_links ((hgr₃.turned hb₂).trans ht₂) (hgr₃.accepts.trans hacc₂) hl₃
    (hgr₃.tcp (hgr₂.tcp hg₁.listener)) (by simp [hheld₃])).grows.mono ?_)
  rintro g₄ r₄ ⟨hgr₄, hheld₄, hr₄⟩
  rw [hheld₃] at hheld₄
  have hl₄ := hgr₄.link.trans hl₃
  split at hr₄
  next hneg => simp [hneg, LinkRecord.after, LinkRecord.Need, hl₄, hheld₄]
  next hpos =>
    rw [hdue₃, hdue₂] at hr₄
    simp [hpos, LinkRecord.after, LinkRecord.Need, hheld₄, hr₄]

/-- An accept that failed: its link is closed in any case, and the request posted again if it can
be. -/
theorem tcpShutdownSyn_links {p : IoPacket} (hp : 0 ≤ p.link) (hne : p.link ≠ p.acceptedLink)
    (hg : g.Accepting p) (hb : g.begun = true) (hf : g.failed = true) :
    Meets (tcpShutdownSyn p) g fun g' _ => g'.held = []
      ∧ (g'.due = 0 ∨ p.link ∈ g'.shut ∨ g'.starved = true) := by
  refine meets_bind.mpr ((tcprefr_accepting hp hg).mono ?_)
  rintro g₁ r₁ ⟨hgr₁, hr₁⟩
  have ht₁ : g₁.turned = false := (hgr₁.turned hb).trans hg.turned
  have hf₁ := hgr₁.failed hf
  dsimp only
  refine meets_ite.mpr ⟨fun hpos => ?_, fun hneg => ?_⟩
  · rw [if_neg (by omega)] at hr₁
    obtain ⟨hg₁, hb₁⟩ := hr₁
    refine meets_bind.mpr ((tcpSyn_links ht₁ hg₁.accepts hg₁.link hg₁.listener ?_).grows.mono ?_)
    · simpa [hg₁.held] using hne
    rintro g₂ r₂ ⟨hgr₂, hheld₂, hr₂⟩
    rw [hg₁.held] at hheld₂
    have ht₂ := (hgr₂.turned hb₁).trans ht₁
    have hf₂ := hgr₂.failed hf₁
    have hdone : g₂.due = 0 ∨ p.link ∈ g₂.shut ∨ g₂.starved = true := by
      split at hr₂
      next => exact .inr hr₂.2
      next =>
        rw [hg₁.due] at hr₂
        exact .inl hr₂
    rcases hdone with hdone | hdone | hdone <;>
      simp [LinkRecord.after, LinkRecord.Need, hheld₂, ht₂, hf₂, hdone]
  · rw [if_pos (by omega)] at hr₁
    obtain ⟨hheld₁, -, hshut, -⟩ := hr₁
    simp [LinkRecord.after, LinkRecord.Need, hheld₁, ht₁, hf₁, hshut]

/-! ## UDP links -/

/-- The options of a UDP link do nothing to what is in hand. -/
theorem udpEntryOpts_links {h : Int} {broadcast : Bool} (hh : h ∈ g.held) :
    Meets (udpEntryOpts h broadcast) g fun g' r =>
      g'.held = g.held ∧ (0 ≤ r → h ∈ g'.ready) := by
  have hopts : (udpUpdateOpts h).Uses fun c => ∃ x, c = .ncb h (.sock x) := by simp [udpUpdateOpts]
  unfold udpEntryOpts
  refine meets_bind.mpr ((Meets.of_sock hopts).mono ?_)
  rintro g₁ - ⟨hheld, -⟩
  simp [LinkRecord.after, LinkRecord.Need, hheld, hh]

/-- `udp_entry` sets the callback of the link it has made. -/
theorem udpEntry_links {h : Int} {anyPort broadcast : Bool} (hh : h ∈ g.held) :
    Meets (udpEntry h anyPort broadcast) g fun g' r =>
      g'.held = g.held ∧ (0 ≤ r → h ∈ g'.ready) := by
  have hopts : ∀ g₁ : LinkRecord, g₁.held = g.held → Meets (udpEntryOpts h broadcast) g₁
      fun g' r => (r < 0 → ∀ a, g'.Ok (.ncb h .ioclose) a → g'.held = g.held)
        ∧ (0 ≤ r → g'.held = g.held ∧ h ∈ g'.ready) := by
    intro g₁ hheld
    refine (udpEntryOpts_links (by rwa [hheld])).mono ?_
    rintro g₂ r ⟨hheld₂, hready⟩
    exact ⟨fun _ _ _ => hheld₂.trans hheld, fun hr => ⟨hheld₂.trans hheld, hready hr⟩⟩
  simp [udpEntry, LinkRecord.after, LinkRecord.Need, hopts]

/-- `udp_allocate_object` returns a link that is in hand, or nothing is. -/
theorem udpAllocateObject_links {anyPort broadcast : Bool} (hheld : g.held = []) :
    Meets (udpAllocateObject anyPort broadcast) g fun g' r =>
      if r < 0 then g'.held = []
      else g'.held = [r] ∧ r ∈ g'.ready ∧ (r, .udp, false) ∈ g'.made := by
  simp only [udpAllocateObject, meets_bind, meets_perform, meets_ite, LinkRecord.Need, true_and]
  intro h _
  refine ⟨fun hh => ?_, fun hh => ?_⟩
  · simp [hh, LinkRecord.after, hheld]
  intro ncb hncb
  have hgranted : 0 ≤ ncb := by
    refine hncb ?_
    simp only [LinkRecord.after, if_neg hh]
    exact List.mem_cons_self
  refine ⟨fun hneg => by omega, fun _ => ?_⟩
  have hmem : h ∈ ((g.after (.objallo .udp false) h).after (.objrefr h) ncb).held := by
    simp [LinkRecord.after, hh]
  refine (udpEntry_links hmem).grows.mono ?_
  rintro g' r ⟨hgr, hheld', hready⟩
  have hmade : (h, .udp, false) ∈ g'.made := hgr.made (by simp [LinkRecord.after, hh])
  simp only [LinkRecord.after, hh, if_false, hheld] at hheld'
  by_cases hr : r < 0
  · simp [hr, hheld', hmade, LinkRecord.after, LinkRecord.Need]
  · simp [hr, hh, hready (by omega), hheld', hmade, LinkRecord.after, LinkRecord.Need]

/-- `udp_create` returns the link it has in hand, whether its receive was taken or not. -/
theorem udpCreate_links {userCallback lIpstr anyPort broadcast : Bool} (hheld : g.held = []) :
    Meets (udpCreate userCallback lIpstr anyPort broadcast) g
      (LinkRecord.Post (.user (.udpCreate userCallback lIpstr anyPort broadcast))) := by
  have hmake : ∀ g₁ : LinkRecord, g₁.held = [] → Meets (do
      let h ← udpAllocateObject anyPort broadcast
      if h < 0 then return -1
      else do
        let array ← perform (.other .malloc)
        let packet ← if array < 0 then pure (-1) else perform (.allocatePacket h .udp .recv)
        if packet < 0 then do
          if 0 ≤ array then void (.other .free)
          void (.objclos h)
          return -1
        else do
          let _ ← asioUdpRecv (.plain packet .udp .recv h)
          void (.other .free)
          return h) g₁
      (LinkRecord.Post (.user (.udpCreate userCallback lIpstr anyPort broadcast))) := by
    intro g₁ hheld₁
    refine meets_bind.mpr ((udpAllocateObject_links hheld₁).mono ?_)
    intro g₂ r hr
    split at hr
    next hneg => simp [hneg, LinkRecord.Post, hr]
    next hpos =>
      obtain ⟨hheld₂, hready, hmade⟩ := hr
      simp [hpos, asioUdpRecv, asioTransfer, IoPacket.IsSyn, IoPacket.plain, LinkRecord.Post,
        LinkRecord.after, LinkRecord.Need, LinkRecord.Ok, hheld₂, hready, hmade]
      grind
  cases userCallback with
  | false => simp [udpCreate, LinkRecord.Post, hheld]
  | true =>
      cases lIpstr with
      | false => simpa [udpCreate] using hmake g hheld
      | true =>
          refine meets_bind.mpr (meets_perform.mpr ⟨trivial, fun a _ => ?_⟩)
          refine meets_ite.mpr ⟨fun _ => ?_, fun _ => hmake _ hheld⟩
          simp [LinkRecord.Post, LinkRecord.after, hheld]

/-! ## Every job -/

/-- The dispatch of an accept completion, successful or not. -/
theorem soDispatchIoEvent_links {p : IoPacket} {status : NtStatus} {transfer : Int} {turns : Nat}
    {irp : AcceptAddrs} (hp : p.IsSyn) (hl : 0 ≤ p.link) (hh : 0 ≤ p.acceptedLink)
    (hne : p.link ≠ p.acceptedLink) (hg : g = .start (.completion p status transfer turns irp)) :
    Meets (soDispatchIoEvent p status transfer turns irp) g fun g' _ =>
      (g'.held = [] ∨ g'.turned = true)
        ∧ (g'.due = 0 ∨ p.link ∈ g'.shut ∨ g'.starved = true ∧ ntSuccess status = false) := by
  have hstart : g.Accepting p ∧ g.begun = false ∧ g.failed = !ntSuccess status := by
    subst hg
    rw [LinkRecord.start, if_pos hp]
    exact ⟨⟨rfl, rfl, rfl, by simp, by simp, by simp, rfl, rfl⟩, rfl, rfl⟩
  obtain ⟨hacc, hb, hf⟩ := hstart
  simp only [soDispatchIoEvent, hp.1, tcpDispatchIoEvent, hp.2]
  refine meets_ite.mpr ⟨fun _ => ?_, fun hstatus => ?_⟩
  · refine (tcpDispatchIoSyn_links hl hh hacc hb).mono ?_
    rintro g' - ⟨hheld, hdue⟩
    exact ⟨hheld, hdue.imp_right .inl⟩
  -- the exception handler takes its own reference first
  refine meets_bind.mpr ((tcprefr_accepting hl hacc).mono ?_)
  rintro g₁ r₁ ⟨hgr₁, hr₁⟩
  refine meets_ite.mpr ⟨fun hneg => ?_, fun hpos => ?_⟩
  · rw [if_pos hneg] at hr₁
    simp [LinkRecord.after, LinkRecord.Need, hr₁.2.2.2 hb, hr₁.2.2.1]
  rw [if_neg hpos] at hr₁
  obtain ⟨hacc₁, hb₁⟩ := hr₁
  have hf₁ : g₁.failed = true := hgr₁.failed (by simpa [hf] using hstatus)
  simp only [hp.2, reduceCtorEq, if_false, tcpShutdownByPacket]
  refine meets_bind.mpr ((tcpShutdownSyn_links hl hne hacc₁ hb₁ hf₁).mono ?_)
  rintro g₂ - ⟨hheld₂, hdone⟩
  rcases hdone with hdone | hdone | hdone <;>
    simp [LinkRecord.after, LinkRecord.Need, hheld₂, hdone, hstatus]

/-- **What every job does with its links.** An accept completion has a listener, and a link of its
own to accept on. -/
theorem job_links {j : Job} (hj : ∀ p status transfer turns irp,
    j = .completion p status transfer turns irp → p.IsSyn →
      0 ≤ p.link ∧ 0 ≤ p.acceptedLink ∧ p.link ≠ p.acceptedLink) :
    Meets j.prog (.start j) (LinkRecord.Post j) := by
  cases j with
  | completion p status transfer turns irp =>
      refine meets_bind.mpr ?_
      by_cases hp : p.IsSyn
      · obtain ⟨hl, hh, hne⟩ := hj p status transfer turns irp rfl hp
        refine (soDispatchIoEvent_links hp hl hh hne rfl).mono ?_
        intro g' _ hpost
        rw [pure_eq, meets_done]
        simpa only [LinkRecord.Post, if_pos hp] using hpost
      · have hstart : LinkRecord.start (.completion p status transfer turns irp)
            = { LinkRecord.blank with link := some p.link } := by
          rw [LinkRecord.start, if_neg hp]
        rw [hstart]
        refine (Meets.of_local (soDispatchIoEvent_local rfl hp) rfl rfl).mono ?_
        intro g' _ hpost
        rw [pure_eq, meets_done]
        simp only [LinkRecord.Post, if_neg hp]
        exact hpost
  | user c =>
      have hlocal : ∀ l, c.link = some l → (∀ block, c ≠ .tcpListen l block) →
          Meets c.prog (.start (.user c)) fun g' _ => g'.held = [] ∧ g'.due = 0 := by
        intro l hl hlisten
        exact Meets.of_local (UserCall.prog_local hl hlisten) hl rfl
      cases c with
      | tcpCreate userCallback lIpstr => exact tcpCreate_links rfl rfl rfl
      | udpCreate userCallback lIpstr anyPort broadcast => exact udpCreate_links rfl
      | tcpListen lnk block => exact tcpListen_links rfl rfl rfl rfl rfl
      | _ => exact hlocal _ rfl (by rintro _ ⟨⟩)

end

end Swnet.Sys
