import Swnet.Sys.Counting

/-!
# Swnet — the close events

In every run a link whose unload routine has run was reported closed once, by `EVT_PRE_CLOSE`
and then `EVT_CLOSED`, and the user hears no more of it. What the user knows of was given to
him by a notice before. That a link which is closed was known is not so in every run: links
that are given up before they are announced are reported closed as well.

* `references_balanced` — as long as no job that forgets its reference gets one, every job has
  released what it acquired;
* `close_events` — as long as no link is given up, the close events of a TCP link come once, in
  order, after the link was given to the user.

The notices are a list, and `Reported` says of each object what stands in it: none of the two events
as long as the object is there, both next to each other once it is gone. Only the unload routine
puts them in, and it runs once for an object.
-/

namespace Swnet.Sys

open Jobs Jobs.Prog

/-! ## What was reported -/

/-- What the user was told of the links that are gone, and of those that are not. -/
structure Reported (w : World) : Prop where
  given : ∀ h ∈ w.known, ∃ n ∈ w.notices, h ∈ n.gives
  silent : ∀ h, w.gone h = false → .preClose h ∉ w.notices ∧ .closed h ∉ w.notices
  closing : ∀ h o, w.obj h = some o → o.unloaded = true → o.callback = true →
    ∃ before after, w.notices = before ++ [.preClose h, .closed h] ++ after
      ∧ .preClose h ∉ before ∧ .closed h ∉ before
      ∧ (∀ n ∈ after, n.link = h → o.proto ≠ .tcp ∧ n = .created h)
      ∧ (o.proto = .tcp → h ∈ w.known → ∃ n ∈ before, h ∈ n.gives)

section

variable {τ : Type} {w w' : World} {rec : τ → LinkRecord} {u : τ} {c : Call} {a : Int}

/-- There is nothing to report to begin with. -/
theorem Reported.initial : Reported World.initial where
  given _ h := absurd h List.not_mem_nil
  silent _ _ := ⟨List.not_mem_nil, List.not_mem_nil⟩
  closing _ _ h := by cases h

/-- What is in hand has not gone. -/
theorem Custody.held_there (hc : Custody w rec) (ht : w.Tidy) {h : Int} (hh : h ∈ (rec u).held)
    {o : Obj} (ho : w.obj h = some o) : o.unloaded = false := by
  obtain ⟨o', ho', hopen⟩ := hc.held_open u h hh
  rw [ho] at ho'
  cases ho'
  by_contra hgone
  have hclosed := ((ht h o ho).mp (Bool.eq_true_of_not_eq_false hgone)).1
  rw [hopen] at hclosed
  cases hclosed

/-- After a call that is made as the ledgers of links and references have it. -/
theorem Reported.call (hrep : Reported w) (hc : Custody w rec) (ht : w.Tidy)
    (hw : w.answer c a = some w') (hn : (rec u).Need c)
    (href : ∀ n, c = .emit n → 0 < w.refs n.link) : Reported w' := by
  obtain ⟨new, htells, hnotices, hknown⟩ := World.answer_notices hw
  -- what is gone now was gone, or goes with this call; its callback was set before
  have hcallback : ∀ {h : Int} {o o' : Obj}, w.obj h = some o → w'.obj h = some o' →
      o.unloaded = true → o'.callback = true → o.callback = true := by
    intro h o o' ho ho' hu hcb
    obtain ⟨o₁, ho₁, hk⟩ := World.answer_keeps hw ho
    rw [ho'] at ho₁
    cases ho₁
    rw [← hk.silent ?_]
    · exact hcb
    · rintro rfl
      have hheld := hc.held_there ht hn ho
      rw [hu] at hheld
      cases hheld
  -- for a link that was gone before
  have hold : ∀ {h : Int} {o' : Obj}, w'.obj h = some o' → w.gone h = true →
      o'.callback = true → (∀ n ∈ new, n.link ≠ h) →
      (∀ n ∈ new, ∀ l ∈ n.gives, l ∈ (rec u).held) →
      ∃ before after, w'.notices = before ++ [.preClose h, .closed h] ++ after
        ∧ .preClose h ∉ before ∧ .closed h ∉ before
        ∧ (∀ n ∈ after, n.link = h → o'.proto ≠ .tcp ∧ n = .created h)
        ∧ (o'.proto = .tcp → h ∈ w'.known → ∃ n ∈ before, h ∈ n.gives) := by
    intro h o' ho' hgone hcb hnew hgives
    obtain ⟨o, ho⟩ : ∃ o, w.obj h = some o := by
      unfold World.gone at hgone
      split at hgone
      next o ho => exact ⟨o, ho⟩
      · cases hgone
    rw [World.gone_some ho] at hgone
    obtain ⟨o₁, ho₁, hk⟩ := World.answer_keeps hw ho
    rw [ho'] at ho₁
    cases ho₁
    obtain ⟨before, after, hlog, hpre, hcl, hafter, hgiven⟩ :=
      hrep.closing h o ho hgone (hcallback ho ho' hgone hcb)
    refine ⟨before, after ++ new, by rw [hnotices, hlog, List.append_assoc], hpre, hcl, ?_, ?_⟩
    · intro n hn' hl
      rcases List.mem_append.mp hn' with hn' | hn'
      · rw [hk.kin.proto]
        exact hafter n hn' hl
      · exact absurd hl (hnew n hn')
    · intro htcp hk'
      rw [hknown] at hk'
      rcases List.mem_append.mp hk' with hk' | hk'
      · -- a link that is given to the user is in hand, and has not gone
        obtain ⟨n, hn', hl⟩ := List.mem_flatMap.mp hk'
        have hheld := hc.held_there ht (hgives n hn' h hl) ho
        rw [hgone] at hheld
        cases hheld
      · exact hgiven (hk.kin.proto.symm.trans htcp) hk'
  have hgive : ∀ {new : List Notice}, (∀ h ∈ w.known, ∃ n ∈ w.notices ++ new, h ∈ n.gives) :=
    fun h hh => (hrep.given h hh).imp fun n hn' => ⟨List.mem_append_left _ hn'.1, hn'.2⟩
  refine ⟨fun h hh => ?_, ?_, ?_⟩
  · rw [hknown] at hh
    rw [hnotices]
    rcases List.mem_append.mp hh with hh | hh
    · obtain ⟨n, hn', hl⟩ := List.mem_flatMap.mp hh
      exact ⟨n, List.mem_append_right _ hn', hl⟩
    · exact hgive h hh
  · intro h hgone
    rw [hnotices]
    cases htells with
    | nothing hg =>
        rw [List.append_nil]
        exact hrep.silent h (by rw [← hg]; exact hgone)
    | @event n o hcall ho hcb hg =>
        subst hcall
        obtain ⟨hpre, hcl⟩ := hrep.silent h (by rw [← hg]; exact hgone)
        -- a job does not raise these events itself
        have hother : n ≠ .preClose h ∧ n ≠ .closed h := by
          constructor <;> rintro rfl <;> exact hn
        simp [hpre, hcl, Ne.symm hother.1, Ne.symm hother.2]
    | @closing h₀ o o₁ hcall ho h₁ hclosed hrefs hloaded hg =>
        rw [hg] at hgone
        have hne : h ≠ h₀ := by
          rintro rfl
          rw [Function.update_self] at hgone
          cases hgone
        rw [Function.update_of_ne hne] at hgone
        obtain ⟨hpre, hcl⟩ := hrep.silent h hgone
        unfold World.closing
        split <;> simp [hpre, hcl, hne]
  · intro h o' ho' hu hcb
    have hgone' : w'.gone h = true := by rw [World.gone_some ho', hu]
    cases htells with
    | nothing hg =>
        exact hold ho' (by rw [← hg]; exact hgone') hcb (fun n hn' => absurd hn' List.not_mem_nil)
          fun n hn' => absurd hn' List.not_mem_nil
    | @event n o hcall ho hcb' hg =>
        subst hcall
        rw [hg] at hgone'
        refine hold ho' hgone' hcb ?_ ?_
        · rintro _ hn' rfl
          obtain rfl := List.mem_singleton.mp hn'
          -- it has a reference
          have hpos := href _ rfl
          rw [World.gone_some ho] at hgone'
          rw [World.refs_some ho, ((ht _ o ho).mp hgone').2] at hpos
          exact absurd hpos (Nat.lt_irrefl 0)
        · intro n' hn' l hl
          obtain rfl := List.mem_singleton.mp hn'
          cases n' with
          | accepted l' h' =>
              obtain rfl := List.mem_singleton.mp hl
              exact hn.2.2.1
          | created => exact absurd hn id
          | _ => exact absurd hl List.not_mem_nil
    | @closing h₀ o o₁ hcall ho h₁ hclosed hrefs hloaded hg =>
        by_cases hne : h = h₀
        · subst hne
          -- it goes now
          have hcb₁ : o₁.callback = true := by
            obtain ⟨o₂, ho₂, hk⟩ := World.answer_keeps hw ho
            rw [ho'] at ho₂
            cases ho₂
            rw [hk.silent (by rcases hcall with rfl | rfl <;> exact nofun)] at hcb
            rcases h₁ with rfl | rfl <;> exact hcb
          have hloaded₀ : w.gone h = false := by
            rw [World.gone_some ho]
            rcases h₁ with rfl | rfl <;> exact hloaded
          obtain ⟨hpre, hcl⟩ := hrep.silent h hloaded₀
          rw [World.closing, if_pos hcb₁] at hnotices hknown
          refine ⟨w.notices, [], by rw [hnotices, List.append_nil], hpre, hcl,
            fun n hn' => absurd hn' List.not_mem_nil, fun _ hh => ?_⟩
          rw [hknown] at hh
          exact hrep.given h hh
        · rw [hg, Function.update_of_ne hne] at hgone'
          refine hold ho' hgone' hcb ?_ ?_
          · unfold World.closing
            split <;> simp [Notice.link, Ne.symm hne]
          · unfold World.closing
            split <;> simp [Notice.gives]

/-- The start of a job tells the user nothing. -/
theorem Reported.start {j : Job} (hrep : Reported w) (hw : w.startJob j = some w') :
    Reported w' := by
  have hs := World.startJob_spec hw
  have hgone : w'.gone = w.gone := by
    funext h
    unfold World.gone
    rcases hs.same h with ⟨ho, ho'⟩ | ⟨o, peer, ho, ho'⟩ <;> rw [ho, ho']
  refine ⟨?_, ?_, ?_⟩
  · rw [hs.known, hs.notices]
    exact hrep.given
  · rw [hs.notices, hgone]
    exact hrep.silent
  · intro h o' ho' hu hcb
    rcases hs.same h with ⟨-, hnone⟩ | ⟨o, peer, ho, hpeer⟩
    · rw [hnone] at ho'
      cases ho'
    · rw [hpeer] at ho'
      cases ho'
      rw [hs.notices, hs.known]
      exact hrep.closing h o ho hu hcb

/-- Its end makes a link known that was just created and has no end to report. -/
theorem Reported.finish {j : Job} {r : Int} (hrep : Reported w) (hc : Custody w rec) (ht : w.Tidy)
    (hp : LinkRecord.Post j (rec u) r) : Reported (w.finishJob j r) := by
  obtain ⟨hobj, -, hcase⟩ := World.finishJob_spec w j r
  have hgone := World.gone_of_obj hobj
  rcases hcase with ⟨hj, hr, hknown, hnotices⟩ | ⟨hknown, hnotices⟩
  · -- what is returned is in hand, or a UDP link
    have hkind : r ∈ (rec u).held ∨ ∃ o, w.obj r = some o ∧ o.proto ≠ .tcp := by
      rcases hj with ⟨b, l, rfl⟩ | ⟨b, l, p, c, rfl⟩ <;>
        simp only [LinkRecord.Post, if_neg (show ¬ r < 0 by omega)] at hp
      · exact .inl (by simp [hp.1])
      · obtain ⟨o, ho, hudp, -⟩ := hc.made u _ _ _ hp.2.2
        exact .inr ⟨o, ho, by rw [hudp]; simp⟩
    have htcp : ∀ o, w.obj r = some o → o.unloaded = true → o.proto ≠ .tcp := by
      intro o ho hu
      rcases hkind with hheld | ⟨o₁, ho₁, hne⟩
      · have hthere := hc.held_there ht hheld ho
        rw [hu] at hthere
        cases hthere
      · rw [ho] at ho₁
        cases ho₁
        exact hne
    refine ⟨fun h hh => ?_, fun h hg => ?_, fun h o ho hu hcb => ?_⟩
    · rw [hknown] at hh
      rw [hnotices]
      rcases List.mem_cons.mp hh with rfl | hh
      · exact ⟨.created h, by simp, by simp [Notice.gives]⟩
      · obtain ⟨n, hn, hl⟩ := hrep.given h hh
        exact ⟨n, List.mem_append_left _ hn, hl⟩
    · rw [hgone] at hg
      rw [hnotices]
      simpa using hrep.silent h hg
    · rw [hobj] at ho
      obtain ⟨before, after, hlog, hpre, hcl, hafter, hgiven⟩ := hrep.closing h o ho hu hcb
      refine ⟨before, after ++ [.created r], by rw [hnotices, hlog, List.append_assoc], hpre, hcl,
        ?_, ?_⟩
      · intro n hn hl
        rcases List.mem_append.mp hn with hn | hn
        · exact hafter n hn hl
        · obtain rfl := List.mem_singleton.mp hn
          obtain rfl : r = h := hl
          exact ⟨htcp o ho hu, rfl⟩
      · intro hproto hh
        rw [hknown] at hh
        rcases List.mem_cons.mp hh with rfl | hh
        · exact absurd hproto (htcp o ho hu)
        · exact hgiven hproto hh
  · refine ⟨?_, ?_, ?_⟩
    · rw [hknown, hnotices]
      exact hrep.given
    · rw [hnotices, hgone]
      exact hrep.silent
    · rw [hobj, hknown, hnotices]
      exact hrep.closing

end

section

variable {τ : Type} [DecidableEq τ] [Fintype τ] {G : SysGuard} {s : SysState τ}

/-- **Every link that is gone was reported closed, once and in order.** -/
theorem sys_reported (hr : SysReaches G s) : Reported s.world := by
  refine hr.world Reported.initial ?_ ?_ ?_ ?_
  · intro s e
    exact nomatch e
  · intro s u j w hs hrep hu hw
    exact hrep.start hw
  · intro s u j t c k a w hs hrep hu hw hG
    obtain ⟨hc, hlinks⟩ := sys_custody hs
    obtain ⟨⟨leaked, hcount, -⟩, hrefs⟩ := sys_counted hs
    refine hrep.call hc (sys_tidy hs) hw (hlinks u j t _ hu).1 ?_
    rintro n rfl
    obtain ⟨o, ho, hpos⟩ := hcount.alive (hrefs u j t _ hu).1
    rw [World.refs_some ho]
    exact hpos
  · intro s u j t r hs hrep hu
    obtain ⟨hc, hlinks⟩ := sys_custody hs
    exact hrep.finish hc (sys_tidy hs) (hlinks u j t _ hu)

/-! ## Balance -/

/-- What a job has taken and not released when it returns. -/
theorem held_of_returning (hr : SysReaches G s) {u : τ} {j : Job} {t : CallTrace} {r : Int}
    (hu : returning s u = some (j, t, r)) :
    ∃ H : List Int, RefRecord.Post j (s.records references u) r
      ∧ (s.records references u).held = H
      ∧ (∀ h, H.count h + releases h t = acquisitions h t)
      ∧ ∀ l, l ∈ (s.records references u).acquired ↔ 0 < acquisitions l t := by
  have hk := running_of_returning hu
  obtain ⟨⟨leaked, hcount, -⟩, hmeets⟩ := sys_counted hr
  have hrec : s.records references u = record RefRecord.after (.start j) t :=
    State.records_running hk
  refine ⟨_, hmeets u j t _ hk, rfl, fun h => ?_, fun l => ?_⟩
  · have hbalance := hcount.balance u h
    rw [hrec, RefRecord.acquired_count, RefRecord.released_count] at hbalance
    rw [hrec]
    exact hbalance
  · rw [hrec, ← List.count_pos_iff, RefRecord.acquired_count]

/-- A job gives back all it took, unless it is one of those that do not and was granted its
reference. -/
theorem balanced_iff (hr : SysReaches G s) {u : τ} {j : Job} {t : CallTrace} {r : Int}
    (hu : returning s u = some (j, t, r)) :
    (∀ h, acquisitions h t = releases h t)
      ↔ ¬ ∃ l, j.forgets = some l ∧ 0 < acquisitions l t := by
  obtain ⟨H, hpost, hheld, hbalance, hacq⟩ := held_of_returning hr hu
  have hall : (∀ h, acquisitions h t = releases h t) ↔ H = [] := by
    constructor
    · intro h
      refine List.eq_nil_iff_forall_not_mem.mpr fun l hl => ?_
      have hpos := List.count_pos_iff.mpr hl
      have := hbalance l
      have := h l
      omega
    · rintro rfl h
      have := hbalance h
      simp only [List.count_nil] at this
      omega
  rw [hall, ← hheld]
  have hend := hpost.1
  cases hf : j.forgets with
  | none =>
      simp only [hf] at hend
      simp [hend]
  | some l =>
      simp only [hf] at hend
      rw [hend, ite_eq_right_iff, hacq]
      simp

/-- The runs in which no reference is granted to `tcp_awaken` and `udp_awaken`, to `nis_cntl`
with a command it does not know, or to the dispatch of a pipe event. -/
def noneForgotten : SysGuard where
  start _ _ := True
  call _ j _ c a :=
    match j.forgets with
    | none => True
    | some l => c.refers = some l → a < 0

instance (w : World) (j : Job) : Decidable (noneForgotten.start w j) := instDecidableTrue

instance (w : World) (j : Job) (t : CallTrace) (c : Call) (a : Int) :
    Decidable (noneForgotten.call w j t c a) :=
  match hf : j.forgets with
  | none => .isTrue (by simp [noneForgotten, hf])
  | some l => decidable_of_iff (c.refers = some l → a < 0) (by simp [noneForgotten, hf])

/-- The guard of the runs is what the count of references asks for. -/
theorem noneForgotten_spec : NoneForgotten noneForgotten := by
  intro w j t c a l hG hf hc
  simp only [noneForgotten, hf] at hG
  exact hG hc

/-- **Reference balance.** A job gives back every reference it took if and only if it is not
one that forgets its reference and was granted it. Where none was, nobody holds a link once all
jobs are done; a link that was destroyed is closed, and a closed link is unloaded then. -/
theorem references_balanced :
    (∀ s : SysState τ, SysReaches anyRun s → ∀ u j t r, returning s u = some (j, t, r) →
      ((∀ h, acquisitions h t = releases h t)
        ↔ ¬ ∃ l, j.forgets = some l ∧ 0 < acquisitions l t))
    ∧ ∀ s : SysState τ, SysReaches noneForgotten s →
      (∀ u j t r h, returning s u = some (j, t, r) →
        j = .user (.tcpDestroy h) ∨ j = .user (.udpDestroy h) → 0 ≤ h →
        ∃ o, s.world.obj h = some o ∧ o.closed = true)
      ∧ ((∀ u, s.thread u = .idle) → ∀ h o, s.world.obj h = some o →
        o.refs = 0 ∧ (o.closed = true → o.unloaded = true
          ∧ (h ∈ s.world.known →
            .preClose h ∈ s.world.notices ∧ .closed h ∈ s.world.notices))) := by
  refine ⟨fun s hr u j t r hu => balanced_iff hr hu, fun s hr => ?_⟩
  obtain ⟨⟨leaked, hcount, hexact⟩, -⟩ := sys_counted hr
  refine ⟨fun u j t r h hu hj hh => ?_, fun hidle h o ho => ?_⟩
  · obtain ⟨H, hpost, -, -, -⟩ := held_of_returning hr hu
    refine hcount.shut u h ?_ hh
    rcases hj with rfl | rfl <;> exact hpost.2
  -- at rest the count of an object is that of the references nobody forgot
  · have hrefs : o.refs = 0 := by
      rw [← World.refs_some ho, hcount.refs h, hexact noneForgotten_spec h]
      simp [State.records_idle (hidle _), references, RefRecord.blank]
    refine ⟨hrefs, fun hclosed => ?_⟩
    -- a closed object without references was unloaded, and that was reported
    have hgone := (sys_tidy hr h o ho).mpr ⟨hclosed, hrefs⟩
    refine ⟨hgone, fun hknown => ?_⟩
    obtain ⟨hc, -⟩ := sys_custody hr
    obtain ⟨o', ho', hcb, -⟩ := hc.shared h (hc.nonneg ho) (.inl hknown)
    rw [ho] at ho'
    cases ho'
    obtain ⟨before, after, hlog, -⟩ := (sys_reported hr).closing h o ho hgone hcb
    rw [hlog]
    simp

/-- A link is created and destroyed. -/
theorem references_balanced_destroyed : ∃ s : SysState Unit, SysReaches noneForgotten s ∧
    ∃ o, s.world.obj 0 = some o ∧ o.refs = 0 ∧ o.unloaded = true
      ∧ .preClose 0 ∈ s.world.notices ∧ .closed 0 ∈ s.world.notices := by
  obtain ⟨s, hs, hidle, o, ho, hclosed, hknown⟩ := sys_of_play noneForgotten
    (P := fun s => idling s () = true ∧ ∃ o ∈ s.world.obj 0, o.closed = true ∧ 0 ∈ s.world.known)
    (createTcp () 0 ++ destroyTcp () 0) (by decide +kernel)
  obtain ⟨hrefs, hgone⟩ := (references_balanced.2 s hs).2 (fun _ => idle_of_idling hidle) 0 o ho
  exact ⟨s, hs, o, ho, hrefs, (hgone hclosed).1, (hgone hclosed).2 hknown⟩

/-- `nis_cntl` with a command it does not know keeps its reference: when it returns, and when
the link was destroyed and nothing runs any more. -/
theorem reference_forgotten :
    (∃ s : SysState Unit, SysReaches anyRun s ∧
      ∃ t r, returning s () = some (.user (.nisCntl 0 .unknown), t, r)
        ∧ acquisitions 0 t ≠ releases 0 t)
    ∧ ∃ s : SysState Unit, SysReaches anyRun s ∧ (∀ u, s.thread u = .idle) ∧
      ∃ o, s.world.obj 0 = some o ∧ o.closed = true ∧ o.refs = 1 ∧ o.unloaded = false := by
  constructor
  · obtain ⟨s, hs, ⟨j, t, r⟩, hret, rfl, hne⟩ := sys_of_play anyRun
      (P := fun s => ∃ x ∈ returning s (), x.1 = .user (.nisCntl 0 .unknown)
        ∧ acquisitions 0 x.2.1 ≠ releases 0 x.2.1)
      (createTcp () 0 ++ .start () (.user (.nisCntl 0 .unknown)) :: Move.calls () [0])
      (by decide +kernel)
    exact ⟨s, hs, t, r, hret, hne⟩
  · obtain ⟨s, hs, hidle, hobj⟩ := sys_of_play anyRun
      (P := fun s => idling s () = true ∧ ∃ o ∈ s.world.obj 0, o.closed = true ∧ o.refs = 1
        ∧ o.unloaded = false)
      (createTcp () 0 ++ Move.whole () (.user (.nisCntl 0 .unknown)) [0] ++ destroyTcp () 0)
      (by decide +kernel)
    exact ⟨s, hs, fun _ => idle_of_idling hidle, hobj⟩

end

/-! ## Links that are given up -/

/-- The dispatch of an accept request that failed. -/
def Job.AcceptFails : Job → Bool
  | .completion p status _ _ _ => p.IsSyn ∧ ntSuccess status = false
  | .user _ => false

def Job.MakesUdp : Job → Bool
  | .user (.udpCreate ..) => true
  | _ => false

namespace LinkRecord

/-- Why a link in hand may be given up: its accept request failed, or a call it depends on. -/
theorem failed_record {j : Job} {t : CallTrace} (hf : (record after (start j) t).failed = true) :
    j.AcceptFails = true ∨ ∃ t₁ c a t₂, t = t₁ ++ (c, a) :: t₂ ∧ t₂ ≠ []
      ∧ (record after (start j) t₂).held ≠ [] ∧ c.Sensitive (record after (start j) t₂).accepts
      ∧ a < 0 := by
  induction t with
  | nil =>
      rcases start_cases j with ⟨p, status, transfer, turns, irp, rfl, hp, hs⟩
        | ⟨-, accepts, hs⟩ <;>
        rw [record_nil, hs] at hf
      · exact .inl (by simpa [Job.AcceptFails, hp] using hf)
      · cases hf
  | cons x t ih =>
      obtain ⟨c, a⟩ := x
      rw [record_cons] at hf
      simp only [after, Bool.or_eq_true, Bool.and_eq_true, decide_eq_true_eq] at hf
      rcases hf with hf | ⟨hb, ha, hheld, hs⟩
      · refine (ih hf).imp_right ?_
        rintro ⟨t₁, c', a', t₂, rfl, hrest⟩
        exact ⟨(c, a) :: t₁, c', a', t₂, rfl, hrest⟩
      · exact .inr ⟨[], c, a, t, rfl, begun_record hb, hheld, hs, ha⟩

/-- What was allocated is on record as what it is. -/
theorem made_record {j : Job} {t : CallTrace} {proto : ProtoType} {remote : Bool} {h : Int}
    (hm : (.objallo proto remote, h) ∈ t) (hh : 0 ≤ h) :
    (h, proto, remote) ∈ (record after (start j) t).made := by
  induction t with
  | nil => cases hm
  | cons x t ih =>
      obtain ⟨c, a⟩ := x
      rcases List.mem_cons.mp hm with heq | hm
      · cases heq
        simp [after, show ¬ h < 0 by omega]
      · exact (grows_after _ c a).made (ih hm)

end LinkRecord

/-- `udp_create` allocates no TCP link. -/
theorem udpCreate_allocates {userCallback lIpstr anyPort broadcast : Bool} :
    (udpCreate userCallback lIpstr anyPort broadcast).Uses fun c =>
      ∀ remote, c ≠ .objallo .tcp remote := by
  simp [udpCreate, udpAllocateObject, udpEntry, udpEntryOpts, udpUpdateOpts, asioUdpRecv,
    asioTransfer]

/-- When the listener of a failed accept request cannot be referenced, its link is left alone. -/
theorem acceptFails_closes {p : IoPacket} {status : NtStatus} {transfer : Int} {turns : Nat}
    {irp : AcceptAddrs} (hj : (Job.completion p status transfer turns irp).AcceptFails = true) :
    (Job.completion p status transfer turns irp).prog.Meets (fun _ _ _ => true)
      (fun _ c => ∀ h, c ≠ .objclos h) (fun begun _ a => begun = false → a < 0) false
      fun _ _ => True := by
  simp only [Job.AcceptFails, decide_eq_true_eq] at hj
  obtain ⟨⟨htcp, hsyn⟩, hs⟩ := hj
  simp +contextual [Job.prog, soDispatchIoEvent, htcp, tcpDispatchIoEvent, hs,
    tcpDispatchIoException, tcprefr, protoRefr, eINVAL, eNOENT, meets_ite]

/-- The runs in which no TCP link is given up: an accept request only fails when its listener
is not there any more, and no call fails that a link in hand depends on. -/
def noneGivenUp : SysGuard where
  start _ _ := True
  call _ j t c a :=
    (j.MakesUdp = false → t ≠ [] → (record LinkRecord.after (.start j) t).held ≠ [] →
        c.Sensitive (record LinkRecord.after (.start j) t).accepts → 0 ≤ a)
      ∧ (j.AcceptFails = true → t = [] → a < 0)

instance (w : World) (j : Job) : Decidable (noneGivenUp.start w j) := instDecidableTrue

instance (w : World) (j : Job) (t : CallTrace) (c : Call) (a : Int) :
    Decidable (noneGivenUp.call w j t c a) :=
  inferInstanceAs (Decidable (_ ∧ _))

section

variable {τ : Type} [DecidableEq τ] {s : SysState τ}

/-- What a job closes that it has in hand is a UDP link. -/
theorem not_given_up (hr : SysReaches noneGivenUp s) {u : τ} {j : Job} {t : CallTrace} {h : Int}
    {k : Int → CallProg Int} (hu : s.thread u = .running j t (.call (.objclos h) k))
    (hh : h ∈ (s.records links u).held) {o : Obj} (ho : s.world.obj h = some o) :
    o.proto ≠ .tcp := by
  obtain ⟨hc, hmeets⟩ := sys_custody hr
  have hneed : (s.records links u).Need (.objclos h) := (hmeets u j t _ hu).1
  have hrec : s.records links u = record LinkRecord.after (.start j) t := State.records_running hu
  have hshared := hc.not_shared hh
  have hleads := hr.leads (fun _ => rfl) hu
  have hguard := hr.traced (P := fun j t c a => noneGivenUp.call World.initial j t c a)
    (fun w j t c a hG => hG) (fun _ => rfl) hu
  have hmade : ∀ {proto : ProtoType} {remote : Bool},
      (h, proto, remote) ∈ (s.records links u).made → o.proto = proto := by
    intro proto remote hm
    obtain ⟨o', ho', hp, -⟩ := hc.made u _ _ _ hm
    rw [ho] at ho'
    cases ho'
    exact hp
  have hgone := hneed.resolve_right fun hn => hshared (.inr (.inr ⟨u, hn.symm⟩))
  rcases hgone.2 with ⟨hf, -⟩ | hudp
  · rw [hrec] at hf
    rcases LinkRecord.failed_record hf with hj | ⟨t₁, c, a, t₂, rfl, hne, hheld, hs, ha⟩
    · -- the dispatch of a failed accept request closes nothing here
      cases j with
      | user c => cases hj
      | completion p status transfer turns irp =>
          have hrest := (acceptFails_closes hj).leads hleads fun t₁ c a t₂ ht hb => by
            refine (hguard t₁ c a t₂ ht).2 hj ?_
            cases t₂ with
            | nil => rfl
            | cons x t₂ => cases hb
          exact absurd rfl (hrest.1 h)
    · cases hj : j.MakesUdp with
      | false =>
          have := (hguard t₁ c a t₂ rfl).1 hj hne hheld hs
          omega
      | true =>
          -- all it has in hand are UDP links
          cases j with
          | completion => cases hj
          | user c =>
              cases c with
              | udpCreate b l p c =>
                  rw [hrec] at hh
                  obtain ⟨proto, remote, hm⟩ :=
                    (LinkRecord.held_record hh).resolve_left List.not_mem_nil
                  have hproto := hmade (hrec ▸ LinkRecord.made_record hm (hc.nonneg ho))
                  rintro htcp
                  rw [htcp] at hproto
                  subst hproto
                  exact (udpCreate_allocates.leads hleads).2 _ hm remote rfl
              | _ => cases hj
  · rw [hmade hudp]
    exact nofun

/-- A TCP link that is closed was known to the user. -/
def ClosedKnown (w : World) : Prop :=
  ∀ h o, w.obj h = some o → o.proto = .tcp → o.closed = true → h ∈ w.known

/-- **In every run in which no link is given up.** Induction on the run. -/
theorem sys_closedKnown (hr : SysReaches noneGivenUp s) : ClosedKnown s.world := by
  refine hr.world (I := ClosedKnown) ?_ ?_ ?_ ?_ ?_
  · intro h o ho
    cases ho
  · intro s e
    exact nomatch e
  · intro s u j w hs hck hu hw h o ho htcp hclosed
    have hstart := World.startJob_spec hw
    rw [hstart.known]
    rcases hstart.same h with ⟨-, hnone⟩ | ⟨o₁, peer, ho₁, hpeer⟩
    · rw [hnone] at ho
      cases ho
    · rw [hpeer] at ho
      cases ho
      exact hck h o₁ ho₁ htcp hclosed
  · intro s u j t c k a w hs hck hu hw hG h o' ho' htcp hclosed
    obtain ⟨hc, hmeets⟩ := sys_custody hs
    have hneed : (s.records links u).Need c := (hmeets u j t _ hu).1
    have hgrow : ∀ h ∈ s.world.known, h ∈ w.known := by
      intro h hh
      obtain ⟨new, -, -, hknown⟩ := World.answer_notices hw
      rw [hknown]
      exact List.mem_append_right _ hh
    cases ho : s.world.obj h with
    | none =>
        obtain ⟨proto, remote, -, -, -, rfl⟩ := World.answer_made hw ho ho'
        cases hclosed
    | some o =>
        obtain ⟨o₁, ho₁, hk⟩ := World.answer_keeps hw ho
        rw [ho'] at ho₁
        cases ho₁
        have htcp₀ : o.proto = .tcp := hk.kin.proto.symm.trans htcp
        by_cases hcl : c.closes = some h
        · -- it is closed by a call on a link the user knows
          have hsh : Shared s.world (s.records links) h := by
            rcases closes_cases hneed hcl with hsh | ⟨rfl, hh⟩
            · exact hsh
            · exact absurd htcp₀ (not_given_up hs hu hh ho)
          obtain ⟨o₁, ho₁, -, hknown⟩ := hc.shared h (hc.nonneg ho) hsh
          rw [ho] at ho₁
          cases ho₁
          exact hgrow h (hknown htcp₀)
        · rw [hk.opened hcl] at hclosed
          exact hgrow h (hck h o ho htcp₀ hclosed)
  · intro s u j t r hs hck hu h o ho htcp hclosed
    obtain ⟨hobj, -, hknown⟩ := World.finishJob_spec s.world j r
    have hold := hck h o (by rw [← hobj]; exact ho) htcp hclosed
    rcases hknown with ⟨-, -, hknown, -⟩ | ⟨hknown, -⟩
    · show h ∈ (s.world.finishJob j r).known
      rw [hknown]
      exact List.mem_cons_of_mem _ hold
    · show h ∈ (s.world.finishJob j r).known
      rw [hknown]
      exact hold

/-- **Close events only concern links the user knows.** Before its unload routine has run, no
close event of a TCP link was delivered. After that, each was, once and in order, the user had
been given the link before, and has heard no more of it. -/
theorem close_events [Fintype τ] (hr : SysReaches noneGivenUp s) {h : Int} {o : Obj}
    (ho : s.world.obj h = some o) (htcp : o.proto = .tcp) :
    (o.unloaded = false → .preClose h ∉ s.world.notices ∧ .closed h ∉ s.world.notices)
    ∧ (o.unloaded = true →
      ∃ before after, s.world.notices = before ++ [.preClose h, .closed h] ++ after
        ∧ (∃ n ∈ before, h ∈ n.gives) ∧ .preClose h ∉ before ∧ .closed h ∉ before
        ∧ ∀ n ∈ after, n.link ≠ h) := by
  have hrep := sys_reported hr
  obtain ⟨hc, -⟩ := sys_custody hr
  refine ⟨fun hu => hrep.silent h (by rw [World.gone_some ho, hu]), fun hu => ?_⟩
  have hclosed := ((sys_tidy hr h o ho).mp hu).1
  have hknown := sys_closedKnown hr h o ho htcp hclosed
  obtain ⟨o', ho', hcb, -⟩ := hc.shared h (hc.nonneg ho) (.inl hknown)
  rw [ho] at ho'
  cases ho'
  obtain ⟨before, after, hlog, hpre, hcl, hafter, hgiven⟩ := hrep.closing h o ho hu hcb
  refine ⟨before, after, hlog, hgiven htcp hknown, hpre, hcl, fun n hn hl => ?_⟩
  exact (hafter n hn hl).1 htcp

end

/-- A link is created and destroyed. -/
theorem close_events_destroyed : ∃ s : SysState Unit, SysReaches noneGivenUp s ∧
    ∃ before after, s.world.notices = before ++ [.preClose 0, .closed 0] ++ after
      ∧ (∃ n ∈ before, 0 ∈ n.gives) ∧ ∀ n ∈ after, n.link ≠ 0 := by
  obtain ⟨s, hs, o, ho, htcp, hu⟩ := sys_of_play noneGivenUp
    (P := fun s => ∃ o ∈ s.world.obj 0, o.proto = .tcp ∧ o.unloaded = true)
    (createTcp () 0 ++ destroyTcp () 0) (by decide +kernel)
  obtain ⟨before, after, hlog, hgiven, -, -, hafter⟩ := (close_events hs ho htcp).2 hu
  exact ⟨s, hs, before, after, hlog, hgiven, hafter⟩

/-- `tcp_create` fails, for the port is taken: the link, of which the user knows nothing, is
reported closed. -/
theorem close_events_unknown : ∃ s : SysState Unit, SysReaches anyRun s ∧
    s.world.notices = [.preClose 0, .closed 0] :=
  sys_of_play anyRun
    (Move.whole () (.user (.tcpCreate true false)) (List.replicate 14 0 ++ [-1, 0, 0, 0]))
    (by decide +kernel)

end Swnet.Sys
