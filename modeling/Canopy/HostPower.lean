/-
The PECI devices behind the reports of the host's power.

The regulator tells the PECI controller of PGOOD late, when PGOOD may have changed
again, while a PECI transfer asks the regulator for its state and is answered at
once.

* `step` — a step of the regulator, with what it reports, or of a work item of the
  controller;
* `chasing_step` — the devices are on their way to what PGOOD asks for, or are still
  to be told;
* `Forgotten.step` — a device that was lost with no report to come stays lost;
* `devices_settle_iff` — at rest, the devices are those that answer exactly when none was
  lost since the last change of PGOOD.
-/
import Canopy.PgoodReport

namespace GxpHost

open GxpCpld (CpldReg)
open GxpFn2 (Line)
open GxpPeci.Power (Answers Controller Covered Draining Harmful Lost Quiescent Right Valid Work
  gxpPeciRegEvent workStep)
open Run

structure Host where
  reg : CpldReg
  peci : Controller

inductive Event where
  | reg (e : GxpCpld.Event)
  | peci (w : Work)
  deriving DecidableEq

namespace Host

section Host

variable (mapped : Line → Bool) (addrs : List UInt8) (populated : UInt8 → Bool)

/-- What the controller makes of the reports; its supply is enabled when PGOOD is. -/
def hear (peci : Controller) (events : List GxpPeci.Power.RegulatorEvent) (pgood : Bool) :
    Controller :=
  { events.foldl gxpPeciRegEvent peci with enabled := pgood }

def step (s : Host) : Event → Host
  | .reg e =>
    let reg := s.reg.step mapped e
    ⟨reg, hear s.peci (s.reg.reports e) reg.pgood⟩
  | .peci w => { s with peci := workStep addrs populated s.peci w }

/-- Nothing is under way, neither in the regulator nor in the controller. -/
def AtRest (s : Host) : Prop := s.reg.AtRest ∧ Quiescent s.peci

instance (s : Host) : Decidable s.AtRest := inferInstanceAs (Decidable (_ ∧ _))

/-- A change of PGOOD goes unseen. -/
def Misses (s : Host) : Event → Prop
  | .reg e => s.reg.Misses e
  | .peci _ => False

instance (s : Host) : (e : Event) → Decidable (s.Misses e)
  | .reg e => inferInstanceAs (Decidable (s.reg.Misses e))
  | .peci _ => inferInstanceAs (Decidable False)

/-- A device of a running host is removed that no rescan, and no report, is still to
bring back. -/
def Loses (s : Host) : Event → Prop
  | .reg _ => False
  | .peci w => Harmful s.peci w ∧ ¬s.reg.Settling

instance (s : Host) : (e : Event) → Decidable (s.Loses e)
  | .reg _ => inferInstanceAs (Decidable False)
  | .peci w => inferInstanceAs (Decidable (Harmful s.peci w ∧ _))

/-! ### What the controller hears -/

variable {mapped addrs populated} {s : Host} {e : Event}

/-- The controller is well-formed and asks for the state PGOOD is in. -/
structure Linked (addrs : List UInt8) (populated : UInt8 → Bool) (s : Host) : Prop where
  valid : Valid addrs populated s.peci
  supply : s.peci.enabled = s.reg.pgood

theorem valid_hear {peci : Controller} (h : Valid addrs populated peci)
    (events : List GxpPeci.Power.RegulatorEvent) (pgood : Bool) :
    Valid addrs populated (hear peci events pgood) := by
  have hall : Valid addrs populated (events.foldl gxpPeciRegEvent peci) := by
    induction events generalizing peci with
    | nil => exact h
    | cons ev events ih => exact ih (GxpPeci.Power.valid_step h (.regulator ev))
  exact ⟨hall.devices, hall.rescan, hall.remove⟩

theorem linked_step (h : Linked addrs populated s) (e : Event) :
    Linked addrs populated (s.step mapped addrs populated e) := by
  cases e with
  | reg e => exact ⟨valid_hear h.valid _ _, rfl⟩
  | peci w =>
    refine ⟨GxpPeci.Power.valid_workStep h.valid w, ?_⟩
    exact (GxpPeci.Power.enabled_workStep h.valid w).trans h.supply

/-- The controller has what the state of its supply asks for, or work items that see to it. -/
def Settled (addrs : List UInt8) (populated : UInt8 → Bool) (peci : Controller) : Prop :=
  GxpPeci.Power.Draining addrs populated peci ∨ Covered addrs populated peci

private theorem settled_of_right (hright : Right addrs populated s.peci)
    (hquiet : Quiescent s.peci) :
    Settled addrs populated s.peci := by
  have hvalid := GxpPeci.Power.valid_of_quiescent hright hquiet
  cases hon : s.peci.enabled with
  | false =>
    refine Or.inl ⟨hvalid, hon, fun a ha => ?_⟩
    have hanswers := (hright a).mp ha
    rw [Answers, hon] at hanswers
    cases hanswers.1
  | true =>
    refine Or.inr ⟨hvalid, hon, fun a ha hpopulated => Or.inl ?_⟩
    exact (hright a).mpr ⟨hon, ha, hpopulated⟩

theorem Settled.right {peci : Controller} (h : Settled addrs populated peci)
    (hquiet : Quiescent peci) : Right addrs populated peci := by
  rcases h with hdraining | hcovered
  · exact hdraining.right hquiet
  · exact hcovered.right hquiet

/-- A report of the state the supply is in settles it. -/
theorem settled_told {peci : Controller} (h : Valid addrs populated peci) :
    ∀ pgood : Bool, Settled addrs populated
      (hear peci [if pgood then .enable else .disable] pgood)
  | false => Or.inl ⟨valid_hear h _ _, rfl, fun _ _ => WorkItem.due_schedule _ _⟩
  | true => Or.inr ⟨valid_hear h _ _, rfl, fun _ _ _ => Or.inr (WorkItem.due_schedule _ _)⟩

private theorem hear_nil (peci : Controller) : hear peci [] peci.enabled = peci := rfl

/-- Reports, even of the other state, keep it settled. -/
theorem Settled.hear {peci : Controller} (h : Settled addrs populated peci)
    (ev : GxpPeci.Power.RegulatorEvent) :
    Settled addrs populated (hear peci [ev] peci.enabled) := by
  rcases h with hdraining | hcovered
  · refine Or.inl ⟨valid_hear hdraining.valid _ _, hdraining.off, fun a ha => ?_⟩
    cases ev with
    | enable => exact hdraining.due a ha
    | disable => exact WorkItem.due_schedule _ a
  · refine Or.inr ⟨valid_hear hcovered.valid _ _, hcovered.on, fun a ha hpopulated => ?_⟩
    cases ev with
    | enable => exact Or.inr (WorkItem.due_schedule _ a)
    | disable => exact hcovered.due a ha hpopulated

/-- Every report is no report or one. -/
theorem reports_cases (r : CpldReg) (e : GxpCpld.Event) :
    r.reports e = [] ∨ e = .workNotify ∧ ∃ ev, r.pgoodWork.current? = some ev ∧
      r.reports e = [ev] := by
  cases e with
  | workNotify =>
    rw [CpldReg.reports]
    cases hcurrent : r.pgoodWork.current? with
    | none => exact Or.inl rfl
    | some ev => exact Or.inr ⟨rfl, ev, rfl, rfl⟩
  | pgood => exact Or.inl rfl
  | perst => exact Or.inl rfl
  | fn2 => exact Or.inl rfl
  | thread => exact Or.inl rfl
  | workStart => exact Or.inl rfl
  | workRead fails => exact Or.inl rfl

/-! ### On the way -/

/-- The controller is settled, or still to be told the state PGOOD is in. -/
structure Chasing (addrs : List UInt8) (populated : UInt8 → Bool) (s : Host) : Prop where
  linked : Linked addrs populated s
  chasing : s.reg.Settling ∨ Settled addrs populated s.peci

/-- Unless a change of PGOOD is missed or a device is lost. -/
theorem chasing_step (hmap : mapped .pgood = true) (h : Chasing addrs populated s)
    (hseen : ¬s.Misses e) (hkept : ¬s.Loses e) :
    Chasing addrs populated (s.step mapped addrs populated e) := by
  refine ⟨linked_step h.linked e, ?_⟩
  cases e with
  | peci w =>
    by_cases hsettling : s.reg.Settling
    · exact Or.inl hsettling
    have hharmless : ¬Harmful s.peci w := fun hharmful => hkept ⟨hharmful, hsettling⟩
    rcases h.chasing.resolve_left hsettling with hdraining | hcovered
    · exact Or.inr (Or.inl (hdraining.workStep w))
    · exact Or.inr (Or.inr (hcovered.workStep hharmless))
  | reg e =>
    by_cases he : e = .pgood
    · subst he
      exact Or.inl (Or.inl (CpldReg.raised_pgood s.reg))
    have hpgood : (s.reg.step mapped e).pgood = s.peci.enabled := by
      rw [CpldReg.pgood_step, if_neg he, h.linked.supply]
    rcases h.chasing with hsettling | hsettled
    · rcases CpldReg.settling_step hmap hsettling hseen with hsettling' | ⟨rfl, hmade⟩
      · exact Or.inl hsettling'
      · -- the report that was to come is made
        right
        have hreports : s.reg.reports .workNotify =
            [if s.peci.enabled then .enable else .disable] := by
          rw [CpldReg.reports, hmade, CpldReg.report, h.linked.supply]
          rfl
        show Settled addrs populated (Host.hear s.peci (s.reg.reports .workNotify) _)
        rw [hreports, hpgood]
        exact settled_told h.linked.valid _
    · right
      show Settled addrs populated (Host.hear s.peci (s.reg.reports e) _)
      rw [hpgood]
      rcases reports_cases s.reg e with hnone | ⟨-, ev, -, hone⟩
      · rwa [hnone, hear_nil]
      · rw [hone]
        exact hsettled.hear ev

/-! ### Lost for good -/

/-- The device at `a` is gone, no rescan is to look for it, and no report is to come. -/
structure Forgotten (addrs : List UInt8) (populated : UInt8 → Bool) (a : UInt8) (s : Host) :
    Prop where
  lost : Lost addrs populated a s.peci
  supply : s.peci.enabled = s.reg.pgood
  quiet : ¬s.reg.Settling
  following : ∃ last, CpldReg.Following last s.reg

/-- With no report of the present state to come, there is none at all to come. -/
theorem reports_of_quiet (hquiet : ¬s.reg.Settling) (h : ∃ last, CpldReg.Following last s.reg)
    (e : GxpCpld.Event) : s.reg.reports e = [] := by
  obtain ⟨last, hfollowing⟩ := h
  rcases reports_cases s.reg e with hnone | ⟨-, ev, hcurrent, -⟩
  · exact hnone
  · obtain rfl := (hfollowing.fresh.current? hcurrent).resolve_right hquiet
    exact absurd (Or.inr (WorkItem.due_of_current? hcurrent)) hquiet

/-- Until PGOOD changes. -/
theorem Forgotten.step {a : UInt8} (hmap : mapped .pgood = true)
    (h : Forgotten addrs populated a s) (hseen : ¬s.Misses e) (he : e ≠ .reg .pgood) :
    Forgotten addrs populated a (s.step mapped addrs populated e) := by
  cases e with
  | peci w =>
    refine ⟨h.lost.workStep w, ?_, h.quiet, h.following⟩
    exact (GxpPeci.Power.enabled_workStep h.lost.valid w).trans h.supply
  | reg e =>
    have hother : e ≠ .pgood := fun hp => he (congrArg Event.reg hp)
    have hpgood : (s.reg.step mapped e).pgood = s.peci.enabled := by
      rw [CpldReg.pgood_step, if_neg hother, h.supply]
    have hsame : (s.step mapped addrs populated (.reg e)).peci = s.peci := by
      show hear s.peci (s.reg.reports e) _ = _
      rw [reports_of_quiet h.quiet h.following e, hpgood, hear_nil]
    obtain ⟨last, hfollowing⟩ := h.following
    have hfollowing' := CpldReg.following_step hmap hfollowing hseen
    refine ⟨hsame ▸ h.lost, rfl, fun hsettling => ?_, _, hfollowing'⟩
    exact h.quiet (CpldReg.settling_of_step hother hsettling)

private theorem forgotten_of_loses (mapped : Line → Bool) (hlinked : Linked addrs populated s)
    (hfollowing : ∃ last, CpldReg.Following last s.reg) (hloses : s.Loses e) :
    ∃ a, Forgotten addrs populated a (s.step mapped addrs populated e) ∧
      a ∈ addrs ∧ populated a = true := by
  cases e with
  | reg e => exact hloses.elim
  | peci w =>
    obtain ⟨a, ha, hpopulated, hlost⟩ := GxpPeci.Power.lost_of_harmful hlinked.valid hloses.1
    refine ⟨a, ⟨hlost, ?_, hloses.2, hfollowing⟩, ha, hpopulated⟩
    exact (GxpPeci.Power.enabled_workStep hlinked.valid w).trans hlinked.supply

/-! ### Whole runs -/

/-- What every run keeps. -/
structure Kept (addrs : List UInt8) (populated : UInt8 → Bool) (s : Host) : Prop where
  linked : Linked addrs populated s
  following : ∃ last, CpldReg.Following last s.reg

theorem kept_step (hmap : mapped .pgood = true) (h : Kept addrs populated s)
    (hseen : ¬s.Misses e) : Kept addrs populated (s.step mapped addrs populated e) := by
  refine ⟨linked_step h.linked e, ?_⟩
  cases e with
  | peci w => exact h.following
  | reg e =>
    obtain ⟨last, hfollowing⟩ := h.following
    exact ⟨_, CpldReg.following_step hmap hfollowing hseen⟩

/-- A change of PGOOD ends a run with a report to come. -/
theorem settling_run_pgood (es : List Event) :
    (run (step mapped addrs populated) s (es ++ [.reg .pgood])).reg.Settling := by
  rw [run_append]
  exact Or.inl (CpldReg.raised_pgood _)

/-- Between two changes PGOOD stays as it is. -/
theorem pgood_step_of_ne (he : e ≠ .reg .pgood) :
    (s.step mapped addrs populated e).reg.pgood = s.reg.pgood := by
  cases e with
  | peci w => rfl
  | reg e => exact (CpldReg.pgood_step s.reg e).trans (if_neg fun hp => he (congrArg Event.reg hp))

theorem Loses.enabled (h : s.Loses e) : s.peci.enabled = true := by
  cases e with
  | reg e => exact h.elim
  | peci w => exact h.1.enabled

/-- While the host is off no device is lost. -/
theorem not_loses_of_off (hmap : mapped .pgood = true) {es : List Event}
    (h : Kept addrs populated s) (hes : .reg .pgood ∉ es)
    (hseen : ∀ p ∈ visits (step mapped addrs populated) s es, ¬p.1.Misses p.2)
    (hoff : (run (step mapped addrs populated) s es).reg.pgood = false) :
    ∀ p ∈ visits (step mapped addrs populated) s es, ¬p.1.Loses p.2 := by
  have hother : ∀ p ∈ visits (step mapped addrs populated) s es, p.2 ≠ .reg .pgood :=
    fun p hp heq => hes (heq ▸ event_mem_of_mem_visits hp)
  have hend : (run (step mapped addrs populated) s es).reg.pgood = s.reg.pgood :=
    run_invariant_of_visits (I := fun u : Host => u.reg.pgood = s.reg.pgood)
      (fun _ _ hu he => (pgood_step_of_ne he).trans hu) rfl hother
  intro p hp hloses
  have hat : p.1.reg.pgood = s.reg.pgood :=
    invariant_of_mem_visits (I := fun u : Host => u.reg.pgood = s.reg.pgood)
      (fun _ _ hu he => (pgood_step_of_ne he).trans hu) rfl hother p hp
  have hkept := invariant_of_mem_visits (I := Kept addrs populated)
    (fun _ _ hu => kept_step hmap hu) h hseen p hp
  rw [← hend, hoff, ← hkept.linked.supply, Loses.enabled hloses] at hat
  cases hat

/-- **The devices follow the power of the host.**  From rest with the right devices,
however PGOOD bounces and however the regulator and the work items of the controller
are scheduled: if no change of PGOOD was missed and everything is at rest again, no
device is left of a host that is off, and the devices are those that answer exactly
when, since the last change of PGOOD, no device of a running host was removed with
neither a rescan nor a report to come. -/
theorem devices_settle_iff (hmap : mapped .pgood = true) {before after : List Event}
    (hstart : s.AtRest) (hsupply : s.peci.enabled = s.reg.pgood)
    (hright : Right addrs populated s.peci)
    (hbefore : before = [] ∨ ∃ es, before = es ++ [.reg .pgood]) (hafter : .reg .pgood ∉ after)
    (hseen : ∀ p ∈ visits (step mapped addrs populated) s (before ++ after), ¬p.1.Misses p.2)
    (hend : (run (step mapped addrs populated) s (before ++ after)).AtRest) :
    ((run (step mapped addrs populated) s (before ++ after)).reg.pgood = false →
        (run (step mapped addrs populated) s (before ++ after)).peci.devices.addrs = []) ∧
      (Right addrs populated (run (step mapped addrs populated) s (before ++ after)).peci ↔
        ∀ p ∈ visits (step mapped addrs populated) (run (step mapped addrs populated) s before)
          after, ¬p.1.Loses p.2) := by
  have hkept : Kept addrs populated s :=
    ⟨⟨GxpPeci.Power.valid_of_quiescent hright hstart.2, hsupply⟩, _,
      CpldReg.following_of_atRest hstart.1⟩
  rw [visits_append] at hseen
  have hmiddle : Kept addrs populated (run (step mapped addrs populated) s before) :=
    run_invariant_of_visits (I := Kept addrs populated) (fun _ _ ht => kept_step hmap ht) hkept
      fun p hp => hseen p (List.mem_append_left _ hp)
  have hseen' := fun p hp => hseen p (List.mem_append_right _ hp)
  rw [run_append] at hend ⊢
  obtain ⟨t, ht⟩ : ∃ t, t = run (step mapped addrs populated) s before := ⟨_, rfl⟩
  rw [← ht] at hmiddle hseen' hend ⊢
  have hchasing : t.reg.Settling ∨ Settled addrs populated t.peci := by
    rw [ht]
    rcases hbefore with rfl | ⟨es, rfl⟩
    · exact Or.inr (settled_of_right hright hstart.2)
    · exact Or.inl (settling_run_pgood es)
  have hsettles : (∀ p ∈ visits (step mapped addrs populated) t after, ¬p.1.Loses p.2) →
      Chasing addrs populated (run (step mapped addrs populated) t after) := fun hharmless =>
    run_invariant_of_visits (P := fun u e => ¬u.Misses e ∧ ¬u.Loses e)
      (fun _ _ hu he => chasing_step hmap hu he.1 he.2) ⟨hmiddle.linked, hchasing⟩
      fun p hp => ⟨hseen' p hp, hharmless p hp⟩
  have hdone := CpldReg.not_settling_of_atRest hend.1
  constructor
  · intro hoff
    have hchased := hsettles (not_loses_of_off hmap hmiddle hafter hseen' hoff)
    refine List.eq_nil_iff_forall_not_mem.mpr fun a ha => ?_
    have hanswers := (((hchased.chasing.resolve_left hdone).right hend.2) a).mp ha
    rw [Answers, hchased.linked.supply, hoff] at hanswers
    cases hanswers.1
  constructor
  · intro hright' p hp hloses
    have hkeptAt := invariant_of_mem_visits (I := Kept addrs populated)
      (fun _ _ hu => kept_step hmap hu) hmiddle hseen' p hp
    obtain ⟨a, hforgotten, ha, hpopulated⟩ :=
      forgotten_of_loses mapped hkeptAt.linked hkeptAt.following hloses
    obtain ⟨es₁, es₂, rfl, hp₁⟩ := eq_append_of_mem_visits hp
    rw [run_append, run_cons, ← hp₁] at hright'
    -- PGOOD does not change any more, so the device stays lost
    have hrest : ∀ q ∈ visits (step mapped addrs populated)
        (p.1.step mapped addrs populated p.2) es₂, ¬q.1.Misses q.2 ∧ q.2 ≠ .reg .pgood := by
      intro q hq
      refine ⟨hseen' q ?_, ?_⟩
      · rw [visits_append, visits, ← hp₁]
        exact List.mem_append_right _ (List.mem_cons_of_mem _ hq)
      · rintro hpgood
        refine hafter (List.mem_append_right _ (List.mem_cons_of_mem _ ?_))
        rw [← hpgood]
        exact event_mem_of_mem_visits hq
    have hlost := run_invariant_of_visits (I := Forgotten addrs populated a)
      (P := fun u e => ¬u.Misses e ∧ e ≠ .reg .pgood)
      (fun _ _ hu he => hu.step hmap he.1 he.2) hforgotten hrest
    exact hlost.lost.gone ((hright' a).mpr ⟨hlost.lost.on, ha, hpopulated⟩)
  · intro hharmless
    exact ((hsettles hharmless).chasing.resolve_left hdone).right hend.2

end Host

/-- A host with one processor, running. -/
def running : Host := ⟨CpldReg.hostOn, GxpPeci.Power.oneCpu⟩

/-- PGOOD falls, and the interrupt reaches the work item. -/
def falls : List Event :=
  List.map .reg (.pgood :: List.replicate 4 .fn2 ++ [.thread])

/-- It is back before the item runs, which then reports that the host is on. -/
def comesBack : List Event :=
  List.map .reg
      (List.replicate 4 .fn2 ++ [.thread, .workStart, .workRead false, .workNotify, .workNotify]) ++
    List.map .peci (.rescanStart :: List.replicate 9 (.rescan false))

/-- The power cycle that loses the devices where every change is reported is harmless. -/
theorem devices_settle_iff_quickCycle :
    ((run (step GxpFn2.bothMapped GxpPeci.Power.peciAddrs GxpPeci.Power.cpuAt) running
          ((falls ++ [.reg .pgood]) ++ comesBack)).reg.pgood = false →
        (run (step GxpFn2.bothMapped GxpPeci.Power.peciAddrs GxpPeci.Power.cpuAt) running
          ((falls ++ [.reg .pgood]) ++ comesBack)).peci.devices.addrs = []) ∧
      (Right GxpPeci.Power.peciAddrs GxpPeci.Power.cpuAt
          (run (step GxpFn2.bothMapped GxpPeci.Power.peciAddrs GxpPeci.Power.cpuAt) running
            ((falls ++ [.reg .pgood]) ++ comesBack)).peci ↔
        ∀ p ∈ visits (step GxpFn2.bothMapped GxpPeci.Power.peciAddrs GxpPeci.Power.cpuAt)
          (run (step GxpFn2.bothMapped GxpPeci.Power.peciAddrs GxpPeci.Power.cpuAt) running
            (falls ++ [.reg .pgood])) comesBack, ¬p.1.Loses p.2) :=
  devices_settle_iff rfl (by decide) (by decide) GxpPeci.Power.right_oneCpu (.inr ⟨falls, rfl⟩)
    (by decide) (by decide +kernel) (by decide +kernel)

end Host
end GxpHost
