/-
The reports of the host's power (`gxp-cpld-regulator` behind `gxp-fn2`).

A change of PGOOD latches a flag, the FN2 handler invokes the action of its line,
the thread of the regulator's interrupt arms a delayed work item, and the function
of that reads SEVSTAT and notifies the consumers of the regulator.  PGOOD bounces
between any two of these steps.  How long the work is delayed is left out: it may
run at once or late.

* `Settling` — the state PGOOD is in is still to be reported;
* `settling_step` — it stays so until that report is made, unless the change is missed;
* `reports_settle` — with everything at rest the last report is the state of PGOOD,
  and there were no more reports than interrupts.
-/
import Canopy.Fn2Irq
import Canopy.PeciPower
import Canopy.RunLog

namespace GxpCpld

open GxpFn2 (Fn2 Line Pc)
open GxpPeci.Power (RegulatorEvent)
open Run

/-- `FN2_SEVSTAT_PGOOD_STATE` -/
def pgoodStateBit : ℕ := 24

structure CpldReg where
  fn2 : Fn2
  /-- the thread of `gxp_cpld_reg_pgood_irq` is to run -/
  woken : Bool
  /-- what it visits are the notifications it makes -/
  pgoodWork : WorkItem RegulatorEvent

inductive Event where
  /-- PGOOD changes and latches its flag -/
  | pgood
  | perst
  /-- the FN2 handler goes on, or is entered -/
  | fn2
  /-- `gxp_cpld_reg_pgood_irq` -/
  | thread
  /-- the delay is over, and `gxp_cpld_reg_pgood_work_fn` begins -/
  | workStart
  | workRead (fails : Bool)
  /-- `regulator_notifier_call_chain`, or the return of the function -/
  | workNotify
  deriving DecidableEq

namespace CpldReg

/-- The state of PGOOD. -/
def pgood (s : CpldReg) : Bool := s.fn2.sevstat.getLsbD pgoodStateBit

/-- What reports the state of PGOOD. -/
def report (s : CpldReg) : RegulatorEvent := if s.pgood then .enable else .disable

section Driver

variable (mapped : Line → Bool)

def step (s : CpldReg) : Event → CpldReg
  | .pgood =>
    let sevstat := s.fn2.sevstat ^^^ BitVec.twoPow 32 pgoodStateBit
    { s with fn2 := GxpFn2.step mapped { s.fn2 with sevstat } (.latch .pgood) }
  | .perst => { s with fn2 := GxpFn2.step mapped s.fn2 (.latch .perst) }
  | .fn2 =>
    { s with
      fn2 := GxpFn2.step mapped s.fn2 .handle
      woken := s.woken || GxpFn2.invoked s.fn2 .handle = some .pgood }
  | .thread =>
    -- `mod_delayed_work` starts the delay of a pending item anew
    if s.woken then { s with woken := false, pgoodWork := s.pgoodWork.schedule } else s
  | .workStart => { s with pgoodWork := s.pgoodWork.start }
  | .workRead fails => { s with pgoodWork := s.pgoodWork.visit (if fails then [] else [s.report]) }
  | .workNotify => { s with pgoodWork := s.pgoodWork.advance }

end Driver

/-- The notifications of a step. -/
def reports (s : CpldReg) : Event → List RegulatorEvent
  | .workNotify => s.pgoodWork.current?.toList
  | _ => []

/-- The interrupts of the regulator: a step that invokes the action of PGOOD. -/
def interrupts (s : CpldReg) : Event → List Line
  | .fn2 => (GxpFn2.invoked s.fn2 .handle).toList.filter (· = .pgood)
  | _ => []

/-- The thread is to run, or an interrupt is on its way to it. -/
def Raised (s : CpldReg) : Prop :=
  s.fn2.latched .pgood = true ∨ .pgood ∈ s.fn2.pc.remaining ∨ s.woken = true

instance (s : CpldReg) : Decidable s.Raised := inferInstanceAs (Decidable (_ ∨ _ ∨ _))

/-- The state PGOOD is in is still to be reported. -/
def Settling (s : CpldReg) : Prop := s.Raised ∨ s.pgoodWork.Due s.report

instance (s : CpldReg) : Decidable s.Settling := inferInstanceAs (Decidable (_ ∨ _))

/-- No interrupt is on its way, and no work is to be done. -/
def AtRest (s : CpldReg) : Prop := ¬s.Raised ∧ s.pgoodWork.Idle

instance (s : CpldReg) : Decidable s.AtRest := inferInstanceAs (Decidable (_ ∧ _))

/-- The handler is about to write the acknowledge of PERST. -/
def acksPerst (s : CpldReg) : Bool :=
  match s.fn2.pc with
  | .ackWrite .perst _ _ => true
  | _ => false

/-- A change of PGOOD goes unseen: its flag is cleared by the acknowledge of PERST, or
the read of SEVSTAT fails, with no other reason to read it again. -/
def Misses (s : CpldReg) : Event → Prop
  | .fn2 =>
    s.acksPerst = true ∧ s.fn2.latched .pgood = true ∧ s.woken = false ∧
      ¬s.pgoodWork.Due s.report
  | .workRead fails =>
    fails = true ∧ s.pgoodWork.phase = .started ∧ s.pgoodWork.pending = false ∧ ¬s.Raised
  | _ => False

instance (s : CpldReg) : (e : Event) → Decidable (s.Misses e)
  | .fn2 => inferInstanceAs (Decidable (_ ∧ _ ∧ _ ∧ _))
  | .workRead _ => inferInstanceAs (Decidable (_ ∧ _ ∧ _ ∧ _))
  | .pgood | .perst | .thread | .workStart | .workNotify => inferInstanceAs (Decidable False)

/-! ### What the steps do -/

section Steps

variable {mapped : Line → Bool} {s : CpldReg} {e : Event}

private theorem writeSevstat_state (r v : BitVec 32) :
    (GxpFn2.writeSevstat r v).getLsbD pgoodStateBit = r.getLsbD pgoodStateBit := by
  rw [GxpFn2.writeSevstat, pgoodStateBit]
  simp

/-- The handler changes flags only. -/
theorem pgood_handle (mapped : Line → Bool) (f : Fn2) :
    (GxpFn2.step mapped f .handle).sevstat.getLsbD pgoodStateBit =
      f.sevstat.getLsbD pgoodStateBit := by
  rw [GxpFn2.step, GxpFn2.irqHandle]
  cases f.pc with
  | idle => rfl
  | action line val => rfl
  | ackWrite line val orig => exact writeSevstat_state _ _
  | ackRead line val =>
    dsimp only
    split <;> rfl

private theorem latch_state (line : Line) (r : BitVec 32) :
    (r ||| BitVec.twoPow 32 line.bit).getLsbD pgoodStateBit = r.getLsbD pgoodStateBit := by
  cases line <;> simp [Line.bit, pgoodStateBit]

/-- PGOOD changes by itself only. -/
theorem pgood_step (s : CpldReg) (e : Event) :
    (s.step mapped e).pgood = if e = .pgood then !s.pgood else s.pgood := by
  cases e with
  | pgood =>
    rw [if_pos rfl]
    refine (latch_state .pgood _).trans ?_
    rw [BitVec.getLsbD_xor, BitVec.getLsbD_twoPow, pgood]
    simp [pgoodStateBit]
  | perst => exact latch_state .perst _
  | fn2 => exact pgood_handle mapped s.fn2
  | thread =>
    rw [step]
    split <;> rfl
  | workStart => rfl
  | workRead fails => rfl
  | workNotify => rfl

theorem report_step (he : e ≠ .pgood) : (s.step mapped e).report = s.report := by
  rw [report, report, pgood_step, if_neg he]

/-- PGOOD latches its flag. -/
theorem raised_pgood (s : CpldReg) : (s.step mapped .pgood).Raised := by
  left
  show (_ ||| BitVec.twoPow 32 Line.pgood.bit).getLsbD Line.pgood.bit = true
  rw [BitVec.getLsbD_or, BitVec.getLsbD_twoPow]
  simp [Line.bit]

private theorem raised_perst (h : s.Raised) : (s.step mapped .perst).Raised := by
  refine h.imp_left fun hlatched => ?_
  show (s.fn2.sevstat ||| _).getLsbD Line.pgood.bit = true
  have hlatched' : s.fn2.sevstat.getLsbD Line.pgood.bit = true := hlatched
  rw [BitVec.getLsbD_or, hlatched', Bool.true_or]

theorem pgood_notMem_perst : Line.pgood ∉ [Line.perst] := by decide

/-- **The handler passes an interrupt on**, unless the acknowledge of PERST takes it away. -/
theorem raised_fn2 (hmap : mapped .pgood = true) (h : s.Raised)
    (hkept : s.acksPerst = true → s.woken = true) : (s.step mapped .fn2).Raised := by
  by_cases hwoken : s.woken = true
  · refine Or.inr (Or.inr ?_)
    show (s.woken || _) = true
    rw [hwoken, Bool.true_or]
  have hack : ¬s.acksPerst = true := fun hp => hwoken (hkept hp)
  have hraised : s.fn2.latched .pgood = true ∨ .pgood ∈ s.fn2.pc.remaining :=
    h.imp_right fun h => h.resolve_right hwoken
  cases hpc : s.fn2.pc with
  | idle =>
    rw [hpc] at hraised
    refine Or.inl ?_
    show (GxpFn2.step mapped s.fn2 .handle).latched .pgood = true
    rw [GxpFn2.step, GxpFn2.irqHandle, hpc]
    exact hraised.resolve_right List.not_mem_nil
  | ackRead line val =>
    cases line with
    | pgood =>
      -- the action of PGOOD follows, with or without a write
      refine Or.inr (Or.inl ?_)
      show .pgood ∈ (GxpFn2.step mapped s.fn2 .handle).pc.remaining
      rw [GxpFn2.step, GxpFn2.irqHandle, hpc]
      dsimp only
      split
      · exact List.mem_cons_self
      · rw [Pc.acked, if_pos hmap]
        exact List.mem_cons_self
    | perst =>
      rw [hpc] at hraised
      refine Or.inl ?_
      show (GxpFn2.step mapped s.fn2 .handle).latched .pgood = true
      rw [GxpFn2.step, GxpFn2.irqHandle, hpc]
      dsimp only
      have hlatched := hraised.resolve_right pgood_notMem_perst
      split
      · exact hlatched
      · exact hlatched
  | ackWrite line val orig =>
    cases line with
    | pgood =>
      refine Or.inr (Or.inl ?_)
      show .pgood ∈ (GxpFn2.step mapped s.fn2 .handle).pc.remaining
      rw [GxpFn2.step, GxpFn2.irqHandle, hpc]
      dsimp only
      rw [Pc.acked, if_pos hmap]
      exact List.mem_cons_self
    | perst =>
      rw [acksPerst, hpc] at hack
      exact absurd rfl hack
  | action line val =>
    cases line with
    | pgood =>
      refine Or.inr (Or.inr ?_)
      show (s.woken || decide (GxpFn2.invoked s.fn2 .handle = some .pgood)) = true
      rw [GxpFn2.invoked, hpc]
      exact Bool.or_true _
    | perst =>
      rw [hpc] at hraised
      refine Or.inl ?_
      show (GxpFn2.step mapped s.fn2 .handle).latched .pgood = true
      rw [GxpFn2.step, GxpFn2.irqHandle, hpc]
      exact hraised.resolve_right pgood_notMem_perst

/-- A read of SEVSTAT that does not fail, or is made again, leaves the report due. -/
theorem due_workRead (h : s.pgoodWork.Due s.report) {fails : Bool}
    (hread : s.pgoodWork.phase = .started → s.pgoodWork.pending = true ∨ fails = false) :
    (s.step mapped (.workRead fails)).pgoodWork.Due s.report := by
  show (s.pgoodWork.visit (if fails then [] else [s.report])).Due s.report
  by_cases hstarted : s.pgoodWork.phase = .started
  · rcases hread hstarted with hpending | rfl
    · rw [WorkItem.visit, hstarted]
      exact Or.inl hpending
    · exact WorkItem.due_visit h (List.mem_singleton_self _)
  · rwa [WorkItem.visit_of_ne hstarted]

/-- The report that is to come comes, unless the change is missed. -/
theorem settling_step (hmap : mapped .pgood = true) (h : s.Settling) (hseen : ¬s.Misses e) :
    (s.step mapped e).Settling ∨ e = .workNotify ∧ s.pgoodWork.current? = some s.report := by
  by_cases he : e = .pgood
  · subst he
    exact Or.inl (Or.inl (raised_pgood s))
  have hreport : (s.step mapped e).report = s.report := report_step he
  rw [Settling, hreport]
  cases e with
  | pgood => exact absurd rfl he
  | perst => exact Or.inl (h.imp_left raised_perst)
  | fn2 =>
    left
    by_cases hkept : s.acksPerst = true → s.woken = true
    · exact h.imp_left fun hraised => raised_fn2 hmap hraised hkept
    · -- the acknowledge of PERST takes the flag, and the report is due besides
      obtain ⟨hacks, hnot⟩ := Classical.not_imp.mp hkept
      have hwoken : s.woken = false := Bool.eq_false_of_not_eq_true hnot
      by_contra hgone
      have hdue : ¬s.pgoodWork.Due s.report := fun hdue => hgone (Or.inr hdue)
      refine hseen ⟨hacks, ?_, hwoken, hdue⟩
      rcases h.resolve_right hdue with hlatched | hpc | hset
      · exact hlatched
      · rw [acksPerst] at hacks
        split at hacks
        · next val orig hwrite =>
          rw [hwrite] at hpc
          exact absurd hpc pgood_notMem_perst
        · cases hacks
      · rw [hwoken] at hset
        cases hset
  | thread =>
    left
    rw [step]
    split
    · exact Or.inr (WorkItem.due_schedule _ _)
    · exact h
  | workStart => exact Or.inl (h.imp_right WorkItem.due_start_iff.mpr)
  | workRead fails =>
    left
    by_cases hraised : s.Raised
    · exact Or.inl hraised
    · refine Or.inr (due_workRead (h.resolve_left hraised) fun hstarted => ?_)
      by_contra hnot
      rw [not_or, Bool.not_eq_true, Bool.not_eq_false] at hnot
      exact hseen ⟨hnot.2, hstarted, hnot.1, hraised⟩
  | workNotify =>
    by_cases hcurrent : s.pgoodWork.current? = some s.report
    · exact Or.inr ⟨rfl, hcurrent⟩
    · exact Or.inl (h.imp_right fun hdue => WorkItem.due_advance hdue hcurrent)

private theorem pgood_notMem_acked (mapped : Line → Bool) (val : BitVec 8) :
    Line.pgood ∉ (Pc.acked mapped .perst val).remaining := by
  rw [Pc.acked]
  split
  · exact pgood_notMem_perst
  · exact List.not_mem_nil

/-- What the handler reads is what is latched. -/
theorem latched_of_afterRead {f : Fn2}
    (h : Line.pgood ∈ (Pc.afterRead (f.sevstat.setWidth 8)).remaining) :
    f.latched .pgood = true := by
  rw [Pc.afterRead] at h
  split at h
  · next hbit =>
    rw [BitVec.getLsbD_setWidth, Bool.and_eq_true] at hbit
    exact hbit.2
  · rw [Pc.afterPgood] at h
    split at h
    · exact absurd h pgood_notMem_perst
    · exact absurd h List.not_mem_nil

/-- The handler raises nothing itself. -/
theorem raised_of_fn2 (h : (s.step mapped .fn2).Raised) : s.Raised := by
  have h' : (GxpFn2.step mapped s.fn2 .handle).latched .pgood = true ∨
      .pgood ∈ (GxpFn2.step mapped s.fn2 .handle).pc.remaining ∨
        (s.woken || decide (GxpFn2.invoked s.fn2 .handle = some .pgood)) = true := h
  rw [GxpFn2.step, GxpFn2.irqHandle, GxpFn2.invoked] at h'
  cases hpc : s.fn2.pc with
  | idle =>
    rw [hpc] at h'
    rcases h' with hlatched | hmem | hwoken
    · exact Or.inl hlatched
    · exact Or.inl (latched_of_afterRead hmem)
    · exact Or.inr (Or.inr ((Bool.or_false _).symm.trans hwoken))
  | ackRead line val =>
    cases line with
    | pgood => exact Or.inr (Or.inl (by rw [hpc]; exact List.mem_cons_self))
    | perst =>
      rw [hpc] at h'
      dsimp only at h'
      rcases h' with hlatched | hmem | hwoken
      · refine Or.inl ?_
        split at hlatched <;> exact hlatched
      · split at hmem
        · exact absurd hmem pgood_notMem_perst
        · exact absurd hmem (pgood_notMem_acked mapped val)
      · exact Or.inr (Or.inr ((Bool.or_false _).symm.trans hwoken))
  | ackWrite line val orig =>
    cases line with
    | pgood => exact Or.inr (Or.inl (by rw [hpc]; exact List.mem_cons_self))
    | perst =>
      rw [hpc] at h'
      rcases h' with hlatched | hmem | hwoken
      · exact absurd (hlatched.symm.trans
          (GxpFn2.writeSevstat_flag _ orig (GxpFn2.bit_lt .pgood))) (by decide)
      · exact absurd hmem (pgood_notMem_acked mapped val)
      · exact Or.inr (Or.inr ((Bool.or_false _).symm.trans hwoken))
  | action line val =>
    cases line with
    | pgood => exact Or.inr (Or.inl (by rw [hpc]; exact List.mem_cons_self))
    | perst =>
      rw [hpc] at h'
      rcases h' with hlatched | hmem | hwoken
      · exact Or.inl hlatched
      · exact absurd hmem List.not_mem_nil
      · exact Or.inr (Or.inr ((Bool.or_false _).symm.trans hwoken))

/-- Only PGOOD itself gives something to report. -/
theorem settling_of_step (he : e ≠ .pgood) (h : (s.step mapped e).Settling) : s.Settling := by
  rw [Settling, report_step he] at h
  cases e with
  | pgood => exact absurd rfl he
  | perst =>
    refine h.imp_left fun hraised => hraised.imp_left fun hlatched => ?_
    have hbit : (s.fn2.sevstat ||| BitVec.twoPow 32 Line.perst.bit).getLsbD Line.pgood.bit = true :=
      hlatched
    rw [BitVec.getLsbD_or, BitVec.getLsbD_twoPow] at hbit
    exact (Bool.or_false _).symm.trans hbit
  | fn2 => exact h.imp_left raised_of_fn2
  | thread =>
    rw [step] at h
    split at h
    · next hwoken => exact Or.inl (Or.inr (Or.inr hwoken))
    · exact h
  | workStart => exact h.imp_right WorkItem.due_start_iff.mp
  | workRead fails => exact h.imp_right WorkItem.due_of_due_visit
  | workNotify => exact h.imp_right WorkItem.due_of_due_advance

/-! ### Whole runs -/

/-- The consumers know the state of PGOOD or are still to be told, also after the one
notification that may be under way. -/
structure Following (last : RegulatorEvent) (s : CpldReg) : Prop where
  told : last = s.report ∨ s.Settling
  single : ∀ left, s.pgoodWork.phase = .visiting left → left.length ≤ 1
  fresh : s.pgoodWork.AllLeft fun ev => ev = s.report ∨ s.Settling

variable {last : RegulatorEvent}

theorem not_settling_of_atRest (h : s.AtRest) : ¬s.Settling := by
  rintro (hraised | hdue)
  · exact h.1 hraised
  · exact WorkItem.not_due_of_idle h.2 _ hdue

theorem following_of_atRest (h : s.AtRest) : Following s.report s where
  told := Or.inl rfl
  single := by
    intro left hleft
    rw [h.2.2] at hleft
    cases hleft
  fresh := .of_idle h.2

/-- A step that is no notification. -/
theorem Following.other (hmap : mapped .pgood = true) (h : Following last s)
    (hseen : ¬s.Misses e) (hnotify : e ≠ .workNotify)
    (hphase : ∀ left, (s.step mapped e).pgoodWork.phase = .visiting left →
      s.pgoodWork.phase = .visiting left ∨ left.length ≤ 1 ∧ ∀ ev ∈ left, ev = s.report) :
    Following last (s.step mapped e) := by
  have hkeep : ∀ ev, ev = s.report ∨ s.Settling →
      ev = (s.step mapped e).report ∨ (s.step mapped e).Settling := by
    intro ev hev
    by_cases he : e = .pgood
    · subst he
      exact Or.inr (Or.inl (raised_pgood s))
    · rw [report_step he]
      refine hev.imp_right fun hsettling => ?_
      exact (settling_step hmap hsettling hseen).resolve_right fun hmade => hnotify hmade.1
  refine ⟨hkeep last h.told, fun left hleft => ?_, fun left hleft ev hev => ?_⟩
  · rcases hphase left hleft with hold | ⟨hle, -⟩
    · exact h.single left hold
    · exact hle
  · rcases hphase left hleft with hold | ⟨-, hnew⟩
    · exact hkeep ev (h.fresh left hold ev hev)
    · exact hkeep ev (Or.inl (hnew ev hev))

/-- The notification. -/
theorem Following.workNotify (hmap : mapped .pgood = true) (h : Following last s) :
    Following ((s.reports .workNotify).getLastD last) (s.step mapped .workNotify) := by
  have hreport : (s.step mapped .workNotify).report = s.report := rfl
  have hsettling := fun hsettling : s.Settling =>
    settling_step (e := .workNotify) hmap hsettling not_false
  -- nothing is left behind the one notification
  have hnone : ∀ left,
      (s.step mapped .workNotify).pgoodWork.phase = .visiting left → left = [] := by
    intro left hleft
    rw [step, WorkItem.advance] at hleft
    split at hleft
    · cases hleft
    · next ev rest hphase =>
      have hone := h.single _ hphase
      obtain rfl : rest = left := WorkItem.Phase.visiting.inj hleft
      exact List.eq_nil_of_length_eq_zero (Nat.le_zero.mp (Nat.succ_le_succ_iff.mp hone))
    · next _ hno =>
      cases left with
      | nil => rfl
      | cons ev rest => exact absurd hleft (hno ev rest)
  refine ⟨?_, fun left hleft => ?_, fun left hleft ev hev => ?_⟩
  · rw [reports]
    cases hcurrent : s.pgoodWork.current? with
    | none =>
      refine h.told.imp_right fun hset => (hsettling hset).resolve_right fun hmade => ?_
      rw [hcurrent] at hmade
      cases hmade.2
    | some ev =>
      show ev = _ ∨ _
      rcases h.fresh.current? hcurrent with rfl | hset
      · exact Or.inl rfl
      · rcases hsettling hset with hset' | ⟨-, hmade⟩
        · exact Or.inr hset'
        · exact Or.inl (Option.some.inj (hcurrent.symm.trans hmade))
  · rw [hnone left hleft]
    exact Nat.zero_le 1
  · rw [hnone left hleft] at hev
    exact absurd hev List.not_mem_nil

theorem following_step (hmap : mapped .pgood = true) (h : Following last s)
    (hseen : ¬s.Misses e) : Following ((s.reports e).getLastD last) (s.step mapped e) := by
  cases e with
  | workNotify => exact h.workNotify hmap
  | workRead fails =>
    refine h.other hmap hseen (by rintro ⟨⟩) fun left hleft => ?_
    rw [step, WorkItem.visit] at hleft
    split at hleft
    · right
      obtain rfl := WorkItem.Phase.visiting.inj hleft
      cases fails with
      | true => exact ⟨Nat.zero_le 1, fun ev hev => absurd hev List.not_mem_nil⟩
      | false => exact ⟨le_refl 1, fun ev hev => List.mem_singleton.mp hev⟩
    · exact Or.inl hleft
  | workStart =>
    refine h.other hmap hseen (by rintro ⟨⟩) fun left hleft => Or.inl ?_
    rw [step, WorkItem.start] at hleft
    split at hleft
    · cases hleft
    · exact hleft
  | thread =>
    refine h.other hmap hseen (by rintro ⟨⟩) fun left hleft => Or.inl ?_
    rw [step] at hleft
    split at hleft <;> exact hleft
  | pgood => exact h.other hmap hseen (by rintro ⟨⟩) fun left hleft => Or.inl hleft
  | perst => exact h.other hmap hseen (by rintro ⟨⟩) fun left hleft => Or.inl hleft
  | fn2 => exact h.other hmap hseen (by rintro ⟨⟩) fun left hleft => Or.inl hleft

private theorem getLastD_toList (o : Option RegulatorEvent) (l : List RegulatorEvent) :
    (o.toList ++ l).getLastD last = l.getLastD (o.toList.getLastD last) := by
  cases o with
  | none => rfl
  | some ev => exact List.getLastD_cons

theorem following_run (hmap : mapped .pgood = true) {es : List Event} (h : Following last s)
    (hseen : ∀ p ∈ visits (step mapped) s es, ¬p.1.Misses p.2) :
    Following ((log (step mapped) reports s es).getLastD last) (run (step mapped) s es) := by
  induction es generalizing s last with
  | nil => exact h
  | cons e es ih =>
    have he := following_step hmap h (hseen (s, e) List.mem_cons_self)
    have hrest := ih he fun p hp => hseen p (List.mem_cons_of_mem _ hp)
    have hlast : (s.reports e ++ log (step mapped) reports (s.step mapped e) es).getLastD last =
        (log (step mapped) reports (s.step mapped e) es).getLastD
          ((s.reports e).getLastD last) := by
      cases e with
      | workNotify => exact getLastD_toList _ _
      | pgood => rfl
      | perst => rfl
      | fn2 => rfl
      | thread => rfl
      | workStart => rfl
      | workRead fails => rfl
    rw [log_cons, hlast]
    exact hrest

/-! ### The number of reports -/

/-- The reports the work item still makes. -/
def owedBy (w : WorkItem RegulatorEvent) : ℕ :=
  w.pending.toNat +
    match w.phase with
    | .resting => 0
    | .started => 1
    | .visiting left => left.length

/-- The reports still made for the interrupts so far. -/
def owed (s : CpldReg) : ℕ := s.woken.toNat + owedBy s.pgoodWork

private theorem owedBy_schedule (w : WorkItem RegulatorEvent) :
    owedBy w.schedule ≤ 1 + owedBy w := by
  show 1 + _ ≤ 1 + (w.pending.toNat + _)
  exact Nat.add_le_add_left (Nat.le_add_left _ _) 1

private theorem owedBy_start (w : WorkItem RegulatorEvent) : owedBy w.start = owedBy w := by
  obtain ⟨pending, phase⟩ := w
  cases pending with
  | false => rfl
  | true => cases phase <;> rfl

private theorem owedBy_visit (w : WorkItem RegulatorEvent) {l : List RegulatorEvent}
    (hl : l.length ≤ 1) :
    owedBy (w.visit l) ≤ owedBy w := by
  obtain ⟨pending, phase⟩ := w
  cases phase with
  | started => exact Nat.add_le_add_left hl _
  | resting => exact le_rfl
  | visiting left => exact le_rfl

private theorem owedBy_advance (w : WorkItem RegulatorEvent) :
    w.current?.toList.length + owedBy w.advance = owedBy w := by
  obtain ⟨pending, phase⟩ := w
  cases phase with
  | started => exact Nat.zero_add _
  | resting => exact Nat.zero_add _
  | visiting left =>
    cases left with
    | nil => exact Nat.zero_add _
    | cons ev left =>
      show 1 + (pending.toNat + left.length) = pending.toNat + (left.length + 1)
      omega

/-- **A report costs an interrupt.** -/
theorem owed_step (s : CpldReg) (e : Event) :
    (s.reports e).length + (s.step mapped e).owed ≤ (s.interrupts e).length + s.owed := by
  cases e with
  | pgood => exact le_rfl
  | perst => exact le_rfl
  | fn2 =>
    have hone : (s.woken || decide (GxpFn2.invoked s.fn2 .handle = some .pgood)).toNat ≤
        ((GxpFn2.invoked s.fn2 .handle).toList.filter (· = .pgood)).length + s.woken.toNat := by
      rcases GxpFn2.invoked s.fn2 .handle with - | line
      · simp
      · cases line with
        | pgood => cases s.woken <;> decide
        | perst => simp
    show 0 + (_ + owedBy s.pgoodWork) ≤ _ + (s.woken.toNat + owedBy s.pgoodWork)
    rw [Nat.zero_add, ← Nat.add_assoc]
    exact Nat.add_le_add_right hone _
  | thread =>
    rw [step]
    split
    · next hwoken =>
      show 0 + (0 + owedBy s.pgoodWork.schedule) ≤ 0 + (s.woken.toNat + owedBy s.pgoodWork)
      rw [Nat.zero_add, Nat.zero_add, Nat.zero_add, hwoken]
      exact owedBy_schedule s.pgoodWork
    · exact le_rfl
  | workStart =>
    show 0 + (s.woken.toNat + owedBy s.pgoodWork.start) ≤ 0 + s.owed
    rw [owedBy_start]
    exact le_rfl
  | workRead fails =>
    have hle : owedBy (s.pgoodWork.visit (if fails then [] else [s.report])) ≤ owedBy s.pgoodWork :=
      owedBy_visit _ (by cases fails <;> simp)
    exact Nat.add_le_add_left (Nat.add_le_add_left hle _) 0
  | workNotify =>
    have hone := owedBy_advance s.pgoodWork
    show s.pgoodWork.current?.toList.length + (s.woken.toNat + owedBy s.pgoodWork.advance) ≤
      0 + (s.woken.toNat + owedBy s.pgoodWork)
    omega

/-- **Once the power settles, its consumers know.**  However PGOOD bounces and
however the handler, the thread and the work item are scheduled: with everything at
rest again, the last report is the state of PGOOD, if no change of it was missed.
There were no more reports than interrupts. -/
theorem reports_settle (hmap : mapped .pgood = true) {es : List Event} (hstart : s.AtRest)
    (hseen : ∀ p ∈ visits (step mapped) s es, ¬p.1.Misses p.2)
    (hend : (run (step mapped) s es).AtRest) :
    (log (step mapped) reports s es).getLastD s.report = (run (step mapped) s es).report ∧
      (log (step mapped) reports s es).length ≤ (log (step mapped) interrupts s es).length := by
  have hfollowing := following_run hmap (following_of_atRest hstart) hseen
  constructor
  · exact hfollowing.told.resolve_right (not_settling_of_atRest hend)
  · -- at rest nothing was owed
    have hnone : s.owed = 0 := by
      have hwoken : s.woken = false := by
        refine Bool.eq_false_of_not_eq_true fun hwoken => ?_
        exact hstart.1 (Or.inr (Or.inr hwoken))
      rw [owed, owedBy, hwoken, hstart.2.1, hstart.2.2]
      rfl
    have hcount : (log (step mapped) reports s es).length + (run (step mapped) s es).owed ≤
        (log (step mapped) interrupts s es).length + s.owed :=
      log_length_le owed_step s es
    omega

end Steps

/-- A running host, and nothing under way. -/
def hostOn : CpldReg where
  fn2 := ⟨0x01000000, .idle⟩
  woken := false
  pgoodWork := ⟨false, .resting⟩

/-- PGOOD falls along with PERST and bounces once more before PERST is acknowledged,
which clears its flag; the work item is pending by then. -/
def bounce : List Event :=
  [.pgood, .perst, .fn2, .fn2, .fn2, .fn2, .thread, .pgood, .fn2, .fn2, .fn2, .pgood, .fn2, .fn2,
    .fn2, .fn2, .thread, .workStart, .workRead false, .workNotify, .workNotify]

theorem reports_settle_bounce :
    (log (step GxpFn2.bothMapped) reports hostOn bounce).getLastD hostOn.report =
        (run (step GxpFn2.bothMapped) hostOn bounce).report ∧
      (log (step GxpFn2.bothMapped) reports hostOn bounce).length ≤
        (log (step GxpFn2.bothMapped) interrupts hostOn bounce).length :=
  reports_settle rfl (by decide) (by decide +kernel) (by decide)

end CpldReg
end GxpCpld
