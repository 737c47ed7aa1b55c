/-
The I2C passthrough driver.

Regulator events schedule one of two work items: `enable_work` polls for the
release of the buses, writes the passthrough bits, verifies them three times at
most and enables; `disable_work` clears them and disables.  An event does not
wait for the item of the event before it: `cancel_delayed_work` stops neither a
running `enable_work` nor anything of `disable_work`.

* `Passthrough.step` — events, the segments of the work items between two
  sleeps, and the ROM;
* `follows_iff_orderly` — whenever both items are done the outputs follow the
  last event, exactly in the runs where no overtaken item finishes last and the
  ROM changes nothing behind the driver's back;
* `not_forall_follows` — a run that ends enabled although the power is off.
-/
import Canopy.Run
import Mathlib.Tactic.Common

namespace GxpI2c

/-- `GXP_I2C_PT_POLL_TIMEOUT_S` -/
def pollTimeout : ℕ := 300

/-- `GXP_I2C_PT_VERIFY_COUNT` -/
def verifyCount : ℕ := 3

/-- `CSM_SPD_CONFIG_PASSTHROUGH` and `CSM_ROM_STATE_PASSTHROUGH`, bit 6 of both. -/
def passthrough : BitVec 8 := 0x40

inductive RegulatorEvent where
  | enable
  | disable
  | other
  deriving DecidableEq

/-- Where `enable_work` is, if it runs. -/
inductive EnableWork where
  | idle
  | started
  /-- in the `msleep` of turn `i` of the loop -/
  | sleeping (i : ℕ)
  deriving DecidableEq

structure Passthrough where
  /-- `CSM_SPD_CONFIG` -/
  spdConfig : BitVec 8
  /-- `CSM_ROM_STATE` -/
  romState : BitVec 8
  /-- `enable_work` is queued or its timer runs -/
  enablePending : Bool
  enableWork : EnableWork
  disablePending : Bool
  pollCount : ℕ
  enabled : Bool
  /-- what downstream consumers were told, newest first -/
  notified : List RegulatorEvent
  /-- the last of the upstream events the driver acts on -/
  last : Option RegulatorEvent
  deriving DecidableEq

inductive Event where
  | supply (event : RegulatorEvent)
  | startEnable
  /-- `enable_work` up to its first sleep -/
  | pollRom
  /-- from one sleep to the next, or to the end -/
  | verify
  | runDisable
  /-- a full byte write by the ROM -/
  | romWrite (val : BitVec 8)
  deriving DecidableEq

/-- Whether the passthrough bit is set. -/
def isPassthrough (val : BitVec 8) : Bool := val.getLsbD 6

@[simp] theorem isPassthrough_or (val : BitVec 8) : isPassthrough (val ||| passthrough) = true := by
  rw [isPassthrough, BitVec.getLsbD_or, show passthrough.getLsbD 6 = true from rfl, Bool.or_true]

@[simp] theorem isPassthrough_and (val : BitVec 8) :
    isPassthrough (val &&& ~~~passthrough) = false := by
  rw [isPassthrough, BitVec.getLsbD_and, show (~~~passthrough).getLsbD 6 = false from rfl,
    Bool.and_false]

namespace Passthrough

/-- After `gxp_i2c_pt_probe`, with the registers as it finds them. -/
def probe (spdConfig romState : BitVec 8) (hostOn : Bool) : Passthrough where
  spdConfig := spdConfig
  romState := romState
  enablePending := hostOn
  enableWork := .idle
  disablePending := false
  pollCount := 0
  enabled := false
  notified := []
  last := none

/-- `gxp_i2c_pt_write_passthrough`. -/
def writePassthrough (s : Passthrough) : Passthrough :=
  { s with
    spdConfig := s.spdConfig ||| passthrough
    romState := s.romState ||| passthrough }

/-- `gxp_i2c_pt_clear_passthrough`. -/
def clearPassthrough (s : Passthrough) : Passthrough :=
  { s with
    spdConfig := s.spdConfig &&& ~~~passthrough
    romState := s.romState &&& ~~~passthrough }

/-- `gxp_i2c_pt_rom_released`: bit 3. -/
def romReleased (s : Passthrough) : Bool := s.romState.getLsbD 3

/-- `gxp_i2c_pt_supply_event`. -/
def supplyEvent (s : Passthrough) : RegulatorEvent → Passthrough
  | .enable => { s with pollCount := 0, enablePending := true, last := some .enable }
  | .disable =>
    { s with enablePending := false, disablePending := true, last := some .disable }
  | .other => s

/-- `gxp_i2c_pt_enable_work_fn` up to its first sleep. -/
def pollRom (s : Passthrough) : Passthrough :=
  if s.romReleased = false ∧ s.pollCount < pollTimeout then
    { s with pollCount := s.pollCount + 1, enablePending := true, enableWork := .idle }
  else { s.writePassthrough with enableWork := .sleeping 0 }

/-- `gxp_i2c_pt_enable_work_fn` after its loop. -/
def finishEnable (s : Passthrough) : Passthrough :=
  { s with enabled := true, notified := .enable :: s.notified, enableWork := .idle }

/-- `gxp_i2c_pt_enable_work_fn` after the sleep of turn `i`. -/
def verify (s : Passthrough) (i : ℕ) : Passthrough :=
  if isPassthrough s.romState then s.finishEnable
  else if i + 1 < verifyCount then { s.writePassthrough with enableWork := .sleeping (i + 1) }
  else s.writePassthrough.finishEnable

/-- `gxp_i2c_pt_disable_work_fn`. -/
def disableWork (s : Passthrough) : Passthrough :=
  { s.clearPassthrough with
    enabled := false
    notified := .disable :: s.notified
    disablePending := false }

/-- One step; an event that cannot happen changes nothing. -/
def step (s : Passthrough) : Event → Passthrough
  | .supply event => s.supplyEvent event
  | .startEnable =>
    if s.enablePending ∧ s.enableWork = .idle then
      { s with enablePending := false, enableWork := .started }
    else s
  | .pollRom => if s.enableWork = .started then s.pollRom else s
  | .verify =>
    match s.enableWork with
    | .sleeping i => s.verify i
    | _ => s
  | .runDisable => if s.disablePending then s.disableWork else s
  | .romWrite val => { s with romState := val }

/-! ### What the driver is for -/

/-- No work item is pending or running. -/
def Quiescent (s : Passthrough) : Prop :=
  s.enablePending = false ∧ s.enableWork = .idle ∧ s.disablePending = false

/-- The flag, both bits and the last notification say `on`. -/
def Says (s : Passthrough) (on : Bool) : Prop :=
  s.enabled = on ∧ isPassthrough s.spdConfig = on ∧ isPassthrough s.romState = on ∧
    s.notified.head? = some (if on then .enable else .disable)

/-- When the work items are done the outputs follow the last event. -/
def Follows (s : Passthrough) : Prop :=
  s.Quiescent → ∀ event ∈ s.last, s.Says (event = .enable)

/-- Nothing is left behind by an event that was overtaken. -/
def Orderly (s : Passthrough) : Event → Prop
  | .verify =>
    -- the segment that ends `enable_work`, with no other work to come
    ∀ i, s.enableWork = .sleeping i → (isPassthrough s.romState = true ∨ verifyCount ≤ i + 1) →
      s.enablePending = false → s.disablePending = false → ∀ event ∈ s.last,
        event = .enable ∧ (isPassthrough s.romState = true → isPassthrough s.spdConfig = true)
  | .runDisable =>
    s.disablePending = true → s.enablePending = false → s.enableWork = .idle →
      ∀ event ∈ s.last, event ≠ .enable
  | .romWrite val =>
    s.Quiescent → s.last ≠ none → isPassthrough val = isPassthrough s.romState
  | _ => True

instance (s : Passthrough) : Decidable s.Quiescent := inferInstanceAs (Decidable (_ ∧ _))

variable {s : Passthrough}

/-- `enable_work` is done, with every output set. -/
theorem says_finishEnable (hspd : isPassthrough s.spdConfig = true)
    (hrom : isPassthrough s.romState = true) : s.finishEnable.Says true :=
  ⟨rfl, hspd, hrom, rfl⟩

private theorem says_disableWork : s.disableWork.Says false :=
  ⟨rfl, isPassthrough_and s.spdConfig, isPassthrough_and s.romState, rfl⟩

/-- The two states of the outputs exclude each other. -/
theorem Says.unique {on on' : Bool} (h : s.Says on) (h' : s.Says on') : on = on' :=
  h.1.symm.trans h'.1

/-- The end of `enable_work`. -/
theorem follows_finishEnable (hrom : isPassthrough s.romState = true) :
    s.finishEnable.Follows ↔ (s.enablePending = false → s.disablePending = false →
      ∀ event ∈ s.last, event = .enable ∧ isPassthrough s.spdConfig = true) := by
  constructor
  · intro h hpending hdisable event hlast
    have hsays := h ⟨hpending, rfl, hdisable⟩ event hlast
    have hon : true = decide (event = .enable) := hsays.1
    exact ⟨of_decide_eq_true hon.symm, hsays.2.1.trans hon.symm⟩
  · rintro h ⟨hpending, -, hdisable⟩ event hlast
    obtain ⟨rfl, hspd⟩ := h hpending hdisable event hlast
    exact says_finishEnable hspd hrom

/-- Not quiescent, so nothing to say. -/
theorem follows_of_busy (h : ¬s.Quiescent) : s.Follows := fun hquiescent => absurd hquiescent h

/-- A segment of `enable_work` that ends in a sleep, or the one that ends it. -/
theorem follows_verify {i : ℕ} : (s.verify i).Follows ↔
    ((isPassthrough s.romState = true ∨ verifyCount ≤ i + 1) →
      s.enablePending = false → s.disablePending = false → ∀ event ∈ s.last, event = .enable ∧
        (isPassthrough s.romState = true → isPassthrough s.spdConfig = true)) := by
  rw [verify]
  by_cases hrom : isPassthrough s.romState = true
  · rw [if_pos hrom, follows_finishEnable hrom]
    simp only [hrom, true_or, forall_const]
  · rw [if_neg hrom]
    by_cases hlast : i + 1 < verifyCount
    · rw [if_pos hlast]
      refine iff_of_true (follows_of_busy fun hquiescent => ?_) ?_
      · exact EnableWork.noConfusion hquiescent.2.1
      · rintro (h | h)
        · exact absurd h hrom
        · exact absurd hlast (Nat.not_lt.mpr h)
    · have hromSet : isPassthrough s.writePassthrough.romState = true :=
        isPassthrough_or s.romState
      have hspdSet : isPassthrough s.writePassthrough.spdConfig = true :=
        isPassthrough_or s.spdConfig
      have hend : verifyCount ≤ i + 1 := Nat.not_lt.mp hlast
      rw [if_neg hlast, follows_finishEnable hromSet]
      simp only [hrom, hend, hspdSet, or_true, forall_const, Bool.false_eq_true, false_implies,
        and_true]
      rfl

private theorem follows_disableWork : s.disableWork.Follows ↔
    (s.enablePending = false → s.enableWork = .idle → ∀ event ∈ s.last, event ≠ .enable) := by
  constructor
  · intro h hpending hidle event hlast
    have hsays := h ⟨hpending, hidle, rfl⟩ event hlast
    have hoff := says_disableWork.unique hsays
    exact of_decide_eq_false hoff.symm
  · rintro h ⟨hpending, hidle, -⟩ event hlast
    have hne := h hpending hidle event hlast
    rw [decide_eq_false hne]
    exact says_disableWork

/-- The ROM may write what it likes while the driver has work to do. -/
theorem Follows.romWrite (h : s.Follows) (val : BitVec 8) :
    Follows { s with romState := val } ↔
      (s.Quiescent → s.last ≠ none → isPassthrough val = isPassthrough s.romState) := by
  constructor
  · intro hafter hquiescent hsome
    obtain ⟨event, hlast⟩ := Option.ne_none_iff_exists'.mp hsome
    have hbefore := h hquiescent event hlast
    have hnow := hafter hquiescent event hlast
    exact hnow.2.2.1.trans hbefore.2.2.1.symm
  · intro hkeep hquiescent event hlast
    obtain ⟨henabled, hspd, hrom, hnotified⟩ := h hquiescent event hlast
    have hsome : s.last ≠ none := by
      rw [Option.mem_def.mp hlast]
      exact Option.some_ne_none _
    exact ⟨henabled, hspd, (hkeep hquiescent hsome).trans hrom, hnotified⟩

/-- **A step is orderly exactly if the outputs follow after it.** -/
theorem follows_step_iff (s : Passthrough) (e : Event) (h : s.Follows) :
    (s.step e).Follows ↔ s.Orderly e := by
  cases e with
  | supply event =>
    refine iff_of_true ?_ trivial
    rw [step]
    cases event with
    | enable => exact follows_of_busy fun hquiescent => Bool.noConfusion hquiescent.1
    | disable => exact follows_of_busy fun hquiescent => Bool.noConfusion hquiescent.2.2
    | other => exact h
  | startEnable =>
    refine iff_of_true ?_ trivial
    rw [step]
    split
    · exact follows_of_busy fun hquiescent => EnableWork.noConfusion hquiescent.2.1
    · exact h
  | pollRom =>
    refine iff_of_true ?_ trivial
    rw [step]
    split
    · rw [pollRom]
      split
      · exact follows_of_busy fun hquiescent => Bool.noConfusion hquiescent.1
      · exact follows_of_busy fun hquiescent => EnableWork.noConfusion hquiescent.2.1
    · exact h
  | verify =>
    rw [step]
    split
    · next i hsleeping =>
      rw [follows_verify]
      constructor
      · intro hverify j hj
        -- the look at the registers decides
        obtain rfl := EnableWork.sleeping.inj (hsleeping.symm.trans hj)
        exact hverify
      · intro horderly
        exact horderly i hsleeping
    · next hawake =>
      refine iff_of_true h ?_
      intro i hi
      exact absurd hi (hawake i)
  | runDisable =>
    rw [step]
    split
    · next hpending =>
      rw [follows_disableWork]
      constructor
      · intro hdisable _
        exact hdisable
      · intro horderly
        exact horderly hpending
    · next hpending =>
      refine iff_of_true h ?_
      intro htrue
      exact absurd htrue hpending
  | romWrite val => exact h.romWrite val

/-! ### Runs -/

private theorem follows_probe (spdConfig romState : BitVec 8) (hostOn : Bool) :
    (probe spdConfig romState hostOn).Follows :=
  fun _ _ hlast => absurd hlast (Option.not_mem_none _)

/-- **The outputs follow the last event in every state of a run in which both
work items are done, exactly if every step of the run is orderly.** -/
theorem follows_iff_orderly (spdConfig romState : BitVec 8) (hostOn : Bool)
    (events : List Event) :
    (∀ es, es <+: events → (Run.run step (probe spdConfig romState hostOn) es).Follows) ↔
      ∀ p ∈ Run.visits step (probe spdConfig romState hostOn) events, p.1.Orderly p.2 := by
  rw [Run.forall_prefix_run_iff, and_iff_right (follows_probe _ _ _)]
  exact Run.forall_visits_iff (P := fun s e => (s.step e).Follows) (fun _ _ _ hafter => hafter)
    follows_step_iff (follows_probe _ _ _)

/-- The power goes off while `enable_work` sleeps. -/
def powerOff : List Event :=
  [.supply .enable, .startEnable, .pollRom, .supply .disable, .runDisable, .verify, .verify]

theorem not_forall_follows :
    ¬∀ (spdConfig romState : BitVec 8) (hostOn : Bool) (events : List Event),
      ∀ es, es <+: events → (Run.run step (probe spdConfig romState hostOn) es).Follows := by
  intro h
  have hfollows := h 0 0x08 false powerOff powerOff List.prefix_rfl
  have hquiescent : (Run.run step (probe 0 0x08 false) powerOff).Quiescent := by decide
  have hlast : (Run.run step (probe 0 0x08 false) powerOff).last = some .disable := by decide
  have henabled : (Run.run step (probe 0 0x08 false) powerOff).enabled = true := by decide
  obtain ⟨hoff, -⟩ := hfollows hquiescent _ hlast
  exact absurd (henabled.symm.trans hoff) (by decide)

end Passthrough

end GxpI2c
