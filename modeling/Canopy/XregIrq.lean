/-
The XREG interrupt handler (`gxp_xreg_irq_handle` of gxp-xreg).

Group 5 latches buttons, group 6 PSU events.  The flow handler of every child
interrupt acknowledges by clearing the flags of both groups, and group 6 is only
read when group 5 has been dispatched.

* `dispatched_dispatchAll`, `grp6_dispatchAll` — what dispatching some lines does;
* `handlesAll_iff` — one run handles every latched event iff no button is dispatched
  before a PSU event that changes the presence.
-/
import Canopy.BitMask
import Mathlib.Data.List.Range
import Mathlib.Tactic.IntervalCases

namespace GxpXreg

def intGrp5PinBase : ℕ := 59
def intGrp6PinBase : ℕ := 90

/-- The registers the handler accesses, `drvdata->psu_presence`, and the lines
dispatched so far.  Bits 0 to 7 of a group are its latched flags. -/
structure Xreg where
  grp5 : BitVec 32
  grp6 : BitVec 32
  presenceReg : BitVec 8
  psuPresence : BitVec 8
  dispatched : List ℕ

/-- `writel` to a group: the flags are cleared by writing ones. -/
def writeGroup (r v : BitVec 32) : BitVec 32 := BitMask.writeOneToClear 0xff r v

/-- Read the group and write ones over its flags. -/
def clearFlags (r : BitVec 32) : BitVec 32 := writeGroup r ((r &&& ~~~0xff) ||| 0xff)

/-- `gxp_gpio_irq_ack`: both groups, whatever line it is called for. -/
def gpioIrqAck (x : Xreg) : Xreg :=
  { x with grp5 := clearFlags x.grp5, grp6 := clearFlags x.grp6 }

/-- `generic_handle_irq` of a child with the edge flow handler: acknowledge, then
the action. -/
def genericHandleIrq (x : Xreg) (hwirq : ℕ) : Xreg :=
  let x := gpioIrqAck x
  { x with dispatched := x.dispatched ++ [hwirq] }

section Handler

-- `irq_find_mapping`, 0 when the line has no mapping
variable (mapping : ℕ → ℕ)

/-- One line, if it has a mapping. -/
def dispatch (x : Xreg) (hwirq : ℕ) : Xreg :=
  if mapping hwirq ≠ 0 then genericHandleIrq x hwirq else x

/-- The lines in this order. -/
def dispatchAll (x : Xreg) (hwirqs : List ℕ) : Xreg := hwirqs.foldl (dispatch mapping) x

/-- `for_each_set_bit(i, &flags, n)`, as the lines from `base` on. -/
def setLines {w : ℕ} (flags : BitVec w) (n base : ℕ) : List ℕ :=
  ((List.range n).filter fun i => flags.getLsbD i).map (· + base)

/-- The first group: its lowest three flags. -/
def handleGrp5 (x : Xreg) : Xreg := dispatchAll mapping x (setLines x.grp5 3 intGrp5PinBase)

/-- The second group: a change of the PSU presence. -/
def handleGrp6 (x : Xreg) : Xreg :=
  if x.grp6.getLsbD 2 then
    if x.psuPresence ≠ x.presenceReg then
      { dispatchAll mapping x (setLines (x.presenceReg ^^^ x.psuPresence) 8 intGrp6PinBase) with
        psuPresence := x.presenceReg }
    else x
  else x

/-- `gxp_xreg_irq_handle`: both groups, then their flags are cleared. -/
def irqHandle (x : Xreg) : Xreg :=
  let x := handleGrp5 mapping x
  let x := handleGrp6 mapping x
  { x with grp5 := clearFlags x.grp5, grp6 := clearFlags x.grp6 }

/-- The handler is entered with these registers and this stored presence. -/
def Xreg.entry (grp5 grp6 : BitVec 32) (presenceReg psuPresence : BitVec 8) : Xreg :=
  ⟨grp5, grp6, presenceReg, psuPresence, []⟩

/-- Every mapped button that was latched is dispatched; if the PSU event was latched,
every mapped line whose presence changed is, and the presence is stored. -/
def HandlesAll (x : Xreg) : Prop :=
  (∀ i < 3, x.grp5.getLsbD i = true → mapping (i + intGrp5PinBase) ≠ 0 →
    i + intGrp5PinBase ∈ (irqHandle mapping x).dispatched) ∧
  (x.grp6.getLsbD 2 = true →
    (∀ i < 8, (x.presenceReg ^^^ x.psuPresence).getLsbD i = true →
      mapping (i + intGrp6PinBase) ≠ 0 →
      i + intGrp6PinBase ∈ (irqHandle mapping x).dispatched) ∧
    (irqHandle mapping x).psuPresence = x.presenceReg)

end Handler

/-! ### Dispatching -/

private theorem clearFlags_flag (r : BitVec 32) {i : ℕ} (hi : i < 8) :
    (clearFlags r).getLsbD i = false := by
  rw [clearFlags, writeGroup, BitMask.writeOneToClear]
  interval_cases i <;> simp

private theorem mem_setLines {w : ℕ} {flags : BitVec w} {n base i : ℕ} :
    i + base ∈ setLines flags n base ↔ i < n ∧ flags.getLsbD i = true := by
  rw [setLines, List.mem_map]
  constructor
  · rintro ⟨j, hj, heq⟩
    rw [List.mem_filter, List.mem_range] at hj
    rwa [← Nat.add_right_cancel heq]
  · intro h
    exact ⟨i, List.mem_filter.mpr ⟨List.mem_range.mpr h.1, h.2⟩, rfl⟩

private theorem exists_of_mem_setLines {w : ℕ} {flags : BitVec w} {n base l : ℕ}
    (h : l ∈ setLines flags n base) : ∃ i, l = i + base ∧ i < n ∧ flags.getLsbD i = true := by
  obtain ⟨i, hi, rfl⟩ := List.mem_map.mp h
  rw [List.mem_filter, List.mem_range] at hi
  exact ⟨i, rfl, hi⟩

section Dispatch

variable {mapping : ℕ → ℕ} {x : Xreg} {hwirqs : List ℕ}

theorem dispatch_of_mapped {hwirq : ℕ} (h : mapping hwirq ≠ 0) :
    dispatch mapping x hwirq = genericHandleIrq x hwirq := by
  rw [dispatch, if_pos h]

theorem dispatch_of_unmapped {hwirq : ℕ} (h : mapping hwirq = 0) :
    dispatch mapping x hwirq = x := by
  rw [dispatch, if_neg (not_not_intro h)]

theorem dispatchAll_cons (x : Xreg) (hwirq : ℕ) (hwirqs : List ℕ) :
    dispatchAll mapping x (hwirq :: hwirqs)
      = dispatchAll mapping (dispatch mapping x hwirq) hwirqs := rfl

/-- Dispatching adds the mapped lines, in order. -/
theorem dispatched_dispatchAll (x : Xreg) (hwirqs : List ℕ) :
    (dispatchAll mapping x hwirqs).dispatched
      = x.dispatched ++ hwirqs.filter fun hwirq => mapping hwirq ≠ 0 := by
  induction hwirqs generalizing x with
  | nil => exact (List.append_nil _).symm
  | cons hwirq hwirqs ih =>
    rw [dispatchAll_cons, ih]
    by_cases hmap : mapping hwirq = 0
    · rw [dispatch_of_unmapped hmap, List.filter_cons_of_neg (by simpa using hmap)]
    · rw [dispatch_of_mapped hmap, List.filter_cons_of_pos (by simpa using hmap)]
      exact List.append_assoc _ _ _

/-- It leaves the presence alone. -/
theorem presence_dispatchAll (x : Xreg) (hwirqs : List ℕ) :
    (dispatchAll mapping x hwirqs).psuPresence = x.psuPresence ∧
      (dispatchAll mapping x hwirqs).presenceReg = x.presenceReg := by
  induction hwirqs generalizing x with
  | nil => exact ⟨rfl, rfl⟩
  | cons hwirq hwirqs ih =>
    rw [dispatchAll_cons]
    obtain ⟨hold, hreg⟩ := ih (dispatch mapping x hwirq)
    rw [hold, hreg]
    by_cases hmap : mapping hwirq = 0
    · rw [dispatch_of_unmapped hmap]
      exact ⟨rfl, rfl⟩
    · rw [dispatch_of_mapped hmap]
      exact ⟨rfl, rfl⟩

/-- No mapped line, no acknowledge. -/
theorem dispatchAll_of_unmapped (h : ∀ hwirq ∈ hwirqs, mapping hwirq = 0) :
    dispatchAll mapping x hwirqs = x := by
  induction hwirqs with
  | nil => rfl
  | cons hwirq hwirqs ih =>
    rw [dispatchAll_cons, dispatch_of_unmapped (h hwirq List.mem_cons_self)]
    exact ih fun l hl => h l (List.mem_cons_of_mem _ hl)

/-- Flags of group 6 are not set by dispatching. -/
theorem grp6_dispatchAll_of_clear {i : ℕ} (hi : i < 8) (h : x.grp6.getLsbD i = false) :
    (dispatchAll mapping x hwirqs).grp6.getLsbD i = false := by
  induction hwirqs generalizing x with
  | nil => exact h
  | cons hwirq hwirqs ih =>
    rw [dispatchAll_cons]
    refine ih ?_
    by_cases hmap : mapping hwirq = 0
    · rwa [dispatch_of_unmapped hmap]
    · rw [dispatch_of_mapped hmap]
      exact clearFlags_flag x.grp6 hi

/-- One mapped line clears the flags of group 6. -/
theorem grp6_dispatchAll {hwirq : ℕ} (hmem : hwirq ∈ hwirqs) (hmap : mapping hwirq ≠ 0)
    {i : ℕ} (hi : i < 8) : (dispatchAll mapping x hwirqs).grp6.getLsbD i = false := by
  induction hwirqs generalizing x with
  | nil => exact absurd hmem List.not_mem_nil
  | cons l hwirqs ih =>
    rw [dispatchAll_cons]
    rcases List.mem_cons.mp hmem with rfl | hrest
    · rw [dispatch_of_mapped hmap]
      exact grp6_dispatchAll_of_clear hi (clearFlags_flag x.grp6 hi)
    · exact ih hrest

end Dispatch

/-! ### One run -/

section Handle

variable {mapping : ℕ → ℕ} {x : Xreg}

private theorem irqHandle_dispatched :
    (irqHandle mapping x).dispatched = (handleGrp6 mapping (handleGrp5 mapping x)).dispatched :=
  rfl

private theorem irqHandle_psuPresence :
    (irqHandle mapping x).psuPresence
      = (handleGrp6 mapping (handleGrp5 mapping x)).psuPresence := rfl

/-- Group 6 only adds lines. -/
theorem dispatched_handleGrp6 {l : ℕ} (h : l ∈ x.dispatched) :
    l ∈ (handleGrp6 mapping x).dispatched := by
  rw [handleGrp6]
  split
  · split
    · show l ∈ (dispatchAll mapping x _).dispatched
      rw [dispatched_dispatchAll]
      exact List.mem_append_left _ h
    · exact h
  · exact h

/-- Every latched button that is mapped is dispatched. -/
theorem grp5_dispatched {i : ℕ} (hi : i < 3) (hflag : x.grp5.getLsbD i = true)
    (hmap : mapping (i + intGrp5PinBase) ≠ 0) :
    i + intGrp5PinBase ∈ (irqHandle mapping x).dispatched := by
  rw [irqHandle_dispatched]
  refine dispatched_handleGrp6 ?_
  rw [handleGrp5, dispatched_dispatchAll]
  refine List.mem_append_right _ (List.mem_filter.mpr ⟨mem_setLines.mpr ⟨hi, hflag⟩, ?_⟩)
  exact decide_eq_true hmap

/-- A button is dispatched. -/
def ButtonDispatched (mapping : ℕ → ℕ) (x : Xreg) : Prop :=
  ∃ i < 3, x.grp5.getLsbD i = true ∧ mapping (i + intGrp5PinBase) ≠ 0

/-- After a button the PSU event is gone. -/
theorem handleGrp6_of_button (h : ButtonDispatched mapping x) :
    handleGrp6 mapping (handleGrp5 mapping x) = handleGrp5 mapping x := by
  obtain ⟨i, hi, hflag, hmap⟩ := h
  have hclear : (handleGrp5 mapping x).grp6.getLsbD 2 = false :=
    grp6_dispatchAll (mem_setLines.mpr ⟨hi, hflag⟩) hmap (by decide)
  rw [handleGrp6, hclear]
  rfl

private theorem handleGrp5_of_not_button (h : ¬ButtonDispatched mapping x) :
    handleGrp5 mapping x = x := by
  refine dispatchAll_of_unmapped fun l hl => ?_
  obtain ⟨i, rfl, hi, hflag⟩ := exists_of_mem_setLines hl
  by_contra hmap
  exact h ⟨i, hi, hflag, hmap⟩

/-- A PSU event that is still latched is handled. -/
theorem handleGrp6_of_flag (h : x.grp6.getLsbD 2 = true) :
    (∀ i < 8, (x.presenceReg ^^^ x.psuPresence).getLsbD i = true →
      mapping (i + intGrp6PinBase) ≠ 0 →
      i + intGrp6PinBase ∈ (handleGrp6 mapping x).dispatched) ∧
    (handleGrp6 mapping x).psuPresence = x.presenceReg := by
  rw [handleGrp6, if_pos h]
  by_cases hsame : x.psuPresence = x.presenceReg
  · rw [if_neg (not_not_intro hsame)]
    refine ⟨fun i _ hbit _ => ?_, hsame⟩
    rw [hsame, BitVec.xor_self, BitVec.getLsbD_zero] at hbit
    exact absurd hbit Bool.false_ne_true
  · rw [if_pos hsame]
    refine ⟨fun i hi hbit hmap => ?_, rfl⟩
    show _ ∈ (dispatchAll mapping x _).dispatched
    rw [dispatched_dispatchAll]
    refine List.mem_append_right _ (List.mem_filter.mpr ⟨mem_setLines.mpr ⟨hi, hbit⟩, ?_⟩)
    exact decide_eq_true hmap

end Handle

/-- **One run of the handler** handles every event latched at its entry iff the PSU
event does not come with a mapped button, or brings no change of presence. -/
theorem handlesAll_iff (mapping : ℕ → ℕ) (grp5 grp6 : BitVec 32)
    (presenceReg psuPresence : BitVec 8) :
    HandlesAll mapping (.entry grp5 grp6 presenceReg psuPresence) ↔
      ¬(grp6.getLsbD 2 = true ∧
        ∃ i < 3, grp5.getLsbD i = true ∧ mapping (i + intGrp5PinBase) ≠ 0) ∨
      psuPresence = presenceReg := by
  set x : Xreg := .entry grp5 grp6 presenceReg psuPresence
  have hbuttons : ∀ i < 3, x.grp5.getLsbD i = true → mapping (i + intGrp5PinBase) ≠ 0 →
      i + intGrp5PinBase ∈ (irqHandle mapping x).dispatched :=
    fun i hi hflag hmap => grp5_dispatched hi hflag hmap
  by_cases hbutton : ButtonDispatched mapping x
  · -- a button ends the handler before the PSU event is looked at
    have hkept : (irqHandle mapping x).psuPresence = psuPresence := by
      rw [irqHandle_psuPresence, handleGrp6_of_button hbutton]
      exact (presence_dispatchAll x _).1
    constructor
    · rintro ⟨-, hpsu⟩
      by_cases hevent : grp6.getLsbD 2 = true
      · have hstored := (hpsu hevent).2
        rw [hkept] at hstored
        exact .inr hstored
      · exact .inl fun h => hevent h.1
    · intro h
      refine ⟨hbuttons, fun hevent => ?_⟩
      have hsame := h.resolve_left fun hno => hno ⟨hevent, hbutton⟩
      refine ⟨fun i _ hbit _ => ?_, hkept.trans hsame⟩
      have hxor : x.presenceReg ^^^ x.psuPresence = 0 := by
        show presenceReg ^^^ psuPresence = 0
        rw [hsame, BitVec.xor_self]
        rfl
      rw [hxor] at hbit
      exact absurd hbit (by simp)
  · -- without one the group of the PSU event gets its turn
    have hgrp5 := handleGrp5_of_not_button hbutton
    constructor
    · intro _
      exact .inl fun h => hbutton h.2
    · intro _
      refine ⟨hbuttons, fun hevent => ?_⟩
      rw [irqHandle_dispatched, irqHandle_psuPresence, hgrp5]
      exact handleGrp6_of_flag hevent

/-- The UID button and an inserted PSU at once: the PSU is never looked at. -/
theorem not_handlesAll_buttonWithPsu :
    ¬HandlesAll (fun hwirq => hwirq) (.entry 0x2 0x4 0x1 0x0) := by
  intro h
  exact absurd (h.2 (by decide)).2 (by decide)

end GxpXreg
