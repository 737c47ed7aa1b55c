/-
The PECI devices of a controller and the power of its host.

The notifier of the host's regulator schedules `rescan_work` when the host is
switched on and `remove_work` when it is switched off.  The two work items are
independent: nothing orders them but `scan_lock`, which they take for one device
at a time.

* `step` — regulator events and the steps of the two work items;
* `xfer_of_disabled` — detection with the supply off, against the model of its transfer;
* `right_of_disable` — once the work is done, no device is left when the host is
  off;
* `right_iff` — the devices are those that answer exactly when, since the last
  event, `remove_work` has removed no device of a running host that no rescan was
  still to look for;
* `not_forall_right` — a quick power cycle after which the devices are missing.
-/
import Canopy.PeciXfer
import Canopy.Run
import Canopy.WorkItem
import Mathlib.Data.List.Nodup

namespace GxpPeci.Power

open Run

/-! ### The devices of a controller -/

/-- The addresses of the registered devices, in the order they were added. -/
structure Devices where
  addrs : List UInt8
  nodup : addrs.Nodup
  deriving DecidableEq

namespace Devices

instance : Membership UInt8 Devices := ⟨fun d a => a ∈ d.addrs⟩

instance (a : UInt8) (d : Devices) : Decidable (a ∈ d) :=
  inferInstanceAs (Decidable (a ∈ d.addrs))

/-- `device_add` -/
def add (d : Devices) (a : UInt8) (h : a ∉ d) : Devices :=
  ⟨d.addrs.concat a, List.Nodup.concat h d.nodup⟩

/-- `peci_device_destroy` -/
def destroy (d : Devices) (a : UInt8) : Devices := ⟨d.addrs.erase a, d.nodup.erase a⟩

private theorem mem_add {d : Devices} {a : UInt8} (h : a ∉ d) (b : UInt8) :
    b ∈ d.add a h ↔ b ∈ d ∨ b = a := by
  show b ∈ d.addrs.concat a ↔ _
  rw [List.concat_eq_append, List.mem_append, List.mem_singleton]
  rfl

private theorem mem_destroy (d : Devices) (a b : UInt8) : b ∈ d.destroy a ↔ b ≠ a ∧ b ∈ d :=
  d.nodup.mem_erase_iff

end Devices

/-! ### The driver -/

inductive RegulatorEvent where
  | enable
  | disable
  deriving DecidableEq

/-- The steps of the work items. -/
inductive Work where
  | rescanStart
  /-- the next address of `peci_controller_scan_devices`; an address that nobody is at
  answers with a wrong status or not at all -/
  | rescan (timedOut : Bool)
  | removeStart
  /-- `peci_controller_remove_devices` begins its walk -/
  | removeWalk
  /-- the next device of the walk -/
  | remove
  deriving DecidableEq

inductive Event where
  | regulator (event : RegulatorEvent)
  | work (w : Work)
  deriving DecidableEq

structure Controller where
  /-- the `peci` supply is enabled -/
  enabled : Bool
  devices : Devices
  rescanWork : WorkItem UInt8
  removeWork : WorkItem UInt8
  deriving DecidableEq

def einval : ℤ := 22

section Controller

variable (addrs : List UInt8) (populated : UInt8 → Bool)

/-- `peci_detect`; `gxp_peci_xfer` fails while the supply is disabled. -/
def peciDetect (enabled : Bool) (addr : UInt8) (timedOut : Bool) : ℤ :=
  if !enabled then -eio
  else if populated addr then 0
  else if timedOut then -etimedout
  else -eio

/-- `peci_device_create`, which has the memory for a device that answers; the valid
addresses are `addrs`. -/
def peciDeviceCreate (s : Controller) (addr : UInt8) (timedOut : Bool) : ℤ × Devices :=
  if addr ∉ addrs then (-einval, s.devices)
  else if h : addr ∈ s.devices then (0, s.devices)
  else
    let ret := peciDetect populated s.enabled addr timedOut
    if ret ≠ 0 then (if ret = -eio ∨ ret = -etimedout then 0 else ret, s.devices)
    else (0, s.devices.add addr h)

/-- `gxp_peci_reg_event`, with the change of the supply it reports. -/
def gxpPeciRegEvent (s : Controller) : RegulatorEvent → Controller
  | .enable => { s with enabled := true, rescanWork := s.rescanWork.schedule }
  | .disable => { s with enabled := false, removeWork := s.removeWork.schedule }

/-- One round of the loop of `peci_controller_scan_devices`. -/
def rescan (s : Controller) (timedOut : Bool) : Controller :=
  match s.rescanWork.current? with
  | none => { s with rescanWork := s.rescanWork.advance }
  | some addr =>
    let (ret, devices) := peciDeviceCreate addrs populated s addr timedOut
    if ret ≠ 0 then { s with devices, rescanWork := s.rescanWork.stop }
    else { s with devices, rescanWork := s.rescanWork.advance }

/-- One round of `device_for_each_child_reverse`. -/
def remove (s : Controller) : Controller :=
  match s.removeWork.current? with
  | none => { s with removeWork := s.removeWork.advance }
  | some addr =>
    { s with devices := s.devices.destroy addr, removeWork := s.removeWork.advance }

/-- A step of one of the work items.  The walk over the children of the controller goes
back from the last one there is when it begins: what is added later comes behind it,
and only the walk itself takes children away. -/
def workStep (s : Controller) : Work → Controller
  | .rescanStart => { s with rescanWork := s.rescanWork.start.visit addrs }
  | .rescan timedOut => rescan addrs populated s timedOut
  | .removeStart => { s with removeWork := s.removeWork.start }
  | .removeWalk => { s with removeWork := s.removeWork.visit s.devices.addrs.reverse }
  | .remove => remove s

def step (s : Controller) : Event → Controller
  | .regulator event => gxpPeciRegEvent s event
  | .work w => workStep addrs populated s w

/-- Neither work item is pending or running. -/
def Quiescent (s : Controller) : Prop := s.rescanWork.Idle ∧ s.removeWork.Idle

instance (s : Controller) : Decidable (Quiescent s) := inferInstanceAs (Decidable (_ ∧ _))

/-- `addr` answers. -/
def Answers (s : Controller) (addr : UInt8) : Prop :=
  s.enabled = true ∧ addr ∈ addrs ∧ populated addr = true

instance (s : Controller) (addr : UInt8) : Decidable (Answers addrs populated s addr) :=
  inferInstanceAs (Decidable (_ ∧ _ ∧ _))

/-- The devices are the addresses that answer. -/
def Right (s : Controller) : Prop := ∀ addr, addr ∈ s.devices ↔ Answers addrs populated s addr

/-- `remove_work` removes a device of a running host that no rescan is still to look for. -/
def Harmful (s : Controller) : Work → Prop
  | .remove => s.enabled = true ∧ ∃ addr ∈ s.removeWork.current?, ¬s.rescanWork.Due addr
  | _ => False

instance (s : Controller) : (w : Work) → Decidable (Harmful s w)
  | .remove => inferInstanceAs (Decidable (_ ∧ ∃ addr ∈ s.removeWork.current?, _))
  | .rescanStart | .rescan _ | .removeStart | .removeWalk => inferInstanceAs (Decidable False)

/-! ### What the steps do -/

theorem Harmful.enabled {s : Controller} {w : Work} (h : Harmful s w) : s.enabled = true := by
  cases w with
  | remove => exact h.1
  | rescanStart => exact h.elim
  | rescan timedOut => exact h.elim
  | removeStart => exact h.elim
  | removeWalk => exact h.elim

variable {addrs populated} {s : Controller}

/-- With the supply disabled `peci_detect` returns what its transfer does. -/
theorem xfer_of_disabled {p : Peci} (hidle : p.phase = .idle) (addr : UInt8) (req : Request)
    (timedOut : Bool) :
    p.step (.xfer false addr req) =
      p.leave ⟨none, peciDetect populated false addr timedOut, []⟩ := by
  rw [Peci.step, if_pos hidle, if_pos rfl]
  rfl

/-- An address that does not answer gives one of the two errors that mean so. -/
theorem peciDetect_of_not {addr : UInt8} (h : ¬(s.enabled = true ∧ populated addr = true))
    (timedOut : Bool) :
    peciDetect populated s.enabled addr timedOut ≠ 0 ∧
      (peciDetect populated s.enabled addr timedOut = -eio ∨
        peciDetect populated s.enabled addr timedOut = -etimedout) := by
  rw [peciDetect]
  cases hon : s.enabled with
  | false =>
    have hne : (-eio : ℤ) ≠ 0 := by decide
    exact ⟨hne, Or.inl rfl⟩
  | true =>
    have hempty : ¬populated addr = true := fun hpopulated => h ⟨hon, hpopulated⟩
    rw [if_neg hempty]
    cases timedOut with
    | false => exact ⟨by decide, Or.inl rfl⟩
    | true => exact ⟨by decide, Or.inr rfl⟩

/-- Creating a device adds a valid address exactly when it answers, and it reports no error. -/
theorem peciDeviceCreate_spec (populated : UInt8 → Bool) (s : Controller) {addr : UInt8}
    (haddr : addr ∈ addrs) (timedOut : Bool) :
    ∃ devices, peciDeviceCreate addrs populated s addr timedOut = (0, devices) ∧
      ∀ b, b ∈ devices ↔ b ∈ s.devices ∨ b = addr ∧ Answers addrs populated s b := by
  rw [peciDeviceCreate, if_neg (not_not_intro haddr)]
  by_cases hexists : addr ∈ s.devices
  · -- a device that exists is left as it is, whether or not it answers
    refine ⟨s.devices, dif_pos hexists, fun b => (or_iff_left_of_imp ?_).symm⟩
    rintro ⟨rfl, -⟩
    exact hexists
  · rw [dif_neg hexists]
    by_cases hanswers : s.enabled = true ∧ populated addr = true
    · obtain ⟨hon, hpopulated⟩ := hanswers
      refine ⟨s.devices.add addr hexists, by simp [peciDetect, hon, hpopulated], fun b => ?_⟩
      rw [Devices.mem_add]
      refine or_congr_right ⟨?_, And.left⟩
      rintro rfl
      exact ⟨rfl, hon, haddr, hpopulated⟩
    · obtain ⟨hne, herror⟩ := peciDetect_of_not hanswers timedOut
      refine ⟨s.devices, ?_, fun b => (or_iff_left_of_imp ?_).symm⟩
      · simp only [if_pos hne, if_pos herror]
      · rintro ⟨rfl, hon, -, hpopulated⟩
        exact absurd ⟨hon, hpopulated⟩ hanswers

/-- What can be on the lists of the work items, and registered. -/
structure Valid (addrs : List UInt8) (populated : UInt8 → Bool) (s : Controller) : Prop where
  devices : ∀ a ∈ s.devices, a ∈ addrs ∧ populated a = true
  rescan : s.rescanWork.AllLeft fun a => a ∈ addrs
  remove : s.removeWork.AllLeft fun a => a ∈ addrs ∧ populated a = true

/-- A round of the rescan adds the address it is at, if that answers. -/
theorem rescan_spec (h : Valid addrs populated s) (timedOut : Bool) :
    ∃ devices, rescan addrs populated s timedOut =
        { s with devices, rescanWork := s.rescanWork.advance } ∧
      ∀ b, b ∈ devices ↔
        b ∈ s.devices ∨ s.rescanWork.current? = some b ∧ Answers addrs populated s b := by
  rw [rescan]
  cases hcurrent : s.rescanWork.current? with
  | none =>
    refine ⟨s.devices, rfl, fun b => (or_iff_left_of_imp ?_).symm⟩
    rintro ⟨hnone, -⟩
    cases hnone
  | some addr =>
    have haddr : addr ∈ addrs := h.rescan.current? hcurrent
    obtain ⟨devices, hcreate, hmem⟩ := peciDeviceCreate_spec populated s haddr timedOut
    refine ⟨devices, ?_, fun b => ?_⟩
    · simp only [hcreate, ne_eq, not_true_eq_false, if_false]
    · rw [hmem, Option.some.injEq, eq_comm]

/-- A round of the removal removes the device it is at. -/
theorem remove_spec (s : Controller) :
    ∃ devices, remove s = { s with devices, removeWork := s.removeWork.advance } ∧
      ∀ b, b ∈ devices ↔ b ∈ s.devices ∧ s.removeWork.current? ≠ some b := by
  rw [remove]
  cases hcurrent : s.removeWork.current? with
  | none => exact ⟨s.devices, rfl, fun b => by simp⟩
  | some addr =>
    refine ⟨s.devices.destroy addr, rfl, fun b => ?_⟩
    rw [Devices.mem_destroy, and_comm, ne_eq, ne_eq, Option.some.injEq, eq_comm]

theorem enabled_workStep (h : Valid addrs populated s) (w : Work) :
    (workStep addrs populated s w).enabled = s.enabled := by
  cases w with
  | rescanStart => rfl
  | rescan timedOut =>
    obtain ⟨devices, hrescan, -⟩ := rescan_spec h timedOut
    rw [workStep, hrescan]
  | removeStart => rfl
  | removeWalk => rfl
  | remove =>
    obtain ⟨devices, hremove, -⟩ := remove_spec s
    rw [workStep, hremove]

theorem valid_workStep (h : Valid addrs populated s) (w : Work) :
    Valid addrs populated (workStep addrs populated s w) := by
  cases w with
  | rescanStart => exact ⟨h.devices, h.rescan.start.visit fun _ => id, h.remove⟩
  | rescan timedOut =>
    obtain ⟨devices, hrescan, hmem⟩ := rescan_spec h timedOut
    rw [workStep, hrescan]
    refine ⟨fun a ha => ?_, h.rescan.advance, h.remove⟩
    rcases (hmem a).mp ha with hold | ⟨-, -, haddr, hpopulated⟩
    · exact h.devices a hold
    · exact ⟨haddr, hpopulated⟩
  | removeStart => exact ⟨h.devices, h.rescan, h.remove.start⟩
  | removeWalk =>
    refine ⟨h.devices, h.rescan, h.remove.visit fun a ha => ?_⟩
    exact h.devices a (List.mem_reverse.mp ha)
  | remove =>
    obtain ⟨devices, hremove, hmem⟩ := remove_spec s
    rw [workStep, hremove]
    exact ⟨fun a ha => h.devices a ((hmem a).mp ha).1, h.rescan, h.remove.advance⟩

theorem valid_step (h : Valid addrs populated s) (e : Event) :
    Valid addrs populated (step addrs populated s e) := by
  cases e with
  | regulator event =>
    cases event with
    | enable => exact ⟨h.devices, h.rescan, h.remove⟩
    | disable => exact ⟨h.devices, h.rescan, h.remove⟩
  | work w => exact valid_workStep h w

theorem valid_of_quiescent (hright : Right addrs populated s) (hquiet : Quiescent s) :
    Valid addrs populated s where
  devices := fun a ha => ((hright a).mp ha).2
  rescan := .of_idle hquiet.1
  remove := .of_idle hquiet.2

/-! ### The host is off -/

/-- Every device that is left is still to be removed. -/
structure Draining (addrs : List UInt8) (populated : UInt8 → Bool) (s : Controller) : Prop where
  valid : Valid addrs populated s
  off : s.enabled = false
  due : ∀ a ∈ s.devices, s.removeWork.Due a

theorem Draining.workStep (h : Draining addrs populated s) (w : Work) :
    Draining addrs populated (workStep addrs populated s w) := by
  refine ⟨valid_workStep h.valid w, (enabled_workStep h.valid w).trans h.off, ?_⟩
  cases w with
  | rescanStart => exact h.due
  | rescan timedOut =>
    obtain ⟨devices, hrescan, hmem⟩ := rescan_spec h.valid timedOut
    rw [Power.workStep, hrescan]
    intro a ha
    rcases (hmem a).mp ha with hold | ⟨-, hon, -⟩
    · exact h.due a hold
    · rw [h.off] at hon
      cases hon
  | removeStart =>
    intro a ha
    exact WorkItem.due_start_iff.mpr (h.due a ha)
  | removeWalk =>
    intro a ha
    exact WorkItem.due_visit (h.due a ha) (List.mem_reverse.mpr ha)
  | remove =>
    obtain ⟨devices, hremove, hmem⟩ := remove_spec s
    rw [Power.workStep, hremove]
    intro a ha
    obtain ⟨hold, hne⟩ := (hmem a).mp ha
    exact WorkItem.due_advance (h.due a hold) hne

/-- With the work done no device is left. -/
theorem Draining.right (h : Draining addrs populated s) (hquiet : Quiescent s) :
    Right addrs populated s := by
  intro a
  constructor
  · intro ha
    exact absurd (h.due a ha) (WorkItem.not_due_of_idle hquiet.2 a)
  · rintro ⟨hon, -⟩
    rw [h.off] at hon
    cases hon

/-! ### The host is on -/

/-- Every address that answers has its device, or a rescan is still to look for it. -/
structure Covered (addrs : List UInt8) (populated : UInt8 → Bool) (s : Controller) : Prop where
  valid : Valid addrs populated s
  on : s.enabled = true
  due : ∀ a ∈ addrs, populated a = true → a ∈ s.devices ∨ s.rescanWork.Due a

theorem Covered.workStep (h : Covered addrs populated s) {w : Work} (hw : ¬Harmful s w) :
    Covered addrs populated (workStep addrs populated s w) := by
  refine ⟨valid_workStep h.valid w, (enabled_workStep h.valid w).trans h.on, ?_⟩
  intro a ha hpopulated
  have hdue := h.due a ha hpopulated
  cases w with
  | rescanStart =>
    exact hdue.imp_right fun hdue => WorkItem.due_visit (WorkItem.due_start_iff.mpr hdue) ha
  | rescan timedOut =>
    obtain ⟨devices, hrescan, hmem⟩ := rescan_spec h.valid timedOut
    rw [Power.workStep, hrescan]
    rcases hdue with hold | hdue
    · exact Or.inl ((hmem a).mpr (Or.inl hold))
    · by_cases hcurrent : s.rescanWork.current? = some a
      · exact Or.inl ((hmem a).mpr (Or.inr ⟨hcurrent, h.on, ha, hpopulated⟩))
      · exact Or.inr (WorkItem.due_advance hdue hcurrent)
  | removeStart => exact hdue
  | removeWalk => exact hdue
  | remove =>
    obtain ⟨devices, hremove, hmem⟩ := remove_spec s
    rw [Power.workStep, hremove]
    by_cases hcurrent : s.removeWork.current? = some a
    · -- the device goes, but not before a rescan that will find it again
      right
      by_contra hnot
      exact hw ⟨h.on, a, hcurrent, hnot⟩
    · exact hdue.imp_left fun hold => (hmem a).mpr ⟨hold, hcurrent⟩

theorem Covered.right (h : Covered addrs populated s) (hquiet : Quiescent s) :
    Right addrs populated s := by
  intro a
  constructor
  · intro ha
    exact ⟨h.on, h.valid.devices a ha⟩
  · rintro ⟨-, ha, hpopulated⟩
    exact (h.due a ha hpopulated).resolve_right (WorkItem.not_due_of_idle hquiet.1 a)

/-- The device at `a` is gone, and no rescan is to look for it. -/
structure Lost (addrs : List UInt8) (populated : UInt8 → Bool) (a : UInt8) (s : Controller) :
    Prop where
  valid : Valid addrs populated s
  on : s.enabled = true
  gone : a ∉ s.devices
  notDue : ¬s.rescanWork.Due a

theorem Lost.workStep {a : UInt8} (h : Lost addrs populated a s) (w : Work) :
    Lost addrs populated a (workStep addrs populated s w) := by
  refine ⟨valid_workStep h.valid w, (enabled_workStep h.valid w).trans h.on, ?_, ?_⟩
  · cases w with
    | rescanStart => exact h.gone
    | rescan timedOut =>
      obtain ⟨devices, hrescan, hmem⟩ := rescan_spec h.valid timedOut
      rw [Power.workStep, hrescan]
      intro ha
      rcases (hmem a).mp ha with hold | ⟨hcurrent, -⟩
      · exact h.gone hold
      · exact h.notDue (WorkItem.due_of_current? hcurrent)
    | removeStart => exact h.gone
    | removeWalk => exact h.gone
    | remove =>
      obtain ⟨devices, hremove, hmem⟩ := remove_spec s
      rw [Power.workStep, hremove]
      exact fun ha => h.gone ((hmem a).mp ha).1
  · cases w with
    | rescanStart =>
      exact fun hdue => h.notDue (WorkItem.due_start_iff.mp (WorkItem.due_of_due_visit hdue))
    | rescan timedOut =>
      obtain ⟨devices, hrescan, -⟩ := rescan_spec h.valid timedOut
      rw [Power.workStep, hrescan]
      exact fun hdue => h.notDue (WorkItem.due_of_due_advance hdue)
    | removeStart => exact h.notDue
    | removeWalk => exact h.notDue
    | remove =>
      obtain ⟨devices, hremove, -⟩ := remove_spec s
      rw [Power.workStep, hremove]
      exact h.notDue

/-- A harmful step loses a device that should be there. -/
theorem lost_of_harmful (h : Valid addrs populated s) {w : Work} (hw : Harmful s w) :
    ∃ a ∈ addrs, populated a = true ∧ Lost addrs populated a (workStep addrs populated s w) := by
  cases w with
  | remove =>
    obtain ⟨hon, a, hcurrent, hnot⟩ := hw
    obtain ⟨ha, hpopulated⟩ := h.remove.current? hcurrent
    obtain ⟨devices, hremove, hmem⟩ := remove_spec s
    refine ⟨a, ha, hpopulated, valid_workStep h .remove, ?_, ?_, ?_⟩
    · rw [enabled_workStep h, hon]
    · rw [workStep, hremove]
      exact fun hin => ((hmem a).mp hin).2 hcurrent
    · rw [workStep, hremove]
      exact hnot
  | rescanStart => exact hw.elim
  | rescan timedOut => exact hw.elim
  | removeStart => exact hw.elim
  | removeWalk => exact hw.elim

/-! ### Whole runs -/

/-- The steps of the work items after the last event. -/
theorem run_work (s : Controller) (es : List Event) (event : RegulatorEvent) (ws : List Work) :
    run (step addrs populated) s (es ++ .regulator event :: ws.map .work) =
      run (workStep addrs populated)
        (run (step addrs populated) s (es ++ [.regulator event])) ws := by
  rw [List.append_cons, run_append]
  exact List.foldl_map

private theorem run_regulator (s : Controller) (es : List Event) (event : RegulatorEvent) :
    run (step addrs populated) s (es ++ [.regulator event]) =
      gxpPeciRegEvent (run (step addrs populated) s es) event := by
  rw [run_append]
  rfl

/-- With the host switched off no step is harmful, and no device is left once the
work is done. -/
theorem right_of_disable (h : Valid addrs populated s) (ws : List Work) :
    (Quiescent (run (workStep addrs populated) (gxpPeciRegEvent s .disable) ws) →
      Right addrs populated (run (workStep addrs populated) (gxpPeciRegEvent s .disable) ws)) ∧
    ∀ p ∈ visits (workStep addrs populated) (gxpPeciRegEvent s .disable) ws,
      ¬Harmful p.1 p.2 := by
  have hdraining : Draining addrs populated (gxpPeciRegEvent s .disable) :=
    ⟨valid_step h (.regulator .disable), rfl, fun a _ => WorkItem.due_schedule _ a⟩
  have hrun := run_invariant (I := Draining addrs populated) (fun _ w ht => ht.workStep w)
    hdraining
  refine ⟨(hrun ws).right, fun p hp hharmful => ?_⟩
  obtain ⟨ws₁, ws₂, rfl, hp₁⟩ := eq_append_of_mem_visits hp
  have hoff : p.1.enabled = false := by
    rw [hp₁]
    exact (hrun ws₁).off
  rw [hharmful.enabled] at hoff
  cases hoff

/-- With the host switched on, the devices are right once the work is done, unless
one was lost. -/
theorem right_enable_iff (h : Valid addrs populated s) (ws : List Work)
    (hdone : Quiescent (run (workStep addrs populated) (gxpPeciRegEvent s .enable) ws)) :
    Right addrs populated (run (workStep addrs populated) (gxpPeciRegEvent s .enable) ws) ↔
      ∀ p ∈ visits (workStep addrs populated) (gxpPeciRegEvent s .enable) ws,
        ¬Harmful p.1 p.2 := by
  have hvalid := valid_step h (.regulator .enable)
  constructor
  · intro hright p hp hharmful
    obtain ⟨ws₁, ws₂, rfl, hp₁⟩ := eq_append_of_mem_visits hp
    have hvalid₁ : Valid addrs populated p.1 := by
      rw [hp₁]
      exact run_invariant (I := Valid addrs populated) (fun _ w ht => valid_workStep ht w)
        hvalid ws₁
    obtain ⟨a, ha, hpopulated, hlost⟩ := lost_of_harmful hvalid₁ hharmful
    -- no later step of the work items brings the device back
    have hend := run_invariant (I := Lost addrs populated a) (fun _ w ht => ht.workStep w)
      hlost ws₂
    rw [hp₁, ← run_cons, ← run_append] at hend
    exact hend.gone ((hright a).mpr ⟨hend.on, ha, hpopulated⟩)
  · intro hharmless
    have hcovered : Covered addrs populated (gxpPeciRegEvent s .enable) :=
      ⟨hvalid, rfl, fun a _ _ => Or.inr (WorkItem.due_schedule _ a)⟩
    exact (run_invariant_of_visits (I := Covered addrs populated) (P := fun t w => ¬Harmful t w)
      (fun _ w ht hw => ht.workStep hw) hcovered hharmless).right hdone

/-- **From a right set of devices, whatever the events and however the work items are
scheduled: once both have come to rest, the devices are those that answer exactly
when, since the last event, no device of a running host was removed that no rescan
was still to look for.** -/
theorem right_iff (hright : Right addrs populated s) (hquiet : Quiescent s) (es : List Event)
    (event : RegulatorEvent) (ws : List Work)
    (hdone : Quiescent
      (run (step addrs populated) s (es ++ .regulator event :: ws.map .work))) :
    Right addrs populated (run (step addrs populated) s (es ++ .regulator event :: ws.map .work)) ↔
      ∀ p ∈ visits (workStep addrs populated)
        (run (step addrs populated) s (es ++ [.regulator event])) ws, ¬Harmful p.1 p.2 := by
  have hvalid := run_invariant (I := Valid addrs populated) (fun _ e ht => valid_step ht e)
    (valid_of_quiescent hright hquiet) es
  rw [run_work] at hdone ⊢
  rw [run_regulator] at hdone ⊢
  cases event with
  | enable => exact right_enable_iff hvalid ws hdone
  | disable =>
    obtain ⟨hright', hharmless⟩ := right_of_disable hvalid ws
    exact iff_of_true (hright' hdone) hharmless

end Controller

/-! ### A quick power cycle -/

def peciAddrs : List UInt8 := [0x30, 0x31, 0x32, 0x33, 0x34, 0x35, 0x36, 0x37]

/-- A host with one processor, running. -/
def oneCpu : Controller where
  enabled := true
  devices := ⟨[0x30], List.nodup_singleton _⟩
  rescanWork := ⟨false, .resting⟩
  removeWork := ⟨false, .resting⟩

def cpuAt (addr : UInt8) : Bool := addr == 0x30

theorem right_oneCpu : Right peciAddrs cpuAt oneCpu := by
  intro addr
  show addr ∈ [0x30] ↔ true = true ∧ addr ∈ peciAddrs ∧ (addr == 0x30) = true
  rw [List.mem_singleton, beq_iff_eq]
  constructor
  · rintro rfl
    exact ⟨rfl, List.mem_cons_self, rfl⟩
  · exact fun h => h.2.2

/-- The rescan runs before the removal that was scheduled first. -/
def rescanFirst : List Work :=
  .rescanStart :: List.replicate 9 (.rescan false) ++ [.removeStart, .removeWalk, .remove, .remove]

private theorem quiescent_rescanFirst :
    Quiescent (run (step peciAddrs cpuAt) oneCpu
      ([.regulator .disable] ++ .regulator .enable :: rescanFirst.map .work)) := by
  decide

theorem right_iff_rescanFirst :
    Right peciAddrs cpuAt (run (step peciAddrs cpuAt) oneCpu
        ([.regulator .disable] ++ .regulator .enable :: rescanFirst.map .work)) ↔
      ∀ p ∈ visits (workStep peciAddrs cpuAt)
        (run (step peciAddrs cpuAt) oneCpu ([.regulator .disable] ++ [.regulator .enable]))
        rescanFirst, ¬Harmful p.1 p.2 :=
  right_iff right_oneCpu ⟨⟨rfl, rfl⟩, ⟨rfl, rfl⟩⟩ [.regulator .disable] .enable rescanFirst
    quiescent_rescanFirst

/-- The rescan finds the device in place, and then the removal takes it away. -/
theorem not_forall_right :
    ¬∀ (addrs : List UInt8) (populated : UInt8 → Bool) (s : Controller) (es : List Event)
        (event : RegulatorEvent) (ws : List Work),
      Right addrs populated s → Quiescent s →
        Quiescent (run (step addrs populated) s (es ++ .regulator event :: ws.map .work)) →
          Right addrs populated
            (run (step addrs populated) s (es ++ .regulator event :: ws.map .work)) := by
  intro h
  have hright := h peciAddrs cpuAt oneCpu [.regulator .disable] .enable rescanFirst right_oneCpu
    ⟨⟨rfl, rfl⟩, ⟨rfl, rfl⟩⟩ quiescent_rescanFirst
  have hgone : ¬0x30 ∈ (run (step peciAddrs cpuAt) oneCpu
      ([.regulator .disable] ++ .regulator .enable :: rescanFirst.map .work)).devices := by
    decide
  exact hgone ((hright 0x30).mpr (by decide))

end GxpPeci.Power
