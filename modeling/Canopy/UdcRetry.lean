/-
A connect that fails, and the work that retries it (`gxp_udc_pullup`,
`gxp_udc_connect_retry_work`).

`gxp_udc_pullup` ignores the result of `gxp_udc_connect` and schedules the retry
work, which only toggles the connect bit.

* `gxpUdcConnect_of_failed` — what a failed connect leaves behind;
* `connectedBare_retry` — the retry work connects the device all the same;
* `failureHarmless_iff` — a failed connect is harmless only when it does not happen.
-/
import Canopy.BitMask
import Canopy.UdcConnect

namespace GxpUdc.Connect

open BitMask Flex ByteLanes Run

def connectMaxRetries : ℕ := 24

/-- One virtual device, with the registers shared with the others. -/
structure Udc where
  dev : Dev
  udcg : Udcg
  /-- a gadget driver is bound -/
  driver : Bool
  connectRetries : ℕ
  /-- `connect_work` is scheduled -/
  pending : Bool
  /-- `connect_work` is in `msleep` -/
  sleeping : Bool

section Device

variable (b : Board) (v : Fin maxNumVdevice)

/-- `gxp_udc_start`; -EBUSY when a driver is bound. -/
def udcStart (s : Udc) : Udc := { s with driver := true }

def udcStop (s : Udc) : Udc :=
  { s with
    dev := (gxpUdcDisconnect v s.dev s.udcg).1
    udcg := (gxpUdcDisconnect v s.dev s.udcg).2
    driver := false }

/-- `gxp_udc_connect_retry_work` up to `msleep`. -/
def retryWork (s : Udc) : Udc :=
  let evdcsVal := s.dev.regs evdcs
  let s := { s with pending := false }
  if !s.driver then s
  else if evdcsVal &&& evdcsPortenablests ≠ 0 then s
  else if s.connectRetries ≥ connectMaxRetries then s
  else
    { s with
      connectRetries := s.connectRetries + 1
      dev := s.dev.writel evdcs (evdcsVal &&& ~~~evdcsConnect)
      sleeping := true }

/-- `gxp_udc_connect_retry_work` after `msleep`. -/
def reconnect (s : Udc) : Udc :=
  let s := { s with sleeping := false }
  if !s.driver then s
  else { s with
    dev := s.dev.writel evdcs (s.dev.regs evdcs ||| evdcsConnect)
    pending := true }

def pullupOn (s : Udc) : Udc :=
  let r := gxpUdcConnect v (b.fepnum v) s.dev s.udcg
  { s with dev := r.2.1, udcg := r.2.2, connectRetries := 0, pending := true }

/-- `cancel_delayed_work_sync` waits for running work and leaves none scheduled. -/
def pullupOff (s : Udc) : Udc :=
  let s := if s.sleeping then reconnect s else s
  { s with
    pending := false
    dev := (gxpUdcDisconnect v s.dev s.udcg).1
    udcg := (gxpUdcDisconnect v s.dev s.udcg).2 }

/-- The host enables or disables the port. -/
def hostPort (enabled : Bool) (d : Dev) : Dev :=
  d.writel evdcs (if enabled then d.regs evdcs ||| evdcsPortenablests
    else d.regs evdcs &&& ~~~evdcsPortenablests)

/-- What happens to the device: its driver, its work, the host and the other
devices. -/
inductive RetryEvent where
  | start
  | stop
  | pullup (isOn : Bool)
  | retryWork
  | reconnect
  | host (enabled : Bool)
  | otherConnects (w : {w : Fin maxNumVdevice // w ≠ v}) (d : Dev)
  | otherDisconnects (w : {w : Fin maxNumVdevice // w ≠ v}) (d : Dev)

def retryStep (s : Udc) : RetryEvent v → Udc
  | .start => udcStart s
  | .stop => udcStop v s
  | .pullup isOn => if isOn then pullupOn b v s else pullupOff v s
  | .retryWork => if s.pending && !s.sleeping then retryWork s else s
  | .reconnect => if s.sleeping then reconnect s else s
  | .host enabled => { s with dev := hostPort enabled s.dev }
  | .otherConnects w d => { s with udcg := (gxpUdcConnect w.1 (b.fepnum w.1) d s.udcg).2.2 }
  | .otherDisconnects w d => { s with udcg := (gxpUdcDisconnect w.1 d s.udcg).2 }

/-- The connect bit is set although the device does not own a slot for each of its
endpoints. -/
def ConnectedBare (s : Udc) : Prop :=
  s.dev.regs evdcs &&& evdcsConnect ≠ 0 ∧ ¬Holds (femapRead s.udcg) v (b.fepnum v)

/-- A failed connect has no lasting effect. -/
def FailureHarmless (s : Udc) : Prop :=
  (gxpUdcConnect v (b.fepnum v) s.dev s.udcg).1 = -enodev →
    (∀ k < maxNumFlexEp, femapRead (pullupOn b v s).udcg k = femapRead s.udcg k) ∧
    ((pullupOn b v s).udcg evgien).getLsbD v = (s.udcg evgien).getLsbD v ∧
    (pullupOn b v s).dev.regs evdien &&& evdienMask = s.dev.regs evdien &&& evdienMask ∧
    (pullupOn b v s).dev.regs evdcs &&& evdcsConnect = s.dev.regs evdcs &&& evdcsConnect ∧
    ∀ es : List (RetryEvent v), ¬ConnectedBare b v (run (retryStep b v) (pullupOn b v s) es)

end Device

/-! ### A connect that fails -/

section Failed

variable {v n : ℕ} (hv : v < maxNumVdevice) (hn : n ≤ maxNumFlexEpPerVdev) {d : Dev} {u : Udcg}

private theorem enableDev_evdien (d : Dev) :
    (enableDev d).regs evdien &&& evdienMask = evdienMask := by
  have hwritten : ∃ d' val, enableDev d = Dev.writel d' evdien (val ||| evdienMask) := ⟨_, _, rfl⟩
  obtain ⟨d', val, hd⟩ := hwritten
  rw [hd, Dev.writel_self, or_and_self_right]

private theorem enableDev_evdcs (d : Dev) : (enableDev d).regs evdcs = d.regs evdcs := rfl

private theorem enableGroup_evgien (u : Udcg) (hv : v < maxNumVdevice) :
    (enableGroup v u evgien).getLsbD v = true := by
  rw [maxNumVdevice] at hv
  have hlt : v < 32 := by omega
  rw [enableGroup, updateBits, Function.update_self]
  simp [hlt]

include hv hn

/-- **A failed connect** leaves no slot free, and the interrupts of the device enabled;
only the connect bit is as before. -/
theorem gxpUdcConnect_of_failed (hrc : (gxpUdcConnect v n d u).1 = -enodev) :
    freeSlots (gxpUdcConnect v n d u).2.2 = ∅ ∧
      ((gxpUdcConnect v n d u).2.2 evgien).getLsbD v = true ∧
      (gxpUdcConnect v n d u).2.1.regs evdien &&& evdienMask = evdienMask ∧
      (gxpUdcConnect v n d u).2.1.regs evdcs = d.regs evdcs := by
  have hfailed := (gxpUdcConnect_rc d u v n).2.mp hrc
  have hfew := (gxpUdcConnect_rc_iff d u hv hn).2.mp hrc
  have hleft := (claimEndpoints_iff hv (n := 0) (c := n) (by omega) (enableGroup v u)).2
  have hsame : freeSlots (enableGroup v u) = freeSlots u := freeSlots_updateBits u _ _
  rw [hsame] at hleft
  rw [gxpUdcConnect_of_not_claimed d u hfailed]
  refine ⟨Finset.card_eq_zero.mp (hleft.trans (by omega)), ?_, enableDev_evdien d,
    enableDev_evdcs d⟩
  show ((claimEndpoints v (List.range' 1 n) (enableGroup v u)).2 evgien).getLsbD v = true
  rw [claimEndpoints_of_lt _ _ (by decide)]
  exact enableGroup_evgien u hv

/-- The device does not hold its endpoints. -/
theorem not_holds_of_failed (hnone : ∀ k < maxNumFlexEp, ∀ e, owner (femapRead u k) ≠ some (v, e))
    (hrc : (gxpUdcConnect v n d u).1 = -enodev) :
    ¬Holds (femapRead (gxpUdcConnect v n d u).2.2) v n := by
  have hfailed := (gxpUdcConnect_rc d u v n).2.mp hrc
  have hfew := (gxpUdcConnect_rc_iff d u hv hn).2.mp hrc
  intro hholds
  obtain ⟨k, ⟨hk, hown⟩, -⟩ := hholds.unique n (by omega) (Nat.le_refl n)
  have hbefore : owner (femapRead (enableGroup v u) k) ≠ some (v, 0 + n) := by
    rw [enableGroup, femapRead_updateBits]
    exact hnone k hk _
  have hlast := owner_claimEndpoints_last hv (n := 0) (c := n) (by omega) hbefore hfailed
  rw [Nat.zero_add n] at hlast
  rw [gxpUdcConnect_udcg] at hown
  exact hlast hown

end Failed

/-! ### The retry work -/

/-- The driver is bound, the host does not enable the port, and the work runs. -/
def retryRun (v : Fin maxNumVdevice) : List (RetryEvent v) :=
  [.start, .host false, .retryWork, .reconnect]

section Retry

variable (b : Board) (v : Fin maxNumVdevice) (s : Udc)

private theorem reconnect_connects {s : Udc} (hdriver : s.driver = true) :
    (reconnect s).dev.regs evdcs &&& evdcsConnect ≠ 0 ∧ (reconnect s).udcg = s.udcg := by
  have hconnect : (reconnect s).dev.regs evdcs = s.dev.regs evdcs ||| evdcsConnect := by
    rw [reconnect, hdriver]
    exact Dev.writel_self _ _ _
  refine ⟨?_, by rw [reconnect, hdriver]; rfl⟩
  rw [hconnect, or_and_self_right]
  decide

/-- With the port disabled the work clears the connect bit and goes to sleep. -/
theorem retryWork_sleeps {s : Udc} (hdriver : s.driver = true)
    (hport : s.dev.regs evdcs &&& evdcsPortenablests = 0)
    (hretries : s.connectRetries < connectMaxRetries) :
    (retryWork s).sleeping = true ∧ (retryWork s).driver = true ∧
      (retryWork s).udcg = s.udcg := by
  rw [retryWork]
  simp only [hdriver, hport, Nat.not_le.mpr hretries, Bool.not_true, Bool.false_eq_true, if_false,
    ne_eq, not_true_eq_false]
  exact ⟨trivial, trivial, trivial⟩

/-- Whatever the work was doing, it comes to reconnect. -/
theorem sleeping_retryRun :
    let t := run (retryStep b v) (pullupOn b v s) [.start, .host false, .retryWork]
    t.sleeping = true ∧ t.driver = true ∧ t.udcg = (pullupOn b v s).udcg := by
  set t := run (retryStep b v) (pullupOn b v s) [.start, .host false] with ht
  have hdriver : t.driver = true := rfl
  have hpending : t.pending = true := rfl
  have hretries : t.connectRetries = 0 := rfl
  have hport : t.dev.regs evdcs &&& evdcsPortenablests = 0 := by
    have hwritten : t.dev.regs evdcs
        = (pullupOn b v s).dev.regs evdcs &&& ~~~evdcsPortenablests :=
      Dev.writel_self _ _ _
    rw [hwritten, and_not_self_right]
  have hlast : run (retryStep b v) (pullupOn b v s) [.start, .host false, .retryWork]
      = if t.pending && !t.sleeping then retryWork t else t := rfl
  rw [hlast, hpending]
  cases hsleeping : t.sleeping with
  | true => exact ⟨hsleeping, hdriver, rfl⟩
  | false => exact retryWork_sleeps hdriver hport (by rw [hretries]; decide)

/-- **The retry work** connects the device in the same endpoint map. -/
theorem connected_retryRun :
    let t := run (retryStep b v) (pullupOn b v s) (retryRun v)
    t.dev.regs evdcs &&& evdcsConnect ≠ 0 ∧ t.udcg = (pullupOn b v s).udcg := by
  obtain ⟨hsleeping, hdriver, hsame⟩ := sleeping_retryRun b v s
  set t := run (retryStep b v) (pullupOn b v s) [.start, .host false, .retryWork]
  obtain ⟨hconnect, hkept⟩ := reconnect_connects hdriver
  show (retryStep b v t .reconnect).dev.regs evdcs &&& evdcsConnect ≠ 0 ∧
    (retryStep b v t .reconnect).udcg = (pullupOn b v s).udcg
  rw [retryStep, if_pos hsleeping]
  exact ⟨hconnect, hkept.trans hsame⟩

variable {b v s}

/-- A device that runs out of slots is connected without them. -/
theorem not_failureHarmless_of_failed
    (hnone : ∀ k < maxNumFlexEp, ∀ e, owner (femapRead s.udcg k) ≠ some (v.1, e))
    (hrc : (gxpUdcConnect v (b.fepnum v) s.dev s.udcg).1 = -enodev) :
    ¬FailureHarmless b v s := by
  intro h
  obtain ⟨-, -, -, -, hnever⟩ := h hrc
  obtain ⟨hconnect, hsame⟩ := connected_retryRun b v s
  refine hnever (retryRun v) ⟨hconnect, ?_⟩
  rw [hsame]
  exact not_holds_of_failed v.2 (b.le v) hnone hrc

end Retry

/-- **A failed connect**: for a device that owns no slot, whatever the others own,
connecting has no lasting effect when it fails iff it does not fail, that is, iff there
are as many free slots as the device has endpoints. -/
theorem failureHarmless_iff (b : Board) (v : Fin maxNumVdevice) (s : Udc)
    (hnone : ∀ k < maxNumFlexEp, ∀ e, owner (femapRead s.udcg k) ≠ some (v.1, e)) :
    FailureHarmless b v s ↔ b.fepnum v ≤ (freeSlots s.udcg).card := by
  have hfails := (gxpUdcConnect_rc_iff s.dev s.udcg v.2 (b.le v)).2
  constructor
  · intro h
    by_contra hfew
    exact not_failureHarmless_of_failed hnone (hfails.mpr (Nat.lt_of_not_le hfew)) h
  · intro henough hrc
    exact absurd (hfails.mp hrc) (Nat.not_lt.mpr henough)

private theorem seven_le_perVdev : 7 ≤ maxNumFlexEpPerVdev := by decide

private theorem one_le_seven : 1 ≤ 7 := by decide

/-- Every device has seven flexible endpoints. -/
def sevenEach : Board where
  fepnum := fun _ => 7
  one_le := fun _ => one_le_seven
  le := fun _ => seven_le_perVdev

/-- Device 3, when devices 0 and 1 have been connected: two slots are left. -/
def crowded : Udc where
  dev := .zero
  udcg := (gxpUdcConnect 1 7 .zero (gxpUdcConnect 0 7 .zero fun _ => 0).2.2).2.2
  driver := true
  connectRetries := 0
  pending := false
  sleeping := false

private theorem one_lt_vdevice : 1 < maxNumVdevice := by decide

/-- The slots are those of devices 0 and 1. -/
theorem owner_crowded (k e : ℕ) : owner (femapRead crowded.udcg k) ≠ some (3, e) := by
  intro hown
  have hfirst := (owner_gxpUdcConnect_other .zero _ one_lt_vdevice seven_le_perVdev (by decide) k
    e).mp hown
  have hzero := (owner_gxpUdcConnect_other .zero _ zero_lt_vdevice seven_le_perVdev (by decide) k
    e).mp hfirst
  rw [femapRead_zero, owner_zero] at hzero
  exact absurd hzero.symm (Option.some_ne_none _)

theorem failureHarmless_iff_crowded :
    FailureHarmless sevenEach ⟨3, three_lt_vdevice⟩ crowded ↔ 7 ≤ (freeSlots crowded.udcg).card :=
  failureHarmless_iff sevenEach ⟨3, three_lt_vdevice⟩ crowded fun k _ e => owner_crowded k e

theorem not_failureHarmless_crowded :
    ¬FailureHarmless sevenEach ⟨3, three_lt_vdevice⟩ crowded :=
  not_failureHarmless_of_failed (fun k _ e => owner_crowded k e) rfl

end GxpUdc.Connect
