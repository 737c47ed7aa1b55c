/-
The host boot gate of the GXP power controller (gxp-power-ctrl).

Presses of the power button, PGOOD interrupts, the initial configuration and
ResetOut run as threads that interleave access by access; nothing locks the
byte registers they share.

* `leaves_body` — a call that finds PGOOD low writes RELEASE and bit 3 last;
* `quiet_or_leaves_body` — every other call does so too, or writes neither;
* `boot_gate_released` — so the gate is never left held.
-/
import Canopy.RegThreads
import Mathlib.Data.Int.Notation

namespace GxpPowerCtrl

open Run RegThreads

/-! ### The registers -/

/-- The registers the driver accesses, and the FN2 line it drives. -/
inductive Reg where
  | xreg (offset : ℕ)
  | csm (offset : ℕ)
  | espi (offset : ℕ)
  | vpbtn
  deriving DecidableEq

/-- The XREG and CSM registers, and the reset register of the eSPI controller. -/
def xregBootControl : Reg := .xreg 0x09
def xregPsuEnable : Reg := .xreg 0x41
def xregPowerState : Reg := .xreg 0x4b
def xregFlashSelect : Reg := .xreg 0x119
def xregSocRelease : Reg := .xreg 0x11a
def csmAsrstat : Reg := .csm 0x5c
def csmAsrestat : Reg := .csm 0x5d
def csmShutdownReason : Reg := .csm 0x74
def gxpEspiOobCtrl : Reg := .espi 0x1040

/-- The values written to them. -/
def xregBootControlRelease : UInt8 := 0x24
def xregBootControlHold : UInt8 := 0x00
def xregFlashSelectUefiEv : UInt8 := 0x5d
def xregSocReleaseBit : UInt8 := 1 <<< (3 : UInt8)
def csmAsrestatSwReset : UInt8 := 1 <<< (7 : UInt8)
def gxpEspiOobReset : UInt32 := 0x00060001

/-- A sequence of register accesses of the driver. -/
abbrev Accesses := Prog Reg UInt32

/-- `writeb`, and what follows. -/
def writeb (v : UInt8) (r : Reg) (rest : Accesses) : Accesses := .write r v.toUInt32 rest

/-- `readb`, and what follows. -/
def readb (r : Reg) (k : UInt8 → Accesses) : Accesses := .read r fun v => k v.toUInt8

/-! ### The driver -/

/-- The lines of the GPIO chip that can be set. -/
def powerCtrlPowerButton : ℕ := 0
def powerCtrlResetOut : ℕ := 2

/-- Whether the platform has an eSPI controller. -/
structure PowerCtrl where
  espiMap : Bool

variable (pctrl : PowerCtrl)

/-- `gxp_power_ctrl_prepare_boot`: select the UEFI flash, release the SoC and the boot gate. -/
def prepareBoot : Accesses :=
  writeb xregFlashSelectUefiEv xregFlashSelect <|
  readb xregSocRelease fun val =>
  writeb (val ||| xregSocReleaseBit) xregSocRelease <|
  Prog.seq (if pctrl.espiMap then .write gxpEspiOobCtrl gxpEspiOobReset .done else .done) <|
  writeb xregBootControlRelease xregBootControl <|
  writeb 0x00 csmShutdownReason .done

/-- `gxp_power_ctrl_shutdown_ack`: hold the boot gate, and release the SoC anew. -/
def shutdownAck : Accesses :=
  writeb xregBootControlHold xregBootControl <|
  writeb 0x00 xregSocRelease <|
  readb xregSocRelease fun val =>
  writeb (val ||| xregSocReleaseBit) xregSocRelease .done

/-- `gxp_power_ctrl_rearm_boot_gate`: release the SoC and the boot gate. -/
def rearmBootGate : Accesses :=
  readb xregSocRelease fun val =>
  writeb (val ||| xregSocReleaseBit) xregSocRelease <|
  writeb xregBootControlRelease xregBootControl .done

/-- `gxp_power_ctrl_init_platform`; `pgood` is what `gpiod_get_value` returns. -/
def initPlatform (pgood : ℤ) : Accesses :=
  if pgood > 0 then .done
  else
    writeb 0xff xregPsuEnable <|
    writeb 0x08 xregPowerState (prepareBoot pctrl)

/-- `gxp_power_ctrl_set`; `pgood` is what `gpiod_get_value` returns. -/
def powerCtrlSet (offset : ℕ) (value pgood : ℤ) : Accesses :=
  if offset = powerCtrlPowerButton then
    if value ≠ 0 then
      Prog.seq (if pgood ≤ 0 then prepareBoot pctrl else .done) (.write .vpbtn 1 .done)
    else .write .vpbtn 0 .done
  else if offset = powerCtrlResetOut then
    if value ≠ 0 then
      writeb 0x00 csmAsrstat <| writeb csmAsrestatSwReset csmAsrestat .done
    else writeb 0x00 csmAsrestat .done
  else .done

/-- The accesses of `gxp_power_ctrl_pgood_irq`, before it forwards the event. -/
def pgoodIrq (pgood : ℤ) : Accesses :=
  if pgood ≤ 0 then shutdownAck.seq rearmBootGate else .done

/-- What starts a thread. -/
inductive Call where
  | set (offset : ℕ) (value pgood : ℤ)
  | pgoodIrq (pgood : ℤ)
  | initPlatform (pgood : ℤ)

/-- The accesses of the thread. -/
def Call.body : Call → Accesses
  | set offset value pgood => powerCtrlSet pctrl offset value pgood
  | pgoodIrq pgood => GxpPowerCtrl.pgoodIrq pgood
  | initPlatform pgood => GxpPowerCtrl.initPlatform pctrl pgood

/-- A power-button press or a PGOOD interrupt that finds PGOOD low. -/
def Call.PgoodLow : Call → Prop
  | set offset value pgood => offset = powerCtrlPowerButton ∧ value ≠ 0 ∧ pgood ≤ 0
  | pgoodIrq pgood => pgood ≤ 0
  | initPlatform _ => False

/-! ### The last values written -/

/-- The boot gate is released. -/
def Released (v : UInt32) : Prop := v = xregBootControlRelease.toUInt32

/-- Bit 3 is set. -/
def SocReleased (v : UInt32) : Prop := v.toBitVec.getLsbD 3 = true

private theorem socReleased_or (val : UInt8) :
    SocReleased (val ||| xregSocReleaseBit).toUInt32 := by
  have hbit : xregSocReleaseBit.toBitVec.getLsbD 3 = true := by decide
  rw [SocReleased, UInt8.toBitVec_toUInt32, BitVec.getLsbD_setWidth, UInt8.toBitVec_or,
    BitVec.getLsbD_or, hbit]
  simp

private theorem quiet_espiReset {r : Reg} (h : gxpEspiOobCtrl ≠ r) :
    Prog.Quiet r (if pctrl.espiMap then Prog.write gxpEspiOobCtrl gxpEspiOobReset .done
      else .done) := by
  split
  · exact .write h .done
  · exact .done

/-- `prepare_boot` releases the gate, then only clears the shutdown reason. -/
theorem leaves_prepareBoot_bootControl :
    (prepareBoot pctrl).Leaves xregBootControl Released := by
  refine .write (.read fun _ => .write (Prog.leaves_seq _ ?_))
  exact .last rfl (.write (by decide) .done)

private theorem leaves_prepareBoot_socRelease :
    (prepareBoot pctrl).Leaves xregSocRelease SocReleased := by
  refine .write (.read fun val => .last (socReleased_or _) ?_)
  refine Prog.quiet_seq (quiet_espiReset pctrl (by decide)) ?_
  exact .write (by decide) (.write (by decide) .done)

private theorem leaves_rearmBootGate_bootControl : rearmBootGate.Leaves xregBootControl Released :=
  .read fun _ => .write (.last rfl .done)

private theorem leaves_rearmBootGate_socRelease : rearmBootGate.Leaves xregSocRelease SocReleased :=
  .read fun _ => .last (socReleased_or _) (.write (by decide) .done)

/-! ### Every call -/

section Calls

variable {r : Reg} {P : UInt32 → Prop}
variable (hboot : (prepareBoot pctrl).Leaves r P) (hrearm : rearmBootGate.Leaves r P)
include hboot hrearm

/-- The paths that find PGOOD low leave what `prepare_boot` and
`rearm_boot_gate` leave. -/
theorem leaves_body {c : Call} (hc : c.PgoodLow) (hvpbtn : Reg.vpbtn ≠ r) :
    (c.body pctrl).Leaves r P := by
  cases c with
  | set offset value pgood =>
    obtain ⟨hoffset, hvalue, hpgood⟩ := hc
    show (powerCtrlSet pctrl offset value pgood).Leaves r P
    rw [powerCtrlSet, if_pos hoffset, if_pos hvalue, if_pos hpgood]
    exact Prog.leaves_seq_quiet hboot (.write hvpbtn .done)
  | pgoodIrq pgood =>
    have hpgood : pgood ≤ 0 := hc
    show (pgoodIrq pgood).Leaves r P
    rw [pgoodIrq, if_pos hpgood]
    exact Prog.leaves_seq _ hrearm
  | initPlatform pgood => exact absurd hc id

/-- The others leave it alone, or right too. -/
theorem quiet_or_leaves_body (hvpbtn : Reg.vpbtn ≠ r) (hasrstat : csmAsrstat ≠ r)
    (hasrestat : csmAsrestat ≠ r) (c : Call) :
    (c.body pctrl).Quiet r ∨ (c.body pctrl).Leaves r P := by
  cases c with
  | set offset value pgood =>
    by_cases hlow : (Call.set offset value pgood).PgoodLow
    · exact .inr (leaves_body pctrl hboot hrearm hlow hvpbtn)
    · refine .inl ?_
      show (powerCtrlSet pctrl offset value pgood).Quiet r
      rw [powerCtrlSet]
      split
      · next hoffset =>
        split
        · next hvalue =>
          -- a press with PGOOD high
          rw [if_neg fun hpgood => hlow ⟨hoffset, hvalue, hpgood⟩]
          exact .write hvpbtn .done
        · exact .write hvpbtn .done
      · split
        · split
          · exact .write hasrstat (.write hasrestat .done)
          · exact .write hasrestat .done
        · exact .done
  | pgoodIrq pgood =>
    by_cases hlow : pgood ≤ 0
    · exact .inr (leaves_body pctrl hboot hrearm (c := .pgoodIrq pgood) hlow hvpbtn)
    · refine .inl ?_
      show (pgoodIrq pgood).Quiet r
      rw [pgoodIrq, if_neg hlow]
      exact .done
  | initPlatform pgood =>
    show (initPlatform pctrl pgood).Quiet r ∨ (initPlatform pctrl pgood).Leaves r P
    rw [initPlatform]
    split
    · exact .inl .done
    · exact .inr (.write (.write hboot))

/-- One register, for every interleaving. -/
theorem regs_released (hvpbtn : Reg.vpbtn ≠ r) (hasrstat : csmAsrstat ≠ r)
    (hasrestat : csmAsrestat ≠ r) (regs : Reg → UInt32) {es : List (Event Call)} {c : Call}
    (hc : .start c ∈ es) (hlow : c.PgoodLow)
    (hidle : (run (step (Call.body pctrl)) (.fresh regs) es).idle = true) :
    P ((run (step (Call.body pctrl)) (.fresh regs) es).regs r) :=
  regs_of_idle (quiet_or_leaves_body pctrl hboot hrearm hvpbtn hasrstat hasrestat) regs hc
    (leaves_body pctrl hboot hrearm hlow hvpbtn) hidle

end Calls

/-- **The boot gate is never left held**: whatever the registers held, and however
the accesses of any number of presses, interrupts and other calls interleave, once
one that found PGOOD low has run and none is in progress the gate is released and
bit 3 of the SoC release byte is set. -/
theorem boot_gate_released (regs : Reg → UInt32) (es : List (Event Call)) {c : Call}
    (hc : .start c ∈ es) (hlow : c.PgoodLow)
    (hidle : (run (step (Call.body pctrl)) (.fresh regs) es).idle = true) :
    let s := run (step (Call.body pctrl)) (.fresh regs) es
    s.regs xregBootControl = xregBootControlRelease.toUInt32 ∧
      (s.regs xregSocRelease).toBitVec.getLsbD 3 = true := by
  refine ⟨?_, ?_⟩
  · exact regs_released pctrl (leaves_prepareBoot_bootControl pctrl)
      leaves_rearmBootGate_bootControl (by decide) (by decide) (by decide) regs hc hlow hidle
  · exact regs_released pctrl (leaves_prepareBoot_socRelease pctrl)
      leaves_rearmBootGate_socRelease (by decide) (by decide) (by decide) regs hc hlow hidle

/-- A press while a PGOOD interrupt runs: the interrupt has held the gate and
cleared the SoC release byte when the press makes all its accesses. -/
def pressDuringInterrupt : List (Event Call) :=
  [.start (.pgoodIrq 0), .access 0, .access 0, .start (.set powerCtrlPowerButton 1 0)]
    ++ List.replicate 7 (.access 1) ++ List.replicate 5 (.access 0)

theorem boot_gate_released_pressDuringInterrupt :
    let s := run (step (Call.body ⟨true⟩)) (.fresh fun _ => 0) pressDuringInterrupt
    s.regs xregBootControl = xregBootControlRelease.toUInt32 ∧
      (s.regs xregSocRelease).toBitVec.getLsbD 3 = true :=
  boot_gate_released ⟨true⟩ (fun _ => 0) pressDuringInterrupt (c := .pgoodIrq 0)
    (.head _) (Int.le_refl 0) (by decide)

end GxpPowerCtrl
