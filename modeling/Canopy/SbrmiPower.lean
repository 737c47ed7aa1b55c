/-
The package power attributes of the SB-RMI hwmon driver (rmi-i2c, rmi-hwmon).

`power1_cap_max` is read from a cache that the probe fills with the package
maximum.  When the firmware is not ready at the probe the cache stays 0, and the
first read fills it with the current limit instead.

* `capMaxRight_iff` — one read, when the cache is empty or right;
* `capMax_reports_max_iff` — every read of a run reports the package maximum iff no
  read finds the cache empty while the limit is another.
-/
import Canopy.Run
import Mathlib.Data.Int.Notation

namespace Sbrmi

open Run

inductive MailboxCmd where
  | readPkgPwrConsumption
  | readPkgPwrLimit
  | readPkgMaxPwrLimit

/-- What the firmware answers. -/
structure Firmware where
  consumption : UInt32
  pwrLimit : UInt32
  maxPwrLimit : UInt32

/-- `rmi_mailbox_xfer`: an error, or the firmware's value for the command. -/
def rmiMailboxXfer (fw : Firmware) (fault : Option ℤ) (cmd : MailboxCmd) : Except ℤ UInt32 :=
  match fault with
  | some e => .error e
  | none =>
    match cmd with
    | .readPkgPwrConsumption => .ok fw.consumption
    | .readPkgPwrLimit => .ok fw.pwrLimit
    | .readPkgMaxPwrLimit => .ok fw.maxPwrLimit

/-- The driver data of `struct sbrmi_data` that these functions use, and the
firmware. -/
structure SbrmiData where
  pwrLimitMax : UInt32
  fw : Firmware

/-- `sbrmi_get_max_pwr_limit`, its failure ignored by the probe. -/
def sbrmiGetMaxPwrLimit (data : SbrmiData) (fault : Option ℤ) : SbrmiData :=
  match rmiMailboxXfer data.fw fault .readPkgMaxPwrLimit with
  | .error _ => data
  | .ok mbInOut => { data with pwrLimitMax := mbInOut }

/-- The driver after `sbrmi_i2c_probe`, which starts from zeroed data. -/
def sbrmiI2cProbe (fw : Firmware) (fault : Option ℤ) : SbrmiData :=
  sbrmiGetMaxPwrLimit ⟨0, fw⟩ fault

inductive HwmonAttr where
  | powerInput
  | powerCap
  | powerCapMax

/-- The value read, in the firmware's unit. -/
def sbrmiRead (data : SbrmiData) (attr : HwmonAttr) (fault : Option ℤ) :
    Except ℤ UInt32 × SbrmiData :=
  match attr with
  | .powerInput => (rmiMailboxXfer data.fw fault .readPkgPwrConsumption, data)
  | .powerCap => (rmiMailboxXfer data.fw fault .readPkgPwrLimit, data)
  | .powerCapMax =>
    if data.pwrLimitMax = 0 then
      match rmiMailboxXfer data.fw fault .readPkgPwrLimit with
      | .error e => (.error e, data)
      | .ok mbInOut => (.ok mbInOut, { data with pwrLimitMax := mbInOut })
    else (.ok data.pwrLimitMax, data)

/-- The consumption and the current limit change, or an attribute is read. -/
inductive Event where
  | changes (consumption pwrLimit : UInt32)
  | read (attr : HwmonAttr) (fault : Option ℤ)

def step (data : SbrmiData) : Event → SbrmiData
  | .changes consumption pwrLimit =>
    { data with fw := { data.fw with consumption := consumption, pwrLimit := pwrLimit } }
  | .read attr fault => (sbrmiRead data attr fault).2

/-- A successful read of `power1_cap_max` reports `m`. -/
def CapMaxRight (m : UInt32) (data : SbrmiData) : Event → Prop
  | .read .powerCapMax fault => ∀ v, (sbrmiRead data .powerCapMax fault).1 = .ok v → v = m
  | _ => True

/-- No read of `power1_cap_max` gets an answer for an empty cache while the current
limit is not `m`. -/
def LimitAtMax (m : UInt32) (data : SbrmiData) : Event → Prop
  | .read .powerCapMax fault => data.pwrLimitMax = 0 → fault = none → data.fw.pwrLimit = m
  | _ => True

/-- The cache is empty or holds `m`. -/
def CacheRight (m : UInt32) (data : SbrmiData) : Prop :=
  data.pwrLimitMax = 0 ∨ data.pwrLimitMax = m

section Read

variable {m : UInt32} {data : SbrmiData}

private theorem sbrmiRead_cached (h : data.pwrLimitMax ≠ 0) (fault : Option ℤ) :
    sbrmiRead data .powerCapMax fault = (.ok data.pwrLimitMax, data) := by
  rw [sbrmiRead, if_neg h]

private theorem sbrmiRead_empty (h : data.pwrLimitMax = 0) :
    sbrmiRead data .powerCapMax none
      = (.ok data.fw.pwrLimit, { data with pwrLimitMax := data.fw.pwrLimit }) := by
  rw [sbrmiRead, if_pos h]
  rfl

private theorem sbrmiRead_fault (h : data.pwrLimitMax = 0) (e : ℤ) :
    sbrmiRead data .powerCapMax (some e) = (.error e, data) := by
  rw [sbrmiRead, if_pos h]
  rfl

theorem capMaxRight_iff (hcache : CacheRight m data) (e : Event) :
    CapMaxRight m data e ↔ LimitAtMax m data e := by
  cases e with
  | changes consumption pwrLimit => rfl
  | read attr fault =>
    cases attr with
    | powerInput => rfl
    | powerCap => rfl
    | powerCapMax =>
      show (∀ v, (sbrmiRead data .powerCapMax fault).1 = .ok v → _) ↔ _
      -- with the cache empty the chip is asked, else it is not
      by_cases hempty : data.pwrLimitMax = 0
      · cases fault with
        | none =>
          rw [sbrmiRead_empty hempty]
          constructor
          · intro h _ _
            exact h _ rfl
          · intro h v hv
            rw [← h hempty rfl]
            exact (Except.ok.inj hv).symm
        | some err =>
          rw [sbrmiRead_fault hempty]
          constructor
          · rintro - - ⟨⟩
          · rintro - v ⟨⟩
      · rw [sbrmiRead_cached hempty]
        have hmax := hcache.resolve_left hempty
        constructor
        · intro _ h
          exact absurd h hempty
        · intro _ v hv
          rw [← hmax]
          exact (Except.ok.inj hv).symm

theorem cacheRight_step (hcache : CacheRight m data) (e : Event)
    (hright : CapMaxRight m data e) : CacheRight m (step data e) := by
  cases e with
  | changes consumption pwrLimit => exact hcache
  | read attr fault =>
    cases attr with
    | powerInput => exact hcache
    | powerCap => exact hcache
    | powerCapMax =>
      rw [step]
      by_cases hempty : data.pwrLimitMax = 0
      · cases fault with
        | none =>
          -- only this read fills the cache
          have hlimit : data.fw.pwrLimit = m :=
            (capMaxRight_iff hcache _).mp hright hempty rfl
          rw [sbrmiRead_empty hempty]
          exact .inr hlimit
        | some err =>
          rw [sbrmiRead_fault hempty]
          exact hcache
      · rw [sbrmiRead_cached hempty]
        exact hcache

end Read

private theorem cacheRight_probe (fw : Firmware) (fault : Option ℤ) :
    CacheRight fw.maxPwrLimit (sbrmiI2cProbe fw fault) := by
  cases fault with
  | none => exact .inr rfl
  | some e => exact .inl rfl

/-- **The reported maximum**: in a run every successful read of `power1_cap_max`
reports the package maximum iff none is answered with the current limit, the cache
being empty, while that is another. -/
theorem capMax_reports_max_iff (fw : Firmware) (fault : Option ℤ) (es : List Event) :
    (∀ v ∈ visits step (sbrmiI2cProbe fw fault) es, CapMaxRight fw.maxPwrLimit v.1 v.2) ↔
      ∀ v ∈ visits step (sbrmiI2cProbe fw fault) es, LimitAtMax fw.maxPwrLimit v.1 v.2 :=
  forall_visits_iff (I := CacheRight fw.maxPwrLimit)
    (fun _ e hcache hright => cacheRight_step hcache e hright)
    (fun _ e hcache => capMaxRight_iff hcache e) (cacheRight_probe fw fault)

/-- A firmware with a limit of 200 W under a package maximum of 400 W. -/
def limitedFirmware : Firmware := ⟨50000, 200000, 400000⟩

/-- It is not ready at the probe and answers the first read. -/
theorem not_capMaxRight_lateFirmware :
    ¬∀ v ∈ visits step (sbrmiI2cProbe limitedFirmware (some (-71))) [.read .powerCapMax none],
      CapMaxRight limitedFirmware.maxPwrLimit v.1 v.2 := by
  intro h
  exact absurd (h _ (.head _) 200000 rfl) (by decide)

end Sbrmi
