/-
Connecting and disconnecting a virtual USB device (`gxp_udc_connect`,
`gxp_udc_disconnect`).

* `gxpUdcConnect_rc_iff` — connecting succeeds iff there are enough free slots;
* `holdsAll_step` — each device owns the slots of its endpoints while connected;
* `flexible_endpoint_ownership` — any order of devices coming and going.
-/
import Canopy.FlexEndpoints
import Canopy.Run
import Mathlib.Data.Int.Notation

namespace GxpUdc.Connect

open Flex ByteLanes Run

/-- Registers of a virtual device. -/
def evdistat : ℕ := 0x0000
def evdien : ℕ := 0x0004
def evdcs : ℕ := 0x0008
/-- `ep[0].base`, from the base of the device -/
def ep0Base : ℕ := 0x20
/-- Registers of an endpoint, from its base. -/
def evdepcc : ℕ := 0x0000
def evdepsts : ℕ := 0x0004
def evdepevten : ℕ := 0x0008

/-- Bits of the registers of a virtual device. -/
def evdistatMask : BitVec 32 := 0x00010000 ||| 0x00100000 ||| 0x80000000 ||| 0x000000ff
def evdienMask : BitVec 32 := 0x00010000 ||| 0x00100000 ||| 0x80000000 ||| 0x00000001
def evdcsConnect : BitVec 32 := 0x00000001
def evdcsPortenablests : BitVec 32 := 0x01000000

/-- Bits of the registers of an endpoint. -/
def evdepccEpenable : BitVec 32 := 0x00000001
def evdepccCfginout : BitVec 32 := 0x00000002
def evdepccTxnPerUframeMask : BitVec 32 := 0x00030000
def evdepccEpTypeMask : BitVec 32 := 0x000c0000
def evdepccEpSizeMask : BitVec 32 := 0x00700000
def evdepstsAll : BitVec 32 := 0x00000001 ||| 0x00000002 ||| 0x00000004
def evdepevtenAll : BitVec 32 := 0x00000001 ||| 0x00000002 ||| 0x00000004

/-- `ENODEV`. -/
def enodev : ℤ := 19

/-- `USB_ENDPOINT_XFER_CONTROL` and so on. -/
inductive XferType where
  | control
  | isoc
  | bulk
  | int
  deriving DecidableEq

/-- `EVDEPCC_EP_TYPE`: the type of the endpoint, before it is shifted into place. -/
def evdepccEpType : XferType → BitVec 32
  | .control => 0
  | .isoc => 3
  | .bulk => 1
  | .int => 2

/-- `EVDEPCC_EP_SIZE`: the code of a maximal packet size. -/
def evdepccEpSize (value : ℕ) : BitVec 32 :=
  match value with
  | 8 => 0
  | 16 => 1
  | 32 => 2
  | 64 => 3
  | 128 => 4
  | 256 => 5
  | 512 => 6
  | _ => 7

/-- The registers of a virtual device, and what `gxp_udc_ep_init` stores for
endpoint 0. -/
structure Dev where
  regs : ℕ → BitVec 32
  isIn : Bool
  type : XferType
  maxpacket : ℕ

/-- `writel` to a register of the device. -/
def Dev.writel (d : Dev) (a : ℕ) (v : BitVec 32) : Dev :=
  { d with regs := Function.update d.regs a v }

theorem Dev.writel_self (d : Dev) (a : ℕ) (v : BitVec 32) : (d.writel a v).regs a = v := by
  show Function.update d.regs a v a = v
  rw [Function.update_self]

/-- `gxp_udc_ep_init` for endpoint 0. -/
def ep0Init (type : XferType) (dirIn : Bool) (size : ℕ) (d : Dev) : Dev :=
  let d := { d with isIn := dirIn, type := type, maxpacket := size }
  let val := d.regs (ep0Base + evdepcc)
  let val := if dirIn then val ||| evdepccCfginout else val &&& ~~~evdepccCfginout
  let val := (val &&& ~~~evdepccEpTypeMask) ||| (evdepccEpType type <<< 18)
  let val := (val &&& ~~~evdepccEpSizeMask) ||| (evdepccEpSize size <<< 20)
  let val := val &&& ~~~evdepccTxnPerUframeMask
  let val := if type = .int ∨ type = .isoc then val ||| (1 <<< 16) else val
  let d := d.writel (ep0Base + evdepcc) (val ||| evdepccEpenable)
  let d := d.writel (ep0Base + evdepsts) (d.regs (ep0Base + evdepsts) &&& ~~~evdepstsAll)
  d.writel (ep0Base + evdepevten) (d.regs (ep0Base + evdepevten) ||| evdepevtenAll)

/-- `regmap_update_bits` of a shared register. -/
def updateBits (u : Udcg) (a : ℕ) (mask val : BitVec 32) : Udcg :=
  Function.update u a ((u a &&& ~~~mask) ||| (val &&& mask))

/-- `gxp_udc_connect` up to the allocation of flexible endpoints: the device. -/
def enableDev (d : Dev) : Dev :=
  let d := d.writel evdistat (d.regs evdistat ||| evdistatMask)
  let d := ep0Init .control true 64 d
  d.writel evdien (d.regs evdien ||| evdienMask)

/-- The device's interrupt in EVGIEN. -/
def enableGroup (vdevnum : ℕ) (u : Udcg) : Udcg :=
  updateBits u evgien (BitVec.twoPow 32 vdevnum) (BitVec.twoPow 32 vdevnum)

/-- `gxp_udc_connect`: return value, device and shared registers. -/
def gxpUdcConnect (vdevnum fepnum : ℕ) (d : Dev) (u : Udcg) : ℤ × Dev × Udcg :=
  let d := enableDev d
  let u := enableGroup vdevnum u
  match claimEndpoints vdevnum (List.range' 1 fepnum) u with
  | (false, u) => (-enodev, d, u)
  | (true, u) => (0, d.writel evdcs (d.regs evdcs ||| evdcsConnect), u)

/-- `gxp_udc_disconnect`. -/
def gxpUdcDisconnect (vdevnum : ℕ) (d : Dev) (u : Udcg) : Dev × Udcg :=
  let d := d.writel evdien (d.regs evdien &&& ~~~evdienMask)
  let u := updateBits u evgien (BitVec.twoPow 32 vdevnum) 0
  let d := d.writel evdcs (d.regs evdcs &&& ~~~evdcsConnect)
  (d, releaseEndpoints vdevnum u)

/-! ### One call -/

private theorem enodev_ne : (0 : ℤ) ≠ -enodev := by decide

theorem femapRead_updateBits (u : Udcg) (mask val : BitVec 32) :
    femapRead (updateBits u evgien mask val) = femapRead u :=
  laneRead_update_of_lt u (by decide) _

theorem freeSlots_updateBits (u : Udcg) (mask val : BitVec 32) :
    freeSlots (updateBits u evgien mask val) = freeSlots u := by
  rw [freeSlots, freeSlots, femapRead_updateBits]

section Connect

variable {v n : ℕ} (d : Dev) (u : Udcg)

private theorem gxpUdcConnect_of_claimed
    (h : (claimEndpoints v (List.range' 1 n) (enableGroup v u)).1 = true) :
    gxpUdcConnect v n d u
      = (0, (enableDev d).writel evdcs ((enableDev d).regs evdcs ||| evdcsConnect),
        (claimEndpoints v (List.range' 1 n) (enableGroup v u)).2) := by
  rw [gxpUdcConnect]
  generalize claimEndpoints v (List.range' 1 n) (enableGroup v u) = r at h
  obtain ⟨ok, u'⟩ := r
  subst h
  rfl

theorem gxpUdcConnect_of_not_claimed
    (h : (claimEndpoints v (List.range' 1 n) (enableGroup v u)).1 = false) :
    gxpUdcConnect v n d u
      = (-enodev, enableDev d, (claimEndpoints v (List.range' 1 n) (enableGroup v u)).2) := by
  rw [gxpUdcConnect]
  generalize claimEndpoints v (List.range' 1 n) (enableGroup v u) = r at h
  obtain ⟨ok, u'⟩ := r
  subst h
  rfl

/-- Claiming goes on in the same registers either way. -/
theorem gxpUdcConnect_udcg (v n : ℕ) : (gxpUdcConnect v n d u).2.2
    = (claimEndpoints v (List.range' 1 n) (enableGroup v u)).2 := by
  cases h : (claimEndpoints v (List.range' 1 n) (enableGroup v u)).1 with
  | true => rw [gxpUdcConnect_of_claimed d u h]
  | false => rw [gxpUdcConnect_of_not_claimed d u h]

theorem gxpUdcConnect_rc (v n : ℕ) :
    ((gxpUdcConnect v n d u).1 = 0 ↔
      (claimEndpoints v (List.range' 1 n) (enableGroup v u)).1 = true) ∧
    ((gxpUdcConnect v n d u).1 = -enodev ↔
      (claimEndpoints v (List.range' 1 n) (enableGroup v u)).1 = false) := by
  cases h : (claimEndpoints v (List.range' 1 n) (enableGroup v u)).1 with
  | true =>
    rw [gxpUdcConnect_of_claimed d u h]
    exact ⟨⟨fun _ => rfl, fun _ => rfl⟩, ⟨fun hrc => absurd hrc enodev_ne, fun hf => by cases hf⟩⟩
  | false =>
    rw [gxpUdcConnect_of_not_claimed d u h]
    exact ⟨⟨fun hrc => absurd hrc.symm enodev_ne, fun hf => by cases hf⟩,
      ⟨fun _ => rfl, fun _ => rfl⟩⟩

variable (hv : v < maxNumVdevice) (hn : n ≤ maxNumFlexEpPerVdev)
include hv hn

/-- **Connecting succeeds** iff enough slots are free. -/
theorem gxpUdcConnect_rc_iff :
    ((gxpUdcConnect v n d u).1 = 0 ↔ n ≤ (freeSlots u).card) ∧
    ((gxpUdcConnect v n d u).1 = -enodev ↔ (freeSlots u).card < n) := by
  have hclaim := (claimEndpoints_iff hv (n := 0) (c := n) (by omega) (enableGroup v u)).1
  have hsame : freeSlots (enableGroup v u) = freeSlots u := freeSlots_updateBits u _ _
  rw [hsame] at hclaim
  rw [(gxpUdcConnect_rc d u v n).1, (gxpUdcConnect_rc d u v n).2, ← Bool.not_eq_true]
  refine ⟨hclaim, ?_⟩
  rw [show ((claimEndpoints v (List.range' 1 n) (enableGroup v u)).1 = true ↔ _) from hclaim]
  exact Nat.not_le

omit hn in
/-- Slots of other devices are not claimed. -/
theorem owner_gxpUdcConnect_other (hn : n ≤ maxNumFlexEpPerVdev) {w : ℕ} (hw : w ≠ v)
    (k e : ℕ) : owner (femapRead (gxpUdcConnect v n d u).2.2 k) = some (w, e)
      ↔ owner (femapRead u k) = some (w, e) := by
  rw [gxpUdcConnect_udcg]
  have hother := owner_claimEndpoints_other hv (n := 0) (c := n) (by omega) (enableGroup v u) hw k e
  rw [enableGroup, femapRead_updateBits] at hother
  exact hother

private theorem holds_gxpUdcConnect (h : Holds (femapRead u) v 0)
    (hrc : (gxpUdcConnect v n d u).1 = 0) :
    Holds (femapRead (gxpUdcConnect v n d u).2.2) v n := by
  rw [gxpUdcConnect_udcg]
  have hclaimed := (gxpUdcConnect_rc d u v n).1.mp hrc
  have hstart : Holds (femapRead (enableGroup v u)) v 0 := by
    rw [enableGroup, femapRead_updateBits]
    exact h
  have hheld := holds_claimEndpoints hv (n := 0) (c := n) (by omega) hstart hclaimed
  rwa [Nat.zero_add n] at hheld

end Connect

section Disconnect

variable {v : ℕ} (hv : v < maxNumVdevice) (d : Dev) (u : Udcg)
include hv

/-- **Disconnecting** leaves the slots of other devices as they are. -/
theorem femapRead_gxpUdcDisconnect_other {w e k : ℕ} (hw : w ≠ v)
    (hown : owner (femapRead u k) = some (w, e)) :
    femapRead (gxpUdcDisconnect v d u).2 k = femapRead u k := by
  have hsame := femapRead_updateBits u (BitVec.twoPow 32 v) 0
  rw [gxpUdcDisconnect, femapRead_releaseEndpoints_other hv _ hw (by rwa [hsame]), hsame]

private theorem owner_gxpUdcDisconnect_other {w : ℕ} (hw : w ≠ v) (k e : ℕ) :
    owner (femapRead (gxpUdcDisconnect v d u).2 k) = some (w, e)
      ↔ owner (femapRead u k) = some (w, e) := by
  rw [gxpUdcDisconnect, owner_releaseEndpoints_other hv _ hw, femapRead_updateBits]

private theorem holds_gxpUdcDisconnect : Holds (femapRead (gxpUdcDisconnect v d u).2) v 0 :=
  holds_releaseEndpoints hv _

end Disconnect

/-! ### Devices coming and going -/

/-- The flexible endpoints each virtual device asks for (`hpe,num-flex-endpoints`). -/
structure Board where
  fepnum : Fin maxNumVdevice → ℕ
  one_le : ∀ v, 1 ≤ fepnum v
  le : ∀ v, fepnum v ≤ maxNumFlexEpPerVdev

/-- The virtual devices, the registers they share, and which of them are connected. -/
structure System where
  dev : Fin maxNumVdevice → Dev
  udcg : Udcg
  connected : Fin maxNumVdevice → Bool

/-- No device is connected yet. -/
def System.start (dev : Fin maxNumVdevice → Dev) (udcg : Udcg) : System :=
  ⟨dev, udcg, fun _ => false⟩

/-- What the gadget core asks of a device. -/
inductive Event where
  | connect (v : Fin maxNumVdevice)
  | disconnect (v : Fin maxNumVdevice)

section Runs

variable (b : Board)

/-- `gxp_udc_connect` for the device `v` of the board. -/
def System.connect (s : System) (v : Fin maxNumVdevice) : ℤ × Dev × Udcg :=
  gxpUdcConnect v (b.fepnum v) (s.dev v) s.udcg

/-- One call, whatever it returns. -/
def step (s : System) : Event → System
  | .connect v =>
    { dev := Function.update s.dev v (s.connect b v).2.1
      udcg := (s.connect b v).2.2
      connected := Function.update s.connected v true }
  | .disconnect v =>
    { dev := Function.update s.dev v (gxpUdcDisconnect v (s.dev v) s.udcg).1
      udcg := (gxpUdcDisconnect v (s.dev v) s.udcg).2
      connected := Function.update s.connected v false }

/-- Connects and disconnects of a device alternate, and every connect returns 0. -/
def Orderly (s : System) : Event → Prop
  | .connect v => s.connected v = false ∧ (s.connect b v).1 = 0
  | .disconnect v => s.connected v = true

/-- The endpoints a device has slots for. -/
def System.held (s : System) (v : Fin maxNumVdevice) : ℕ :=
  if s.connected v then b.fepnum v else 0

/-- Each device owns what it is to own. -/
def HoldsAll (s : System) : Prop := ∀ v : Fin maxNumVdevice, Holds (femapRead s.udcg) v (s.held b v)

/-- Who owns which slots, what a disconnect changes and when a connect fails. -/
structure Ownership (s : System) : Prop where
  slot_unique : ∀ k v e v' e', owner (femapRead s.udcg k) = some (v, e) →
    owner (femapRead s.udcg k) = some (v', e') → v = v' ∧ e = e'
  connected_owns : ∀ v : Fin maxNumVdevice, s.connected v = true → ∀ e, 1 ≤ e → e ≤ b.fepnum v →
    ∃! k, k < maxNumFlexEp ∧ owner (femapRead s.udcg k) = some (v.1, e)
  connected_owns_only : ∀ v : Fin maxNumVdevice, s.connected v = true → ∀ k < maxNumFlexEp,
    ∀ e, owner (femapRead s.udcg k) = some (v.1, e) → 1 ≤ e ∧ e ≤ b.fepnum v
  disconnected_owns_none : ∀ v : Fin maxNumVdevice, s.connected v = false → ∀ k < maxNumFlexEp,
    ∀ e, owner (femapRead s.udcg k) ≠ some (v.1, e)
  disconnect_frame : ∀ v : Fin maxNumVdevice, ∀ k < maxNumFlexEp, ∀ w ≠ v.1, ∀ e,
    owner (femapRead s.udcg k) = some (w, e) →
      femapRead (gxpUdcDisconnect v (s.dev v) s.udcg).2 k = femapRead s.udcg k
  connect_fails : ∀ v : Fin maxNumVdevice, (s.connect b v).1 = -enodev →
    (freeSlots s.udcg).card < b.fepnum v

variable {b}

private theorem held_of_ne {s s' : System} {v w : Fin maxNumVdevice} {c : Bool} (hw : w ≠ v)
    (h : s'.connected = Function.update s.connected v c) : s'.held b w = s.held b w := by
  rw [System.held, System.held, h, Function.update_of_ne hw]

/-- **One connect or disconnect** of one device. -/
theorem holdsAll_step {s : System} (h : HoldsAll b s) (e : Event) (horder : Orderly b s e) :
    HoldsAll b (step b s e) := by
  intro w
  cases e with
  | connect v =>
    by_cases hw : w = v
    · subst hw
      have hheld : (step b s (.connect w)).held b w = b.fepnum w := by
        show (if Function.update s.connected w true w then _ else _) = _
        rw [Function.update_self]
        rfl
      -- the device owns no slot before, and gets one for each endpoint
      have hnone := h w
      rw [System.held, horder.1] at hnone
      rw [hheld]
      exact holds_gxpUdcConnect (s.dev w) s.udcg w.2 (b.le w) hnone horder.2
    · rw [held_of_ne (s := s) hw rfl]
      refine (holds_congr fun k e => ?_).mpr (h w)
      exact owner_gxpUdcConnect_other (s.dev v) s.udcg v.2 (b.le v) (Fin.val_ne_of_ne hw) k e
  | disconnect v =>
    by_cases hw : w = v
    · subst hw
      have hheld : (step b s (.disconnect w)).held b w = 0 := by
        show (if Function.update s.connected w false w then _ else _) = _
        rw [Function.update_self]
        rfl
      rw [hheld]
      exact holds_gxpUdcDisconnect w.2 (s.dev w) s.udcg
    · rw [held_of_ne (s := s) hw rfl]
      refine (holds_congr fun k e => ?_).mpr (h w)
      exact owner_gxpUdcDisconnect_other v.2 (s.dev v) s.udcg (Fin.val_ne_of_ne hw) k e

private theorem ownership_of_holdsAll {s : System} (h : HoldsAll b s) : Ownership b s where
  slot_unique := by
    intro k v e v' e' hown hown'
    exact Prod.ext_iff.mp (Option.some.inj (hown.symm.trans hown'))
  connected_owns := by
    intro v hconn
    have hv := h v
    rw [System.held, hconn] at hv
    exact hv.unique
  connected_owns_only := by
    intro v hconn
    have hv := h v
    rw [System.held, hconn] at hv
    exact hv.range
  disconnected_owns_none := by
    intro v hconn k hk e hown
    have hv := h v
    rw [System.held, hconn] at hv
    have := hv.range k hk e hown
    simp only [Bool.false_eq_true, if_false] at this
    omega
  disconnect_frame := fun v k _ w hw e hown =>
    femapRead_gxpUdcDisconnect_other v.2 (s.dev v) s.udcg hw hown
  connect_fails := fun v hrc =>
    (gxpUdcConnect_rc_iff (s.dev v) s.udcg v.2 (b.le v)).2.mp hrc

private theorem holdsAll_start (dev : Fin maxNumVdevice → Dev) {u : Udcg}
    (hzero : ∀ k < maxNumFlexEp, femapRead u k = 0) : HoldsAll b (.start dev u) := by
  intro v
  refine ⟨fun e he hle => absurd (he.trans hle) (Nat.not_succ_le_zero 0), fun k hk e hown => ?_⟩
  have hslot : femapRead (System.start dev u).udcg k = 0 := hzero k hk
  rw [hslot, owner_zero] at hown
  exact absurd hown.symm (Option.some_ne_none _)

end Runs

/-- **Flexible endpoint ownership**: after any connects and disconnects of the virtual
devices, alternating for each and every connect returning 0, each device owns one slot
for each of its endpoints while it is connected and none otherwise. -/
theorem flexible_endpoint_ownership (b : Board) (dev : Fin maxNumVdevice → Dev) (u : Udcg)
    (hzero : ∀ k < maxNumFlexEp, femapRead u k = 0) (es : List Event)
    (horder : ∀ p ∈ visits (step b) (.start dev u) es, Orderly b p.1 p.2) :
    Ownership b (run (step b) (.start dev u) es) :=
  ownership_of_holdsAll
    (run_invariant_of_visits (I := HoldsAll b) (fun _ e h ho => holdsAll_step h e ho)
      (holdsAll_start dev hzero) horder)

private theorem two_le_perVdev : 2 ≤ maxNumFlexEpPerVdev := by decide

/-- Every device has two flexible endpoints. -/
def twoEach : Board where
  fepnum := fun _ => 2
  one_le := fun _ => Nat.le_succ 1
  le := fun _ => two_le_perVdev

/-- Registers that hold 0. -/
def Dev.zero : Dev := ⟨fun _ => 0, false, .control, 0⟩

theorem femapRead_zero (k : ℕ) : femapRead (fun _ => 0) k = 0 := by
  rw [femapRead, laneRead, getLane]
  simp

theorem zero_lt_vdevice : 0 < maxNumVdevice := by decide

theorem three_lt_vdevice : 3 < maxNumVdevice := by decide

/-- Device 3 is connected, then device 0, and device 3 leaves. -/
def comeAndGo : List Event :=
  [.connect ⟨3, three_lt_vdevice⟩, .connect ⟨0, zero_lt_vdevice⟩,
    .disconnect ⟨3, three_lt_vdevice⟩]

private theorem orderly_comeAndGo :
    ∀ p ∈ visits (step twoEach) (.start (fun _ => .zero) fun _ => 0) comeAndGo,
      Orderly twoEach p.1 p.2 := by
  rw [comeAndGo, visits, visits, visits, visits]
  simp only [List.forall_mem_cons]
  exact ⟨⟨rfl, rfl⟩, ⟨rfl, rfl⟩, rfl, fun _ h => absurd h List.not_mem_nil⟩

theorem flexible_endpoint_ownership_comeAndGo :
    Ownership twoEach (run (step twoEach) (.start (fun _ => .zero) fun _ => 0) comeAndGo) :=
  flexible_endpoint_ownership twoEach (fun _ => .zero) (fun _ => 0) (fun k _ => femapRead_zero k)
    comeAndGo orderly_comeAndGo

end GxpUdc.Connect
