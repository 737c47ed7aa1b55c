/-
The control requests of the USB device controller driver.

The host names an endpoint by the low four bits of `wIndex`; the driver has
eight endpoint records, of which `gxp_udc_init` sets up `fepnum + 1` and leaves
the rest zero.

* `handleSetupDataRcv`, `init` — the SETUP handler and what it finds;
* `guards_handleRequest`, `guards_step` — what one packet needs to go well;
* `runsSafely_iff` — the runs that reach initialised endpoints only.

Reads and writes through a null register base and accesses outside the array of
endpoint records fail here.  A register base is not null once the mapping has
succeeded, and nothing but `gxp_udc_init` writes the one of an endpoint.
-/
import Canopy.ExactGuard
import Canopy.UdcQueue

namespace GxpUdc.Control

open ExactGuard

/-! ### The driver -/

/-- `struct gxp_udc_ep` -/
structure Ep where
  base : ℕ
  epnum : ℕ
  isIn : Bool
  stall : Bool
  wedged : Bool
  queue : List Req

/-- A record as `devm_kzalloc` leaves it. -/
def Ep.zero : Ep where
  base := 0
  epnum := 0
  isIn := false
  stall := false
  wedged := false
  queue := []

/-- `struct gxp_udc_drvdata`, with the registers and a log. -/
structure Drvdata where
  base : ℕ
  ep : Fin maxNumEp → Ep
  driver : Bool
  /-- `gadget.speed` is not `USB_SPEED_UNKNOWN` -/
  speedKnown : Bool
  devaddr : BitVec 16
  ep0Data : BitVec 16
  deferSetAddress : Bool
  regs : ℕ → BitVec 32
  /-- the endpoint records read or written, by index -/
  accessed : List ℕ

/-- What `gxp_udc_probe` goes on with. -/
structure Board where
  base : ℕ
  base_pos : 0 < base
  /-- at most `GXP_UDC_MAX_NUM_FLEX_EP_PER_VDEV` -/
  fepnum : Fin maxNumEp

/-- What the kernel must not do. -/
inductive Fault where
  /-- an access to `ep[i]` outside the array -/
  | outside (i : ℕ)
  | nullBase
  deriving DecidableEq

/-- Code of the driver: it changes the driver data, or faults. -/
abbrev UdcM := StateT Drvdata (Except Fault)

def evdien : ℕ := 0x04
def evdsetupl : ℕ := 0x10
def evdsetuph : ℕ := 0x14

def evdepcc : ℕ := 0x00
def evdepaddr : ℕ := 0x0c
def evdeplen : ℕ := 0x10

def evdepccCfginout : BitVec 32 := 0x02
def evdepccDtReset : BitVec 32 := 0x04
def evdepccStall : BitVec 32 := 0x80

/-! ### Records and registers -/

def Drvdata.access (d : Drvdata) (i : ℕ) : Drvdata := { d with accessed := d.accessed ++ [i] }

def Drvdata.update (d : Drvdata) (i : Fin maxNumEp) (f : Ep → Ep) : Drvdata :=
  { d with ep := fun j => if j = i then f (d.ep j) else d.ep j }

def Drvdata.setReg (d : Drvdata) (a : ℕ) (v : BitVec 32) : Drvdata :=
  { d with regs := fun b => if b = a then v else d.regs b }

/-- `drvdata->ep[i]` is read. -/
def getEp (i : ℕ) : UdcM Ep := fun d =>
  if h : i < maxNumEp then .ok (d.ep ⟨i, h⟩, d.access i) else .error (.outside i)

/-- Fields of `drvdata->ep[i]` are written. -/
def setEp (i : ℕ) (f : Ep → Ep) : UdcM Unit := fun d =>
  if h : i < maxNumEp then .ok ((), (d.access i).update ⟨i, h⟩ f) else .error (.outside i)

/-- `readl(base + off)`. -/
def readl (base off : ℕ) : UdcM (BitVec 32) := fun d =>
  if base = 0 then .error .nullBase else .ok (d.regs (base + off), d)

/-- `writel(v, base + off)`. -/
def writel (v : BitVec 32) (base off : ℕ) : UdcM Unit := fun d =>
  if base = 0 then .error .nullBase else .ok ((), d.setReg (base + off) v)

/-- `readl(ep->base + off)`, `ep` being `&drvdata->ep[i]`. -/
def epReadl (i off : ℕ) : UdcM (BitVec 32) := do
  let ep ← getEp i
  readl ep.base off

/-- `writel(v, ep->base + off)` -/
def epWritel (v : BitVec 32) (i off : ℕ) : UdcM Unit := do
  let ep ← getEp i
  writel v ep.base off

/-! ### Endpoint operations -/

/-- `gxp_udc_start_dma` -/
def startDma (i : ℕ) (r : Req) : UdcM Unit := do
  epWritel r.dma i evdepaddr
  epWritel r.length i evdeplen

/-- `gxp_udc_ep_set_halt_and_wedge` -/
def epSetHaltAndWedge (i : ℕ) (value wedge : Bool) : UdcM Unit := do
  let val ← epReadl i evdepcc
  if value then do
    setEp i fun ep => { ep with stall := true, wedged := ep.wedged || wedge }
    epWritel (val ||| evdepccStall) i evdepcc
  else do
    setEp i fun ep => { ep with stall := false, wedged := false }
    epWritel (val &&& ~~~evdepccStall ||| evdepccDtReset) i evdepcc
    let ep ← getEp i
    match ep.isIn, ep.queue with
    | true, r :: _ => startDma i r
    | _, _ => pure ()

/-- `gxp_udc_ep_set_halt` -/
def epSetHalt (i : ℕ) (value : Bool) : UdcM Unit := epSetHaltAndWedge i value false

/-- The direction of endpoint 0 is the one the hardware has. -/
def takeDirection (i : ℕ) (ep : Ep) : UdcM Unit :=
  if ep.epnum = 0 then do
    let val ← epReadl i evdepcc
    setEp i fun ep => { ep with isIn := val &&& evdepccCfginout ≠ 0 }
  else pure ()

/-- `gxp_udc_ep_queue` of the two bytes of `ep0_data`; `dma` is what the request
is mapped to, or an error. -/
def epQueue (i : ℕ) (dma : Except ℤ (BitVec 32)) : UdcM Unit := do
  let ep ← getEp i
  let d ← get
  if d.driver = false ∨ d.speedKnown = false then pure ()
  else do
    takeDirection i ep
    match dma with
    | .error _ => pure ()
    | .ok dma => do
      let r : Req := ⟨0, dma, 2, 0, -einprogress⟩
      let ep ← getEp i
      setEp i fun ep => { ep with queue := ep.queue ++ [r] }
      if ep.queue.isEmpty then startDma i r else pure ()

/-- `gxp_udc_in_0byte_status` -/
def in0byteStatus (i : ℕ) : UdcM Unit := do
  let val ← epReadl i evdepcc
  epWritel (val ||| evdepccCfginout) i evdepcc
  epWritel 0 i evdeplen

/-! ### Control requests -/

/-- `struct usb_ctrlrequest` -/
structure CtrlRequest where
  bRequestType : BitVec 8
  bRequest : BitVec 8
  wValue : BitVec 16
  wIndex : BitVec 16
  deriving DecidableEq

/-- The packet in the two registers it is received in. -/
def CtrlRequest.ofRegs (setupl setuph : BitVec 32) : CtrlRequest where
  bRequestType := setupl.extractLsb' 0 8
  bRequest := setupl.extractLsb' 8 8
  wValue := setupl.extractLsb' 16 16
  wIndex := setuph.extractLsb' 0 16

def usbTypeMask : BitVec 8 := 0x60
def usbTypeStandard : BitVec 8 := 0x00
def usbRecipMask : BitVec 8 := 0x1f
def usbRecipDevice : BitVec 8 := 0x00
def usbRecipEndpoint : BitVec 8 := 0x02

def usbReqGetStatus : BitVec 8 := 0
def usbReqClearFeature : BitVec 8 := 1
def usbReqSetFeature : BitVec 8 := 3
def usbReqSetAddress : BitVec 8 := 5

def usbEndpointHalt : BitVec 16 := 0
def usbEndpointNumberMask : BitVec 16 := 0x0f

/-- `ctrl->wIndex & USB_ENDPOINT_NUMBER_MASK` -/
def CtrlRequest.epIndex (ctrl : CtrlRequest) : ℕ := (ctrl.wIndex &&& usbEndpointNumberMask).toNat

/-- `gxp_udc_set_feature`; the result is whether it has handled the request. -/
def setFeature (ctrl : CtrlRequest) : UdcM Bool :=
  if ctrl.bRequestType = usbRecipEndpoint then
    if ctrl.wValue = usbEndpointHalt then do
      epSetHalt ctrl.epIndex true
      return true
    else return false
  else return false

/-- `gxp_udc_clear_feature` -/
def clearFeature (ctrl : CtrlRequest) : UdcM Bool :=
  if ctrl.bRequestType = usbRecipEndpoint then
    if ctrl.wValue = usbEndpointHalt then do
      let ep ← getEp ctrl.epIndex
      if ep.wedged then return true
      else do
        epSetHalt ctrl.epIndex false
        return true
    else return false
  else return false

/-- `gxp_udc_get_status` -/
def getStatus (ctrl : CtrlRequest) (dma : Except ℤ (BitVec 32)) : UdcM Bool :=
  if ctrl.bRequestType &&& usbRecipMask = usbRecipDevice then do
    modify fun d => { d with ep0Data := 1 }
    epQueue 0 dma
    return true
  else if ctrl.bRequestType &&& usbRecipMask = usbRecipEndpoint then do
    let val ← epReadl ctrl.epIndex evdepcc
    modify fun d => { d with ep0Data := if val &&& evdepccStall ≠ 0 then 1 else 0 }
    epQueue 0 dma
    return true
  else return false

/-- The standard requests the driver handles itself. -/
def handleStandard (ctrl : CtrlRequest) (dma : Except ℤ (BitVec 32)) : UdcM Bool :=
  if ctrl.bRequest = usbReqSetAddress then do
    modify fun d => { d with devaddr := ctrl.wValue &&& 0x7f, deferSetAddress := true }
    in0byteStatus 0
    return true
  else if ctrl.bRequest = usbReqSetFeature then setFeature ctrl
  else if ctrl.bRequest = usbReqClearFeature then clearFeature ctrl
  else if ctrl.bRequest = usbReqGetStatus then getStatus ctrl dma
  else return false

/-- Requests that are not standard ones go to the gadget driver. -/
def handleRequest (ctrl : CtrlRequest) (dma : Except ℤ (BitVec 32)) : UdcM Bool :=
  if ctrl.bRequestType &&& usbTypeMask = usbTypeStandard then handleStandard ctrl dma
  else return false

/-- The gadget driver gets what is left; if it fails, endpoint 0 stalls. -/
def setupRest (handled : Bool) (ret : ℤ) : UdcM Unit := do
  let d ← get
  if d.driver = true ∧ handled = false ∧ ret < 0 then do
    let val ← epReadl 0 evdepcc
    epWritel (val ||| evdepccStall) 0 evdepcc
  else pure ()

/-- `gxp_udc_handle_setup_data_rcv`; `ret` is what the gadget driver's `setup`
returns. -/
def handleSetupDataRcv (dma : Except ℤ (BitVec 32)) (ret : ℤ) : UdcM Unit := do
  let d ← get
  let setupl ← readl d.base evdsetupl
  let setuph ← readl d.base evdsetuph
  let handled ← handleRequest (.ofRegs setupl setuph) dma
  setupRest handled ret

/-! ### Runs -/

/-- One round of the loop of `gxp_udc_init`. -/
def initEp (d : Drvdata) (i : Fin maxNumEp) : Drvdata :=
  d.update i fun ep => { ep with base := d.base + 0x20 * (i + 1), epnum := i, queue := [] }

/-- `gxp_udc_init` on what `gxp_udc_probe` has allocated and checked. -/
def init (b : Board) (regs : ℕ → BitVec 32) : Drvdata :=
  let d : Drvdata :=
    { base := b.base
      ep := fun _ => .zero
      driver := false
      speedKnown := false
      devaddr := 0
      ep0Data := 0
      deferSetAddress := false
      regs := regs
      accessed := [] }
  ((List.finRange maxNumEp).take (b.fepnum + 1)).foldl initEp (d.setReg (b.base + evdien) 0)

/-- A SETUP packet, and what the driver finds when it handles it: everything but
the register bases is as the hardware, the gadget driver and the other interrupts
have left it. -/
structure Setup where
  regs : ℕ → BitVec 32
  driver : Bool
  speedKnown : Bool
  ep : Fin maxNumEp → Ep
  dma : Except ℤ (BitVec 32)
  ret : ℤ

def Setup.packet (t : Setup) (b : Board) : CtrlRequest :=
  .ofRegs (t.regs (b.base + evdsetupl)) (t.regs (b.base + evdsetuph))

def Setup.arrive (t : Setup) (d : Drvdata) : Drvdata :=
  { d with
    regs := t.regs
    driver := t.driver
    speedKnown := t.speedKnown
    ep := fun i => { t.ep i with base := (d.ep i).base, epnum := (d.ep i).epnum } }

/-- One SETUP packet. -/
def step (t : Setup) : UdcM Unit := do
  modify t.arrive
  handleSetupDataRcv t.dma t.ret

/-- The SETUP packets `ts`, from the initialised driver on. -/
def run (b : Board) (regs : ℕ → BitVec 32) (ts : List Setup) : Except Fault (Unit × Drvdata) :=
  ts.forM step (init b regs)

/-! ### What a packet needs -/

/-- A request to set or clear the halt of an endpoint. -/
def CtrlRequest.Halts (ctrl : CtrlRequest) : Prop :=
  ctrl.bRequestType = usbRecipEndpoint ∧ ctrl.wValue = usbEndpointHalt

/-- A request for the status of an endpoint. -/
def CtrlRequest.AsksEndpoint (ctrl : CtrlRequest) : Prop :=
  ctrl.bRequestType &&& usbRecipMask = usbRecipEndpoint

/-- A standard request the driver handles on the endpoint `wIndex` names. -/
def CtrlRequest.NamesEndpoint (ctrl : CtrlRequest) : Prop :=
  ctrl.bRequestType &&& usbTypeMask = usbTypeStandard ∧
    ((ctrl.bRequest = usbReqSetFeature ∨ ctrl.bRequest = usbReqClearFeature) ∧ ctrl.Halts ∨
      ctrl.bRequest = usbReqGetStatus ∧ ctrl.AsksEndpoint)

/-- What `gxp_udc_init` has set up, and what it has left zero. -/
structure Initialised (b : Board) (d : Drvdata) : Prop where
  base : d.base = b.base
  ep : ∀ i : Fin maxNumEp,
    (d.ep i).base = if i.val ≤ b.fepnum.val then b.base + 0x20 * (i.val + 1) else 0

/-- All endpoint records accessed are initialised ones. -/
def InitialisedOnly (b : Board) (d : Drvdata) : Prop := ∀ i ∈ d.accessed, i ≤ b.fepnum.val

section Parts

variable {b : Board} {P : Prop} {α : Type}

theorem Initialised.update {d : Drvdata} (h : Initialised b d) (i : Fin maxNumEp) {f : Ep → Ep}
    (hf : ∀ ep, (f ep).base = ep.base) : Initialised b (d.update i f) := by
  refine ⟨h.base, fun j => ?_⟩
  rw [← h.ep j]
  show (if j = i then f (d.ep j) else d.ep j).base = _
  split
  · exact hf _
  · rfl

private theorem initialisedOnly_access (d : Drvdata) (i : ℕ) :
    InitialisedOnly b (d.access i) ↔ InitialisedOnly b d ∧ i ≤ b.fepnum := by
  rw [InitialisedOnly, Drvdata.access, List.forall_mem_append, List.forall_mem_singleton,
    InitialisedOnly]

private theorem not_le_of_outside {i : ℕ} (h : ¬i < maxNumEp) : ¬i ≤ b.fepnum := by
  have hfep := b.fepnum.isLt
  omega

theorem guards_getEp (i : ℕ) :
    Guards (Initialised b) (InitialisedOnly b) (i ≤ b.fepnum) (getEp i) := by
  intro d hd
  rw [getEp]
  split
  · exact ⟨⟨hd.base, hd.ep⟩, initialisedOnly_access d i⟩
  · next h => exact not_le_of_outside h

theorem guards_setEp (i : ℕ) {f : Ep → Ep} (hf : ∀ ep, (f ep).base = ep.base) :
    Guards (Initialised b) (InitialisedOnly b) (i ≤ b.fepnum) (setEp i f) := by
  intro d hd
  rw [setEp]
  split
  · have haccess : Initialised b (d.access i) := ⟨hd.base, hd.ep⟩
    exact ⟨haccess.update _ hf, initialisedOnly_access d i⟩
  · next h => exact not_le_of_outside h

/-- An access through the base of an endpoint: null is the base of those that are
not initialised. -/
theorem guards_through (i : ℕ) {x : ℕ → UdcM α} (hnull : ∀ d, ∃ e, x 0 d = .error e)
    (hbase : ∀ base d, base ≠ 0 → ∃ r, x base d = .ok r ∧ r.2.base = d.base ∧ r.2.ep = d.ep ∧
      r.2.accessed = d.accessed) :
    Guards (Initialised b) (InitialisedOnly b) (i ≤ b.fepnum)
      (getEp i >>= fun ep => x ep.base) := by
  intro d hd
  by_cases h : i < maxNumEp
  · have hget : getEp i d = .ok (d.ep ⟨i, h⟩, d.access i) := dif_pos h
    show Outcome _ _ d _ (getEp i d >>= fun r => x r.1.base r.2)
    rw [hget]
    show Outcome _ _ d _ (x (d.ep ⟨i, h⟩).base (d.access i))
    have hep : (d.ep ⟨i, h⟩).base = if i ≤ b.fepnum then b.base + 0x20 * (i + 1) else 0 :=
      hd.ep ⟨i, h⟩
    by_cases hle : i ≤ b.fepnum
    · have hpos : (d.ep ⟨i, h⟩).base ≠ 0 := by
        rw [hep, if_pos hle]
        omega
      obtain ⟨r, hr, hrbase, hrep, hraccessed⟩ := hbase _ (d.access i) hpos
      rw [hr]
      refine ⟨⟨hrbase.trans hd.base, fun j => ?_⟩, ?_⟩
      · rw [hrep]
        exact hd.ep j
      · rw [InitialisedOnly, hraccessed]
        exact initialisedOnly_access d i
    · rw [hep, if_neg hle]
      -- a record `gxp_udc_init` left alone has a null base
      obtain ⟨e, he⟩ := hnull (d.access i)
      rw [he]
      exact hle
  · have hget : getEp i d = .error (.outside i) := dif_neg h
    show Outcome _ _ d _ (getEp i d >>= fun r => x r.1.base r.2)
    rw [hget]
    exact not_le_of_outside h

theorem guards_epReadl (i off : ℕ) :
    Guards (Initialised b) (InitialisedOnly b) (i ≤ b.fepnum) (epReadl i off) :=
  guards_through i (x := fun base => readl base off) (fun _ => ⟨_, rfl⟩)
    fun _ _ h => ⟨_, if_neg h, rfl, rfl, rfl⟩

theorem guards_epWritel (v : BitVec 32) (i off : ℕ) :
    Guards (Initialised b) (InitialisedOnly b) (i ≤ b.fepnum) (epWritel v i off) :=
  guards_through i (x := fun base => writel v base off) (fun _ => ⟨_, rfl⟩)
    fun _ _ h => ⟨_, if_neg h, rfl, rfl, rfl⟩

/-! ### The endpoint operations -/

private theorem guards_startDma (i : ℕ) (r : Req) :
    Guards (Initialised b) (InitialisedOnly b) (i ≤ b.fepnum) (startDma i r) :=
  (guards_epWritel _ i _).bind_same fun _ => guards_epWritel _ i _

private theorem guards_epSetHaltAndWedge (i : ℕ) (value wedge : Bool) :
    Guards (Initialised b) (InitialisedOnly b) (i ≤ b.fepnum)
      (epSetHaltAndWedge i value wedge) := by
  refine (guards_epReadl i evdepcc).bind_same fun val => ?_
  split
  · refine Guards.bind_same (guards_setEp i ?_) fun _ => guards_epWritel _ i _
    exact fun _ => rfl
  · refine Guards.bind_same (guards_setEp i ?_) fun _ => ?_
    · exact fun _ => rfl
    refine (guards_epWritel _ i _).bind_same fun _ => ?_
    refine (guards_getEp i).bind_within fun ep => ?_
    split
    · exact (guards_startDma i _).within id
    · exact (guards_pure ()).within fun _ => trivial

private theorem within_takeDirection (i : ℕ) (ep : Ep) :
    Within (Initialised b) (InitialisedOnly b) (i ≤ b.fepnum) (takeDirection i ep) := by
  rw [takeDirection]
  split
  · refine Guards.within ((guards_epReadl i evdepcc).bind_same fun val => guards_setEp i ?_) id
    exact fun _ => rfl
  · exact (guards_pure ()).within fun _ => trivial

private theorem guards_epQueue (i : ℕ) (dma : Except ℤ (BitVec 32)) :
    Guards (Initialised b) (InitialisedOnly b) (i ≤ b.fepnum) (epQueue i dma) := by
  refine (guards_getEp i).bind_within fun ep => Within.get_bind fun d => ?_
  split
  · exact (guards_pure ()).within fun _ => trivial
  refine (within_takeDirection i ep).bind fun _ => ?_
  cases dma with
  | error e => exact (guards_pure ()).within fun _ => trivial
  | ok dma =>
    refine Guards.within ((guards_getEp i).bind_same fun ep => ?_) id
    refine Guards.bind_within (guards_setEp i ?_) fun _ => ?_
    · exact fun _ => rfl
    split
    · exact (guards_startDma i _).within id
    · exact (guards_pure ()).within fun _ => trivial

private theorem guards_in0byteStatus (i : ℕ) :
    Guards (Initialised b) (InitialisedOnly b) (i ≤ b.fepnum) (in0byteStatus i) := by
  refine (guards_epReadl i evdepcc).bind_same fun val => ?_
  exact (guards_epWritel _ i _).bind_same fun _ => guards_epWritel _ i _

/-! ### The requests -/

private theorem guards_setFeature (ctrl : CtrlRequest) :
    Guards (Initialised b) (InitialisedOnly b) (ctrl.Halts → ctrl.epIndex ≤ b.fepnum)
      (setFeature ctrl) := by
  rw [setFeature, CtrlRequest.Halts]
  split
  · next htype =>
    split
    · next hvalue =>
      refine Guards.congr ?_ (imp_iff_right ⟨htype, hvalue⟩).symm
      exact (guards_epSetHaltAndWedge _ true false).bind_true fun _ => guards_pure true
    · next hvalue =>
      exact (guards_pure false).congr (iff_of_true trivial fun h => absurd h.2 hvalue)
  · next htype =>
    exact (guards_pure false).congr (iff_of_true trivial fun h => absurd h.1 htype)

private theorem guards_clearFeature (ctrl : CtrlRequest) :
    Guards (Initialised b) (InitialisedOnly b) (ctrl.Halts → ctrl.epIndex ≤ b.fepnum)
      (clearFeature ctrl) := by
  rw [clearFeature, CtrlRequest.Halts]
  split
  · next htype =>
    split
    · next hvalue =>
      refine Guards.congr ?_ (imp_iff_right ⟨htype, hvalue⟩).symm
      refine (guards_getEp _).bind_within fun ep => ?_
      split
      · exact (guards_pure true).within fun _ => trivial
      · refine Guards.within ?_ id
        exact (guards_epSetHaltAndWedge _ false false).bind_true fun _ => guards_pure true
    · next hvalue =>
      exact (guards_pure false).congr (iff_of_true trivial fun h => absurd h.2 hvalue)
  · next htype =>
    exact (guards_pure false).congr (iff_of_true trivial fun h => absurd h.1 htype)

/-- `ep0_data` has nothing to do with the endpoint records. -/
theorem guards_setEp0Data (v : BitVec 16) :
    Guards (Initialised b) (InitialisedOnly b) True
      (modify fun d => { d with ep0Data := v } : UdcM Unit) :=
  guards_modify (fun _ h => ⟨h.base, h.ep⟩) fun _ => Iff.rfl

/-- Endpoint 0 is always initialised. -/
theorem guards_zero {x : UdcM α} (h : Guards (Initialised b) (InitialisedOnly b)
    (0 ≤ b.fepnum.val) x) : Guards (Initialised b) (InitialisedOnly b) True x :=
  h.congr (iff_true_intro (Nat.zero_le _))

private theorem guards_getStatus (ctrl : CtrlRequest) (dma : Except ℤ (BitVec 32)) :
    Guards (Initialised b) (InitialisedOnly b) (ctrl.AsksEndpoint → ctrl.epIndex ≤ b.fepnum)
      (getStatus ctrl dma) := by
  have hreply : Guards (Initialised b) (InitialisedOnly b) True
      (do epQueue 0 dma; return true) :=
    (guards_zero (guards_epQueue 0 dma)).bind_true fun _ => guards_pure true
  rw [getStatus, CtrlRequest.AsksEndpoint]
  split
  · next hdevice =>
    have hnot : ctrl.bRequestType &&& usbRecipMask ≠ usbRecipEndpoint := by
      rw [hdevice]
      decide
    -- the status of the device needs endpoint 0 only
    refine Guards.congr ?_ (iff_of_true trivial fun h => absurd h hnot)
    exact (guards_setEp0Data 1).true_bind fun _ => hreply
  · split
    · next hendpoint =>
      refine Guards.congr ?_ (imp_iff_right hendpoint).symm
      exact (guards_epReadl _ evdepcc).bind_true fun val =>
        (guards_setEp0Data _).true_bind fun _ => hreply
    · next hendpoint =>
      exact (guards_pure false).congr (iff_of_true trivial fun h => absurd h hendpoint)

/-- **What a standard request needs.** -/
theorem guards_handleRequest (ctrl : CtrlRequest) (dma : Except ℤ (BitVec 32)) :
    Guards (Initialised b) (InitialisedOnly b) (ctrl.NamesEndpoint → ctrl.epIndex ≤ b.fepnum)
      (handleRequest ctrl dma) := by
  have hdiffer : usbReqSetAddress ≠ usbReqSetFeature ∧ usbReqSetAddress ≠ usbReqClearFeature ∧
      usbReqSetAddress ≠ usbReqGetStatus ∧ usbReqSetFeature ≠ usbReqGetStatus ∧
      usbReqClearFeature ≠ usbReqGetStatus ∧ usbReqGetStatus ≠ usbReqSetFeature ∧
      usbReqGetStatus ≠ usbReqClearFeature := by decide
  rw [handleRequest]
  split
  · next hstandard =>
    have hnames := and_iff_right (b := (ctrl.bRequest = usbReqSetFeature ∨
      ctrl.bRequest = usbReqClearFeature) ∧ ctrl.Halts ∨
        ctrl.bRequest = usbReqGetStatus ∧ ctrl.AsksEndpoint) hstandard
    rw [← CtrlRequest.NamesEndpoint] at hnames
    rw [handleStandard]
    split
    · next haddress =>
      rw [haddress] at hnames
      refine Guards.congr ?_ (iff_of_true trivial fun h => ?_)
      · -- the status goes out on endpoint 0
        refine Guards.true_bind (guards_modify (fun _ h => ⟨h.base, h.ep⟩) fun _ => Iff.rfl)
          fun _ => ?_
        exact (guards_zero (guards_in0byteStatus 0)).bind_true fun _ => guards_pure true
      · simp [hdiffer, hnames] at h
    split
    · next hset =>
      refine (guards_setFeature ctrl).congr (imp_congr_left ?_)
      simp [hnames, hset, hdiffer]
    split
    · next hclear =>
      refine (guards_clearFeature ctrl).congr (imp_congr_left ?_)
      simp [hnames, hclear, hdiffer]
    split
    · next hstatus =>
      refine (guards_getStatus ctrl dma).congr (imp_congr_left ?_)
      simp [hnames, hstatus, hdiffer]
    · next hset hclear hstatus =>
      refine (guards_pure false).congr (iff_of_true trivial fun h => ?_)
      simp [hnames, hset, hclear, hstatus] at h
  · next hstandard =>
    -- other requests go to the gadget driver and need nothing here
    exact (guards_pure false).congr (iff_of_true trivial fun h => absurd h.1 hstandard)

/-! ### One packet -/

private theorem guards_setupRest (handled : Bool) (ret : ℤ) :
    Guards (Initialised b) (InitialisedOnly b) True (setupRest handled ret) := by
  refine guards_get.true_bind fun d => ?_
  split
  · exact guards_zero ((guards_epReadl 0 evdepcc).bind_same fun val => guards_epWritel _ 0 evdepcc)
  · exact guards_pure ()

/-- The packet is read from the two registers. -/
theorem handleSetupDataRcv_eq {d : Drvdata} (h : d.base ≠ 0) (dma : Except ℤ (BitVec 32))
    (ret : ℤ) :
    handleSetupDataRcv dma ret d =
      (handleRequest (.ofRegs (d.regs (d.base + evdsetupl)) (d.regs (d.base + evdsetuph))) dma >>=
        fun handled => setupRest handled ret) d := by
  have hread : ∀ off, readl d.base off d = .ok (d.regs (d.base + off), d) := fun off => if_neg h
  show (readl d.base evdsetupl d >>= fun p => (readl d.base evdsetuph p.2 >>= fun q =>
    (handleRequest (.ofRegs p.1 q.1) dma >>= fun handled => setupRest handled ret) q.2)) = _
  rw [hread]
  show (readl d.base evdsetuph d >>= fun q =>
    (handleRequest (.ofRegs (d.regs (d.base + evdsetupl)) q.1) dma >>=
      fun handled => setupRest handled ret) q.2) = _
  rw [hread]
  rfl

/-- **What a packet needs**, whatever the driver finds when it comes. -/
theorem guards_step (t : Setup) :
    Guards (Initialised b) (InitialisedOnly b)
      ((t.packet b).NamesEndpoint → (t.packet b).epIndex ≤ b.fepnum) (step t) := by
  intro d hd
  have harrive : Initialised b (t.arrive d) := ⟨hd.base, hd.ep⟩
  have hbase : (t.arrive d).base ≠ 0 := by
    rw [harrive.base]
    exact Nat.ne_of_gt b.base_pos
  have hrequest := (guards_handleRequest (t.packet b) t.dma).bind_true
    (fun handled => guards_setupRest handled t.ret) (t.arrive d) harrive
  have hstep : step t d = handleSetupDataRcv t.dma t.ret (t.arrive d) := rfl
  rw [hstep, handleSetupDataRcv_eq hbase, harrive.base]
  exact hrequest

end Parts

/-! ### Runs from the initialised driver -/

private theorem initEp_base (d : Drvdata) (i j : Fin maxNumEp) :
    ((initEp d i).ep j).base = if j = i then d.base + 0x20 * (j.val + 1) else (d.ep j).base := by
  show (if j = i then _ else d.ep j : Ep).base = _
  split
  · next hj => rw [hj]
  · rfl

/-- The loop sets the register bases of the endpoints it visits. -/
theorem foldl_initEp (is : List (Fin maxNumEp)) : ∀ d : Drvdata,
    (is.foldl initEp d).base = d.base ∧ (is.foldl initEp d).accessed = d.accessed ∧
      ∀ j, (j ∈ is → ((is.foldl initEp d).ep j).base = d.base + 0x20 * (j.val + 1)) ∧
        (j ∉ is → ((is.foldl initEp d).ep j).base = (d.ep j).base) := by
  induction is with
  | nil => exact fun d => ⟨rfl, rfl, fun j => ⟨fun hj => absurd hj List.not_mem_nil, fun _ => rfl⟩⟩
  | cons i is ih =>
    intro d
    obtain ⟨hbase, haccessed, hep⟩ := ih (initEp d i)
    refine ⟨hbase, haccessed, fun j => ⟨fun hj => ?_, fun hj => ?_⟩⟩
    · by_cases hrest : j ∈ is
      · exact (hep j).1 hrest
      · have hi : j = i := (List.mem_cons.mp hj).resolve_right hrest
        exact ((hep j).2 hrest).trans ((initEp_base d i j).trans (if_pos hi))
    · rw [List.mem_cons, not_or] at hj
      exact ((hep j).2 hj.2).trans ((initEp_base d i j).trans (if_neg hj.1))

private theorem mem_take_finRange (n i : Fin maxNumEp) :
    i ∈ (List.finRange maxNumEp).take (n + 1) ↔ i.val ≤ n.val := by
  revert n i
  decide

private theorem initialised_init (b : Board) (regs : ℕ → BitVec 32) :
    Initialised b (init b regs) ∧ InitialisedOnly b (init b regs) := by
  rw [init]
  generalize hd : Drvdata.setReg _ _ _ = d
  obtain ⟨hbase, haccessed, hep⟩ := foldl_initEp ((List.finRange maxNumEp).take (b.fepnum + 1)) d
  have hstart : d.base = b.base ∧ d.accessed = [] ∧ ∀ j, (d.ep j).base = 0 := by
    rw [← hd]
    exact ⟨rfl, rfl, fun j => rfl⟩
  obtain ⟨hdbase, hdaccessed, hdep⟩ := hstart
  refine ⟨⟨hbase.trans hdbase, fun j => ?_⟩, ?_⟩
  · by_cases hj : j.val ≤ b.fepnum.val
    · rw [if_pos hj, (hep j).1 ((mem_take_finRange b.fepnum j).mpr hj), hdbase]
    · rw [if_neg hj, (hep j).2 (mt (mem_take_finRange b.fepnum j).mp hj), hdep]
  · rw [InitialisedOnly, haccessed, hdaccessed]
    exact fun i hi => absurd hi List.not_mem_nil

/-- No access goes outside the array or through a null base, and every endpoint
record accessed is an initialised one. -/
def RunsSafely (b : Board) (regs : ℕ → BitVec 32) (ts : List Setup) : Prop :=
  ∃ r, run b regs ts = .ok r ∧ InitialisedOnly b r.2

/-- **Control requests reach initialised endpoints only iff** no packet of the run
names another one. -/
theorem runsSafely_iff (b : Board) (regs : ℕ → BitVec 32) (ts : List Setup) :
    RunsSafely b regs ts ↔
      ∀ t ∈ ts, (t.packet b).NamesEndpoint → (t.packet b).epIndex ≤ b.fepnum := by
  obtain ⟨hinit, honly⟩ := initialised_init b regs
  exact (Guards.forM guards_step ts).safe_iff hinit honly

/-- A device with two flexible endpoints. -/
def twoEndpoints : Board where
  base := 0x1000
  base_pos := by decide
  fepnum := ⟨2, by decide⟩

/-- The host sets the halt feature of endpoint `n`. -/
def haltRequest (n : BitVec 32) : Setup where
  regs := fun a => if a = 0x1010 then 0x0302 else if a = 0x1014 then n else 0
  driver := true
  speedKnown := true
  ep := fun _ => .zero
  dma := .ok 0
  ret := 0

/-- Endpoint 3 has no base, and endpoint 15 no record. -/
theorem not_runsSafely_haltRequest :
    ¬RunsSafely twoEndpoints (fun _ => 0) [haltRequest 3] ∧
      ¬RunsSafely twoEndpoints (fun _ => 0) [haltRequest 15] := by
  have hnull : run twoEndpoints (fun _ => 0) [haltRequest 3] = .error .nullBase := rfl
  have houtside : run twoEndpoints (fun _ => 0) [haltRequest 15] = .error (.outside 15) := rfl
  rw [RunsSafely, RunsSafely, hnull, houtside]
  exact ⟨nofun, nofun⟩

end GxpUdc.Control
