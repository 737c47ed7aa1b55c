/-
The lives of the UMAC interface.

`umac_open` allocates the rings, points the hardware at them and starts DMA, the
PHY worker and NAPI; `umac_stop` takes all of it back, so that the hardware is
quiet before the rings are freed.  Meanwhile the PHY worker runs
`umac_adjust_link`, which reads `UMAC_CONFIG_STATUS` and writes it back twice,
and the interrupt and the poll go on as in `UmacNapi`.

* `UmacLife.step` — the network core, the PHY worker, NAPI and the hardware;
* `Quiet` — what is to hold in every state of a life;
* `Disturbs` — the steps that stand against it.
-/
import Canopy.UmacNapi

namespace GxpUmac

open BitMask
open UmacNapi (Masked Enabled)

/-- `UMAC_CFG_TXEN | UMAC_CFG_RXEN` -/
def cfgChannels : BitVec 32 := 0x1000 ||| 0x800

/-- `UMAC_CFG_GTX_CLK_EN` -/
def cfgGtxClkEn : BitVec 32 := 0x400

/-- `UMAC_CFG_TX_CLK_EN` -/
def cfgTxClkEn : BitVec 32 := 0x200

/-- `UMAC_CFG_GIGABIT_MODE` -/
def cfgGigabitMode : BitVec 32 := 0x4

/-- `UMAC_CFG_FULL_DUPLEX` -/
def cfgFullDuplex : BitVec 32 := 0x1

/-- What the driver reads of `struct phy_device`. -/
structure Phy where
  link : Bool
  duplex : Bool
  speed : ℕ
  deriving DecidableEq

/-- What `umac_adjust_link` makes of the value it has read. -/
def Phy.adjust (phy : Phy) (value : BitVec 32) : BitVec 32 :=
  if phy.link then
    let value := if phy.duplex then value ||| cfgFullDuplex else value &&& ~~~cfgFullDuplex
    if phy.speed = 1000 then
      value &&& ~~~cfgTxClkEn ||| cfgGtxClkEn ||| cfgGigabitMode
    else if phy.speed = 100 then
      (value ||| cfgTxClkEn) &&& ~~~cfgGtxClkEn &&& ~~~cfgGigabitMode
    else value
  else
    value &&& ~~~cfgFullDuplex &&& ~~~cfgGtxClkEn &&& ~~~cfgGigabitMode ||| cfgTxClkEn

/-- What `umac_init_hw` writes before it enables the channels. -/
def initConfig (useNcsi : Bool) (phy : Phy) (value : BitVec 32) : BitVec 32 :=
  let value := value &&& 0xfffff9ff
  if useNcsi then
    value &&& cfgTxClkEn &&& ~~~cfgGtxClkEn &&& ~~~cfgGigabitMode ||| cfgFullDuplex
  else
    let value := if phy.duplex then value ||| cfgFullDuplex else value &&& ~~~cfgFullDuplex
    if phy.speed = 1000 then
      value &&& ~~~cfgTxClkEn ||| cfgGtxClkEn ||| cfgGigabitMode
    else
      (value ||| cfgTxClkEn) &&& ~~~cfgGtxClkEn &&& ~~~cfgGigabitMode

/-- How the allocations of `umac_init_ring_descriptors` go. -/
inductive Alloc where
  /-- `dma_set_mask_and_coherent` fails -/
  | noDma
  | noTx
  | noRx (tx : ℕ)
  | both (tx rx : ℕ)
  deriving DecidableEq

/-- Both rings are allocated. -/
def Alloc.Succeeds : Alloc → Prop
  | .both _ _ => True
  | _ => False

instance : DecidablePred Alloc.Succeeds := fun a => by
  cases a <;> unfold Alloc.Succeeds <;> infer_instance

/-- The memory of the rings: what the driver knows of it and what the hardware uses.
A ring is known by its DMA address. -/
structure Rings where
  /-- the rings from `dma_alloc_coherent` that are not freed -/
  allocated : List ℕ
  txDescs : Option ℕ
  rxDescs : Option ℕ
  txDescsDmaAddr : ℕ
  rxDescsDmaAddr : ℕ
  /-- `UMAC_TX_RING_ADDR` -/
  txRingAddr : ℕ
  /-- `UMAC_RX_RING_ADDR` -/
  rxRingAddr : ℕ
  deriving DecidableEq

/-- The allocations of `umac_init_ring_descriptors`. -/
def Rings.allocate (r : Rings) : Alloc → Rings
  | .noDma => r
  | .noTx => { r with txDescs := none }
  -- the transmit ring is freed again, its pointer stays
  | .noRx tx => { r with txDescs := some tx, txDescsDmaAddr := tx, rxDescs := none }
  | .both tx rx =>
    { r with
      allocated := tx :: rx :: r.allocated
      txDescs := some tx
      rxDescs := some rx
      txDescsDmaAddr := tx
      rxDescsDmaAddr := rx }

/-- `umac_init_hw` as far as the rings. -/
def Rings.point (r : Rings) : Rings :=
  { r with txRingAddr := r.txDescsDmaAddr, rxRingAddr := r.rxDescsDmaAddr }

/-- `dma_free_coherent` -/
def Rings.free (r : Rings) : Option ℕ → Rings
  | none => r
  | some ring => { r with allocated := r.allocated.erase ring }

/-- Where `umac_open` or `umac_stop` is: the statement that comes next. -/
inductive Iface where
  | closed
  | phyStart
  | napiEnable
  | irqEnable
  | irqEnabling (value : BitVec 32)
  | ncsiStart
  | up
  | channelDisable
  | irqDisable
  | irqDisabling (value : BitVec 32)
  | napiDisable
  /-- `napi_disable` waits -/
  | napiDraining
  | freeIrq
  | phyStop
  /-- `phy_stop` calls `umac_adjust_link` for the last time -/
  | phyStopping
  | freeTx
  | freeRx
  deriving DecidableEq

/-- Where `umac_adjust_link` is. -/
inductive Adjust where
  | idle
  | reading
  /-- `value` was read; `early` when that was before `umac_channel_disable` -/
  | writing (early : Bool) (value : BitVec 32)
  | rewriting (early : Bool) (value : BitVec 32)
  deriving DecidableEq

structure UmacLife where
  useNcsi : Bool
  phy : Phy
  rings : Rings
  /-- the `UMAC_CONFIG_STATUS` register -/
  configStatus : BitVec 32
  adjust : Adjust
  napiEnabled : Bool
  /-- the interrupt register, NAPI and the receive ring -/
  dev : UmacNapi
  iface : Iface

inductive LifeEvent where
  /-- `umac_open`, with the outcomes of `request_irq` and the allocations -/
  | open (irq : Bool) (alloc : Alloc)
  | stop
  /-- the next statement of either, with the outcome of `ncsi_start_dev` -/
  | proceed (ncsi : Bool)
  /-- the PHY worker calls `umac_adjust_link` -/
  | linkChange (phy : Phy)
  /-- its next access -/
  | adjust
  /-- the hardware changes other bits of `UMAC_CONFIG_STATUS` -/
  | status (value : BitVec 32)
  /-- the interrupt, the poll and the traffic -/
  | dev (e : NapiEvent)
  deriving DecidableEq

/-- The poll is scheduled or runs, as `NAPI_STATE_SCHED` says. -/
def Napi.Scheduled : Napi → Prop
  | .scheduled | .txDone _ _ | .receiving => True
  | _ => False

instance : DecidablePred Napi.Scheduled := fun n => by
  cases n <;> unfold Napi.Scheduled <;> infer_instance

/-- `umac_interrupt` runs. -/
def Napi.Handling : Napi → Prop
  | .disabling _ => True
  | _ => False

instance : DecidablePred Napi.Handling := fun n => by
  cases n <;> unfold Napi.Handling <;> infer_instance

namespace Iface

/-- From `umac_channel_disable` to the next `umac_open`. -/
def Down : Iface → Prop
  | .phyStart | .napiEnable | .irqEnable | .irqEnabling _ | .ncsiStart | .up
  | .channelDisable => False
  | _ => True

/-- From `umac_irq_disable` to the next `umac_irq_enable`. -/
def Muted : Iface → Prop
  | .ncsiStart | .up | .channelDisable | .irqDisable | .irqDisabling _ => False
  | _ => True

/-- `netif_running` -/
def Running : Iface → Prop
  | .phyStart | .napiEnable | .irqEnable | .irqEnabling _ | .ncsiStart | .up => True
  | _ => False

/-- The interrupt is requested. -/
def Requested : Iface → Prop
  | .closed | .phyStop | .phyStopping | .freeTx | .freeRx => False
  | _ => True

/-- The PHY worker runs. -/
def PhyRuns : Iface → Prop
  | .closed | .phyStart | .phyStopping | .freeTx | .freeRx => False
  | _ => True

instance : DecidablePred Down := fun i => by cases i <;> unfold Down <;> infer_instance

instance : DecidablePred Muted := fun i => by cases i <;> unfold Muted <;> infer_instance

instance : DecidablePred Running := fun i => by cases i <;> unfold Running <;> infer_instance

instance : DecidablePred Requested := fun i => by cases i <;> unfold Requested <;> infer_instance

instance : DecidablePred PhyRuns := fun i => by cases i <;> unfold PhyRuns <;> infer_instance

end Iface

namespace UmacLife

/-- `umac_open` up to `phy_start`: nothing else of the driver runs yet. -/
def openHw (s : UmacLife) (alloc : Alloc) : UmacLife :=
  { s with
    rings := (s.rings.allocate alloc).point
    configStatus := initConfig s.useNcsi s.phy 0 ||| cfgChannels
    dev :=
      { s.dev with
        umac := { s.dev.umac with entrylist := UmacRx.boot.entrylist, rxCur := 0, rxptr := 0 } }
    iface := .phyStart }

/-- The next statement of `umac_open` or `umac_stop`. -/
def proceed (s : UmacLife) (ncsi : Bool) : UmacLife :=
  match s.iface with
  | .closed | .up => s
  | .phyStart => { s with iface := .napiEnable }
  -- a `BUG_ON` when NAPI is enabled already
  | .napiEnable => if s.napiEnabled then s else { s with napiEnabled := true, iface := .irqEnable }
  | .irqEnable => { s with iface := .irqEnabling s.dev.interrupt }
  | .irqEnabling value =>
    { s with
      dev := { s.dev with interrupt := s.dev.writel (value ||| (rxInten ||| txInten)) }
      iface := if s.useNcsi then .ncsiStart else .up }
  | .ncsiStart => { s with iface := if ncsi then .up else .closed }
  | .channelDisable => { s with configStatus := 0, iface := .irqDisable }
  | .irqDisable => { s with iface := .irqDisabling s.dev.interrupt }
  | .irqDisabling value =>
    { s with
      dev :=
        { s.dev with
          interrupt := s.dev.writel ((value ||| (rxInt ||| txInt)) &&& ~~~(rxInten ||| txInten)) }
      iface := .napiDisable }
  | .napiDisable => { s with napiEnabled := false, iface := .napiDraining }
  | .napiDraining => if s.dev.napi.Scheduled then s else { s with iface := .freeIrq }
  | .freeIrq => if s.dev.napi.Handling then s else { s with iface := .phyStop }
  | .phyStop =>
    if s.adjust ≠ .idle then s
    else if ¬s.useNcsi ∧ s.phy.link then
      { s with phy := { s.phy with link := false }, adjust := .reading, iface := .phyStopping }
    else { s with iface := .freeTx }
  | .phyStopping => if s.adjust ≠ .idle then s else { s with iface := .freeTx }
  | .freeTx => { s with rings := s.rings.free s.rings.txDescs, iface := .freeRx }
  | .freeRx => { s with rings := s.rings.free s.rings.rxDescs, iface := .closed }

/-- The next access of `umac_adjust_link`. -/
def adjustLink (s : UmacLife) : UmacLife :=
  match s.adjust with
  | .idle => s
  | .reading =>
    { s with adjust := .writing (decide ¬s.iface.Down) (s.configStatus &&& 0xfffff9ff) }
  | .writing early value =>
    { s with configStatus := value, adjust := .rewriting early (s.phy.adjust value) }
  | .rewriting _ value => { s with configStatus := value, adjust := .idle }

/-- NAPI takes no poll that is new while it is disabled. -/
def schedule (s : UmacLife) (dev : UmacNapi) : UmacLife :=
  { s with
    dev :=
      if dev.napi = .scheduled ∧ s.dev.napi ≠ .scheduled ∧ ¬s.napiEnabled then
        { dev with napi := .idle }
      else dev }

/-- The interrupt, the poll and the traffic.  `umac_interrupt` does nothing for an
interface that does not run, and DMA needs the channels. -/
def stepDev (s : UmacLife) (e : NapiEvent) : UmacLife :=
  match e with
  | .receive _ _ | .transmit =>
    if s.configStatus &&& cfgChannels ≠ 0 then { s with dev := s.dev.step e } else s
  | .irq =>
    if s.iface.Requested ∧ (s.useNcsi ∨ s.iface.Running) then { s with dev := s.dev.step e } else s
  | .poll _ => { s with dev := s.dev.step e }
  | .proceed _ => s.schedule (s.dev.step e)

/-- One step; an event that cannot happen changes nothing.  The last poll has returned
when `umac_open` is called. -/
def step (s : UmacLife) : LifeEvent → UmacLife
  | .open irq alloc =>
    if s.iface = .closed ∧ s.dev.napi = .idle ∧ irq then s.openHw alloc else s
  | .stop => if s.iface = .up then { s with iface := .channelDisable } else s
  | .proceed ncsi => s.proceed ncsi
  | .linkChange phy =>
    if s.iface.PhyRuns ∧ ¬s.useNcsi ∧ s.adjust = .idle then { s with phy, adjust := .reading }
    else s
  | .adjust => s.adjustLink
  | .status value =>
    { s with configStatus := s.configStatus &&& cfgChannels ||| value &&& ~~~cfgChannels }
  | .dev e => s.stepDev e

/-- After `umac_probe`, on a board with NC-SI or without. -/
def probed (useNcsi : Bool) (phy : Phy) : UmacLife where
  useNcsi
  phy
  rings := ⟨[], none, none, 0, 0, 0, 0⟩
  configStatus := 0
  adjust := .idle
  napiEnabled := false
  dev := { UmacNapi.opened with interrupt := 0 }
  iface := .closed

/-! ### What is to hold, and what stands against it -/

/-- DMA is on. -/
def DmaOn (s : UmacLife) : Prop := s.configStatus &&& cfgChannels ≠ 0

instance (s : UmacLife) : Decidable s.DmaOn := inferInstanceAs (Decidable (_ ≠ _))

/-- Whoever uses the rings finds them allocated, and an interface that is closed, or
about to be, is quiet. -/
structure Quiet (s : UmacLife) : Prop where
  dma : s.DmaOn → s.rings.txRingAddr ∈ s.rings.allocated ∧ s.rings.rxRingAddr ∈ s.rings.allocated
  poll : s.dev.napi.Scheduled →
    ∃ tx ∈ s.rings.allocated, ∃ rx ∈ s.rings.allocated,
      s.rings.txDescs = some tx ∧ s.rings.rxDescs = some rx
  channels : s.iface.Down → ¬s.DmaOn
  interrupts : s.iface.Muted → Masked s.dev.interrupt
  memory : s.iface = .closed → s.rings.allocated = []

/-- An allocation fails in `umac_open`. -/
def AllocFails (s : UmacLife) : LifeEvent → Prop
  | .open irq alloc =>
    s.iface = .closed ∧ s.dev.napi = .idle ∧ irq = true ∧ ¬alloc.Succeeds
  | _ => False

/-- `ncsi_start_dev` fails in `umac_open`. -/
def NcsiFails (s : UmacLife) : LifeEvent → Prop
  | .proceed ncsi => s.iface = .ncsiStart ∧ ncsi = false
  | _ => False

/-- `umac_adjust_link` writes after `umac_channel_disable` what it has read before. -/
def Straddles (s : UmacLife) : LifeEvent → Prop
  | .adjust =>
    s.iface.Down ∧ ((∃ value, s.adjust = .writing true value) ∨
      ∃ value, s.adjust = .rewriting true value)
  | _ => False

/-- `umac_poll` enables the interrupts after `umac_irq_disable`. -/
def Unmutes (s : UmacLife) : LifeEvent → Prop
  | .dev (.proceed _) => s.iface.Muted ∧ ∃ value, s.dev.napi = .enabling value
  | _ => False

def Disturbs (s : UmacLife) (e : LifeEvent) : Prop :=
  s.AllocFails e ∨ s.NcsiFails e ∨ s.Straddles e ∨ s.Unmutes e

end UmacLife

end GxpUmac
