/-
When the UMAC interface is quiet.

What the memory, the channels and the interrupts owe to where `umac_open` and
`umac_stop` are, each an invariant of its own, and what breaks one of them.

* `RingInv`, `LinkInv`, `NapiInv` — the three invariants, and a step of each;
* `quiet_iff` — DMA and the poll find their rings allocated, a closed interface
  is quiet and owns nothing, in every state of a run, exactly when nothing fails
  in `umac_open`, no link change straddles `umac_channel_disable`, and no poll
  enables the interrupts after `umac_irq_disable`;
* `run_opens`, `run_dev` — the life between the two is a run of `UmacNapi`.
-/
import Canopy.UmacLife

namespace GxpUmac

open Run BitMask
open UmacNapi (Masked Enabled)

/-- Two rings that the driver and the hardware agree on. -/
def Rings.pair (tx rx : ℕ) : Rings := ⟨[tx, rx], some tx, some rx, tx, rx, tx, rx⟩

theorem Rings.allocate_point (r : Rings) (h : r.allocated = []) (tx rx : ℕ) :
    (r.allocate (.both tx rx)).point = Rings.pair tx rx := by
  rw [Rings.allocate, h]
  rfl

/-- A failed allocation leaves nothing allocated. -/
theorem Rings.allocate_fails {r : Rings} (h : r.allocated = []) {alloc : Alloc}
    (hfails : ¬alloc.Succeeds) : ((r.allocate alloc).point).allocated = [] := by
  cases alloc with
  | noDma | noTx | noRx tx => exact h
  | both tx rx => exact absurd trivial hfails

namespace Iface

/-- `umac_adjust_link` may be under way. -/
def Adjusts : Iface → Prop
  | .closed | .phyStart | .freeTx | .freeRx => False
  | _ => True

/-- NAPI is enabled. -/
def NapiOn : Iface → Prop
  | .irqEnable | .irqEnabling _ | .ncsiStart | .up | .channelDisable | .irqDisable
  | .irqDisabling _ | .napiDisable => True
  | _ => False

/-- The interrupts have been enabled, and NAPI is not yet disabled. -/
def Polls : Iface → Prop
  | .ncsiStart | .up | .channelDisable | .irqDisable | .irqDisabling _ | .napiDisable
  | .napiDraining => True
  | _ => False

/-- `umac_interrupt` may run. -/
def Handles : Iface → Prop
  | .freeIrq => True
  | i => i.Polls

/-- `umac_open` has not yet enabled the interrupts. -/
def Opening : Iface → Prop
  | .phyStart | .napiEnable | .irqEnable | .irqEnabling _ => True
  | _ => False

theorem Polls.handles {i : Iface} (h : i.Polls) : i.Handles := by
  cases i with
  | freeIrq => trivial
  | closed | phyStart | napiEnable | irqEnable | irqEnabling _ | phyStop | phyStopping | freeTx
    | freeRx => exact h.elim
  | ncsiStart | up | channelDisable | irqDisable | irqDisabling _ | napiDisable
    | napiDraining => trivial

theorem Opening.not_handles {i : Iface} (h : i.Opening) : ¬i.Handles := by
  cases i with
  | phyStart | napiEnable | irqEnable | irqEnabling _ => exact id
  | closed | ncsiStart | up | channelDisable | irqDisable | irqDisabling _ | napiDisable
    | napiDraining | freeIrq | phyStop | phyStopping | freeTx | freeRx => exact h.elim

/-- While NAPI is enabled, an interrupt is followed by its poll. -/
theorem NapiOn.polls {i : Iface} (h : i.NapiOn) (hhandles : i.Handles) : i.Polls := by
  cases i with
  | freeIrq => exact h.elim
  | closed | phyStart | napiEnable | irqEnable | irqEnabling _ | ncsiStart | up | channelDisable
    | irqDisable | irqDisabling _ | napiDisable | napiDraining | phyStop | phyStopping | freeTx
    | freeRx => exact hhandles

/-- Where the interrupts are not muted, the handler may run. -/
theorem Requested.handles {i : Iface} (h : i.Requested) (hmuted : ¬i.Muted) : i.Handles := by
  cases i with
  | ncsiStart | up | channelDisable | irqDisable | irqDisabling _ => trivial
  | closed | phyStart | napiEnable | irqEnable | irqEnabling _ | napiDisable | napiDraining
    | freeIrq | phyStop | phyStopping | freeTx | freeRx => exact absurd trivial hmuted

theorem PhyRuns.adjusts {i : Iface} (h : i.PhyRuns) : i.Adjusts := by
  cases i with
  | closed | phyStart | phyStopping | freeTx | freeRx => exact h.elim
  | napiEnable | irqEnable | irqEnabling _ | ncsiStart | up | channelDisable | irqDisable
    | irqDisabling _ | napiDisable | napiDraining | freeIrq | phyStop => trivial

end Iface

namespace UmacLife

variable {s : UmacLife} {e : LifeEvent}

/-- The interrupt, the poll and the traffic leave the rest alone. -/
theorem stepDev_eq (s : UmacLife) (e : NapiEvent) : ∃ dev, s.stepDev e = { s with dev } := by
  cases e with
  | receive _ _ | transmit | irq =>
    rw [stepDev]
    split
    · exact ⟨_, rfl⟩
    · exact ⟨s.dev, rfl⟩
  | poll _ | proceed _ => exact ⟨_, rfl⟩

/-! ### The memory -/

/-- What is allocated, by where `umac_open` and `umac_stop` are. -/
def RingInv (r : Rings) : Iface → Prop
  | .closed => r.allocated = []
  | .freeRx => ∃ rx, r.rxDescs = some rx ∧ r.allocated = [rx]
  | _ => ∃ tx rx, r = Rings.pair tx rx

/-- While the channels may be on, the rings are there. -/
theorem RingInv.pair {r : Rings} {i : Iface} (h : RingInv r i) (hclosed : i ≠ .closed)
    (hfreeRx : i ≠ .freeRx) : ∃ tx rx, r = Rings.pair tx rx := by
  cases i with
  | closed => exact absurd rfl hclosed
  | freeRx => exact absurd rfl hfreeRx
  | phyStart | napiEnable | irqEnable | irqEnabling _ | ncsiStart | up | channelDisable
    | irqDisable | irqDisabling _ | napiDisable | napiDraining | freeIrq | phyStop | phyStopping
    | freeTx => exact h

/-- The statements that leave the memory alone. -/
theorem ringInv_proceed (h : RingInv s.rings s.iface) {ncsi : Bool}
    (hncsi : ¬s.NcsiFails (.proceed ncsi)) :
    RingInv (s.proceed ncsi).rings (s.proceed ncsi).iface := by
  have hstay : RingInv s.rings s.iface := h
  rw [proceed]
  cases hi : s.iface with
  | closed | up => exact hstay
  | phyStart | irqEnable | channelDisable | irqDisable | irqDisabling _ | napiDisable =>
    rw [hi] at h
    exact h
  | napiEnable | napiDraining | freeIrq =>
    rw [hi] at h
    dsimp only
    split
    · exact hstay
    · exact h
  | irqEnabling value =>
    rw [hi] at h
    dsimp only
    split
    · exact h
    · exact h
  | ncsiStart =>
    rw [hi] at h
    cases ncsi with
    | false => exact absurd ⟨hi, rfl⟩ hncsi
    | true => exact h
  | phyStop =>
    rw [hi] at h
    dsimp only
    split_ifs
    · exact hstay
    · exact h
    · exact h
  | phyStopping =>
    rw [hi] at h
    dsimp only
    split
    · exact hstay
    · exact h
  | freeTx =>
    rw [hi] at h
    obtain ⟨tx, rx, hpair⟩ := h
    refine ⟨rx, ?_, ?_⟩
    · rw [hpair]
      rfl
    · rw [hpair]
      exact List.erase_cons_head tx [rx]
  | freeRx =>
    rw [hi] at h
    obtain ⟨rx, hrx, hallocated⟩ := h
    show ((s.rings.free s.rings.rxDescs).allocated) = []
    rw [hrx, Rings.free, hallocated]
    exact List.erase_cons_head rx []

theorem ringInv_step (h : RingInv s.rings s.iface) (he : ¬s.Disturbs e) :
    RingInv (s.step e).rings (s.step e).iface := by
  cases e with
  | «open» irq alloc =>
    rw [step]
    split
    · next hopen =>
      obtain ⟨hclosed, hidle, hirq⟩ := hopen
      rw [hclosed] at h
      cases alloc with
      | both tx rx => exact ⟨tx, rx, Rings.allocate_point _ h tx rx⟩
      | noDma | noTx | noRx tx => exact absurd (Or.inl ⟨hclosed, hidle, hirq, id⟩) he
    · exact h
  | stop =>
    rw [step]
    split
    · next hup =>
      rw [hup] at h
      exact h
    · exact h
  | proceed ncsi => exact ringInv_proceed h fun hn => he (Or.inr (Or.inl hn))
  | linkChange phy =>
    rw [step]
    split
    · exact h
    · exact h
  | adjust =>
    rw [step, adjustLink]
    split
    · exact h
    · exact h
    · exact h
    · exact h
  | status value => exact h
  | dev e =>
    obtain ⟨dev, hdev⟩ := stepDev_eq s e
    rw [step, hdev]
    exact h

/-! ### The channels -/

/-- The channel bits of a value that `umac_adjust_link` has read. -/
def ReadAs (early : Bool) (value : BitVec 32) (i : Iface) : Prop :=
  value &&& cfgChannels = (if early then cfgChannels else 0) ∧ (early = false → i.Down)

/-- What `umac_adjust_link` has in hand. -/
def AdjustInv (i : Iface) : Adjust → Prop
  | .idle => True
  | .reading => i.Adjusts
  | .writing early value | .rewriting early value => i.Adjusts ∧ ReadAs early value i

/-- The channels are on exactly up to `umac_channel_disable`. -/
structure LinkInv (s : UmacLife) : Prop where
  channels : s.configStatus &&& cfgChannels = if s.iface.Down then 0 else cfgChannels
  adjust : AdjustInv s.iface s.adjust

/-- `umac_adjust_link` keeps the channel bits. -/
theorem adjust_and (phy : Phy) (value : BitVec 32) :
    phy.adjust value &&& cfgChannels = value &&& cfgChannels := by
  have hduplex : (if phy.duplex then value ||| cfgFullDuplex else value &&& ~~~cfgFullDuplex) &&&
      cfgChannels = value &&& cfgChannels := by
    split
    · exact or_and_of_disjoint (by decide) value
    · exact and_not_and_of_disjoint (by decide) value
  rw [Phy.adjust]
  split
  · dsimp only
    generalize (if phy.duplex then value ||| cfgFullDuplex
      else value &&& ~~~cfgFullDuplex) = duplex at hduplex ⊢
    split_ifs with h1000 h100
    · rw [or_and_of_disjoint (by decide), or_and_of_disjoint (by decide),
        and_not_and_of_disjoint (by decide), hduplex]
    · rw [and_not_and_of_disjoint (by decide), and_not_and_of_disjoint (by decide),
        or_and_of_disjoint (by decide), hduplex]
    · exact hduplex
  · rw [or_and_of_disjoint (by decide), and_not_and_of_disjoint (by decide),
      and_not_and_of_disjoint (by decide), and_not_and_of_disjoint (by decide)]

/-- So does the mask it reads through. -/
theorem read_and (value : BitVec 32) :
    value &&& 0xfffff9ff &&& cfgChannels = value &&& cfgChannels := by
  have hmask : (0xfffff9ff : BitVec 32) = ~~~(cfgGtxClkEn ||| cfgTxClkEn) := by decide
  rw [hmask]
  exact and_not_and_of_disjoint (by decide) value

/-- The statements of `umac_open` and `umac_stop` between which nothing changes here. -/
theorem AdjustInv.mono {i i' : Iface} {adjust : Adjust} (h : AdjustInv i adjust)
    (hadjusts : i.Adjusts → i'.Adjusts) (hdown : i.Down → i'.Down) : AdjustInv i' adjust := by
  cases adjust with
  | idle => trivial
  | reading => exact hadjusts h
  | writing early value | rewriting early value =>
    exact ⟨hadjusts h.1, h.2.1, fun hearly => hdown (h.2.2 hearly)⟩

/-- Outside `umac_adjust_link` there is nothing to keep. -/
theorem AdjustInv.of_not_adjusts {i i' : Iface} {adjust : Adjust} (h : AdjustInv i adjust)
    (hi : ¬i.Adjusts) : AdjustInv i' adjust := by
  cases adjust with
  | idle => trivial
  | reading => exact absurd h hi
  | writing _ _ | rewriting _ _ => exact absurd h.1 hi

private theorem linkInv_proceed (h : LinkInv s) {ncsi : Bool}
    (hncsi : ¬s.NcsiFails (.proceed ncsi)) :
    LinkInv (s.proceed ncsi) := by
  obtain ⟨hchannels, hadjust⟩ := h
  have hstay : LinkInv s := ⟨hchannels, hadjust⟩
  rw [proceed]
  cases hi : s.iface with
  | closed | up => exact hstay
  | phyStart =>
    rw [hi] at hchannels hadjust
    exact ⟨hchannels, hadjust.of_not_adjusts id⟩
  | irqEnable | irqDisable | irqDisabling _ | napiDisable | freeTx | freeRx =>
    rw [hi] at hchannels hadjust
    exact ⟨hchannels, hadjust.mono id id⟩
  | channelDisable =>
    rw [hi] at hadjust
    have hoff : (0 : BitVec 32) &&& cfgChannels =
        if Iface.irqDisable.Down then 0 else cfgChannels := by decide
    exact ⟨hoff, hadjust.mono id fun hd => hd.elim⟩
  | napiEnable | napiDraining | freeIrq =>
    rw [hi] at hchannels hadjust
    dsimp only
    split
    · exact hstay
    · exact ⟨hchannels, hadjust.mono id id⟩
  | irqEnabling value =>
    rw [hi] at hchannels hadjust
    dsimp only
    split
    · exact ⟨hchannels, hadjust.mono id id⟩
    · exact ⟨hchannels, hadjust.mono id id⟩
  | ncsiStart =>
    rw [hi] at hchannels hadjust
    cases ncsi with
    | false => exact absurd ⟨hi, rfl⟩ hncsi
    | true => exact ⟨hchannels, hadjust.mono id id⟩
  | phyStop =>
    rw [hi] at hchannels hadjust
    dsimp only
    split_ifs with hbusy hlink
    · exact hstay
    · exact ⟨hchannels, trivial⟩
    · rw [not_not.mp hbusy] at hadjust ⊢
      exact ⟨hchannels, trivial⟩
  | phyStopping =>
    rw [hi] at hchannels
    dsimp only
    split
    · exact hstay
    · next hidle =>
      refine ⟨hchannels, ?_⟩
      dsimp only
      rw [not_not.mp hidle]
      trivial

/-- An access of `umac_adjust_link` that does not straddle `umac_channel_disable`. -/
theorem linkInv_adjust (h : LinkInv s) (hstraddles : ¬s.Straddles .adjust) :
    LinkInv s.adjustLink := by
  obtain ⟨hchannels, hadjust⟩ := h
  have hwrite : ∀ {early value}, ReadAs early value s.iface → ¬(s.iface.Down ∧ early = true) →
      value &&& cfgChannels = if s.iface.Down then 0 else cfgChannels := by
    rintro early value ⟨hvalue, hdown⟩ hkeeps
    cases early with
    | false => rw [hvalue, if_pos (hdown rfl)]; rfl
    | true => rw [hvalue, if_neg fun hd => hkeeps ⟨hd, rfl⟩]; rfl
  rw [adjustLink]
  cases ha : s.adjust with
  | idle => exact ⟨hchannels, hadjust⟩
  | reading =>
    rw [ha] at hadjust
    refine ⟨hchannels, hadjust, ?_, fun hearly => not_not.mp (of_decide_eq_false hearly)⟩
    rw [read_and, hchannels]
    by_cases hd : s.iface.Down
    · rw [if_pos hd, if_neg]
      simpa using hd
    · rw [if_neg hd, if_pos]
      simpa using hd
  | writing early value =>
    rw [ha] at hadjust
    obtain ⟨hadjusts, hread⟩ := hadjust
    refine ⟨hwrite hread ?_, hadjusts, ?_, hread.2⟩
    · rintro ⟨hd, rfl⟩
      exact hstraddles ⟨hd, Or.inl ⟨value, ha⟩⟩
    · rw [adjust_and]
      exact hread.1
  | rewriting early value =>
    rw [ha] at hadjust
    refine ⟨hwrite hadjust.2 ?_, trivial⟩
    rintro ⟨hd, rfl⟩
    exact hstraddles ⟨hd, Or.inr ⟨value, ha⟩⟩

theorem linkInv_step (h : LinkInv s) (he : ¬s.Disturbs e) : LinkInv (s.step e) := by
  cases e with
  | «open» irq alloc =>
    rw [step]
    split
    · next hopen =>
      obtain ⟨hclosed, -, -⟩ := hopen
      obtain ⟨-, hadjust⟩ := h
      rw [hclosed] at hadjust
      refine ⟨?_, hadjust.of_not_adjusts id⟩
      show (initConfig s.useNcsi s.phy 0 ||| cfgChannels) &&& cfgChannels = _
      rw [or_and_self_right]
      rfl
    · exact h
  | stop =>
    rw [step]
    split
    · next hup =>
      obtain ⟨hchannels, hadjust⟩ := h
      rw [hup] at hchannels hadjust
      exact ⟨hchannels, hadjust.mono id id⟩
    · exact h
  | proceed ncsi => exact linkInv_proceed h fun hn => he (Or.inr (Or.inl hn))
  | linkChange phy =>
    rw [step]
    split
    · next hruns => exact ⟨h.channels, Iface.PhyRuns.adjusts hruns.1⟩
    · exact h
  | adjust => exact linkInv_adjust h fun hs => he (Or.inr (Or.inr (Or.inl hs)))
  | status value =>
    refine ⟨?_, h.adjust⟩
    show (s.configStatus &&& cfgChannels ||| value &&& ~~~cfgChannels) &&& cfgChannels = _
    rw [BitVec.and_or_distrib_right, and_not_self_right, BitVec.and_assoc, BitVec.and_self,
      BitVec.ofNat_eq_ofNat, BitVec.or_zero]
    exact h.channels
  | dev e =>
    obtain ⟨dev, hdev⟩ := stepDev_eq s e
    rw [step, hdev]
    exact ⟨h.channels, h.adjust⟩

/-! ### The interrupts -/

/-- What holds of the interrupt register by where the handler or the poll is. -/
def NapiPhase (i : Iface) (interrupt : BitVec 32) : Napi → Prop
  | .idle => True
  | .disabling _ => i.Handles
  | .scheduled | .receiving => i.Polls ∧ Masked interrupt
  | .txDone _ value => i.Polls ∧ Masked interrupt ∧ Masked value
  | .completed | .acked | .enabling _ => ¬i.Opening ∧ Masked interrupt
  | .acking value => ¬i.Opening ∧ Masked interrupt ∧ Masked value

structure NapiInv (s : UmacLife) : Prop where
  muted : s.iface.Muted → Masked s.dev.interrupt
  enabled : s.napiEnabled = true ↔ s.iface.NapiOn
  phase : NapiPhase s.iface s.dev.interrupt s.dev.napi

/-- The statements between which the interrupts go on as before. -/
theorem NapiPhase.mono {i i' : Iface} {reg reg' : BitVec 32} {napi : Napi}
    (h : NapiPhase i reg napi) (hpolls : i.Polls → i'.Polls) (hhandles : i.Handles → i'.Handles)
    (hopening : i'.Opening → i.Opening) (hreg : Masked reg → Masked reg') :
    NapiPhase i' reg' napi := by
  cases napi with
  | idle => trivial
  | disabling _ => exact hhandles h
  | scheduled | receiving => exact ⟨hpolls h.1, hreg h.2⟩
  | txDone _ _ => exact ⟨hpolls h.1, hreg h.2.1, h.2.2⟩
  | completed | acked | enabling _ => exact ⟨fun ho => h.1 (hopening ho), hreg h.2⟩
  | acking _ => exact ⟨fun ho => h.1 (hopening ho), hreg h.2.1, h.2.2⟩

/-- A flag of the hardware. -/
theorem NapiPhase.set {i : Iface} {reg flag : BitVec 32} {napi : Napi} (h : NapiPhase i reg napi)
    (hrx : flag &&& rxInten = 0) (htx : flag &&& txInten = 0) :
    NapiPhase i (reg ||| flag) napi :=
  h.mono id id id fun hmasked => hmasked.set hrx htx

/-- Before `umac_irq_enable` nothing is scheduled. -/
theorem NapiPhase.idle_of_opening {i : Iface} {reg : BitVec 32} {napi : Napi}
    (h : NapiPhase i reg napi) (hi : i.Opening) : napi = .idle := by
  cases napi with
  | idle => rfl
  | disabling _ => exact absurd h hi.not_handles
  | scheduled | receiving | txDone _ _ => exact absurd h.1.handles hi.not_handles
  | completed | acked | enabling _ | acking _ => exact absurd hi h.1

/-- The poll is scheduled only while NAPI can run it. -/
theorem NapiPhase.polls {i : Iface} {reg : BitVec 32} {napi : Napi}
    (h : NapiPhase i reg napi) (hscheduled : napi.Scheduled) : i.Polls := by
  cases napi with
  | scheduled | receiving | txDone _ _ => exact h.1
  | idle | disabling _ | completed | acked | enabling _ | acking _ => exact hscheduled.elim

/-- Without a poll the interface may go on. -/
theorem NapiPhase.drained {i i' : Iface} {reg : BitVec 32} {napi : Napi}
    (h : NapiPhase i reg napi) (hscheduled : ¬napi.Scheduled)
    (hhandles : napi.Handling → i'.Handles) (hopening : i'.Opening → i.Opening) :
    NapiPhase i' reg napi := by
  cases napi with
  | idle => trivial
  | disabling _ => exact hhandles trivial
  | scheduled | receiving | txDone _ _ => exact absurd trivial hscheduled
  | completed | acked | enabling _ => exact ⟨fun ho => h.1 (hopening ho), h.2⟩
  | acking _ => exact ⟨fun ho => h.1 (hopening ho), h.2⟩

private theorem napiInv_proceed (h : NapiInv s) {ncsi : Bool}
    (hncsi : ¬s.NcsiFails (.proceed ncsi)) :
    NapiInv (s.proceed ncsi) := by
  obtain ⟨hmuted, henabled, hphase⟩ := h
  have hstay : NapiInv s := ⟨hmuted, henabled, hphase⟩
  rw [proceed]
  cases hi : s.iface with
  | closed | up => exact hstay
  | phyStart | irqEnable | channelDisable | irqDisable | freeTx | freeRx =>
    rw [hi] at hmuted henabled hphase
    exact ⟨hmuted, henabled, hphase.mono id id id id⟩
  | napiEnable =>
    rw [hi] at hmuted henabled hphase
    dsimp only
    split
    · exact hstay
    · exact ⟨hmuted, iff_of_true rfl trivial, hphase.mono id id id id⟩
  | irqEnabling value =>
    rw [hi] at hmuted henabled hphase
    have hidle : s.dev.napi = .idle := hphase.idle_of_opening trivial
    dsimp only
    split
    · refine ⟨fun hm => hm.elim, henabled, ?_⟩
      show NapiPhase _ _ s.dev.napi
      rw [hidle]
      trivial
    · refine ⟨fun hm => hm.elim, henabled, ?_⟩
      show NapiPhase _ _ s.dev.napi
      rw [hidle]
      trivial
  | ncsiStart =>
    rw [hi] at hmuted henabled hphase
    cases ncsi with
    | false => exact absurd ⟨hi, rfl⟩ hncsi
    | true => exact ⟨hmuted, henabled, hphase.mono id id id id⟩
  | irqDisabling value =>
    rw [hi] at henabled hphase
    have hmasked := UmacNapi.masked_disable s.dev (value ||| (rxInt ||| txInt))
    exact ⟨fun _ => hmasked, henabled, hphase.mono id id id fun _ => hmasked⟩
  | napiDisable =>
    rw [hi] at hmuted hphase
    exact ⟨hmuted, iff_of_false Bool.false_ne_true id, hphase.mono id id id id⟩
  | napiDraining =>
    rw [hi] at hmuted henabled hphase
    dsimp only
    split
    · exact hstay
    · next hdrained =>
      exact ⟨hmuted, henabled, hphase.drained hdrained (fun _ => trivial) id⟩
  | freeIrq =>
    rw [hi] at hmuted henabled hphase
    dsimp only
    split
    · exact hstay
    · next hhandled =>
      refine ⟨hmuted, henabled, hphase.drained ?_ (fun hh => absurd hh hhandled) id⟩
      exact fun hscheduled => (hphase.polls hscheduled).elim
  | phyStop =>
    rw [hi] at hmuted henabled hphase
    dsimp only
    split_ifs
    · exact hstay
    · exact ⟨hmuted, henabled, hphase.mono id id id id⟩
    · exact ⟨hmuted, henabled, hphase.mono id id id id⟩
  | phyStopping =>
    rw [hi] at hmuted henabled hphase
    dsimp only
    split
    · exact hstay
    · exact ⟨hmuted, henabled, hphase.mono id id id id⟩

/-- Nothing is scheduled: NAPI has no say. -/
theorem schedule_of_ne (s : UmacLife) {dev : UmacNapi} (h : dev.napi ≠ .scheduled) :
    s.schedule dev = { s with dev } := by
  rw [schedule, if_neg fun hs => h hs.1]

/-- A step of the handler or the poll. -/
theorem napiInv_schedule (h : NapiInv s) {skb : Bool}
    (hunmutes : ¬s.Unmutes (.dev (.proceed skb))) : NapiInv (s.schedule (s.dev.proceed skb)) := by
  obtain ⟨hmuted, henabled, hphase⟩ := h
  have hstay : NapiInv s := ⟨hmuted, henabled, hphase⟩
  rw [UmacNapi.proceed]
  cases hn : s.dev.napi with
  | idle | scheduled =>
    rw [schedule, if_neg fun hs => hs.2.1 hs.1]
    exact hstay
  | disabling value =>
    rw [hn] at hphase
    have hmasked := UmacNapi.masked_disable s.dev (value ||| (rxInt ||| txInt))
    rw [schedule]
    dsimp only
    split
    · exact ⟨fun _ => hmasked, henabled, trivial⟩
    · next hon =>
      have honNapi : s.iface.NapiOn := by
        by_contra hoff
        have hne : s.dev.napi ≠ .scheduled := by
          rw [hn]
          rintro ⟨⟩
        exact hon ⟨rfl, hne, fun ht => hoff (henabled.mp ht)⟩
      exact ⟨fun _ => hmasked, henabled, honNapi.polls hphase, hmasked⟩
  | txDone budget value =>
    rw [hn] at hphase
    have hrx : txInt &&& rxInten = 0 := by decide
    have htx : txInt &&& txInten = 0 := by decide
    have hmasked := (hphase.2.2.clear hrx htx).writel s.dev
    rw [schedule_of_ne]
    · exact ⟨fun _ => hmasked, henabled, hphase.1, hmasked⟩
    · rintro ⟨⟩
  | receiving =>
    rw [hn] at hphase
    dsimp only
    rw [schedule]
    split
    · exact ⟨hmuted, henabled, trivial⟩
    · refine ⟨hmuted, henabled, ?_⟩
      rw [UmacNapi.received]
      dsimp only
      split_ifs
      · exact hphase
      · exact ⟨fun ho => ho.not_handles hphase.1.handles, hphase.2⟩
      · exact hphase
  | completed =>
    rw [hn] at hphase
    rw [schedule_of_ne]
    · exact ⟨hmuted, henabled, hphase.1, hphase.2, hphase.2⟩
    · rintro ⟨⟩
  | acking value =>
    rw [hn] at hphase
    have hrx : rxInt &&& rxInten = 0 := by decide
    have htx : rxInt &&& txInten = 0 := by decide
    have hmasked := (hphase.2.2.clear hrx htx).writel s.dev
    rw [schedule_of_ne]
    · exact ⟨fun _ => hmasked, henabled, hphase.1, hmasked⟩
    · rintro ⟨⟩
  | acked =>
    rw [hn] at hphase
    rw [schedule_of_ne]
    · exact ⟨hmuted, henabled, hphase⟩
    · rintro ⟨⟩
  | enabling value =>
    rw [schedule_of_ne]
    · exact ⟨fun hm => absurd ⟨hm, value, hn⟩ hunmutes, henabled, trivial⟩
    · rintro ⟨⟩

private theorem napiInv_stepDev (h : NapiInv s) {e : NapiEvent} (hunmutes : ¬s.Unmutes (.dev e)) :
    NapiInv (s.stepDev e) := by
  obtain ⟨hmuted, henabled, hphase⟩ := h
  cases e with
  | receive data status =>
    rw [stepDev, UmacNapi.step]
    split_ifs
    · exact ⟨fun hm => (hmuted hm).set (by decide) (by decide), henabled,
        hphase.set (by decide) (by decide)⟩
    · exact ⟨hmuted, henabled, hphase⟩
    · exact ⟨hmuted, henabled, hphase⟩
  | transmit =>
    rw [stepDev, UmacNapi.step]
    split
    · exact ⟨fun hm => (hmuted hm).set (by decide) (by decide), henabled,
        hphase.set (by decide) (by decide)⟩
    · exact ⟨hmuted, henabled, hphase⟩
  | irq =>
    rw [stepDev, UmacNapi.step]
    split_ifs with hrequested hline
    · -- the line is high, so the interrupts are not muted
      have hhandles : s.iface.Handles :=
        hrequested.1.handles fun hm => (hmuted hm).not_asserted hline.1
      exact ⟨hmuted, henabled, hhandles⟩
    · exact ⟨hmuted, henabled, hphase⟩
    · exact ⟨hmuted, henabled, hphase⟩
  | poll budget =>
    rw [stepDev, UmacNapi.step]
    split
    · next hscheduled =>
      rw [hscheduled] at hphase
      exact ⟨hmuted, henabled, hphase.1, hphase.2, hphase.2⟩
    · exact ⟨hmuted, henabled, hphase⟩
  | proceed skb => exact napiInv_schedule ⟨hmuted, henabled, hphase⟩ hunmutes

theorem napiInv_step (h : NapiInv s) (he : ¬s.Disturbs e) : NapiInv (s.step e) := by
  cases e with
  | «open» irq alloc =>
    rw [step]
    split
    · next hopen =>
      obtain ⟨hclosed, hidle, -⟩ := hopen
      obtain ⟨hmuted, henabled, -⟩ := h
      rw [hclosed] at hmuted henabled
      refine ⟨hmuted, henabled, ?_⟩
      show NapiPhase _ _ s.dev.napi
      rw [hidle]
      trivial
    · exact h
  | stop =>
    rw [step]
    split
    · next hup =>
      obtain ⟨hmuted, henabled, hphase⟩ := h
      rw [hup] at hmuted henabled hphase
      exact ⟨hmuted, henabled, hphase.mono id id id id⟩
    · exact h
  | proceed ncsi => exact napiInv_proceed h fun hn => he (Or.inr (Or.inl hn))
  | linkChange phy =>
    rw [step]
    split
    · exact ⟨h.muted, h.enabled, h.phase⟩
    · exact h
  | adjust =>
    rw [step, adjustLink]
    split
    · exact h
    · exact ⟨h.muted, h.enabled, h.phase⟩
    · exact ⟨h.muted, h.enabled, h.phase⟩
    · exact ⟨h.muted, h.enabled, h.phase⟩
  | status value => exact ⟨h.muted, h.enabled, h.phase⟩
  | dev e => exact napiInv_stepDev h fun hu => he (Or.inr (Or.inr (Or.inr hu)))

/-! ### Exactly when the interface is quiet -/

structure Inv (s : UmacLife) : Prop where
  rings : RingInv s.rings s.iface
  link : LinkInv s
  napi : NapiInv s

private theorem inv_probed (useNcsi : Bool) (phy : Phy) : Inv (probed useNcsi phy) where
  rings := rfl
  link := ⟨show (0 : BitVec 32) &&& cfgChannels = if Iface.closed.Down then 0 else cfgChannels by
    decide, trivial⟩
  napi := ⟨fun _ => show Masked 0 from ⟨by decide, by decide⟩,
    iff_of_false Bool.false_ne_true id, trivial⟩

theorem Inv.step (h : Inv s) (he : ¬s.Disturbs e) : Inv (s.step e) :=
  ⟨ringInv_step h.rings he, linkInv_step h.link he, napiInv_step h.napi he⟩

/-- DMA is on exactly up to `umac_channel_disable`. -/
theorem LinkInv.dmaOn_iff (h : LinkInv s) : s.DmaOn ↔ ¬s.iface.Down := by
  rw [DmaOn, h.channels]
  split
  · next hd => exact iff_of_false (fun hne => hne rfl) (not_not.mpr hd)
  · next hd => exact iff_of_true (by decide) hd

theorem Inv.quiet (h : Inv s) : Quiet s where
  dma := by
    intro hdma
    have hdown := h.link.dmaOn_iff.mp hdma
    obtain ⟨tx, rx, hpair⟩ := h.rings.pair (fun hi => hdown (hi ▸ trivial))
      fun hi => hdown (hi ▸ trivial)
    rw [hpair]
    exact ⟨List.mem_cons_self, List.mem_cons_of_mem _ List.mem_cons_self⟩
  poll := by
    intro hscheduled
    have hpolls : s.iface.Polls := h.napi.phase.polls hscheduled
    obtain ⟨tx, rx, hpair⟩ := h.rings.pair (fun hi => (hi ▸ hpolls : Iface.Polls .closed))
      fun hi => (hi ▸ hpolls : Iface.Polls .freeRx)
    rw [hpair]
    exact ⟨tx, List.mem_cons_self, rx, List.mem_cons_of_mem _ List.mem_cons_self, rfl, rfl⟩
  channels := fun hd hdma => h.link.dmaOn_iff.mp hdma hd
  interrupts := h.napi.muted
  memory := by
    intro hclosed
    have hrings := h.rings
    rw [hclosed] at hrings
    exact hrings

/-- DMA into memory that was never allocated. -/
theorem Inv.not_quiet_of_allocFails (h : Inv s) (he : s.AllocFails e) :
    ¬Quiet (UmacLife.step s e) := by
  cases e with
  | «open» irq alloc =>
    obtain ⟨hclosed, hidle, hirq, hsucceeds⟩ := he
    have hrings := h.rings
    rw [hclosed] at hrings
    have hon : (s.openHw alloc).DmaOn := by
      rw [DmaOn, openHw, or_and_self_right]
      decide
    rw [UmacLife.step, if_pos ⟨hclosed, hidle, hirq⟩]
    intro hquiet
    have hmem := (hquiet.dma hon).1
    rw [openHw, Rings.allocate_fails hrings hsucceeds] at hmem
    exact absurd hmem List.not_mem_nil
  | stop | proceed _ | linkChange _ | adjust | status _ | dev _ => exact he.elim

/-- `umac_open` gives up with DMA on. -/
theorem Inv.not_quiet_of_ncsiFails (h : Inv s) (he : s.NcsiFails e) :
    ¬Quiet (UmacLife.step s e) := by
  cases e with
  | proceed ncsi =>
    obtain ⟨hi, rfl⟩ := he
    have hon : s.DmaOn := h.link.dmaOn_iff.mpr (by rw [hi]; exact id)
    rw [UmacLife.step, UmacLife.proceed, hi]
    exact fun hquiet => hquiet.channels trivial hon
  | «open» _ _ | stop | linkChange _ | adjust | status _ | dev _ => exact he.elim

/-- `umac_adjust_link` turns DMA on again. -/
theorem Inv.not_quiet_of_straddles (h : Inv s) (he : s.Straddles e) :
    ¬Quiet (UmacLife.step s e) := by
  cases e with
  | adjust =>
    obtain ⟨hdown, hwrites⟩ := he
    have hadjust := h.link.adjust
    obtain ⟨value, hread, hstep⟩ : ∃ value, ReadAs true value s.iface ∧
        ∃ adjust, UmacLife.step s .adjust = { s with configStatus := value, adjust } := by
      rw [UmacLife.step, adjustLink]
      rcases hwrites with ⟨value, hvalue⟩ | ⟨value, hvalue⟩
      · rw [hvalue] at hadjust ⊢
        exact ⟨value, hadjust.2, _, rfl⟩
      · rw [hvalue] at hadjust ⊢
        exact ⟨value, hadjust.2, _, rfl⟩
    obtain ⟨adjust, hstep⟩ := hstep
    rw [hstep]
    refine fun hquiet => hquiet.channels hdown ?_
    rw [DmaOn]
    dsimp only
    rw [hread.1]
    decide
  | «open» _ _ | stop | proceed _ | linkChange _ | status _ | dev _ => exact he.elim

/-- `umac_irq_enable` unmutes the interrupts. -/
theorem not_quiet_of_unmutes (he : s.Unmutes e) : ¬Quiet (UmacLife.step s e) := by
  cases e with
  | dev e =>
    cases e with
    | proceed skb =>
      obtain ⟨hmuted, value, hvalue⟩ := he
      have hstep : UmacLife.step s (.dev (.proceed skb)) =
          { s with
            dev :=
              { s.dev with
                interrupt := s.dev.writel (value ||| (rxInten ||| txInten)), napi := .idle } } := by
        show s.schedule (s.dev.proceed skb) = _
        rw [UmacNapi.proceed, hvalue, schedule_of_ne]
        rintro ⟨⟩
      rw [hstep]
      intro hquiet
      have hmasked := (hquiet.interrupts hmuted).1
      dsimp only at hmasked
      rw [(UmacNapi.enabled_enable s.dev value).1] at hmasked
      exact absurd hmasked (by decide)
    | receive _ _ | transmit | irq | poll _ => exact he.elim
  | «open» _ _ | stop | proceed _ | linkChange _ | adjust | status _ => exact he.elim

/-- **DMA and the poll find their rings, and a closed interface is quiet**, in every
state of a run, exactly when nothing disturbs it. -/
theorem quiet_iff (useNcsi : Bool) (phy : Phy) (events : List LifeEvent) :
    (∀ es, es <+: events → Quiet (run step (probed useNcsi phy) es)) ↔
      ∀ p ∈ visits step (probed useNcsi phy) events, ¬p.1.Disturbs p.2 := by
  have hinit := inv_probed useNcsi phy
  rw [forall_prefix_run_iff, and_iff_right hinit.quiet]
  have hstep : ∀ (t : UmacLife) (e : LifeEvent), Inv t → ¬t.Disturbs e → Inv (t.step e) :=
    fun t e ht he => ht.step he
  refine (forall_visits_iff (Q := fun t e => Quiet (t.step e)) hstep (fun t e ht => ?_) hinit).symm
  constructor
  · exact fun he => (ht.step he).quiet
  · rintro hquiet (hfails | hncsi | hstraddles | hunmutes)
    · exact ht.not_quiet_of_allocFails hfails hquiet
    · exact ht.not_quiet_of_ncsiFails hncsi hquiet
    · exact ht.not_quiet_of_straddles hstraddles hquiet
    · exact not_quiet_of_unmutes hunmutes hquiet

/-- A link change that `umac_stop` catches half-way. -/
def caughtHalfWay : List LifeEvent :=
  [.open true (.both 1 2), .proceed true, .proceed true, .proceed true, .proceed true,
    .linkChange ⟨true, true, 100⟩, .adjust, .stop, .proceed true, .adjust, .adjust] ++
    List.replicate 7 (.proceed true) ++ [.adjust, .adjust, .adjust] ++
    List.replicate 3 (.proceed true)

-- the hardware goes on writing to memory that is freed
example : (run step (probed false ⟨true, true, 1000⟩) caughtHalfWay).iface = .closed ∧
    (run step (probed false ⟨true, true, 1000⟩) caughtHalfWay).rings.allocated = [] ∧
    (run step (probed false ⟨true, true, 1000⟩) caughtHalfWay).DmaOn := by
  decide

/-! ### A life is a run of the driver and the ring -/

/-- `umac_open` on an interface that was just probed. -/
def opens (tx rx : ℕ) : List LifeEvent :=
  .open true (.both tx rx) :: List.replicate 5 (.proceed true)

/-- It leaves the driver and the ring as a run of `UmacNapi` begins. -/
theorem run_opens (useNcsi : Bool) (phy : Phy) (tx rx : ℕ) :
    (run step (probed useNcsi phy) (opens tx rx)).iface = .up ∧
      (run step (probed useNcsi phy) (opens tx rx)).napiEnabled = true ∧
      (run step (probed useNcsi phy) (opens tx rx)).DmaOn ∧
      (run step (probed useNcsi phy) (opens tx rx)).dev = UmacNapi.opened := by
  have hinterrupt : writeOneToClear (rxInt ||| txInt) 0 (0 ||| (rxInten ||| txInten)) =
      rxInten ||| txInten := by decide
  have hchannels : (initConfig useNcsi phy 0 ||| cfgChannels) &&& cfgChannels ≠ 0 := by
    rw [or_and_self_right]
    decide
  have hdev : (⟨.boot, writeOneToClear (rxInt ||| txInt) 0 (0 ||| (rxInten ||| txInten)), .idle⟩ :
      UmacNapi) = UmacNapi.opened := by
    rw [hinterrupt]
    rfl
  cases useNcsi with
  | false => exact ⟨rfl, rfl, hchannels, hdev⟩
  | true => exact ⟨rfl, rfl, hchannels, hdev⟩

/-- While the interface is up, the interrupt, the poll and the traffic are those of `UmacNapi`. -/
theorem run_dev (hup : s.iface = .up) (hdma : s.DmaOn) (hnapi : s.napiEnabled = true)
    (es : List NapiEvent) :
    run step s (es.map .dev) = { s with dev := run UmacNapi.step s.dev es } := by
  induction es generalizing s with
  | nil => rfl
  | cons e es ih =>
    have hstep : s.step (.dev e) = { s with dev := s.dev.step e } := by
      cases e with
      | receive _ _ | transmit => exact if_pos hdma
      | irq =>
        refine if_pos ⟨?_, Or.inr ?_⟩
        · rw [hup]
          trivial
        · rw [hup]
          trivial
      | poll _ => rfl
      | proceed skb =>
        show s.schedule (s.dev.step (.proceed skb)) = _
        rw [schedule, if_neg fun hs => hs.2.2 hnapi]
    rw [List.map_cons, run_cons, hstep, run_cons]
    exact ih hup hdma hnapi

end UmacLife

end GxpUmac
