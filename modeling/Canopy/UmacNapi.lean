/-
Receiving by interrupt: the UMAC receive ring behind NAPI.

A frame or a transmission sets a flag of `UMAC_INTERRUPT`, and the flag raises the
interrupt line while it is enabled.  `umac_interrupt` disables the interrupts
and schedules `umac_poll`, which empties the ring and enables them again.  The
flags are cleared by writing ones, every access to the register is a read
followed by a write, and frames arrive between any two accesses.

* `UmacNapi.step` — the driver, the register and the hardware;
* `not_asserted` — while a poll is under way the line stays low;
* `served_iff` — whenever the driver rests with a frame in the ring it can still
  deliver it, exactly in the runs where `umac_irq_enable` never takes back the
  last flag while a frame waits;
* `acked_of_sleeps` — and without a failed allocation it takes back the flag of
  that very frame.
-/
import Canopy.UmacRx

namespace GxpUmac

open Run BitMask

/-- `UMAC_RX_INTEN` -/
def rxInten : BitVec 32 := 0x8

/-- `UMAC_RX_INT` -/
def rxInt : BitVec 32 := 0x4

/-- `UMAC_TX_INTEN` -/
def txInten : BitVec 32 := 0x2

/-- `UMAC_TX_INT` -/
def txInt : BitVec 32 := 0x1

/-- `rxpktcount` in `umac_rx`. -/
def Rx.rxpktcount : Rx → ℕ
  | .idle => 0
  | .checking n _ | .copying n _ | .handing n _ _ | .resetting n _ _ => n

/-- `budget` in `umac_rx`. -/
def Rx.budget : Rx → ℕ
  | .idle => 0
  | .checking _ b | .copying _ b | .handing _ b _ | .resetting _ b _ => b

/-- Where the interrupt handler or the poll is. -/
inductive Napi where
  | idle
  /-- `umac_irq_disable` has read the register -/
  | disabling (value : BitVec 32)
  /-- the poll is scheduled -/
  | scheduled
  /-- `umac_tx_done` has read the register -/
  | txDone (budget : ℕ) (value : BitVec 32)
  /-- in `umac_rx` -/
  | receiving
  /-- after `napi_complete_done` -/
  | completed
  /-- `umac_poll` has read the register -/
  | acking (value : BitVec 32)
  /-- before `umac_irq_enable` -/
  | acked
  /-- `umac_irq_enable` has read the register -/
  | enabling (value : BitVec 32)
  deriving DecidableEq

structure UmacNapi where
  umac : UmacRx
  /-- the `UMAC_INTERRUPT` register -/
  interrupt : BitVec 32
  napi : Napi

inductive NapiEvent where
  /-- a frame arrives -/
  | receive (data : List UInt8) (status : BitVec 16)
  /-- the hardware has sent a frame -/
  | transmit
  /-- `umac_interrupt` is called -/
  | irq
  /-- `umac_poll` is called -/
  | poll (budget : ℕ)
  /-- the next step of either, with the outcome of `netdev_alloc_skb` -/
  | proceed (skb : Bool)
  deriving DecidableEq

/-- The driver's own steps. -/
def NapiEvent.Driver : NapiEvent → Prop
  | .receive _ _ | .transmit => False
  | .irq | .poll _ | .proceed _ => True

namespace UmacNapi

/-- `umac_open` has returned. -/
def opened : UmacNapi where
  umac := .boot
  interrupt := rxInten ||| txInten
  napi := .idle

/-- `writel(value, umac->base + UMAC_INTERRUPT)` -/
def writel (s : UmacNapi) (value : BitVec 32) : BitVec 32 :=
  writeOneToClear (rxInt ||| txInt) s.interrupt value

/-- The interrupt line is high. -/
def Asserted (s : UmacNapi) : Prop :=
  s.interrupt &&& rxInt ≠ 0 ∧ s.interrupt &&& rxInten ≠ 0 ∨
    s.interrupt &&& txInt ≠ 0 ∧ s.interrupt &&& txInten ≠ 0

instance (s : UmacNapi) : Decidable s.Asserted := inferInstanceAs (Decidable (_ ∨ _))

/-- After a step of `umac_rx`. -/
def received (s : UmacNapi) (umac : UmacRx) : UmacNapi :=
  { s with
    umac
    napi :=
      if umac.rx ≠ .idle then .receiving
      else if s.umac.rx.rxpktcount < s.umac.rx.budget then .completed
      else .scheduled }

/-- The next step of `umac_interrupt` or `umac_poll`. -/
def proceed (s : UmacNapi) (skb : Bool) : UmacNapi :=
  match s.napi with
  | .idle | .scheduled => s
  | .disabling value =>
    { s with
      interrupt := s.writel ((value ||| (rxInt ||| txInt)) &&& ~~~(rxInten ||| txInten))
      napi := .scheduled }
  | .txDone budget value =>
    { umac := s.umac.step (.poll budget)
      interrupt := s.writel (value &&& ~~~txInt)
      napi := .receiving }
  | .receiving => s.received (s.umac.step (.proceed skb))
  | .completed => { s with napi := .acking s.interrupt }
  | .acking value => { s with interrupt := s.writel (value &&& ~~~rxInt), napi := .acked }
  | .acked => { s with napi := .enabling s.interrupt }
  | .enabling value =>
    { s with interrupt := s.writel (value ||| (rxInten ||| txInten)), napi := .idle }

/-- One step; an event that cannot happen changes nothing. -/
def step (s : UmacNapi) : NapiEvent → UmacNapi
  | .receive data status =>
    if ¬s.umac.Filled s.umac.rxptr ∧ data.length ≤ maxRxFrameSize then
      { s with
        umac := s.umac.step (.receive data status)
        interrupt := s.interrupt ||| rxInt }
    else s
  | .transmit => { s with interrupt := s.interrupt ||| txInt }
  | .irq => if s.Asserted ∧ s.napi = .idle then { s with napi := .disabling s.interrupt } else s
  | .poll budget =>
    if s.napi = .scheduled then { s with napi := .txDone budget s.interrupt } else s
  | .proceed skb => s.proceed skb

/-- A frame is in the descriptor that `umac_rx` reads next. -/
def Waits (s : UmacNapi) : Prop := s.umac.Filled s.umac.rxCur

instance (s : UmacNapi) : Decidable s.Waits := inferInstanceAs (Decidable (s.umac.Filled _))

/-- If the driver rests while a frame waits, it can still deliver it on its own. -/
def Served (s : UmacNapi) : Prop :=
  s.napi = .idle → s.Waits →
    ∃ es, (∀ e ∈ es, e.Driver) ∧
      (run step s es).umac.delivered = s.umac.delivered ++ [s.umac.frame s.umac.rxCur]

/-- `umac_irq_enable` writes back every flag that is set, while a frame waits. -/
def Sleeps (s : UmacNapi) : NapiEvent → Prop
  | .proceed _ =>
    match s.napi with
    | .enabling value => s.Waits ∧ s.interrupt &&& ~~~value &&& (rxInt ||| txInt) = 0
    | _ => False
  | _ => False

instance (s : UmacNapi) (e : NapiEvent) : Decidable (s.Sleeps e) := by
  cases e <;> unfold Sleeps <;> try infer_instance
  cases s.napi <;> infer_instance

/-! ### The register -/

variable {s : UmacNapi} {value : BitVec 32}

/-- Both interrupts are enabled. -/
def Enabled (reg : BitVec 32) : Prop := reg &&& rxInten = rxInten ∧ reg &&& txInten = txInten

/-- Neither is. -/
def Masked (reg : BitVec 32) : Prop := reg &&& rxInten = 0 ∧ reg &&& txInten = 0

/-- With the interrupts enabled, any flag raises the line. -/
theorem asserted_iff (h : Enabled s.interrupt) :
    s.Asserted ↔ s.interrupt &&& rxInt ≠ 0 ∨ s.interrupt &&& txInt ≠ 0 := by
  obtain ⟨hrx, htx⟩ := h
  have hrxInten : rxInten ≠ 0 := by decide
  have htxInten : txInten ≠ 0 := by decide
  rw [Asserted, hrx, htx, and_iff_left hrxInten, and_iff_left htxInten]

theorem Masked.not_asserted (h : Masked s.interrupt) : ¬s.Asserted := by
  rintro (⟨-, hrx⟩ | ⟨-, htx⟩)
  · exact hrx h.1
  · exact htx h.2

/-- A flag does not change what is enabled. -/
theorem Enabled.set {reg flag : BitVec 32} (h : Enabled reg) (hrx : flag &&& rxInten = 0)
    (htx : flag &&& txInten = 0) : Enabled (reg ||| flag) := by
  rw [Enabled, or_and_of_disjoint hrx, or_and_of_disjoint htx]
  exact h

theorem Masked.set {reg flag : BitVec 32} (h : Masked reg) (hrx : flag &&& rxInten = 0)
    (htx : flag &&& txInten = 0) : Masked (reg ||| flag) := by
  rw [Masked, or_and_of_disjoint hrx, or_and_of_disjoint htx]
  exact h

theorem Masked.clear {reg flag : BitVec 32} (h : Masked reg) (hrx : flag &&& rxInten = 0)
    (htx : flag &&& txInten = 0) : Masked (reg &&& ~~~flag) := by
  rw [Masked, and_not_and_of_disjoint hrx, and_not_and_of_disjoint htx]
  exact h

/-- The enable bits are those of the value written. -/
theorem Masked.writel (h : Masked value) (s : UmacNapi) : Masked (s.writel value) := by
  rw [Masked, UmacNapi.writel, writeOneToClear_and_of_disjoint (by decide),
    writeOneToClear_and_of_disjoint (by decide)]
  exact h

/-- What `umac_irq_disable` writes. -/
theorem masked_disable (s : UmacNapi) (value : BitVec 32) :
    Masked (s.writel (value &&& ~~~(rxInten ||| txInten))) := by
  refine Masked.writel ⟨?_, ?_⟩ s
  · exact and_not_and_of_sub (by decide) _
  · exact and_not_and_of_sub (by decide) _

/-- What `umac_irq_enable` writes. -/
theorem enabled_enable (s : UmacNapi) (value : BitVec 32) :
    Enabled (s.writel (value ||| (rxInten ||| txInten))) := by
  rw [Enabled, UmacNapi.writel, writeOneToClear_and_of_disjoint (by decide),
    writeOneToClear_and_of_disjoint (by decide)]
  exact ⟨or_and_of_sub (by decide) _, or_and_of_sub (by decide) _⟩

/-- `umac_irq_enable` keeps exactly the flags that were set after its read. -/
theorem enable_and {flag : BitVec 32} (hflag : flag &&& (rxInt ||| txInt) = flag)
    (hinten : (rxInten ||| txInten) &&& flag = 0) (s : UmacNapi) (value : BitVec 32) :
    s.writel (value ||| (rxInten ||| txInten)) &&& flag = s.interrupt &&& ~~~value &&& flag := by
  rw [UmacNapi.writel, writeOneToClear_and hflag, BitVec.not_or, ← BitVec.and_assoc,
    and_not_and_of_disjoint hinten]

/-! ### The driver and the register -/

/-- What holds of the register and the ring, by where the driver is. -/
def InPhase (s : UmacNapi) : Prop :=
  match s.napi with
  | .idle => Enabled s.interrupt ∧ s.umac.rx = .idle
  | .disabling _ => s.umac.rx = .idle
  | .receiving => Masked s.interrupt ∧ s.umac.rx ≠ .idle
  | .scheduled | .completed | .acked | .enabling _ => Masked s.interrupt ∧ s.umac.rx = .idle
  | .txDone _ value | .acking value =>
    Masked s.interrupt ∧ Masked value ∧ s.umac.rx = .idle

private theorem inPhase_opened : InPhase opened := ⟨⟨by decide, by decide⟩, rfl⟩

/-- The hardware sets a flag. -/
theorem InPhase.set {flag : BitVec 32} {umac : UmacRx} (h : InPhase s)
    (hrx : flag &&& rxInten = 0) (htx : flag &&& txInten = 0) (hidle : umac.rx = s.umac.rx) :
    InPhase { s with umac, interrupt := s.interrupt ||| flag } := by
  rw [InPhase] at h ⊢
  dsimp only
  rw [hidle]
  cases hnapi : s.napi with
  | idle =>
    rw [hnapi] at h
    exact ⟨h.1.set hrx htx, h.2⟩
  | disabling _ =>
    rw [hnapi] at h
    exact h
  | receiving | scheduled | completed | acked | enabling _ =>
    rw [hnapi] at h
    exact ⟨h.1.set hrx htx, h.2⟩
  | txDone _ _ | acking _ =>
    rw [hnapi] at h
    exact ⟨h.1.set hrx htx, h.2⟩

/-- A step of `umac_rx` leaves the register alone. -/
theorem InPhase.received (h : Masked s.interrupt) (umac : UmacRx) :
    InPhase (s.received umac) := by
  have hnapi : (s.received umac).napi = if umac.rx ≠ .idle then .receiving
      else if s.umac.rx.rxpktcount < s.umac.rx.budget then .completed else .scheduled := rfl
  rw [InPhase, hnapi]
  by_cases hidle : umac.rx = .idle
  · rw [if_neg (not_not.mpr hidle)]
    split_ifs
    · exact ⟨h, hidle⟩
    · exact ⟨h, hidle⟩
  · rw [if_pos hidle]
    exact ⟨h, hidle⟩

theorem InPhase.proceed (h : InPhase s) (skb : Bool) : InPhase (s.proceed skb) := by
  have hphase := h
  rw [InPhase] at h
  rw [UmacNapi.proceed]
  cases hnapi : s.napi with
  | idle | scheduled => exact hphase
  | disabling value =>
    rw [hnapi] at h
    exact ⟨masked_disable s _, h⟩
  | txDone budget value =>
    rw [hnapi] at h
    refine ⟨(h.2.1.clear (by decide) (by decide)).writel s, ?_⟩
    dsimp only
    rw [UmacRx.step, if_pos h.2.2]
    rintro ⟨⟩
  | receiving =>
    rw [hnapi] at h
    exact InPhase.received h.1 _
  | completed =>
    rw [hnapi] at h
    exact ⟨h.1, h.1, h.2⟩
  | acking value =>
    rw [hnapi] at h
    exact ⟨(h.2.1.clear (by decide) (by decide)).writel s, h.2.2⟩
  | acked =>
    rw [hnapi] at h
    exact h
  | enabling value =>
    rw [hnapi] at h
    exact ⟨enabled_enable s value, h.2⟩

/-- **One step.** -/
theorem InPhase.step (h : InPhase s) (e : NapiEvent) : InPhase (s.step e) := by
  cases e with
  | receive data status =>
    rw [UmacNapi.step]
    split
    · next hroom =>
      refine h.set (by decide) (by decide) ?_
      rw [UmacRx.step, if_pos hroom]
      rfl
    · exact h
  | transmit => exact h.set (by decide) (by decide) rfl
  | irq =>
    rw [UmacNapi.step]
    split
    · next hirq =>
      rw [InPhase, hirq.2] at h
      exact h.2
    · exact h
  | poll budget =>
    rw [UmacNapi.step]
    split
    · next hscheduled =>
      rw [InPhase, hscheduled] at h
      exact ⟨h.1, h.1, h.2⟩
    · exact h
  | proceed skb => exact h.proceed skb

/-- **While a poll is under way the line stays low**: `umac_interrupt` is never
called between the first access of `umac_poll` and its last. -/
theorem not_asserted (events : List NapiEvent) :
    (run step opened events).Asserted → (run step opened events).napi = .idle ∨
      ∃ value, (run step opened events).napi = .disabling value := by
  have h : InPhase (run step opened events) :=
    run_invariant (I := InPhase) (fun t e ht => ht.step e) inPhase_opened events
  intro hline
  rw [InPhase] at h
  cases hnapi : (run step opened events).napi with
  | idle => exact Or.inl rfl
  | disabling value => exact Or.inr ⟨value, rfl⟩
  | receiving | scheduled | completed | acked | enabling _ | txDone _ _ | acking _ =>
    rw [hnapi] at h
    exact absurd hline (Masked.not_asserted h.1)

/-! ### Whether a frame can still be delivered -/

/-- A driver that rests while the line is low stays as it is. -/
theorem run_driver_eq (hidle : s.napi = .idle) (hline : ¬s.Asserted) {es : List NapiEvent}
    (hes : ∀ e ∈ es, e.Driver) : run step s es = s := by
  induction es with
  | nil => rfl
  | cons e es ih =>
    have hstep : s.step e = s := by
      cases e with
      | receive _ _ | transmit => exact (hes _ List.mem_cons_self).elim
      | irq => exact if_neg fun h => hline h.1
      | poll budget =>
        refine if_neg fun h => ?_
        rw [hidle] at h
        cases h
      | proceed skb =>
        show s.proceed skb = s
        rw [proceed, hidle]
    rw [run_cons, hstep]
    exact ih fun e he => hes e (List.mem_cons_of_mem _ he)

/-- The handler and the poll, up to the first test of the ring. -/
theorem run_poll (hidle : s.napi = .idle) (hrx : s.umac.rx = .idle) (hline : s.Asserted) :
    ∃ reg, run step s [.irq, .proceed true, .poll 64, .proceed true] =
      ⟨{ s.umac with rx := .checking 0 64 }, reg, .receiving⟩ := by
  have hirq : s.step .irq = { s with napi := .disabling s.interrupt } := if_pos ⟨hline, hidle⟩
  have hpoll : s.umac.step (.poll 64) = { s.umac with rx := .checking 0 64 } := if_pos hrx
  rw [run_cons, hirq, ← hpoll]
  exact ⟨_, rfl⟩

/-- A step of `umac_rx` that does not end it. -/
theorem step_receiving {umac : UmacRx} {reg : BitVec 32}
    (hbusy : (umac.proceed true).rx ≠ .idle) :
    step ⟨umac, reg, .receiving⟩ (.proceed true) = ⟨umac.proceed true, reg, .receiving⟩ := by
  show received ⟨umac, reg, .receiving⟩ (umac.proceed true) = _
  rw [received, if_pos hbusy]

/-- `umac_rx` delivers the frame it finds. -/
theorem run_rx {umac : UmacRx} {reg : BitVec 32} (hrx : umac.rx = .checking 0 64)
    (hfilled : umac.Filled umac.rxCur) :
    (run step ⟨umac, reg, .receiving⟩ [.proceed true, .proceed true]).umac.delivered =
      umac.delivered ++ [umac.frame umac.rxCur] := by
  have hcheck : umac.proceed true = { umac with rx := .copying 0 64 } := by
    rw [UmacRx.proceed, hrx]
    dsimp only
    rw [if_pos hfilled]
  rw [run_cons, step_receiving, hcheck, run_cons, run_nil, step_receiving]
  · rfl
  · rintro ⟨⟩
  · rw [hcheck]
    rintro ⟨⟩

/-- The driver on its own, up to the first frame. -/
def wake : List NapiEvent :=
  [.irq, .proceed true, .poll 64, .proceed true] ++ [.proceed true, .proceed true]

private theorem run_wake (hidle : s.napi = .idle) (hrx : s.umac.rx = .idle) (hline : s.Asserted)
    (hwaits : s.Waits) :
    (run step s wake).umac.delivered = s.umac.delivered ++ [s.umac.frame s.umac.rxCur] := by
  obtain ⟨reg, hpoll⟩ := run_poll hidle hrx hline
  rw [wake, run_append, hpoll]
  exact run_rx rfl hwaits

private theorem wake_driver : ∀ e ∈ wake, e.Driver := by
  intro e he
  simp only [wake, List.cons_append, List.nil_append, List.mem_cons, List.not_mem_nil,
    or_false] at he
  rcases he with rfl | rfl | rfl | rfl | rfl | rfl <;> trivial

/-- **A resting driver can deliver the frame that waits exactly when the line is high.** -/
theorem served_iff_asserted (h : InPhase s) :
    s.Served ↔ (s.napi = .idle → s.Waits → s.Asserted) := by
  constructor
  · intro hserved hidle hwaits
    obtain ⟨es, hes, hdelivered⟩ := hserved hidle hwaits
    by_contra hline
    rw [run_driver_eq hidle hline hes] at hdelivered
    have hlen := congrArg List.length hdelivered
    rw [List.length_append, List.length_singleton] at hlen
    omega
  · intro hline hidle hwaits
    rw [InPhase, hidle] at h
    exact ⟨wake, wake_driver, run_wake hidle h.2 (hline hidle hwaits) hwaits⟩

/-- `umac_irq_enable` leaves the line low exactly when it writes back every flag that is set. -/
theorem asserted_enable (s : UmacNapi) (value : BitVec 32) :
    Asserted { s with interrupt := s.writel (value ||| (rxInten ||| txInten)), napi := .idle } ↔
      s.interrupt &&& ~~~value &&& (rxInt ||| txInt) ≠ 0 := by
  rw [asserted_iff (enabled_enable s value)]
  dsimp only
  rw [enable_and (by decide) (by decide), enable_and (by decide) (by decide),
    BitVec.and_or_distrib_left, BitVec.ofNat_eq_ofNat, ne_eq, ne_eq, ne_eq, BitVec.or_eq_zero_iff,
    not_and_or]

/-! ### Exactly when no frame is left behind -/

theorem inPhase_served_step (h : InPhase s) (hserved : s.Served) (e : NapiEvent) :
    (s.step e).Served ↔ ¬s.Sleeps e := by
  rw [served_iff_asserted (h.step e)]
  rw [served_iff_asserted h] at hserved
  have hphase := h
  rw [InPhase] at h
  cases e with
  | receive data status =>
    refine iff_of_true ?_ id
    rw [step]
    split
    · intro hidle _
      dsimp only at hidle
      rw [hidle] at h
      -- the flag of the frame that has arrived
      refine (asserted_iff (h.1.set (by decide) (by decide))).mpr (Or.inl ?_)
      dsimp only
      rw [or_and_self_right]
      decide
    · exact hserved
  | transmit =>
    refine iff_of_true ?_ id
    intro hidle _
    have hidle' : s.napi = .idle := hidle
    rw [hidle'] at h
    refine (asserted_iff (h.1.set (by decide) (by decide))).mpr (Or.inr ?_)
    rw [step, or_and_self_right]
    decide
  | irq =>
    refine iff_of_true ?_ id
    rw [step]
    split
    · rintro ⟨⟩
    · exact hserved
  | poll budget =>
    refine iff_of_true ?_ id
    rw [step]
    split
    · rintro ⟨⟩
    · exact hserved
  | proceed skb =>
    rw [step, Sleeps, proceed]
    cases hnapi : s.napi with
    | idle => exact iff_of_true hserved id
    | scheduled =>
      refine iff_of_true (fun hidle => ?_) id
      rw [hnapi] at hidle
      cases hidle
    | receiving =>
      refine iff_of_true (fun hidle => ?_) id
      simp only [received] at hidle
      split_ifs at hidle
    | enabling value =>
      dsimp only
      rw [not_and, asserted_enable]
      exact ⟨fun hline => hline rfl, fun hline _ => hline⟩
    | disabling _ | txDone _ _ | completed | acking _ | acked =>
      refine iff_of_true ?_ id
      rintro ⟨⟩

/-- The driver is where its register and ring say, and no frame is left behind. -/
structure NapiInv (s : UmacNapi) : Prop where
  inPhase : InPhase s
  served : s.Served

private theorem served_opened : opened.Served := by
  intro _ hwaits
  refine absurd hwaits ?_
  decide

/-- **Whenever the driver rests with a frame in the ring it can still deliver it,
if and only if `umac_irq_enable` never writes back every flag that is set while a
frame waits.** -/
theorem served_iff (events : List NapiEvent) :
    (∀ es, es <+: events → (run step opened es).Served) ↔
      ∀ p ∈ visits step opened events, ¬p.1.Sleeps p.2 := by
  rw [forall_prefix_run_iff, and_iff_right served_opened]
  refine forall_visits_iff (I := NapiInv) (P := fun t e => (t.step e).Served)
    (Q := fun t e => ¬t.Sleeps e) ?_ ?_ ⟨inPhase_opened, served_opened⟩
  · intro t e ht hstep
    exact ⟨ht.inPhase.step e, hstep⟩
  · intro t e ht
    exact inPhase_served_step ht.inPhase ht.served e

/-- The second frame arrives after the last test of the ring: the driver rests, the
frame waits, and the line is low. -/
example :
    let s := run step opened
      ([.receive [1] 0, .irq, .proceed true, .poll 64] ++ List.replicate 6 (.proceed true) ++
        [.receive [2] 0] ++ List.replicate 4 (.proceed true))
    s.napi = .idle ∧ s.Waits ∧ ¬s.Asserted ∧ s.umac.delivered = [[1]] := by
  decide

/-! ### The frame that is left behind -/

/-- From the end of `umac_rx` to the end of `umac_poll`, a frame that waits has its
flag set. -/
def Flagged (s : UmacNapi) : Prop :=
  match s.napi with
  | .completed | .acking _ | .acked | .enabling _ => s.Waits → s.interrupt &&& rxInt ≠ 0
  | _ => True

/-- With the buffers it asks for, `umac_rx` leaves a frame in the ring only when it
has spent its budget. -/
theorem flagged_received (hbusy : s.umac.rx ≠ .idle) :
    Flagged (s.received (s.umac.step (.proceed true))) := by
  have hstep : s.umac.step (.proceed true) = s.umac.proceed true := rfl
  rw [Flagged, received, hstep]
  dsimp only
  cases hrx : s.umac.rx with
  | idle => exact absurd hrx hbusy
  | checking n b =>
    have hproceed : s.umac.proceed true =
        { s.umac with rx := if s.umac.Filled s.umac.rxCur then .copying n b else .idle } := by
      rw [UmacRx.proceed, hrx]
    rw [hproceed]
    by_cases hfilled : s.umac.Filled s.umac.rxCur
    · rw [if_pos hfilled, if_pos (by rintro ⟨⟩)]
      trivial
    · -- the ring is empty
      rw [if_neg hfilled, if_neg (not_not.mpr rfl)]
      split_ifs
      · exact fun hwaits => absurd hwaits hfilled
      · trivial
  | copying n b =>
    have hproceed : s.umac.proceed true = s.umac.deliver n b := by rw [UmacRx.proceed, hrx]; rfl
    rw [hproceed, if_pos (by rintro ⟨⟩)]
    trivial
  | handing n b l =>
    have hproceed : s.umac.proceed true = s.umac.handBack n b l := by rw [UmacRx.proceed, hrx]
    rw [hproceed, if_pos (by rintro ⟨⟩)]
    trivial
  | resetting n b l =>
    have hproceed : s.umac.proceed true = s.umac.resetCount n b l := by rw [UmacRx.proceed, hrx]
    have hnext : (s.umac.resetCount n b l).rx = if n ≥ b then .idle else .checking n b := rfl
    rw [hproceed, hnext]
    by_cases hspent : n ≥ b
    · -- the poll is called again
      have hmore : ¬(Rx.resetting n b l).rxpktcount < (Rx.resetting n b l).budget :=
        not_lt.mpr hspent
      rw [if_pos hspent, if_neg (not_not.mpr rfl), if_neg hmore]
      trivial
    · rw [if_neg hspent, if_pos (by rintro ⟨⟩)]
      trivial

theorem Flagged.step (h : Flagged s) (hphase : InPhase s) {e : NapiEvent}
    (hskb : e ≠ .proceed false) : Flagged (s.step e) := by
  cases e with
  | receive data status =>
    rw [UmacNapi.step]
    split
    · have hflag : (s.interrupt ||| rxInt) &&& rxInt ≠ 0 := by
        rw [or_and_self_right]
        decide
      rw [Flagged]
      cases s.napi with
      | completed | acking _ | acked | enabling _ => exact fun _ => hflag
      | _ => trivial
    · exact h
  | transmit =>
    rw [Flagged] at h ⊢
    have hsame : (s.interrupt ||| txInt) &&& rxInt = s.interrupt &&& rxInt :=
      or_and_of_disjoint (by decide) _
    rw [UmacNapi.step]
    dsimp only
    rw [hsame]
    exact h
  | irq =>
    rw [UmacNapi.step]
    split
    · trivial
    · exact h
  | poll budget =>
    rw [UmacNapi.step]
    split
    · trivial
    · exact h
  | proceed skb =>
    cases skb with
    | false => exact absurd rfl hskb
    | true =>
      have hat := h
      rw [Flagged] at h
      rw [UmacNapi.step, UmacNapi.proceed]
      cases hnapi : s.napi with
      | idle | scheduled => exact hat
      | disabling _ | txDone _ _ | enabling _ => trivial
      | receiving =>
        rw [InPhase, hnapi] at hphase
        exact flagged_received hphase.2
      | completed | acked =>
        rw [hnapi] at h
        exact h
      | acking value =>
        rw [hnapi] at h
        intro hwaits
        -- the flag itself is not written
        have hkept : s.writel (value &&& ~~~rxInt) &&& rxInt = s.interrupt &&& rxInt := by
          rw [UmacNapi.writel, writeOneToClear_and (by decide)]
          exact and_not_and_of_disjoint (and_not_self_right _ _) _
        dsimp only
        rw [hkept]
        exact h hwaits

/-- **A frame left behind although no allocation has failed is one whose own flag
`umac_irq_enable` has read and written back.** -/
theorem acked_of_sleeps {events : List NapiEvent} (hskb : ∀ e ∈ events, e ≠ .proceed false)
    {p : UmacNapi × NapiEvent} (hp : p ∈ visits step opened events) (hsleeps : p.1.Sleeps p.2) :
    ∃ value, p.1.napi = .enabling value ∧ value &&& rxInt ≠ 0 ∧ p.1.interrupt &&& rxInt ≠ 0 := by
  have hinv : InPhase p.1 ∧ Flagged p.1 := by
    refine invariant_of_mem_visits (I := fun s => InPhase s ∧ Flagged s)
      (P := fun _ e => e ≠ NapiEvent.proceed false) ?_ ⟨inPhase_opened, trivial⟩ ?_ p hp
    · rintro t e ⟨hphase, hflagged⟩ he
      exact ⟨hphase.step e, hflagged.step hphase he⟩
    · intro q hq
      exact hskb q.2 (event_mem_of_mem_visits hq)
  obtain ⟨t, e⟩ := p
  dsimp only at hsleeps hinv ⊢
  have hflagged := hinv.2
  rw [Flagged] at hflagged
  cases e with
  | proceed skb =>
    rw [Sleeps] at hsleeps
    cases hnapi : t.napi with
    | enabling value =>
      rw [hnapi] at hsleeps hflagged
      obtain ⟨hwaits, hnone⟩ := hsleeps
      have hflag := hflagged hwaits
      refine ⟨value, rfl, fun hvalue => ?_, hflag⟩
      -- a flag that is not written back stays
      rw [BitVec.and_or_distrib_left, BitVec.ofNat_eq_ofNat, BitVec.or_eq_zero_iff,
        and_not_and_of_disjoint hvalue] at hnone
      exact hflag hnone.1
    | _ =>
      rw [hnapi] at hsleeps
      exact hsleeps.elim
  | _ => exact hsleeps.elim

end UmacNapi

end GxpUmac
