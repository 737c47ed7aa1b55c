/-
The UMAC receive ring.

The hardware fills the descriptor at its own ring pointer and clears `HW_OWN`;
`umac_rx` delivers the frames of the descriptors it finds free and hands them
back, status first and `count` after it.  Frames arrive between any two steps.

* `UmacRx.step` — the driver and the hardware;
* `rx_accounts` — no frame is lost, duplicated or reordered, and the statistics
  count what was delivered;
* `rx_faithful_iff` — the frames themselves are right in every state of a run,
  exactly when no frame arrives in a descriptor before its `count` is reset.
-/
import Canopy.DescRing
import Canopy.UmacTx
import Mathlib.Data.List.Forall2

namespace GxpUmac

open RingIndex DescRing

def maxRxDescEntries : ℕ := 256

/-- `UMAC_MAX_RX_FRAME_SIZE` -/
def maxRxFrameSize : ℕ := 0x600

structure RxDescEntry where
  status : BitVec 16
  count : ℕ
  deriving DecidableEq

/-- Where `umac_rx` is. -/
inductive Rx where
  | idle
  /-- before the test of the loop -/
  | checking (rxpktcount budget : ℕ)
  /-- the descriptor is free, before `netdev_alloc_skb` -/
  | copying (rxpktcount budget : ℕ)
  /-- the frame is delivered, before `status` is written -/
  | handing (rxpktcount budget rxlength : ℕ)
  /-- before `count` is written -/
  | resetting (rxpktcount budget rxlength : ℕ)
  deriving DecidableEq

structure UmacRx where
  entrylist : ℕ → RxDescEntry
  framelist : ℕ → ℕ → UInt8
  rxCur : ℕ
  /-- the receive part of `UMAC_RING_PTR` -/
  rxptr : ℕ
  rx : Rx
  rxPackets : BitVec 32
  rxBytes : BitVec 32
  rxDropped : BitVec 32
  /-- the frames the hardware has put into the ring -/
  received : List (List UInt8)
  /-- the frames given to `netif_receive_skb` -/
  delivered : List (List UInt8)

inductive RxEvent where
  /-- a frame arrives; the hardware may set other bits of the status -/
  | receive (data : List UInt8) (status : BitVec 16)
  | poll (budget : ℕ)
  /-- the next step of `umac_rx`, with the outcome of `netdev_alloc_skb` -/
  | proceed (skb : Bool)
  deriving DecidableEq

namespace UmacRx

/-- After `umac_init_ring_descriptors`. -/
def boot : UmacRx where
  entrylist := fun _ => ⟨hwOwn, maxRxFrameSize⟩
  framelist := fun _ _ => 0
  rxCur := 0
  rxptr := 0
  rx := .idle
  rxPackets := 0
  rxBytes := 0
  rxDropped := 0
  received := []
  delivered := []

/-- The hardware has filled descriptor `i`. -/
def Filled (s : UmacRx) (i : ℕ) : Prop := (s.entrylist i).status &&& hwOwn = 0

instance (s : UmacRx) : DecidablePred s.Filled := fun _ => inferInstanceAs (Decidable (_ = _))

/-- The frame in slot `i`. -/
def frame (s : UmacRx) (i : ℕ) : List UInt8 :=
  (List.range (s.entrylist i).count).map (s.framelist i)

/-- The hardware writes a frame into its next descriptor. -/
def receive (s : UmacRx) (data : List UInt8) (status : BitVec 16) : UmacRx :=
  { s with
    framelist := Function.update s.framelist s.rxptr fun j =>
      if j < data.length then data.getD j 0 else s.framelist s.rxptr j
    entrylist := Function.update s.entrylist s.rxptr ⟨status &&& ~~~hwOwn, data.length⟩
    rxptr := next maxRxDescEntries s.rxptr
    received := s.received ++ [data] }

def deliver (s : UmacRx) (rxpktcount budget : ℕ) : UmacRx :=
  { s with
    delivered := s.delivered ++ [s.frame s.rxCur]
    rx := .handing (rxpktcount + 1) budget (s.entrylist s.rxCur).count }

/-- `prxdesc->status = UMAC_RING_ENTRY_HW_OWN` -/
def handBack (s : UmacRx) (rxpktcount budget rxlength : ℕ) : UmacRx :=
  { s with
    entrylist := Function.update s.entrylist s.rxCur { s.entrylist s.rxCur with status := hwOwn }
    rx := .resetting rxpktcount budget rxlength }

/-- `prxdesc->count = UMAC_MAX_FRAME_SIZE` and the rest of the turn. -/
def resetCount (s : UmacRx) (rxpktcount budget rxlength : ℕ) : UmacRx :=
  { s with
    entrylist :=
      Function.update s.entrylist s.rxCur { s.entrylist s.rxCur with count := maxFrameSize }
    rxPackets := s.rxPackets + 1
    rxBytes := s.rxBytes + BitVec.ofNat 32 rxlength
    rxCur := next maxRxDescEntries s.rxCur
    rx := if rxpktcount ≥ budget then .idle else .checking rxpktcount budget }

/-- One step of `umac_rx`. -/
def proceed (s : UmacRx) (skb : Bool) : UmacRx :=
  match s.rx with
  | .idle => s
  | .checking rxpktcount budget =>
    { s with rx := if s.Filled s.rxCur then .copying rxpktcount budget else .idle }
  | .copying rxpktcount budget =>
    if skb then s.deliver rxpktcount budget
    else { s with rxDropped := s.rxDropped + 1, rx := .idle }
  | .handing rxpktcount budget rxlength => s.handBack rxpktcount budget rxlength
  | .resetting rxpktcount budget rxlength => s.resetCount rxpktcount budget rxlength

/-- One step; an event that cannot happen changes nothing.  A descriptor has room
for `UMAC_MAX_RX_FRAME_SIZE` bytes. -/
def step (s : UmacRx) : RxEvent → UmacRx
  | .receive data status =>
    if ¬s.Filled s.rxptr ∧ data.length ≤ maxRxFrameSize then s.receive data status else s
  | .poll budget => if s.rx = .idle then { s with rx := .checking 0 budget } else s
  | .proceed skb => s.proceed skb

/-- The slot of the oldest frame in the ring. -/
def first (s : UmacRx) : ℕ :=
  match s.rx with
  | .resetting _ _ _ => next maxRxDescEntries s.rxCur
  | _ => s.rxCur

/-- The frames in the ring that are still to be delivered. -/
def waiting (s : UmacRx) : List (List UInt8) :=
  let frames := contents maxRxDescEntries s.Filled s.frame s.first
  match s.rx with
  | .handing _ _ _ => frames.tail
  | _ => frames

/-- What was delivered and what waits is what was received. -/
def Faithful (s : UmacRx) : Prop := s.received = s.delivered ++ s.waiting

/-- The step writes the `count` of a frame that has already arrived, whose `count`
is not `UMAC_MAX_FRAME_SIZE` anyway. -/
def Resizes (s : UmacRx) : RxEvent → Prop
  | .proceed _ =>
    match s.rx with
    | .resetting _ _ _ => s.Filled s.rxCur ∧ (s.entrylist s.rxCur).count ≠ maxFrameSize
    | _ => False
  | _ => False

instance (s : UmacRx) (e : RxEvent) : Decidable (s.Resizes e) := by
  cases e <;> unfold Resizes <;> try infer_instance
  cases s.rx <;> infer_instance

/-- `d` is the received frame `r`, or what is left of it when its length is set
to `UMAC_MAX_FRAME_SIZE`. -/
def Kept (r d : List UInt8) : Prop :=
  d = r ∨ d.length = maxFrameSize ∧ d.take r.length = r.take maxFrameSize

/-! ### The ring -/

/-- The ring holds `items` from `head`, and the hardware is behind the last one. -/
structure Ring (s : UmacRx) (head : ℕ) (items : List (List UInt8)) : Prop where
  holds : Holds maxRxDescEntries s.Filled s.frame head items
  rxptr : s.rxptr = slot maxRxDescEntries head items.length

variable {s : UmacRx} {head rxpktcount budget rxlength : ℕ} {items : List (List UInt8)}
  {x : List UInt8}

/-- Only the descriptors, the frames and the ring pointer matter. -/
theorem Ring.congr {s' : UmacRx} (h : Ring s head items) (hentries : s'.entrylist = s.entrylist)
    (hframes : s'.framelist = s.framelist) (hptr : s'.rxptr = s.rxptr) : Ring s' head items where
  holds := by
    refine h.holds.congr (fun i _ => ?_) (fun i _ _ => ?_)
    · rw [Filled, Filled, hentries]
    · rw [frame, frame, hentries, hframes]
  rxptr := hptr.trans h.rxptr

theorem ring_boot : Ring boot 0 [] where
  holds := by
    refine holds_nil (by decide) fun i _ => ?_
    show ¬hwOwn &&& hwOwn = 0
    decide
  rxptr := rfl

/-- A frame arrives. -/
theorem Ring.receive (h : Ring s head items) (hroom : ¬s.Filled s.rxptr) (data : List UInt8)
    (status : BitVec 16) : Ring (s.receive data status) head (items ++ [data]) where
  holds := by
    refine h.holds.push h.rxptr hroom (fun i _ => ?_) ?_ (fun i _ hne => ?_)
    · by_cases hi : i = s.rxptr
      · subst hi
        rw [Filled, UmacRx.receive]
        simp [BitMask.and_not_self_right status hwOwn]
      · rw [Filled, Filled, UmacRx.receive]
        simp [hi]
    · rw [frame, UmacRx.receive]
      simp only [Function.update_self]
      exact map_range_getD data 0 _
    · rw [frame, frame, UmacRx.receive]
      simp only [Function.update_of_ne hne]
  rxptr := by
    show next maxRxDescEntries s.rxptr = _
    rw [h.rxptr, next_slot h.holds.pos, List.length_append, List.length_singleton]

/-- The oldest descriptor goes back to the hardware. -/
theorem Ring.handBack (h : Ring s s.rxCur (x :: items)) :
    Ring (s.handBack rxpktcount budget rxlength) (next maxRxDescEntries s.rxCur) items where
  holds := by
    refine h.holds.pop (fun i _ => ?_) (fun i _ hne _ => ?_)
    · by_cases hi : i = s.rxCur
      · subst hi
        rw [Filled, UmacRx.handBack]
        simp [hwOwn]
      · rw [Filled, Filled, UmacRx.handBack]
        simp [hi]
    · rw [frame, frame, UmacRx.handBack]
      simp only [Function.update_of_ne hne]
  rxptr := by
    rw [slot_next h.holds.head_lt]
    exact h.rxptr

private theorem filled_resetCount (s : UmacRx) (rxpktcount budget rxlength i : ℕ) :
    (s.resetCount rxpktcount budget rxlength).Filled i ↔ s.Filled i := by
  rw [Filled, Filled, resetCount]
  by_cases hi : i = s.rxCur
  · subst hi
    simp only [Function.update_self]
  · simp only [Function.update_of_ne hi]

private theorem frame_resetCount_of_ne {i : ℕ} (hi : i ≠ s.rxCur) :
    (s.resetCount rxpktcount budget rxlength).frame i = s.frame i := by
  rw [frame, frame, resetCount]
  simp only [Function.update_of_ne hi]

/-- The `count` is written before the next frame arrives in the descriptor, or is that
frame's own. -/
theorem Ring.resetCount (h : Ring s (next maxRxDescEntries s.rxCur) items)
    (hsame : s.Filled s.rxCur → (s.entrylist s.rxCur).count = maxFrameSize) :
    Ring (s.resetCount rxpktcount budget rxlength) (next maxRxDescEntries s.rxCur) items where
  holds := by
    refine h.holds.congr (fun i _ => filled_resetCount s _ _ _ i) (fun i _ hfull => ?_)
    by_cases hi : i = s.rxCur
    · subst hi
      rw [frame, frame, UmacRx.resetCount]
      simp only [Function.update_self]
      rw [hsame hfull]
    · exact frame_resetCount_of_ne hi
  rxptr := h.rxptr

/-- What the late write of `count` makes of a frame. -/
def resized (s : UmacRx) (i : ℕ) : List UInt8 := (List.range maxFrameSize).map (s.framelist i)

/-- It is written after a frame has arrived: that frame is the last one of a full ring. -/
theorem Ring.resize (h : Ring s (next maxRxDescEntries s.rxCur) items)
    (hcur : s.rxCur < maxRxDescEntries) (hfull : s.Filled s.rxCur) :
    ∃ older, items = older ++ [s.frame s.rxCur] ∧
      Ring (s.resetCount rxpktcount budget rxlength) (next maxRxDescEntries s.rxCur)
        (older ++ [s.resized s.rxCur]) := by
  have hlen := (h.holds.full_prev_iff hcur).mp hfull
  have hne : items ≠ [] := by
    rintro rfl
    exact absurd hlen (by decide)
  obtain ⟨older, last, rfl⟩ : ∃ older last, items = older ++ [last] :=
    ⟨_, _, (List.dropLast_append_getLast hne).symm⟩
  have holder : older.length = maxRxDescEntries - 1 := by
    rw [List.length_append, List.length_singleton] at hlen
    omega
  have hslot : s.rxCur = slot maxRxDescEntries (next maxRxDescEntries s.rxCur) older.length := by
    rw [holder, slot_next_pred hcur]
  have hlast : last = s.frame s.rxCur := by
    have := h.holds.item_eq older.length last (by simp)
    rw [← this, ← hslot]
  subst hlast
  refine ⟨older, rfl, ?_, ?_⟩
  · refine h.holds.set_last hslot (fun i _ => filled_resetCount s _ _ _ i) ?_
      (fun i _ hi => frame_resetCount_of_ne hi)
    rw [frame, UmacRx.resetCount, resized]
    simp only [Function.update_self]
  · have hptr := h.rxptr
    rwa [List.length_append, List.length_singleton] at hptr ⊢

/-! ### The invariant -/

/-- The statistics count the frames `ds`. -/
structure Counted (s : UmacRx) (ds : List (List UInt8)) : Prop where
  packets : s.rxPackets = BitVec.ofNat 32 ds.length
  bytes : s.rxBytes = BitVec.ofNat 32 (ds.map List.length).sum

/-- The frame that `umac_rx` has delivered but not counted yet. -/
structure Uncounted (s : UmacRx) (rxlength : ℕ) (x : List UInt8) (ds : List (List UInt8)) :
    Prop where
  delivered : s.delivered = ds ++ [x]
  length : x.length = rxlength
  counted : Counted s ds

/-- The ring holds `items`, which are still to be delivered. -/
def At (s : UmacRx) (items : List (List UInt8)) : Prop :=
  match s.rx with
  | .idle | .checking _ _ => Ring s s.rxCur items ∧ Counted s s.delivered
  | .copying _ _ => s.Filled s.rxCur ∧ Ring s s.rxCur items ∧ Counted s s.delivered
  | .handing _ _ rxlength => ∃ x ds, Uncounted s rxlength x ds ∧ Ring s s.rxCur (x :: items)
  | .resetting _ _ rxlength =>
    s.rxCur < maxRxDescEntries ∧ Ring s (next maxRxDescEntries s.rxCur) items ∧
      ∃ x ds, Uncounted s rxlength x ds

private theorem at_boot : At boot [] := ⟨ring_boot, rfl, rfl⟩

/-- What waits is what the ring holds. -/
theorem At.waiting_eq (h : At s items) : s.waiting = items := by
  rw [At] at h
  rw [waiting, first]
  cases hrx : s.rx with
  | idle | checking _ _ =>
    rw [hrx] at h
    exact h.1.holds.contents_eq
  | copying _ _ =>
    rw [hrx] at h
    exact h.2.1.holds.contents_eq
  | handing _ _ _ =>
    rw [hrx] at h
    obtain ⟨x, ds, -, hring⟩ := h
    dsimp only
    rw [hring.holds.contents_eq, List.tail_cons]
  | resetting _ _ _ =>
    rw [hrx] at h
    exact h.2.1.holds.contents_eq

/-- What a step does to the frames that were delivered and to those that wait. -/
inductive Moves (s t : UmacRx) (e : RxEvent) (items items' : List (List UInt8)) : Prop where
  /-- at most, the oldest one is delivered -/
  | keeps (hsame : ¬s.Resizes e) (hreceived : t.received = s.received)
      (hall : t.delivered ++ items' = s.delivered ++ items)
  /-- one arrives -/
  | gains (hsame : ¬s.Resizes e) (data : List UInt8) (hreceived : t.received = s.received ++ [data])
      (hall : t.delivered ++ items' = s.delivered ++ items ++ [data])
  /-- the last one gets another length -/
  | resizes (hresizes : s.Resizes e) (hreceived : t.received = s.received)
      (older : List (List UInt8)) (hitems : items = older ++ [s.frame s.rxCur])
      (hall : t.delivered ++ items' = s.delivered ++ older ++ [s.resized s.rxCur])

/-- Changing only where `umac_rx` is. -/
theorem Ring.moved (h : Ring s head items) (rx : Rx) : Ring { s with rx } head items :=
  h.congr rfl rfl rfl

private theorem at_receive (h : At s items) (data : List UInt8) (status : BitVec 16)
    (hroom : ¬s.Filled s.rxptr) : At (s.receive data status) (items ++ [data]) := by
  rw [At] at h ⊢
  have hrx : (s.receive data status).rx = s.rx := rfl
  rw [hrx]
  cases hcase : s.rx with
  | idle | checking _ _ =>
    rw [hcase] at h
    exact ⟨h.1.receive hroom data status, h.2.packets, h.2.bytes⟩
  | copying _ _ =>
    rw [hcase] at h
    obtain ⟨hfilled, hring, hcounted⟩ := h
    refine ⟨?_, hring.receive hroom data status, hcounted.packets, hcounted.bytes⟩
    -- the frame arrives in another descriptor
    have hne : s.rxCur ≠ s.rxptr := by
      intro heq
      exact hroom (heq ▸ hfilled)
    show ((s.receive data status).entrylist s.rxCur).status &&& hwOwn = 0
    rw [UmacRx.receive]
    simp only [Function.update_of_ne hne]
    exact hfilled
  | handing _ _ _ =>
    rw [hcase] at h
    obtain ⟨x, ds, hlast, hring⟩ := h
    exact ⟨x, ds, ⟨hlast.delivered, hlast.length, hlast.counted.packets, hlast.counted.bytes⟩,
      hring.receive hroom data status⟩
  | resetting _ _ _ =>
    rw [hcase] at h
    obtain ⟨hcur, hring, x, ds, hlast⟩ := h
    exact ⟨hcur, hring.receive hroom data status, x, ds, hlast.delivered, hlast.length,
      hlast.counted.packets, hlast.counted.bytes⟩

/-- The test of the loop and the allocation. -/
theorem at_proceed_checking (hrx : s.rx = .checking rxpktcount budget) (h : At s items)
    (skb : Bool) : At (s.proceed skb) items := by
  rw [At, hrx] at h
  obtain ⟨hring, hcounted⟩ := h
  rw [proceed, hrx]
  dsimp only
  split
  · next hfilled => exact ⟨hfilled, hring.moved _, hcounted.packets, hcounted.bytes⟩
  · exact ⟨hring.moved _, hcounted.packets, hcounted.bytes⟩

private theorem at_deliver (hrx : s.rx = .copying rxpktcount budget) (h : At s items) :
    ∃ items', items = s.frame s.rxCur :: items' ∧ At (s.deliver rxpktcount budget) items' := by
  rw [At, hrx] at h
  obtain ⟨hfilled, hring, hcounted⟩ := h
  obtain ⟨items', rfl⟩ := hring.holds.exists_cons hfilled
  refine ⟨items', rfl, s.frame s.rxCur, s.delivered, ⟨rfl, ?_, hcounted.packets, hcounted.bytes⟩,
    hring.congr rfl rfl rfl⟩
  rw [frame, List.length_map, List.length_range]

private theorem at_handBack (hrx : s.rx = .handing rxpktcount budget rxlength) (h : At s items) :
    At (s.handBack rxpktcount budget rxlength) items := by
  rw [At, hrx] at h
  obtain ⟨x, ds, hlast, hring⟩ := h
  exact ⟨hring.holds.head_lt, hring.handBack, x, ds, hlast.delivered, hlast.length,
    hlast.counted.packets, hlast.counted.bytes⟩

/-- Counting the frame that was delivered last. -/
theorem Uncounted.count {ds : List (List UInt8)} (h : Uncounted s rxlength x ds) :
    Counted (s.resetCount rxpktcount budget rxlength) s.delivered where
  packets := by
    show s.rxPackets + 1 = _
    rw [h.counted.packets, h.delivered, List.length_append, List.length_singleton,
      BitVec.ofNat_add]
    rfl
  bytes := by
    show s.rxBytes + BitVec.ofNat 32 rxlength = _
    rw [h.counted.bytes, h.delivered, List.map_append, List.sum_append, List.map_singleton,
      List.sum_singleton, h.length, BitVec.ofNat_add]

private theorem at_resetCount {items' : List (List UInt8)} {ds : List (List UInt8)}
    (hring : Ring (s.resetCount rxpktcount budget rxlength) (next maxRxDescEntries s.rxCur) items')
    (hlast : Uncounted s rxlength x ds) :
    At (s.resetCount rxpktcount budget rxlength) items' := by
  have hcounted : Counted (s.resetCount rxpktcount budget rxlength) s.delivered := hlast.count
  have hrx : (s.resetCount rxpktcount budget rxlength).rx =
      if rxpktcount ≥ budget then .idle else .checking rxpktcount budget := rfl
  rw [At, hrx]
  split
  · next hcase => exact ⟨hring, hcounted⟩
  · next hcase => exact ⟨hring, hcounted⟩
  · next hcase => split at hcase <;> cases hcase
  · next hcase => split at hcase <;> cases hcase
  · next hcase => split at hcase <;> cases hcase

private theorem at_proceed (h : At s items) (skb : Bool) :
    ∃ items', At (s.proceed skb) items' ∧ Moves s (s.proceed skb) (.proceed skb) items items' := by
  have hat := h
  rw [At] at hat
  cases hrx : s.rx with
  | idle =>
    refine ⟨items, ?_, .keeps ?_ ?_ ?_⟩
    all_goals simp [proceed, Resizes, hrx, h]
  | checking _ _ =>
    refine ⟨items, at_proceed_checking hrx h skb, .keeps ?_ ?_ ?_⟩
    all_goals simp [proceed, Resizes, hrx]
  | copying rxpktcount budget =>
    rw [hrx] at hat
    obtain ⟨-, hring, hcounted⟩ := hat
    have hproceed : s.proceed skb = if skb then s.deliver rxpktcount budget
        else { s with rxDropped := s.rxDropped + 1, rx := .idle } := by
      rw [proceed, hrx]
    have hsame : ¬s.Resizes (.proceed skb) := by simp [Resizes, hrx]
    rw [hproceed]
    cases skb with
    | true =>
      obtain ⟨items', rfl, hdeliver⟩ := at_deliver hrx h
      exact ⟨items', hdeliver, .keeps hsame rfl (List.append_assoc _ _ _)⟩
    | false =>
      -- the frame stays in the ring
      exact ⟨items, ⟨hring.congr rfl rfl rfl, hcounted.packets, hcounted.bytes⟩,
        .keeps hsame rfl rfl⟩
  | handing rxpktcount budget rxlength =>
    have hproceed : s.proceed skb = s.handBack rxpktcount budget rxlength := by
      rw [proceed, hrx]
    rw [hproceed]
    exact ⟨items, at_handBack hrx h, .keeps (by simp [Resizes, hrx]) rfl rfl⟩
  | resetting rxpktcount budget rxlength =>
    rw [hrx] at hat
    obtain ⟨hcur, hring, x, ds, hlast⟩ := hat
    have hproceed : s.proceed skb = s.resetCount rxpktcount budget rxlength := by
      rw [proceed, hrx]
    have hiff : s.Resizes (.proceed skb) ↔
        s.Filled s.rxCur ∧ (s.entrylist s.rxCur).count ≠ maxFrameSize := by
      rw [Resizes, hrx]
    rw [hproceed]
    by_cases hresizes : s.Resizes (.proceed skb)
    · obtain ⟨older, hitems, hring'⟩ := hring.resize hcur (hiff.mp hresizes).1
      refine ⟨_, at_resetCount hring' hlast, .resizes hresizes rfl older hitems ?_⟩
      exact (List.append_assoc _ _ _).symm
    · have hsame : s.Filled s.rxCur → (s.entrylist s.rxCur).count = maxFrameSize := by
        intro hfilled
        by_contra hcount
        exact hresizes (hiff.mpr ⟨hfilled, hcount⟩)
      exact ⟨items, at_resetCount (hring.resetCount hsame) hlast, .keeps hresizes rfl rfl⟩

/-- **One step.** -/
theorem at_step (h : At s items) (e : RxEvent) :
    ∃ items', At (s.step e) items' ∧ Moves s (s.step e) e items items' := by
  cases e with
  | receive data status =>
    rw [step]
    split
    · next hroom =>
      refine ⟨items ++ [data], at_receive h data status hroom.1, ?_⟩
      exact .gains id data rfl (List.append_assoc _ _ _).symm
    · exact ⟨items, h, .keeps id rfl rfl⟩
  | poll budget =>
    rw [step]
    split
    · next hidle =>
      rw [At, hidle] at h
      exact ⟨items, ⟨h.1.moved _, h.2.packets, h.2.bytes⟩, .keeps id rfl rfl⟩
    · exact ⟨items, h, .keeps id rfl rfl⟩
  | proceed skb => exact at_proceed h skb

/-! ### No frame is lost -/

/-- The late write of `count` keeps what fits. -/
theorem kept_resized {r : List UInt8} (h : Kept r (s.frame s.rxCur)) :
    Kept r (s.resized s.rxCur) := by
  rcases h with hsame | ⟨hlen, hmore⟩
  · right
    refine ⟨by rw [resized, List.length_map, List.length_range], ?_⟩
    rw [← hsame, frame, resized, List.length_map, List.length_range, ← List.map_take,
      ← List.map_take, List.take_range, List.take_range, Nat.min_comm]
  · -- it has that length already
    have hcount : (s.entrylist s.rxCur).count = maxFrameSize := by
      rwa [frame, List.length_map, List.length_range] at hlen
    have hframe : s.resized s.rxCur = s.frame s.rxCur := by rw [resized, frame, hcount]
    rw [hframe]
    exact Or.inr ⟨hlen, hmore⟩

theorem Moves.kept {t : UmacRx} {e : RxEvent} {items' : List (List UInt8)}
    (h : Moves s t e items items') (hkept : List.Forall₂ Kept s.received (s.delivered ++ items)) :
    List.Forall₂ Kept t.received (t.delivered ++ items') := by
  cases h with
  | keeps _ hreceived hall => rwa [hreceived, hall]
  | gains _ data hreceived hall =>
    rw [hreceived, hall]
    exact List.rel_append hkept (.cons (Or.inl rfl) .nil)
  | resizes _ hreceived older hitems hall =>
    rw [hreceived, hall]
    rw [hitems, ← List.append_assoc] at hkept
    -- all but the last frame stay as they are
    have hold := List.forall₂_take_append _ _ _ hkept
    have hlast := List.forall₂_drop_append _ _ _ hkept
    rw [← List.take_append_drop (s.delivered ++ older).length s.received]
    refine List.rel_append hold ?_
    cases hdrop : s.received.drop (s.delivered ++ older).length with
    | nil =>
      rw [hdrop] at hlast
      cases hlast
    | cons r rest =>
      rw [hdrop] at hlast
      obtain ⟨hr, hrest⟩ := List.forall₂_cons.mp hlast
      exact .cons (kept_resized hr) hrest

/-- Every frame received is delivered or waits, in order, and the statistics count
the delivered ones. -/
structure Accounts (s : UmacRx) : Prop where
  kept : List.Forall₂ Kept s.received (s.delivered ++ s.waiting)
  counted : s.rx = .idle → Counted s s.delivered

/-- **Whatever arrives and whenever, whatever the budgets and allocation
failures: the frames delivered and those waiting in the ring are the frames
received, in order and none twice, each of them whole or cut to
`UMAC_MAX_FRAME_SIZE`, and between two calls the statistics count exactly those
delivered.** -/
theorem rx_accounts (events : List RxEvent) : Accounts (Run.run step boot events) := by
  have hinv : ∃ items, At (Run.run step boot events) items ∧
      List.Forall₂ Kept (Run.run step boot events).received
        ((Run.run step boot events).delivered ++ items) := by
    refine Run.run_invariant (I := fun s => ∃ items, At s items ∧
      List.Forall₂ Kept s.received (s.delivered ++ items)) ?_ ⟨[], at_boot, .nil⟩ events
    rintro s e ⟨items, hat, hkept⟩
    obtain ⟨items', hat', hmoves⟩ := at_step hat e
    exact ⟨items', hat', hmoves.kept hkept⟩
  obtain ⟨items, hat, hkept⟩ := hinv
  refine ⟨by rwa [hat.waiting_eq], fun hidle => ?_⟩
  rw [At, hidle] at hat
  exact hat.2

/-! ### The frames themselves -/

/-- A frame with another length is another frame. -/
theorem resized_ne (h : (s.entrylist s.rxCur).count ≠ maxFrameSize) :
    s.frame s.rxCur ≠ s.resized s.rxCur := by
  intro heq
  have hlen := congrArg List.length heq
  rw [frame, resized, List.length_map, List.length_map, List.length_range,
    List.length_range] at hlen
  exact h hlen

theorem Resizes.count_ne {e : RxEvent} (h : s.Resizes e) :
    (s.entrylist s.rxCur).count ≠ maxFrameSize := by
  cases e with
  | proceed skb =>
    rw [Resizes] at h
    cases hrx : s.rx with
    | resetting _ _ _ =>
      rw [hrx] at h
      exact h.2
    | _ =>
      rw [hrx] at h
      exact h.elim
  | _ => exact h.elim

/-- From a state in which the frames are right, a step keeps them so exactly when
it does not write the `count` of one. -/
theorem Moves.faithful_iff {t : UmacRx} {e : RxEvent} {items' : List (List UInt8)}
    (h : Moves s t e items items') (hs : s.received = s.delivered ++ items) :
    t.received = t.delivered ++ items' ↔ ¬s.Resizes e := by
  cases h with
  | keeps hsame hreceived hall => simp [hreceived, hall, hs, hsame]
  | gains hsame data hreceived hall => simp [hreceived, hall, hs, hsame]
  | resizes hresizes hreceived older hitems hall =>
    rw [hreceived, hall, hs, hitems, ← List.append_assoc]
    constructor
    · intro heq
      have hlast := List.append_cancel_left heq
      exact absurd (List.singleton_inj.mp hlast) (resized_ne hresizes.count_ne)
    · intro hsame
      exact absurd hresizes hsame

/-- The ring is in order and every frame is right. -/
structure RxInv (s : UmacRx) : Prop where
  at_waiting : At s s.waiting
  faithful : s.Faithful

theorem rxInv_boot : RxInv boot := by
  have hwaiting : boot.waiting = [] := at_boot.waiting_eq
  refine ⟨?_, ?_⟩
  · rw [hwaiting]
    exact at_boot
  · rw [Faithful, hwaiting]
    rfl

theorem RxInv.step_iff (h : RxInv s) (e : RxEvent) : (s.step e).Faithful ↔ ¬s.Resizes e := by
  obtain ⟨items', hat, hmoves⟩ := at_step h.at_waiting e
  rw [Faithful, hat.waiting_eq]
  exact hmoves.faithful_iff h.faithful

theorem RxInv.step (h : RxInv s) {e : RxEvent} (hstep : (s.step e).Faithful) :
    RxInv (s.step e) := by
  obtain ⟨items', hat, -⟩ := at_step h.at_waiting e
  refine ⟨?_, hstep⟩
  rwa [hat.waiting_eq]

/-- **In every state of a run the frames delivered and those waiting are exactly
the frames received, if and only if the driver never writes the `count` of a
descriptor in which the next frame has already arrived.** -/
theorem rx_faithful_iff (events : List RxEvent) :
    (∀ es, es <+: events → (Run.run step boot es).Faithful) ↔
      ∀ p ∈ Run.visits step boot events, ¬p.1.Resizes p.2 := by
  rw [Run.forall_prefix_run_iff, and_iff_right rxInv_boot.faithful]
  refine Run.forall_visits_iff (I := RxInv) (P := fun t e => (t.step e).Faithful)
    (Q := fun t e => ¬t.Resizes e) ?_ ?_ rxInv_boot
  · intro t e ht hstep
    exact ht.step hstep
  · intro t e ht
    exact ht.step_iff e

end UmacRx

end GxpUmac
