/-
The receive ring of the U-Boot UMAC driver, behind the data cache.

The descriptors are smaller than a cache line, so several of them share one.
`gxp_umac_recv` invalidates the line of its descriptor and looks at it,
`gxp_umac_free_pkt` writes the descriptor and flushes the line; the hardware
fills descriptors in memory at any time in between, and the cache may fetch and
evict lines on its own.

* `UmacRx.step` — the driver, the cache and the hardware;
* `UmacRx.Clobbers` — a write back hands over a descriptor in which a frame has
  arrived since its line was fetched;
* `Cached.write`, `Cached.device`, `Cached.writeBack` — a copy in the cache is out of
  date only where it gives a descriptor to the hardware;
* `Ring.writeBack`, `Ring.writeBack_handing`, `Ring.writeBack_returning` — what a
  write back that clobbers none makes of the ring.
-/
import Canopy.DescRing
import Canopy.LineCache
import Canopy.UbootUmac

namespace GxpUbootUmac

open Run RingIndex DescRing

/-- `UMAC_RING_RX_ERR_MASK` -/
def rxErrMask : BitVec 16 := 0x38e0

/-- `UMAC_MAX_FRAME_SIZE` -/
def maxFrameSize : ℕ := 1518

/-- `struct gxp_umac_rx_desc`, what the driver uses of it -/
structure RxDesc where
  status : BitVec 16
  count : ℕ
  deriving DecidableEq

/-- The hardware owns the descriptor. -/
def RxDesc.Owned (d : RxDesc) : Prop := d.status &&& hwOwn ≠ 0

instance (d : RxDesc) : Decidable d.Owned := inferInstanceAs (Decidable (_ ≠ _))

/-- Where the driver is. -/
inductive Recv where
  | idle
  /-- `gxp_umac_recv`, before the test of `UMAC_RING_ENTRY_HW_OWN` -/
  | checking
  /-- the hardware owns the descriptor, before the test for errors -/
  | testing
  /-- before the errors are cleared -/
  | clearing
  /-- before the flush -/
  | flushing
  /-- the descriptor is free, before `count` is read -/
  | taking
  /-- `gxp_umac_free_pkt`, before `count` is written -/
  | resetting
  /-- before `status` is written -/
  | handing
  /-- before the flush -/
  | returning
  deriving DecidableEq

structure UmacRx where
  rxdes : LineCache RxDesc
  rxPackets : ℕ → ℕ → UInt8
  rxIndex : ℕ
  /-- the hardware's pointer into the receive ring -/
  ringPtr : ℕ
  recv : Recv
  /-- the frames the hardware has put into the ring -/
  received : List (List UInt8)
  /-- the frames `gxp_umac_recv` has returned -/
  delivered : List (List UInt8)

inductive RxEvent where
  /-- a frame arrives; the hardware may set other bits of the status -/
  | receive (data : List UInt8) (status : BitVec 16)
  /-- the hardware reports errors in the descriptor it is at -/
  | error (bits : BitVec 16)
  /-- a call of `gxp_umac_recv` -/
  | recv
  /-- the next step of the driver -/
  | proceed
  /-- the cache fetches a line -/
  | fetch (line : ℕ)
  /-- the cache evicts a line -/
  | evict (line : ℕ)
  deriving DecidableEq

namespace UmacRx

/-- After `gxp_umac_init_rings`, with `perLine` descriptors in a line. -/
def boot (perLine : ℕ) : UmacRx where
  rxdes := ⟨perLine, fun _ => ⟨hwOwn, maxFrameSize⟩, fun _ => none⟩
  rxPackets := fun _ _ => 0
  rxIndex := 0
  ringPtr := 0
  recv := .idle
  received := []
  delivered := []

/-- The line of the driver's descriptor. -/
def line (s : UmacRx) : ℕ := s.rxdes.line s.rxIndex

/-- The driver's descriptor as the driver sees it. -/
def desc (s : UmacRx) : RxDesc := s.rxdes.view s.rxIndex

/-- The hardware has filled descriptor `i`. -/
def Filled (s : UmacRx) (i : ℕ) : Prop := ¬(s.rxdes.mem i).Owned

instance (s : UmacRx) : DecidablePred s.Filled := fun _ => inferInstanceAs (Decidable ¬_)

/-- The frame in slot `i`. -/
def frame (s : UmacRx) (i : ℕ) : List UInt8 :=
  (List.range (s.rxdes.mem i).count).map (s.rxPackets i)

/-- The driver accesses its descriptor, whose line is then in the cache. -/
def access (s : UmacRx) (recv : Recv) : UmacRx := { s with rxdes := s.rxdes.fetch s.line, recv }

/-- The driver writes its descriptor. -/
def write (s : UmacRx) (d : RxDesc) (recv : Recv) : UmacRx :=
  { s with rxdes := s.rxdes.store s.rxIndex d, recv }

/-- A line is written back. -/
def writeBack (s : UmacRx) (line : ℕ) : UmacRx := { s with rxdes := s.rxdes.flush line }

/-- The frame is returned, together with the length in the driver's descriptor. -/
def deliver (s : UmacRx) : UmacRx :=
  { s.access .resetting with
    delivered := s.delivered ++ [(List.range s.desc.count).map (s.rxPackets s.rxIndex)] }

/-- The hardware writes a frame into its next descriptor. -/
def receive (s : UmacRx) (data : List UInt8) (status : BitVec 16) : UmacRx :=
  { s with
    rxPackets := Function.update s.rxPackets s.ringPtr fun j =>
      if j < data.length then data.getD j 0 else s.rxPackets s.ringPtr j
    rxdes := s.rxdes.device s.ringPtr ⟨status &&& ~~~hwOwn, data.length⟩
    ringPtr := next maxRingEntries s.ringPtr
    received := s.received ++ [data] }

/-- The hardware sets error bits in its next descriptor. -/
def error (s : UmacRx) (bits : BitVec 16) : UmacRx :=
  { s with
    rxdes := s.rxdes.device s.ringPtr
      { s.rxdes.mem s.ringPtr with
        status := (s.rxdes.mem s.ringPtr).status ||| (bits &&& rxErrMask) } }

/-- The next step of the driver. -/
def proceed (s : UmacRx) : UmacRx :=
  match s.recv with
  | .idle => s
  | .checking => s.access (if s.desc.Owned then .testing else .taking)
  | .testing => s.access (if s.desc.status &&& rxErrMask ≠ 0 then .clearing else .idle)
  | .clearing => s.write { s.desc with status := s.desc.status &&& ~~~rxErrMask } .flushing
  | .flushing => { s.writeBack s.line with recv := .idle }
  | .taking => s.deliver
  | .resetting => s.write { s.desc with count := maxFrameSize } .handing
  | .handing => s.write { s.desc with status := hwOwn } .returning
  | .returning =>
    { s.writeBack s.line with rxIndex := (s.rxIndex + 1) % maxRingEntries, recv := .idle }

/-- One step; an event that cannot happen changes nothing.  A buffer has room for
`UMAC_MAX_FRAME_SIZE` bytes. -/
def step (s : UmacRx) : RxEvent → UmacRx
  | .receive data status =>
    if ¬s.Filled s.ringPtr ∧ data.length ≤ maxFrameSize then s.receive data status else s
  | .error bits => if ¬s.Filled s.ringPtr then s.error bits else s
  | .recv =>
    if s.recv = .idle then { s with rxdes := s.rxdes.invalidate s.line, recv := .checking } else s
  | .proceed => s.proceed
  | .fetch line => { s with rxdes := s.rxdes.fetch line }
  | .evict line => s.writeBack line

/-- The driver's line has changes that are not written back. -/
def Pending (s : UmacRx) : Prop := s.rxdes.Dirty s.line = true

instance (s : UmacRx) : Decidable s.Pending := inferInstanceAs (Decidable (_ = _))

/-- The slot of the oldest frame in the ring. -/
def first (s : UmacRx) : ℕ :=
  if s.recv = .returning ∧ ¬s.Pending then next maxRingEntries s.rxIndex else s.rxIndex

/-- The frame in the driver's descriptor has been returned. -/
def Returned (s : UmacRx) : Prop :=
  s.recv = .resetting ∨ s.recv = .handing ∨ s.recv = .returning ∧ s.Pending

instance (s : UmacRx) : Decidable s.Returned := inferInstanceAs (Decidable (_ ∨ _ ∨ _))

/-- The frames in the ring that are still to be returned. -/
def waiting (s : UmacRx) : List (List UInt8) :=
  let frames := contents maxRingEntries s.Filled s.frame s.first
  if s.Returned then frames.tail else frames

/-- What was returned and what waits is what was received. -/
def Faithful (s : UmacRx) : Prop := s.received = s.delivered ++ s.waiting

/-- The step writes a line back. -/
def WritesBack (s : UmacRx) (line : ℕ) : RxEvent → Prop
  | .proceed => (s.recv = .flushing ∨ s.recv = .returning) ∧ line = s.line
  | .evict l => line = l
  | _ => False

instance (s : UmacRx) (line : ℕ) (e : RxEvent) : Decidable (s.WritesBack line e) := by
  cases e <;> unfold WritesBack <;> infer_instance

/-- The changed line has a descriptor in which a frame has arrived since the line was
fetched, other than the one the driver hands over. -/
def Overrides (s : UmacRx) (line : ℕ) : Prop :=
  s.rxdes.Dirty line = true ∧ ∃ i < maxRingEntries, s.rxdes.line i = line ∧
    s.Filled i ∧ (s.rxdes.view i).Owned ∧ (s.recv = .returning → i ≠ s.rxIndex)

/-- The step hands a descriptor with a frame back to the hardware. -/
def Clobbers (s : UmacRx) (e : RxEvent) : Prop := ∃ line, s.WritesBack line e ∧ s.Overrides line

/-! ### Handing descriptors back and forth -/

variable {s t : UmacRx} {head : ℕ} {items : List (List UInt8)} {x : List UInt8}

/-- The ring holds `items` from `head`, and the hardware is behind the last one. -/
structure Ring (s : UmacRx) (head : ℕ) (items : List (List UInt8)) : Prop where
  holds : Holds maxRingEntries s.Filled s.frame head items
  ringPtr : s.ringPtr = slot maxRingEntries head items.length

/-- What the cache holds of the ring.  A copy may be old, but then it says that the
hardware still owns the descriptor. -/
structure Cached (s : UmacRx) : Prop where
  seen : ∀ i, ¬(s.rxdes.view i).Owned → s.Filled i ∧
    (i = s.rxIndex ∧ s.recv = .handing ∨ (s.rxdes.view i).count = (s.rxdes.mem i).count)
  dirty : ∀ l, s.rxdes.Dirty l = true →
    l = s.line ∧ (s.recv = .flushing ∨ s.recv = .handing ∨ s.recv = .returning)

/-- The ring holds `items`, which are still to be returned. -/
def At (s : UmacRx) (items : List (List UInt8)) : Prop :=
  match s.recv with
  | .idle | .checking | .testing | .clearing | .flushing => Ring s s.rxIndex items
  | .taking => ¬s.desc.Owned ∧ Ring s s.rxIndex items
  | .resetting | .handing => ¬s.desc.Owned ∧ ∃ x, Ring s s.rxIndex (x :: items)
  | .returning =>
    s.rxIndex < maxRingEntries ∧
      if s.Pending then s.desc.Owned ∧ ∃ x, Ring s s.rxIndex (x :: items)
      else Ring s (next maxRingEntries s.rxIndex) items

/-- What is true of the ring in every run up to the first loss. -/
structure Inv (s : UmacRx) (items : List (List UInt8)) : Prop where
  cached : Cached s
  ring : At s items

/-- Only the descriptors in memory, the frames and the hardware's pointer matter. -/
theorem Ring.congr (h : Ring s head items) (hmem : t.rxdes.mem = s.rxdes.mem)
    (hframes : t.rxPackets = s.rxPackets) (hptr : t.ringPtr = s.ringPtr) : Ring t head items where
  holds := by
    refine h.holds.congr (fun i _ => ?_) (fun i _ _ => ?_)
    · rw [Filled, Filled, hmem]
    · rw [frame, frame, hmem, hframes]
  ringPtr := hptr.trans h.ringPtr

/-- A frame arrives. -/
theorem Ring.receive (h : Ring s head items) (hroom : ¬s.Filled s.ringPtr) (data : List UInt8)
    (status : BitVec 16) : Ring (s.receive data status) head (items ++ [data]) where
  holds := by
    refine h.holds.push h.ringPtr hroom (fun i _ => ?_) ?_ (fun i _ hne => ?_)
    · by_cases hi : i = s.ringPtr
      · subst hi
        simp [Filled, UmacRx.receive, RxDesc.Owned, BitMask.and_not_self_right status hwOwn]
      · simp [Filled, UmacRx.receive, hi]
    · rw [frame, UmacRx.receive]
      simp only [LineCache.mem_device, Function.update_self]
      exact map_range_getD data 0 _
    · rw [frame, frame, UmacRx.receive]
      simp only [LineCache.mem_device, Function.update_of_ne hne]
  ringPtr := by
    show next maxRingEntries s.ringPtr = _
    rw [h.ringPtr, next_slot h.holds.pos, List.length_append, List.length_singleton]

/-- The hardware keeps a descriptor in which it reports errors. -/
theorem owned_error {d : RxDesc} (h : d.Owned) (bits : BitVec 16) :
    RxDesc.Owned { d with status := d.status ||| (bits &&& rxErrMask) } := by
  have hsame : (d.status ||| (bits &&& rxErrMask)) &&& hwOwn = d.status &&& hwOwn := by
    refine BitMask.or_and_of_disjoint ?_ d.status
    rw [BitVec.and_assoc]
    have : rxErrMask &&& hwOwn = 0 := by decide
    rw [this, BitVec.ofNat_eq_ofNat, BitVec.and_zero]
  rw [RxDesc.Owned, hsame]
  exact h

private theorem filled_error (hroom : ¬s.Filled s.ringPtr) (bits : BitVec 16) (i : ℕ) :
    (s.error bits).Filled i ↔ s.Filled i := by
  by_cases hi : i = s.ringPtr
  · subst hi
    have howned : RxDesc.Owned _ := owned_error (not_not.mp hroom) bits
    simp [Filled, UmacRx.error, howned, not_not.mp hroom]
  · simp [Filled, UmacRx.error, hi]

theorem Ring.error (h : Ring s head items) (hroom : ¬s.Filled s.ringPtr) (bits : BitVec 16) :
    Ring (s.error bits) head items where
  holds := by
    refine h.holds.congr (fun i _ => filled_error hroom bits i) (fun i _ hfull => ?_)
    have hne : i ≠ s.ringPtr := by
      rintro rfl
      exact hroom hfull
    rw [frame, frame, UmacRx.error]
    simp only [LineCache.mem_device, Function.update_of_ne hne]
  ringPtr := h.ringPtr

/-! ### The cache -/

/-- While no changes are pending, only `handing` matters. -/
theorem Cached.moved (h : Cached s) (hclean : ∀ l, ¬s.rxdes.Dirty l = true)
    (hrecv : s.recv ≠ .handing) (recv : Recv) : Cached { s with recv } where
  seen := by
    intro i hi
    obtain ⟨hfilled, hcount⟩ := h.seen i hi
    exact ⟨hfilled, Or.inr (hcount.resolve_left fun h => hrecv h.2)⟩
  dirty := by
    intro l hl
    exact absurd hl (hclean l)

/-- A line is fetched. -/
theorem Cached.fetch (h : Cached s) (l : ℕ) : Cached { s with rxdes := s.rxdes.fetch l } where
  seen := by
    intro i hi
    dsimp only at hi ⊢
    rw [LineCache.view_fetch] at hi ⊢
    rw [Filled, LineCache.mem_fetch]
    exact h.seen i hi
  dirty := by
    intro l' hl'
    dsimp only at hl'
    rw [LineCache.dirty_fetch] at hl'
    rw [line, LineCache.line_fetch]
    exact h.dirty l' hl'

/-- A clean line is dropped. -/
theorem Cached.invalidate (h : Cached s) (l : ℕ) :
    Cached { s with rxdes := s.rxdes.invalidate l } where
  seen := by
    intro i hi
    dsimp only at hi ⊢
    rw [LineCache.view_invalidate] at hi ⊢
    by_cases hl : s.rxdes.line i = l
    · rw [if_pos hl] at hi ⊢
      exact ⟨hi, Or.inr rfl⟩
    · rw [if_neg hl] at hi ⊢
      exact h.seen i hi
  dirty := by
    intro l' hl'
    exact h.dirty l' ((LineCache.dirty_invalidate ..).mp hl').2

/-- The hardware writes the descriptor it owns. -/
theorem Cached.device (h : Cached s) (hroom : ¬s.Filled s.ringPtr) (d : RxDesc)
    (ht : t.rxdes = s.rxdes.device s.ringPtr d) (hindex : t.rxIndex = s.rxIndex)
    (hrecv : t.recv = s.recv) : Cached t where
  seen := by
    intro i hi
    rw [ht] at hi ⊢
    rw [Filled, ht, hindex, hrecv]
    rcases LineCache.view_device s.rxdes s.ringPtr i d with hview | hview
    · rw [hview] at hi ⊢
      obtain ⟨hfilled, hcount⟩ := h.seen i hi
      have hne : i ≠ s.ringPtr := by
        rintro rfl
        exact hroom hfilled
      rw [LineCache.mem_device, Function.update_of_ne hne]
      exact ⟨hfilled, hcount⟩
    · rw [hview] at hi
      exact ⟨hi, Or.inr (by rw [hview])⟩
  dirty := by
    intro l hl
    rw [ht] at hl
    rw [line, ht, hindex, hrecv]
    exact h.dirty l hl

/-- The driver writes its descriptor. -/
theorem Cached.write (h : Cached s) {d : RxDesc} {recv : Recv}
    (hfree : ¬d.Owned →
      ¬s.desc.Owned ∧ (recv = .handing ∨ s.recv ≠ .handing ∧ d.count = s.desc.count))
    (hpending : recv = .flushing ∨ recv = .handing ∨ recv = .returning) :
    Cached (s.write d recv) where
  seen := by
    intro i hi
    rw [UmacRx.write] at hi ⊢
    dsimp only at hi ⊢
    rw [LineCache.view_store] at hi ⊢
    by_cases heq : i = s.rxIndex
    · subst heq
      rw [if_pos rfl] at hi ⊢
      obtain ⟨hseen, hsame⟩ := hfree hi
      obtain ⟨hfilled, hcount⟩ := h.seen s.rxIndex hseen
      refine ⟨hfilled, ?_⟩
      rcases hsame with hhanding | ⟨hrecv, hsame⟩
      · exact Or.inl ⟨rfl, hhanding⟩
      · right
        rw [hsame]
        exact hcount.resolve_left fun h => hrecv h.2
    · rw [if_neg heq] at hi ⊢
      obtain ⟨hfilled, hcount⟩ := h.seen i hi
      exact ⟨hfilled, Or.inr (hcount.resolve_left fun h => heq h.1)⟩
  dirty := by
    intro l hl
    rcases (LineCache.dirty_store ..).mp hl with rfl | hl
    · exact ⟨rfl, hpending⟩
    · exact ⟨(h.dirty l hl).1, hpending⟩

/-! ### Writing a line back -/

/-- What a line that is written back leaves in memory. -/
theorem mem_writeBack (s : UmacRx) (l i : ℕ) :
    (s.writeBack l).rxdes.mem i =
      if s.rxdes.line i = l ∧ s.rxdes.Dirty l = true then s.rxdes.view i else s.rxdes.mem i :=
  LineCache.mem_flush ..

theorem view_writeBack (s : UmacRx) (l i : ℕ) :
    (s.writeBack l).rxdes.view i =
      if s.rxdes.line i = l then (s.writeBack l).rxdes.mem i else s.rxdes.view i :=
  LineCache.view_flush ..

theorem pending_writeBack (s : UmacRx) (l : ℕ) :
    (s.writeBack l).Pending ↔ s.line ≠ l ∧ s.Pending := by
  rw [Pending, Pending]
  exact LineCache.dirty_flush ..

theorem Cached.writeBack (h : Cached s) (l : ℕ) : Cached (s.writeBack l) where
  seen := by
    intro i hi
    rw [view_writeBack] at hi ⊢
    by_cases hl : s.rxdes.line i = l
    · rw [if_pos hl] at hi ⊢
      exact ⟨hi, Or.inr rfl⟩
    · rw [if_neg hl] at hi ⊢
      rw [Filled, mem_writeBack, if_neg (fun h => hl h.1)]
      exact h.seen i hi
  dirty := by
    intro l' hl'
    exact h.dirty l' ((LineCache.dirty_flush ..).mp hl').2

/-- Then no changes are pending. -/
theorem Cached.clean_writeBack (h : Cached s) (l : ℕ) :
    ¬(s.writeBack s.line).rxdes.Dirty l = true := by
  intro hl
  obtain ⟨hne, hdirty⟩ := (LineCache.dirty_flush ..).mp hl
  exact hne (h.dirty l hdirty).1

/-- A clean line changes nothing in memory. -/
theorem mem_writeBack_of_clean {l : ℕ} (hl : ¬s.rxdes.Dirty l = true) :
    (s.writeBack l).rxdes.mem = s.rxdes.mem := by
  funext i
  rw [mem_writeBack, if_neg (fun h => hl h.2)]

/-- What the driver sees of a descriptor in memory is there for good. -/
theorem Cached.filled_of_view (h : Cached s) {i : ℕ} (hi : ¬(s.rxdes.view i).Owned) :
    s.Filled i := (h.seen i hi).1

/-- Where the write back overrides none, the same descriptors are filled. -/
theorem Cached.filled_writeBack (h : Cached s) {l i : ℕ} (hkeep : ¬s.Overrides l)
    (hi : i < maxRingEntries) (hne : s.recv = .returning → i ≠ s.rxIndex) :
    (s.writeBack l).Filled i ↔ s.Filled i := by
  rw [Filled, mem_writeBack]
  by_cases hl : s.rxdes.line i = l ∧ s.rxdes.Dirty l = true
  · rw [if_pos hl]
    refine ⟨h.filled_of_view, fun hfull howned => ?_⟩
    exact hkeep ⟨hl.2, i, hi, hl.1, hfull, howned, hne⟩
  · rw [if_neg hl]
    rfl

/-- Apart from the one the driver hands over, the frames keep their lengths. -/
theorem Cached.frame_writeBack (h : Cached s) {l i : ℕ}
    (hi : i = s.rxIndex → s.recv ≠ .handing) (hfilled : (s.writeBack l).Filled i) :
    (s.writeBack l).frame i = s.frame i := by
  rw [frame, frame]
  rw [Filled] at hfilled
  rw [mem_writeBack] at hfilled ⊢
  by_cases hl : s.rxdes.line i = l ∧ s.rxdes.Dirty l = true
  · rw [if_pos hl] at hfilled ⊢
    rcases (h.seen i hfilled).2 with ⟨heq, hrecv⟩ | hcount
    · exact absurd hrecv (hi heq)
    · rw [hcount]
      rfl
  · rw [if_neg hl]
    rfl

/-- A free descriptor is still seen free. -/
theorem Cached.free_writeBack (h : Cached s) (hfree : ¬s.desc.Owned) (l : ℕ) :
    ¬(s.writeBack l).desc.Owned := by
  have hfilled : s.Filled s.rxIndex := h.filled_of_view hfree
  have hmem : ¬((s.writeBack l).rxdes.mem s.rxIndex).Owned := by
    rw [mem_writeBack]
    split
    · exact hfree
    · exact hfilled
  show ¬((s.writeBack l).rxdes.view s.rxIndex).Owned
  rw [view_writeBack]
  split
  · exact hmem
  · exact hfree

/-- Outside the hand-over, a write back that overrides no descriptor changes no frame. -/
theorem Ring.writeBack (h : Ring s head items) (hcached : Cached s) {l : ℕ}
    (hkeep : ¬s.Overrides l) (hhanding : s.recv ≠ .handing) (hreturning : s.recv ≠ .returning) :
    Ring (s.writeBack l) head items where
  holds := by
    have hfilled (i : ℕ) (hi : i < maxRingEntries) : (s.writeBack l).Filled i ↔ s.Filled i :=
      hcached.filled_writeBack hkeep hi fun hrecv => absurd hrecv hreturning
    refine h.holds.congr hfilled (fun i hi hfull => ?_)
    exact hcached.frame_writeBack (fun _ => hhanding) ((hfilled i hi).mpr hfull)
  ringPtr := h.ringPtr

/-- While the driver writes its descriptor, only what it says of the frame that was
returned changes. -/
theorem Ring.writeBack_handing (h : Ring s s.rxIndex (x :: items)) (hcached : Cached s) {l : ℕ}
    (hkeep : ¬s.Overrides l) (hreturning : s.recv ≠ .returning) :
    ∃ y, Ring (s.writeBack l) s.rxIndex (y :: items) := by
  have hfilled (i : ℕ) (hi : i < maxRingEntries) : (s.writeBack l).Filled i ↔ s.Filled i :=
    hcached.filled_writeBack hkeep hi fun hrecv => absurd hrecv hreturning
  refine ⟨_, h.holds.set_head hfilled fun i hi hne hfull => ?_, h.ringPtr⟩
  exact hcached.frame_writeBack (fun heq => absurd heq hne) ((hfilled i hi).mpr hfull)

/-- The write back hands the driver's descriptor over. -/
theorem Ring.writeBack_returning (h : Ring s s.rxIndex (x :: items)) (hcached : Cached s)
    (hkeep : ¬s.Overrides s.line) (hpending : s.Pending) (howned : s.desc.Owned) :
    Ring (s.writeBack s.line) (next maxRingEntries s.rxIndex) items where
  holds := by
    have hfilled (i : ℕ) (hi : i < maxRingEntries) (hne : i ≠ s.rxIndex) :
        (s.writeBack s.line).Filled i ↔ s.Filled i :=
      hcached.filled_writeBack hkeep hi fun _ => hne
    refine h.holds.pop (fun i hi => ?_) (fun i hi hne hfull => ?_)
    · by_cases hne : i = s.rxIndex
      · subst hne
        rw [Filled, mem_writeBack, if_pos ⟨rfl, hpending⟩]
        exact iff_of_false (not_not.mpr howned) fun h => h.1 rfl
      · rw [hfilled i hi hne, and_iff_right hne]
    · exact hcached.frame_writeBack (fun heq => absurd heq hne) ((hfilled i hi hne).mpr hfull)
  ringPtr := by
    rw [slot_next h.holds.head_lt]
    exact h.ringPtr

end UmacRx

end GxpUbootUmac
