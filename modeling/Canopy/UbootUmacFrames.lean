/-
The frames the U-Boot UMAC driver returns.

* `Inv.step` — a step that hands no descriptor with a frame over loses none;
* `Inv.length_lt_of_clobbers` — one that does loses a frame;
* `recv_faithful_iff` — so no frame is lost exactly in the runs without such steps.
-/
import Canopy.UbootUmacRx

namespace GxpUbootUmac

open Run RingIndex DescRing

namespace UmacRx

variable {s t : UmacRx} {head : ℕ} {items items' : List (List UInt8)} {x : List UInt8}

/-! ### One step -/

/-- The hardware writes another descriptor than the one the driver has. -/
theorem Cached.free_device (h : Cached s) (hroom : ¬s.Filled s.ringPtr) (d : RxDesc)
    (hfree : ¬s.desc.Owned) : ¬((s.rxdes.device s.ringPtr d).view s.rxIndex).Owned := by
  have hfilled : s.Filled s.rxIndex := h.filled_of_view hfree
  have hne : s.rxIndex ≠ s.ringPtr := by
    intro heq
    exact hroom (heq ▸ hfilled)
  rcases LineCache.view_device s.rxdes s.ringPtr s.rxIndex d with hview | hview
  · rw [hview]
    exact hfree
  · rw [hview, LineCache.mem_device, Function.update_of_ne hne]
    exact hfilled

/-- What the driver's place asks of the ring survives a step of another party; the ring
may gain `new`. -/
theorem At.transfer {new : List (List UInt8)} (h : At s items) (hrecv : t.recv = s.recv)
    (hindex : t.rxIndex = s.rxIndex) (hpending : t.Pending ↔ s.Pending)
    (hfree : ¬s.desc.Owned → ¬t.desc.Owned) (howned : s.Pending → s.desc.Owned → t.desc.Owned)
    (hring : ∀ head xs, Ring s head xs → Ring t head (xs ++ new)) : At t (items ++ new) := by
  rw [At] at h ⊢
  rw [hrecv, hindex]
  cases hcase : s.recv with
  | idle | checking | testing | clearing | flushing =>
    rw [hcase] at h
    exact hring _ _ h
  | taking =>
    rw [hcase] at h
    exact ⟨hfree h.1, hring _ _ h.2⟩
  | resetting | handing =>
    rw [hcase] at h
    obtain ⟨hfree', x, h⟩ := h
    exact ⟨hfree hfree', x, hring _ _ h⟩
  | returning =>
    rw [hcase] at h
    obtain ⟨hlt, h⟩ := h
    refine ⟨hlt, ?_⟩
    by_cases hp : s.Pending
    · rw [if_pos hp] at h
      obtain ⟨howned', x, h⟩ := h
      rw [if_pos (hpending.mpr hp)]
      exact ⟨howned hp howned', x, hring _ _ h⟩
    · rw [if_neg hp] at h
      rw [if_neg (fun h => hp (hpending.mp h))]
      exact hring _ _ h

/-- The hardware writes the descriptor it owns. -/
theorem Inv.device (h : Inv s items) (hroom : ¬s.Filled s.ringPtr) {d : RxDesc}
    {new : List (List UInt8)} (ht : t.rxdes = s.rxdes.device s.ringPtr d)
    (hindex : t.rxIndex = s.rxIndex) (hrecv : t.recv = s.recv)
    (hring : ∀ head xs, Ring s head xs → Ring t head (xs ++ new)) : Inv t (items ++ new) := by
  refine ⟨h.cached.device hroom d ht hindex hrecv, ?_⟩
  refine h.ring.transfer hrecv hindex ?_ (fun hfree => ?_) (fun hp howned => ?_) hring
  · rw [Pending, Pending, line, ht, hindex]
    rfl
  · rw [desc, ht, hindex]
    exact h.cached.free_device hroom d hfree
  · -- the driver's line is in the cache
    rw [desc, ht, hindex, LineCache.view_device_of_dirty _ _ _ _ hp]
    exact howned

/-- A line is fetched. -/
theorem Inv.fetch (h : Inv s items) (l : ℕ) : Inv { s with rxdes := s.rxdes.fetch l } items := by
  have hdesc : desc { s with rxdes := s.rxdes.fetch l } = s.desc := LineCache.view_fetch ..
  have hat : At { s with rxdes := s.rxdes.fetch l } (items ++ []) := by
    refine h.ring.transfer rfl rfl ?_ (fun hfree => ?_) (fun _ howned => ?_)
      (fun head xs hring => ?_)
    · rw [Pending, Pending, line, LineCache.dirty_fetch, LineCache.line_fetch, line]
    · rwa [hdesc]
    · rwa [hdesc]
    · rw [List.append_nil]
      exact hring.congr (LineCache.mem_fetch ..) rfl rfl
  rw [List.append_nil] at hat
  exact ⟨h.cached.fetch l, hat⟩

/-- A clean line is written back. -/
theorem Inv.writeBack_of_clean (h : Inv s items) {l : ℕ} (hclean : ¬s.rxdes.Dirty l = true) :
    Inv (s.writeBack l) items := by
  have hat : At (s.writeBack l) (items ++ []) := by
    refine h.ring.transfer rfl rfl ?_ (fun hfree => h.cached.free_writeBack hfree l)
      (fun hpending howned => ?_) (fun head xs hring => ?_)
    · rw [pending_writeBack, and_iff_right_iff_imp]
      rintro hpending rfl
      exact hclean hpending
    · have hne : ¬s.rxdes.line s.rxIndex = l := by
        rintro rfl
        exact hclean hpending
      show RxDesc.Owned ((s.writeBack l).rxdes.view s.rxIndex)
      rw [view_writeBack, if_neg hne]
      exact howned
    · rw [List.append_nil]
      exact hring.congr (mem_writeBack_of_clean hclean) rfl rfl
  rw [List.append_nil] at hat
  exact ⟨h.cached.writeBack l, hat⟩

/-- **A write back that overrides no descriptor loses nothing.** -/
theorem Inv.writeBack (h : Inv s items) {l : ℕ} (hkeep : ¬s.Overrides l) :
    Inv (s.writeBack l) items := by
  by_cases hdirty : s.rxdes.Dirty l = true
  · -- the line is the driver's, and the driver has written its descriptor
    obtain ⟨rfl, hrecv⟩ := h.cached.dirty l hdirty
    obtain ⟨hcached, hat⟩ := h
    refine ⟨hcached.writeBack s.line, ?_⟩
    rw [At] at hat ⊢
    have hsame : (s.writeBack s.line).recv = s.recv := rfl
    rw [hsame]
    rcases hrecv with hcase | hcase | hcase
    · rw [hcase] at hat ⊢
      exact hat.writeBack hcached hkeep (by simp [hcase]) (by simp [hcase])
    · rw [hcase] at hat ⊢
      obtain ⟨hfree, x, hring⟩ := hat
      exact ⟨hcached.free_writeBack hfree s.line,
        hring.writeBack_handing hcached hkeep (by simp [hcase])⟩
    · rw [hcase] at hat ⊢
      obtain ⟨hlt, hat⟩ := hat
      have hpending : s.Pending := hdirty
      rw [if_pos hpending] at hat
      obtain ⟨howned, x, hring⟩ := hat
      refine ⟨hlt, ?_⟩
      rw [if_neg (fun h => ((pending_writeBack _ _).mp h).1 rfl)]
      exact hring.writeBack_returning hcached hkeep hpending howned
  · exact h.writeBack_of_clean hdirty

/-- Only in three places the driver has changes that are not written back. -/
theorem Cached.clean (h : Cached s) (hflushing : s.recv ≠ .flushing)
    (hhanding : s.recv ≠ .handing) (hreturning : s.recv ≠ .returning) (l : ℕ) :
    ¬s.rxdes.Dirty l = true := by
  intro hdirty
  rcases (h.dirty l hdirty).2 with hrecv | hrecv | hrecv
  · exact hflushing hrecv
  · exact hhanding hrecv
  · exact hreturning hrecv

/-- The driver looks at its descriptor and goes on. -/
theorem Inv.access (h : Inv s items) {recv : Recv} (hflushing : s.recv ≠ .flushing)
    (hhanding : s.recv ≠ .handing) (hreturning : s.recv ≠ .returning)
    (hat : ∀ t, t.recv = recv → t.rxIndex = s.rxIndex → t.desc = s.desc →
      (∀ head xs, Ring s head xs → Ring t head xs) → At t items) :
    Inv (s.access recv) items := by
  have hclean := (h.cached.fetch s.line).clean hflushing hhanding hreturning
  refine ⟨(h.cached.fetch s.line).moved hclean hhanding recv, ?_⟩
  refine hat _ rfl rfl (LineCache.view_fetch ..) (fun head xs hring => ?_)
  exact hring.congr (LineCache.mem_fetch ..) rfl rfl

/-- The driver's descriptor after it has written it. -/
@[simp] theorem desc_write (s : UmacRx) (d : RxDesc) (recv : Recv) : (s.write d recv).desc = d := by
  show LineCache.view _ _ = d
  rw [write, LineCache.view_store, if_pos rfl]

theorem Ring.write (h : Ring s head items) (d : RxDesc) (recv : Recv) :
    Ring (s.write d recv) head items :=
  h.congr rfl rfl rfl

/-- What the errors hide stays. -/
theorem owned_clear (d : RxDesc) :
    RxDesc.Owned { d with status := d.status &&& ~~~rxErrMask } ↔ d.Owned := by
  have hsame : (d.status &&& ~~~rxErrMask) &&& hwOwn = d.status &&& hwOwn :=
    BitMask.and_not_and_of_disjoint (by decide) d.status
  rw [RxDesc.Owned, RxDesc.Owned, hsame]

/-- `rxdes->status &= ~UMAC_RING_RX_ERR_MASK` -/
theorem Inv.clearing (h : Inv s items) (hrecv : s.recv = .clearing) :
    Inv (s.write { s.desc with status := s.desc.status &&& ~~~rxErrMask } .flushing) items := by
  have hat := h.ring
  rw [At, hrecv] at hat
  refine ⟨h.cached.write (fun hfree => ?_) (Or.inl rfl), hat.write _ _⟩
  exact ⟨fun howned => hfree ((owned_clear _).mpr howned), Or.inr ⟨by simp [hrecv], rfl⟩⟩

/-- `rxdes->count = UMAC_MAX_FRAME_SIZE` -/
theorem Inv.resetting (h : Inv s items) (hrecv : s.recv = .resetting) :
    Inv (s.write { s.desc with count := maxFrameSize } .handing) items := by
  have hat := h.ring
  rw [At, hrecv] at hat
  obtain ⟨hfree, x, hring⟩ := hat
  refine ⟨h.cached.write (fun _ => ⟨hfree, Or.inl rfl⟩) (Or.inr (Or.inl rfl)), ?_, x,
    hring.write _ _⟩
  rw [desc_write]
  exact hfree

private theorem owned_hwOwn (count : ℕ) : RxDesc.Owned ⟨hwOwn, count⟩ := by
  show hwOwn &&& hwOwn ≠ 0
  decide

/-- `rxdes->status = UMAC_RING_ENTRY_HW_OWN` -/
theorem Inv.handing (h : Inv s items) (hrecv : s.recv = .handing) :
    Inv (s.write { s.desc with status := hwOwn } .returning) items := by
  have hat := h.ring
  rw [At, hrecv] at hat
  obtain ⟨-, x, hring⟩ := hat
  have hpending : (s.write { s.desc with status := hwOwn } .returning).Pending :=
    (LineCache.dirty_store ..).mpr (Or.inl rfl)
  have howned := owned_hwOwn s.desc.count
  refine ⟨h.cached.write (fun hfree => absurd howned hfree) (Or.inr (Or.inr rfl)),
    hring.holds.head_lt, ?_⟩
  rw [if_pos hpending, desc_write]
  exact ⟨howned, x, hring.write _ _⟩

/-- `gxp_umac_recv` returns the frame. -/
theorem Inv.deliver (h : Inv s items) (hrecv : s.recv = .taking) :
    ∃ items', items = s.frame s.rxIndex :: items' ∧ Inv s.deliver items' ∧
      s.deliver.delivered = s.delivered ++ [s.frame s.rxIndex] := by
  have hat := h.ring
  rw [At, hrecv] at hat
  obtain ⟨hfree, hring⟩ := hat
  obtain ⟨hfilled, hcount⟩ := h.cached.seen s.rxIndex hfree
  obtain ⟨items', rfl⟩ := hring.holds.exists_cons hfilled
  have hclean := (h.cached.fetch s.line).clean (by simp [hrecv]) (by simp [hrecv])
    (by simp [hrecv])
  have hcached := (h.cached.fetch s.line).moved hclean (by simp [hrecv]) .resetting
  refine ⟨items', rfl, ⟨⟨hcached.seen, hcached.dirty⟩, ?_, s.frame s.rxIndex, ?_⟩, ?_⟩
  · show ¬RxDesc.Owned (LineCache.view (s.rxdes.fetch s.line) s.rxIndex)
    rw [LineCache.view_fetch]
    exact hfree
  · exact hring.congr (LineCache.mem_fetch ..) rfl rfl
  · show s.delivered ++ [(List.range (s.rxdes.view s.rxIndex).count).map _] = _
    rw [hcount.resolve_left fun h => absurd (hrecv.symm.trans h.2) (by decide)]
    rfl

/-- Nothing is pending once the driver's line is written back. -/
theorem Inv.settled (h : Inv s items) (hkeep : ¬s.Overrides s.line)
    (hrecv : s.recv ≠ .handing) (recv : Recv) :
    Cached { s.writeBack s.line with recv } :=
  (h.writeBack hkeep).cached.moved h.cached.clean_writeBack hrecv recv

/-- `gxp_umac_recv` gives up. -/
theorem Inv.flushing (h : Inv s items) (hrecv : s.recv = .flushing)
    (hkeep : ¬s.Overrides s.line) : Inv { s.writeBack s.line with recv := .idle } items := by
  have hat := (h.writeBack hkeep).ring
  have hsame : (s.writeBack s.line).recv = .flushing := hrecv
  rw [At, hsame] at hat
  exact ⟨h.settled hkeep (by simp [hrecv]) .idle, hat.congr rfl rfl rfl⟩

/-- `gxp_umac_free_pkt` returns. -/
theorem Inv.returning (h : Inv s items) (hrecv : s.recv = .returning)
    (hkeep : ¬s.Overrides s.line) :
    Inv { s.writeBack s.line with
      rxIndex := (s.rxIndex + 1) % maxRingEntries, recv := .idle } items := by
  have hat := (h.writeBack hkeep).ring
  have hsame : (s.writeBack s.line).recv = .returning := hrecv
  rw [At, hsame] at hat
  obtain ⟨hlt, hat⟩ := hat
  rw [if_neg (fun h => ((pending_writeBack _ _).mp h).1 rfl)] at hat
  have hcached := h.settled hkeep (by simp [hrecv]) .idle
  refine ⟨⟨fun i hi => ?_, fun l hl => absurd hl (h.cached.clean_writeBack l)⟩, ?_⟩
  · obtain ⟨hfilled, hcount⟩ := hcached.seen i hi
    exact ⟨hfilled, Or.inr (hcount.resolve_left fun h => absurd h.2 (by simp))⟩
  · have hnext : next maxRingEntries s.rxIndex = (s.rxIndex + 1) % maxRingEntries := next_eq hlt
    have hring : Ring (s.writeBack s.line) ((s.rxIndex + 1) % maxRingEntries) items := hnext ▸ hat
    exact hring.congr rfl rfl rfl

/-- What was received and returned by a step, and what waits after it. -/
structure Moves (s t : UmacRx) (items items' : List (List UInt8)) : Prop where
  inv : Inv t items'
  all : ∃ new, t.received = s.received ++ new ∧ t.delivered ++ items' = s.delivered ++ items ++ new

theorem Inv.stays (h : Inv t items) (hreceived : t.received = s.received)
    (hdelivered : t.delivered = s.delivered) : Moves s t items items where
  inv := h
  all := by
    refine ⟨[], ?_, ?_⟩
    · rw [hreceived, List.append_nil]
    · rw [hdelivered, List.append_nil]

theorem Inv.proceed (h : Inv s items) (hkeep : ¬s.Clobbers .proceed) :
    ∃ items', Moves s s.proceed items items' := by
  have hat := h.ring
  rw [At] at hat
  rw [UmacRx.proceed]
  cases hrecv : s.recv with
  | idle => exact ⟨items, h.stays rfl rfl⟩
  | checking =>
    rw [hrecv] at hat
    refine ⟨items, Inv.stays (h.access (by simp [hrecv]) (by simp [hrecv]) (by simp [hrecv])
      fun t ht hindex hdesc hring => ?_) rfl rfl⟩
    by_cases howned : s.desc.Owned
    · rw [if_pos howned] at ht
      rw [At, ht, hindex]
      exact hring _ _ hat
    · rw [if_neg howned] at ht
      rw [At, ht, hindex, hdesc]
      exact ⟨howned, hring _ _ hat⟩
  | testing =>
    rw [hrecv] at hat
    refine ⟨items, Inv.stays (h.access (by simp [hrecv]) (by simp [hrecv]) (by simp [hrecv])
      fun t ht hindex _ hring => ?_) rfl rfl⟩
    by_cases herror : s.desc.status &&& rxErrMask ≠ 0
    · rw [if_pos herror] at ht
      rw [At, ht, hindex]
      exact hring _ _ hat
    · rw [if_neg herror] at ht
      rw [At, ht, hindex]
      exact hring _ _ hat
  | clearing => exact ⟨items, (h.clearing hrecv).stays rfl rfl⟩
  | flushing =>
    have hsame : ¬s.Overrides s.line := fun h => hkeep ⟨s.line, ⟨Or.inl hrecv, rfl⟩, h⟩
    exact ⟨items, (h.flushing hrecv hsame).stays rfl rfl⟩
  | taking =>
    obtain ⟨items', rfl, hinv, hdelivered⟩ := h.deliver hrecv
    refine ⟨items', hinv, [], (List.append_nil _).symm, ?_⟩
    rw [hdelivered, List.append_nil, List.append_assoc]
    rfl
  | resetting => exact ⟨items, (h.resetting hrecv).stays rfl rfl⟩
  | handing => exact ⟨items, (h.handing hrecv).stays rfl rfl⟩
  | returning =>
    have hsame : ¬s.Overrides s.line := fun h => hkeep ⟨s.line, ⟨Or.inr hrecv, rfl⟩, h⟩
    exact ⟨items, (h.returning hrecv hsame).stays rfl rfl⟩

/-- **One step that hands no frame over loses none.** -/
theorem Inv.step (h : Inv s items) {e : RxEvent} (hkeep : ¬s.Clobbers e) :
    ∃ items', Moves s (s.step e) items items' := by
  cases e with
  | receive data status =>
    rw [UmacRx.step]
    split
    · next hroom =>
      refine ⟨items ++ [data], h.device hroom.1 rfl rfl rfl fun head xs hring => ?_, [data], rfl,
        (List.append_assoc _ _ _).symm⟩
      exact hring.receive hroom.1 data status
    · exact ⟨items, h.stays rfl rfl⟩
  | error bits =>
    rw [UmacRx.step]
    split
    · next hroom =>
      have herror : Inv (s.error bits) (items ++ []) := by
        refine h.device hroom rfl rfl rfl fun head xs hring => ?_
        rw [List.append_nil]
        exact hring.error hroom bits
      rw [List.append_nil] at herror
      exact ⟨items, herror.stays rfl rfl⟩
    · exact ⟨items, h.stays rfl rfl⟩
  | recv =>
    rw [UmacRx.step]
    split
    · next hidle =>
      have hat := h.ring
      rw [At, hidle] at hat
      have hclean := (h.cached.invalidate s.line).clean (by simp [hidle]) (by simp [hidle])
        (by simp [hidle])
      exact ⟨items, Inv.stays ⟨(h.cached.invalidate s.line).moved hclean (by simp [hidle]) _,
        hat.congr rfl rfl rfl⟩ rfl rfl⟩
    · exact ⟨items, h.stays rfl rfl⟩
  | proceed => exact h.proceed hkeep
  | fetch l => exact ⟨items, (h.fetch l).stays rfl rfl⟩
  | evict l =>
    have hsame : ¬s.Overrides l := fun h => hkeep ⟨l, rfl, h⟩
    exact ⟨items, (h.writeBack hsame).stays rfl rfl⟩

/-! ### What waits -/

theorem first_of_ne (h : s.recv ≠ .returning) : s.first = s.rxIndex := if_neg fun h' => h h'.1

private theorem first_of_pending (h : s.Pending) : s.first = s.rxIndex := if_neg fun h' => h'.2 h

private theorem first_of_settled (h : s.recv = .returning) (hsettled : ¬s.Pending) :
    s.first = next maxRingEntries s.rxIndex := if_pos ⟨h, hsettled⟩

theorem waiting_of_not_returned (h : ¬s.Returned) (hfirst : s.first = head) :
    s.waiting = contents maxRingEntries s.Filled s.frame head := by
  subst hfirst
  exact if_neg h

private theorem waiting_of_returned (h : s.Returned) (hfirst : s.first = head) :
    s.waiting = (contents maxRingEntries s.Filled s.frame head).tail := by
  subst hfirst
  exact if_pos h

/-- What waits is what the ring holds. -/
theorem At.waiting_eq (h : At s items) : s.waiting = items := by
  rw [At] at h
  cases hrecv : s.recv with
  | idle | checking | testing | clearing | flushing =>
    rw [hrecv] at h
    rw [waiting_of_not_returned (by simp [Returned, hrecv]) (first_of_ne (by simp [hrecv])),
      h.holds.contents_eq]
  | taking =>
    rw [hrecv] at h
    rw [waiting_of_not_returned (by simp [Returned, hrecv]) (first_of_ne (by simp [hrecv])),
      h.2.holds.contents_eq]
  | resetting | handing =>
    rw [hrecv] at h
    obtain ⟨-, x, hring⟩ := h
    rw [waiting_of_returned (by simp [Returned, hrecv]) (first_of_ne (by simp [hrecv])),
      hring.holds.contents_eq, List.tail_cons]
  | returning =>
    rw [hrecv] at h
    obtain ⟨-, h⟩ := h
    by_cases hp : s.Pending
    · rw [if_pos hp] at h
      obtain ⟨-, x, hring⟩ := h
      rw [waiting_of_returned (by simp [Returned, hrecv, hp]) (first_of_pending hp),
        hring.holds.contents_eq, List.tail_cons]
    · rw [if_neg hp] at h
      rw [waiting_of_not_returned (by simp [Returned, hrecv, hp]) (first_of_settled hrecv hp),
        h.holds.contents_eq]

/-- **A write back that overrides a descriptor with a frame loses that frame** and
those behind it. -/
theorem Inv.length_waiting_lt (h : Inv s items) {l : ℕ} (hover : s.Overrides l) :
    (s.writeBack l).waiting.length < items.length := by
  obtain ⟨hdirty, i, hi, hline, hfilled, howned, hne⟩ := hover
  obtain ⟨rfl, hrecv⟩ := h.cached.dirty l hdirty
  have hlost : ¬(s.writeBack s.line).Filled i := by
    rw [Filled, mem_writeBack, if_pos ⟨hline, hdirty⟩]
    exact not_not.mpr howned
  have hpending : s.Pending := hdirty
  have hsettled : ¬(s.writeBack s.line).Pending := fun h => ((pending_writeBack _ _).mp h).1 rfl
  have hsame : (s.writeBack s.line).recv = s.recv := rfl
  have hindex : (s.writeBack s.line).rxIndex = s.rxIndex := rfl
  have hat := h.ring
  rw [At] at hat
  -- behind a frame that has been returned, the walk ends at slot `i` at the latest
  have hbehind {x : List UInt8} (hring : Ring s s.rxIndex (x :: items)) (hne : i ≠ s.rxIndex) :
      ∃ k < items.length, i = slot maxRingEntries s.rxIndex (k + 1) := by
    obtain ⟨k, hk, hslot⟩ := (hring.holds.full_iff i hi).mp hfilled
    obtain _ | k := k
    · exact absurd (hslot.trans (slot_zero hring.holds.head_lt)) hne
    · exact ⟨k, Nat.lt_of_succ_lt_succ hk, hslot⟩
  rcases hrecv with hcase | hcase | hcase
  · rw [hcase] at hat
    obtain ⟨k, hk, rfl⟩ := (hat.holds.full_iff i hi).mp hfilled
    rw [waiting_of_not_returned (by simp [Returned, hsame, hcase])
      (first_of_ne (by simp [hsame, hcase]))]
    exact (length_contents_le_of_not_full _ hlost).trans_lt hk
  · rw [hcase] at hat
    obtain ⟨hfree, x, hring⟩ := hat
    have hother : i ≠ s.rxIndex := by
      rintro rfl
      exact hfree howned
    obtain ⟨k, hk, rfl⟩ := hbehind hring hother
    have hlen := length_contents_le_of_not_full (s.writeBack s.line).frame hlost
    rw [waiting_of_returned (by simp [Returned, hsame, hcase])
      (first_of_ne (by simp [hsame, hcase])), List.length_tail, hindex]
    omega
  · rw [hcase] at hat
    obtain ⟨-, hat⟩ := hat
    rw [if_pos hpending] at hat
    obtain ⟨-, x, hring⟩ := hat
    obtain ⟨k, hk, rfl⟩ := hbehind hring (hne hcase)
    rw [← slot_next hring.holds.head_lt] at hlost
    have hfirst : (s.writeBack s.line).first = next maxRingEntries s.rxIndex :=
      first_of_settled hcase hsettled
    rw [waiting_of_not_returned (by simp [Returned, hsame, hcase, hsettled]) hfirst]
    exact (length_contents_le_of_not_full _ hlost).trans_lt hk

/-! ### No frame is lost -/

/-- A step that hands a frame over loses it. -/
theorem Inv.length_lt_of_clobbers (h : Inv s items) {e : RxEvent} (hclobbers : s.Clobbers e) :
    (s.step e).received = s.received ∧ (s.step e).delivered = s.delivered ∧
      (s.step e).waiting.length < items.length := by
  obtain ⟨l, hback, hover⟩ := hclobbers
  have hlt := h.length_waiting_lt hover
  cases e with
  | proceed =>
    obtain ⟨hrecv, rfl⟩ := hback
    have hsettled : ¬(s.writeBack s.line).Pending := fun h => ((pending_writeBack _ _).mp h).1 rfl
    have hsame : (s.writeBack s.line).recv = s.recv := rfl
    rw [UmacRx.step, UmacRx.proceed]
    rcases hrecv with hrecv | hrecv
    · rw [hrecv]
      rw [waiting_of_not_returned (by simp [Returned, hsame, hrecv])
        (first_of_ne (by simp [hsame, hrecv]))] at hlt
      refine ⟨rfl, rfl, ?_⟩
      rw [waiting_of_not_returned (by simp [Returned]) (first_of_ne (by simp))]
      exact hlt
    · rw [hrecv]
      have hat := h.ring
      rw [At, hrecv] at hat
      have hfirst : (s.writeBack s.line).first = next maxRingEntries s.rxIndex :=
        first_of_settled hrecv hsettled
      rw [next_eq hat.1] at hfirst
      rw [waiting_of_not_returned (by simp [Returned, hsame, hrecv, hsettled]) hfirst] at hlt
      refine ⟨rfl, rfl, ?_⟩
      rw [waiting_of_not_returned (by simp [Returned]) (first_of_ne (by simp))]
      exact hlt
  | evict line =>
    obtain rfl : l = line := hback
    exact ⟨rfl, rfl, hlt⟩
  | _ => exact hback.elim

/-- The ring is in order and every frame is there. -/
structure RxInv (s : UmacRx) : Prop where
  inv : Inv s s.waiting
  faithful : s.Faithful

theorem inv_boot (perLine : ℕ) : Inv (boot perLine) [] where
  cached := {
    seen := by
      intro i hi
      exact ⟨hi, Or.inr rfl⟩
    dirty := by
      rintro l ⟨⟩ }
  ring := by
    refine ⟨holds_nil (show 0 < maxRingEntries by decide) fun i _ => ?_, rfl⟩
    exact not_not.mpr (owned_hwOwn maxFrameSize)

theorem rxInv_boot (perLine : ℕ) : RxInv (boot perLine) := by
  have hwaiting : (boot perLine).waiting = [] := (inv_boot perLine).ring.waiting_eq
  refine ⟨?_, ?_⟩
  · rw [hwaiting]
    exact inv_boot perLine
  · rw [Faithful, hwaiting]
    rfl

theorem Moves.faithful (h : Moves s t items items') (hs : s.received = s.delivered ++ items) :
    t.Faithful := by
  obtain ⟨new, hreceived, hall⟩ := h.all
  rw [Faithful, h.inv.ring.waiting_eq, hall, hreceived, hs]

theorem RxInv.step_iff (h : RxInv s) (e : RxEvent) : (s.step e).Faithful ↔ ¬s.Clobbers e := by
  constructor
  · intro hfaithful hclobbers
    obtain ⟨hreceived, hdelivered, hlt⟩ := h.inv.length_lt_of_clobbers hclobbers
    have hlen := congrArg List.length hfaithful
    rw [hreceived, hdelivered, h.faithful, List.length_append, List.length_append] at hlen
    omega
  · intro hkeep
    obtain ⟨items', hmoves⟩ := h.inv.step hkeep
    exact hmoves.faithful h.faithful

theorem RxInv.step (h : RxInv s) {e : RxEvent} (hstep : (s.step e).Faithful) :
    RxInv (s.step e) := by
  obtain ⟨items', hmoves⟩ := h.inv.step ((h.step_iff e).mp hstep)
  refine ⟨?_, hstep⟩
  rw [hmoves.inv.ring.waiting_eq]
  exact hmoves.inv

/-- **However many descriptors share a cache line, whatever arrives and whenever, and
whatever lines the cache fetches and evicts: the frames returned and those waiting are
exactly the frames received in every state of a run, if and only if no line is written
back over a descriptor in which a frame has arrived since the line was fetched.** -/
theorem recv_faithful_iff (perLine : ℕ) (events : List RxEvent) :
    (∀ es, es <+: events → (Run.run step (boot perLine) es).Faithful) ↔
      ∀ p ∈ Run.visits step (boot perLine) events, ¬p.1.Clobbers p.2 := by
  rw [Run.forall_prefix_run_iff, and_iff_right (rxInv_boot perLine).faithful]
  refine Run.forall_visits_iff (I := RxInv) (P := fun t e => (t.step e).Faithful)
    (Q := fun t e => ¬t.Clobbers e) ?_ ?_ (rxInv_boot perLine)
  · intro t e ht hstep
    exact ht.step hstep
  · intro t e ht
    exact ht.step_iff e

/-- The second frame arrives while the driver is at the first one, in the same line. -/
example : (Run.run step (boot 2) [.receive [1] 0, .recv, .proceed, .proceed, .proceed,
      .receive [2] 0, .proceed, .proceed]).delivered = [[1]] ∧
    (Run.run step (boot 2) [.receive [1] 0, .recv, .proceed, .proceed, .proceed,
      .receive [2] 0, .proceed, .proceed]).waiting = [] := by
  decide

end UmacRx

end GxpUbootUmac
