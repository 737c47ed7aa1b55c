/-
The frames that go out on the wire.

What the hardware sends is read from the ring; what `umac_start_xmit` was given
is copied into it, cut to 1514 bytes and padded to `ETH_ZLEN`.

* `wire` — the frame of a packet;
* `wire_iff` — all along a run the frames sent and those in the ring are the
  frames of the packets submitted, in order, exactly when no call overwrites a
  descriptor the hardware owns.
-/
import Canopy.DescRing
import Canopy.RunLog
import Canopy.UmacTx

namespace GxpUmac

namespace Umac

open RingIndex DescRing

variable {s : Umac} {items : List (List UInt8)}

/-- The frame of a packet. -/
def wire (data : List UInt8) : List UInt8 :=
  data.take maxFrameSize ++ List.replicate (ethZlen - (data.take maxFrameSize).length) 0

/-- The frame in slot `i`. -/
def frame (s : Umac) (i : ℕ) : List UInt8 :=
  (List.range (s.entrylist i).count).map (s.framelist i)

/-- The frame of the packet that a step submits. -/
def submitted (s : Umac) : Event → List (List UInt8)
  | .xmit data => if s.xmit = .idle ∧ s.stopped = false then [wire data] else []
  | _ => []

/-- The frame that the hardware sends. -/
def sent (s : Umac) : Event → List (List UInt8)
  | .complete _ => if s.Owned s.txptr then [s.frame s.txptr] else []
  | _ => []

/-- The frames in the ring. -/
def queued (s : Umac) : List (List UInt8) := contents maxTxDescEntries s.Owned s.frame s.txptr

/-- The ring holds `items`, and `tx_cur` is behind the last one. -/
structure Ring (s : Umac) (items : List (List UInt8)) : Prop where
  holds : Holds maxTxDescEntries s.Owned s.frame s.txptr items
  cur : s.txCur = slot maxTxDescEntries s.txptr items.length

theorem Ring.queued_eq (h : Ring s items) : s.queued = items := h.holds.contents_eq

theorem ring_boot : Ring boot [] where
  holds := holds_nil maxTxDescEntries_pos fun i _ => not_owned_boot i
  cur := rfl

/-- Only the descriptors, the frames and the two cursors matter. -/
theorem Ring.congr {s' : Umac} (h : Ring s items) (hentries : s'.entrylist = s.entrylist)
    (hframes : s'.framelist = s.framelist) (hcur : s'.txCur = s.txCur)
    (hptr : s'.txptr = s.txptr) : Ring s' items where
  holds := by
    rw [hptr]
    refine h.holds.congr (fun i _ => ?_) (fun i _ _ => ?_)
    · rw [Owned, Owned, hentries]
    · rw [frame, frame, hentries, hframes]
  cur := by
    rw [hcur, hptr]
    exact h.cur

/-- `umac_start_xmit` leaves the frame of its packet in the descriptor it fills. -/
theorem frame_fill (s : Umac) (data : List UInt8) : (s.fill data).frame s.txCur = wire data := by
  have hlen : (data.take maxFrameSize).length =
      if data.length > 1514 then 1514 else data.length := by
    rw [List.length_take, maxFrameSize]
    split <;> omega
  rw [frame, fill]
  simp only [Function.update_self]
  rw [wire, ← hlen]
  set length := (data.take maxFrameSize).length with hlength
  have hle : length ≤ maxFrameSize := by
    rw [hlength, List.length_take]
    exact Nat.min_le_left _ _
  refine List.ext_getElem ?_ fun j hj hj' => ?_
  · rw [List.length_map, List.length_range, List.length_append, List.length_replicate, ← hlength]
    split <;> omega
  · rw [List.getElem_map, List.getElem_range]
    by_cases hdata : j < length
    · rw [if_pos hdata, List.getElem_append_left hdata, List.getElem_take,
        List.getD_eq_getElem]
    · -- behind the packet the slot was cleared
      rw [List.length_map, List.length_range] at hj
      have hsmall : j < maxFrameSize := by
        have hmax : ethZlen < maxFrameSize := by decide
        split at hj <;> omega
      rw [if_neg hdata, if_pos hsmall, List.getElem_append_right (Nat.le_of_not_lt hdata),
        List.getElem_replicate]

/-- A packet is submitted to a free descriptor. -/
theorem Ring.fill (h : Ring s items) (hfree : ¬s.Owned s.txCur) (data : List UInt8) :
    Ring (s.fill data) (items ++ [wire data]) where
  holds := by
    refine h.holds.push h.cur hfree (fun i _ => ?_) (frame_fill s data) (fun i _ hne => ?_)
    · by_cases hi : i = s.txCur
      · subst hi
        rw [Owned, Umac.fill]
        simp [hwOwn]
      · rw [Owned, Owned, Umac.fill]
        simp [hi]
    · rw [frame, frame, Umac.fill]
      simp only [Function.update_of_ne hne]
  cur := by
    show next maxTxDescEntries s.txCur = _
    rw [h.cur, next_slot h.holds.pos, List.length_append, List.length_singleton]
    rfl

/-- The oldest frame is sent. -/
theorem Ring.send {x : List UInt8} (h : Ring s (x :: items)) (status : BitVec 16) :
    Ring (s.send status) items where
  holds := by
    refine h.holds.pop (fun i _ => ?_) (fun i _ hne _ => ?_)
    · by_cases hi : i = s.txptr
      · subst hi
        rw [Owned, Umac.send]
        simp [BitMask.and_not_self_right status hwOwn]
      · rw [Owned, Owned, Umac.send]
        simp [hi]
    · rw [frame, frame, Umac.send]
      simp only [Function.update_of_ne hne]
  cur := by
    show s.txCur = slot _ (next _ _) _
    rw [slot_next h.holds.head_lt]
    exact h.cur

/-- The rest of the driver leaves the ring alone. -/
theorem Ring.other (h : Ring s items) {e : Event} (hxmit : ∀ data, e ≠ .xmit data)
    (hcomplete : ∀ status, e ≠ .complete status) : Ring (s.step e) items := by
  cases e with
  | xmit data => exact absurd rfl (hxmit data)
  | complete status => exact absurd rfl (hcomplete status)
  | reap =>
    rw [step]
    split
    · rw [Umac.reap]
      split <;> exact h.congr rfl rfl rfl rfl
    · exact h
  | checkNext | stopQueue | poll | wake =>
    rw [step]
    split
    · exact h.congr rfl rfl rfl rfl
    · exact h

/-- A step that overwrites no descriptor of the hardware. -/
theorem Ring.step (h : Ring s items) {e : Event} (htouches : s.TouchesUnowned e) :
    ∃ items', Ring (s.step e) items' ∧ items ++ s.submitted e = s.sent e ++ items' := by
  cases e with
  | xmit data =>
    rw [Umac.step, submitted]
    split
    · next hrunning =>
      exact ⟨_, h.fill (htouches hrunning.1 hrunning.2) data, rfl⟩
    · exact ⟨items, h, List.append_nil items⟩
  | complete status =>
    rw [Umac.step, sent]
    split
    · next howned =>
      obtain ⟨items', rfl⟩ := h.holds.exists_cons howned
      exact ⟨items', h.send status, List.append_nil _⟩
    · exact ⟨items, h, List.append_nil items⟩
  | checkNext | stopQueue | poll | reap | wake =>
    exact ⟨items, h.other (by simp) (by simp), List.append_nil items⟩

/-- A frame more than the ring has room for is lost. -/
theorem Ring.overwritten (h : Ring s items) {e : Event} (htouches : ¬s.TouchesUnowned e) :
    items ++ s.submitted e ≠ s.sent e ++ (s.step e).queued := by
  cases e with
  | xmit data =>
    simp only [TouchesUnowned, Classical.not_imp, not_not] at htouches
    obtain ⟨hidle, hrunning, howned⟩ := htouches
    rw [h.cur, h.holds.full_tail_iff] at howned
    intro heq
    have hlen := congrArg List.length heq
    have hsent : s.sent (.xmit data) = [] := rfl
    rw [submitted, if_pos ⟨hidle, hrunning⟩, List.length_append, List.length_singleton, howned,
      hsent, List.nil_append] at hlen
    have hle : (s.step (.xmit data)).queued.length ≤ maxTxDescEntries := length_contents_le _ _ _
    omega
  | _ => exact absurd trivial htouches

/-- **All along a run the frames sent and those still in the ring are, in order,
the frames of the packets submitted, if and only if no call of
`umac_start_xmit` overwrites a descriptor the hardware owns.** -/
theorem wire_iff (events : List Event) :
    (∀ es, es <+: events → Run.log step submitted boot es =
      Run.log step sent boot es ++ (Run.run step boot es).queued) ↔
        TouchesOnlyUnowned events := by
  have hboot : boot.queued = [] := ring_boot.queued_eq
  have hiff : (∀ es, es <+: events → boot.queued ++ Run.log step submitted boot es =
      Run.log step sent boot es ++ (Run.run step boot es).queued) ↔
        TouchesOnlyUnowned events := by
    refine Run.conserved_iff (I := fun s => Ring s s.queued) (P := TouchesUnowned) ?_ ?_ ?_
    · intro s e h htouches
      obtain ⟨items', hring, -⟩ := h.step htouches
      rwa [hring.queued_eq]
    · intro s e h
      constructor
      · intro hflow
        by_contra htouches
        exact h.overwritten htouches hflow
      · intro htouches
        obtain ⟨items', hring, hflow⟩ := h.step htouches
        rw [hring.queued_eq]
        exact hflow
    · rw [hboot]
      exact ring_boot
  simpa only [hboot, List.nil_append] using hiff

end Umac

end GxpUmac
