/-
The order in which one doorbell drains the send FIFO of a channel.

The search for the next entry keeps a running minimum of the sequence numbers,
but the minimum starts at 0: an entry with another number is never found, and of
two with number 0 the later one is found first.

* `takenIndices_eq` — the entries the second loop takes, and their order;
* `InRange.after_consume` — the FIFO and the packets after one call;
* `drains_iff` — when one call drains the FIFO in sequence order.
-/
import Canopy.ChifPosted

namespace Chif

open Bytes WrapMem ChifDrvdata

/-! ### The entries taken, by index -/

/-- The indices of what `takenLoop` lists. -/
def takenIndices (fifo desc : ℕ) : ℕ → ChifDrvdata → List ℕ
  | 0, _ => []
  | fuel + 1, d =>
    match getOccupiedEntry fifo d with
    | (none, _) => []
    | (some i, d) => i :: takenIndices fifo desc fuel (takeEntry fifo desc d i)

/-- The indices of what `consumeTaken` lists. -/
def consumeIndices (d : ChifDrvdata) (channel : ℕ) : List ℕ :=
  let (sendFifo, d) := d.getCcb channel ccbSqFifo
  let (sendDesc, d) := d.getCcb channel ccbSqDesc
  let (nonEmptyPackets, d) :=
    (List.range sharedMemChifDescriptorNum).foldl (emptyStep sendFifo) (0, d)
  if nonEmptyPackets > 0 then takenIndices sendFifo sendDesc takeRounds d else []

section Indices

variable {fifo desc n : ℕ} {d : ChifDrvdata}

private theorem takenIndices_none (h0 : (d.entry fifo 0).eligible = false)
    (h1 : (d.entry fifo 1).eligible = false) : takenIndices fifo desc (n + 1) d = [] := by
  rw [takenIndices, getOccupiedEntry_eq, h0, h1]
  rfl

private theorem takenIndices_one (h1 : (d.entry fifo 1).eligible = true) :
    takenIndices fifo desc (n + 1) d
      = 1 :: takenIndices fifo desc n (takeEntry fifo desc (getOccupiedEntry fifo d).2 1) := by
  rw [takenIndices, getOccupiedEntry_eq, h1]
  rfl

private theorem takenIndices_zero (h0 : (d.entry fifo 0).eligible = true)
    (h1 : (d.entry fifo 1).eligible = false) :
    takenIndices fifo desc (n + 1) d
      = 0 :: takenIndices fifo desc n (takeEntry fifo desc (getOccupiedEntry fifo d).2 0) := by
  rw [takenIndices, getOccupiedEntry_eq, h0, h1]
  rfl

/-- With at most entry 0 left. -/
theorem takenIndices_entry_zero (h1 : (d.entry fifo 1).eligible = false) :
    takenIndices fifo desc (n + 2) d = if (d.entry fifo 0).eligible then [0] else [] := by
  cases h0 : (d.entry fifo 0).eligible with
  | false =>
    rw [takenIndices_none h0 h1]
    rfl
  | true =>
    obtain ⟨he0, he1⟩ := entry_take_zero fifo desc (getOccupiedEntry fifo d).2
    rw [takenIndices_zero h0 h1]
    generalize takeEntry fifo desc (getOccupiedEntry fifo d).2 0 = d' at he0 he1
    have hd0 : (d'.entry fifo 0).eligible = false := by rw [he0, not_eligible_of_consumed]
    have hd1 : (d'.entry fifo 1).eligible = false := by rw [he1, entry_scan, h1]
    rw [takenIndices_none hd0 hd1]
    rfl

theorem filter_one_zero (p : ℕ → Bool) :
    [1, 0].filter p = (if p 1 then [1] else []) ++ if p 0 then [0] else [] := by
  cases h1 : p 1 with
  | false => cases h0 : p 0 <;> simp [h1, h0]
  | true => cases h0 : p 0 <;> simp [h1, h0]

/-- **The second loop** takes entry 1 before entry 0. -/
theorem takenIndices_eq : takenIndices fifo desc takeRounds d
    = [1, 0].filter fun i => (d.entry fifo i).eligible := by
  have hrounds : takeRounds = 2 + 1 := rfl
  rw [filter_one_zero]
  cases h1 : (d.entry fifo 1).eligible with
  | false =>
    rw [hrounds, takenIndices_entry_zero h1]
    rfl
  | true =>
    obtain ⟨he1, he0⟩ := entry_take_one fifo desc (getOccupiedEntry fifo d).2
    rw [hrounds, takenIndices_one h1]
    generalize takeEntry fifo desc (getOccupiedEntry fifo d).2 1 = d' at he0 he1
    have hd1 : (d'.entry fifo 1).eligible = false := by rw [he1, not_eligible_of_consumed]
    -- entry 0 is as it was
    rw [takenIndices_entry_zero hd1, he0, entry_scan]
    rfl

end Indices

/-! ### What is asked of a doorbell -/

/-- Entry `i` of the send FIFO of a channel. -/
def ChifDrvdata.sendEntry (d : ChifDrvdata) (channel i : ℕ) : FifoEntry :=
  d.entry (ccbField d.shmem channel ccbSqFifo) i

/-- The address of its descriptor. -/
def ChifDrvdata.sendDesc (d : ChifDrvdata) (channel i : ℕ) : ℕ :=
  descAddr (ccbField d.shmem channel ccbSqDesc) (d.sendEntry channel i).descriptorNum

/-- Its packet. -/
def ChifDrvdata.packetAt (d : ChifDrvdata) (channel i : ℕ) : Bytes :=
  descPacket d.shmem (ccbField d.shmem channel ccbSqDesc) (d.sendEntry channel i)

/-- The entry after `consume_packet`. -/
def ChifDrvdata.entryAfter (d : ChifDrvdata) (channel i : ℕ) : FifoEntry :=
  (consumePacket d channel).2.entry (ccbField d.shmem channel ccbSqFifo) i

/-- Packets of at most 512 qwords, in descriptors in range: neither the FIFO nor a
descriptor wraps around, and the descriptors lie outside the FIFO. -/
structure InRange (d : ChifDrvdata) (channel : ℕ) : Prop where
  qwords : ∀ i < sharedMemChifDescriptorNum, (d.sendEntry channel i).qwords.val ≤ 512
  fifo : ccbField d.shmem channel ccbSqFifo + 16 ≤ addressSpace
  desc : ∀ i < sharedMemChifDescriptorNum, (d.sendEntry channel i).nonEmpty = true →
    d.sendDesc channel i + (d.sendEntry channel i).descLen ≤ addressSpace ∧
      (d.sendDesc channel i + (d.sendEntry channel i).descLen
          ≤ ccbField d.shmem channel ccbSqFifo ∨
        ccbField d.shmem channel ccbSqFifo + 16 ≤ d.sendDesc channel i)

/-- Entry `i` goes before entry `j`: by sequence number, ties in entry order. -/
def Precedes (d : ChifDrvdata) (channel i j : ℕ) : Prop :=
  (d.sendEntry channel i).sequenceNum < (d.sendEntry channel j).sequenceNum ∨
    (d.sendEntry channel i).sequenceNum = (d.sendEntry channel j).sequenceNum ∧ i < j

/-- `consume_packet` drains the send FIFO in sequence order. -/
structure Drains (d : ChifDrvdata) (channel : ℕ) : Prop where
  none_left : ∀ i < sharedMemChifDescriptorNum, (d.entryAfter channel i).pending = false
  /-- empty packets are marked, and not taken -/
  emptied : ∀ i < sharedMemChifDescriptorNum, (d.sendEntry channel i).pending = true →
    (d.sendEntry channel i).qwords.val = 0 →
      (d.entryAfter channel i).consumed = true ∧ i ∉ consumeIndices d channel
  once : (consumeIndices d channel).Perm
    ((List.range sharedMemChifDescriptorNum).filter fun i => (d.sendEntry channel i).nonEmpty)
  sorted : (consumeIndices d channel).Pairwise (Precedes d channel)
  /-- what is taken is queued, behind what the queue held -/
  queued : (consumePacket d channel).2.chif24Queue.1.packets
    = d.chif24Queue.1.packets ++ (consumeIndices d channel).map (d.packetAt channel)

/-! ### One call -/

section Apart

variable {fifo a len : ℕ}

/-- The first loop leaves everything outside the FIFO alone. -/
theorem apart_emptyStep (n : ℕ) (d : ChifDrvdata) {i : ℕ} (hi : i < 2)
    (hfifo : fifo + 16 ≤ addressSpace) (ha : a + len ≤ addressSpace)
    (hapart : a + len ≤ fifo ∨ fifo + 16 ≤ a) :
    read addressSpace (emptyStep fifo (n, d) i).2.shmem a len
      = read addressSpace d.shmem a len := by
  show read addressSpace (if (d.entry fifo i).pending then
      if (d.entry fifo i).qwords.val = 0 then
        (n, (d.touch (fifoAddr fifo i) 4).setConsumed (fifoAddr fifo i))
      else (n + 1, d.touch (fifoAddr fifo i) 4)
    else (n, d.touch (fifoAddr fifo i) 4)).2.shmem a len = _
  split
  · split
    · exact apart_setFifoEntry d.shmem hi _ hfifo ha hapart
    · rfl
  · rfl

private theorem apart_emptyLoop (d : ChifDrvdata) (hfifo : fifo + 16 ≤ addressSpace)
    (ha : a + len ≤ addressSpace) (hapart : a + len ≤ fifo ∨ fifo + 16 ≤ a) :
    read addressSpace ((List.range sharedMemChifDescriptorNum).foldl (emptyStep fifo)
      (0, d)).2.shmem a len = read addressSpace d.shmem a len := by
  have h0 := apart_emptyStep 0 d Nat.zero_lt_two hfifo ha hapart
  rw [range_descriptorNum, List.foldl_cons, List.foldl_cons, List.foldl_nil]
  generalize emptyStep fifo (0, d) 0 = s at h0
  have h1 := apart_emptyStep s.1 s.2 Nat.one_lt_two hfifo ha hapart
  exact h1.trans h0

end Apart

/-- What the second loop starts from, if it starts. -/
structure FirstLoop (d : ChifDrvdata) (channel : ℕ) (s : ℕ × ChifDrvdata) : Prop where
  count : s.1 = 0 → ∀ i < 2, (d.sendEntry channel i).nonEmpty = false
  entry : ∀ i < 2, s.2.entry (ccbField d.shmem channel ccbSqFifo) i
    = afterEmpty (d.sendEntry channel i)
  apart : ∀ a len, a + len ≤ addressSpace →
    (a + len ≤ ccbField d.shmem channel ccbSqFifo ∨
      ccbField d.shmem channel ccbSqFifo + 16 ≤ a) →
    read addressSpace s.2.shmem a len = read addressSpace d.shmem a len

theorem InRange.first_loop {d : ChifDrvdata} {channel : ℕ} (h : InRange d channel) :
    ∃ s, FirstLoop d channel s ∧
      (∀ i, d.entryAfter channel i =
        (if s.1 > 0 then takeLoop (ccbField d.shmem channel ccbSqFifo)
            (ccbField d.shmem channel ccbSqDesc) takeRounds s.2
          else s.2).entry (ccbField d.shmem channel ccbSqFifo) i) ∧
      consumeTaken d channel =
        (if s.1 > 0 then takenLoop channel (ccbField d.shmem channel ccbSqFifo)
          (ccbField d.shmem channel ccbSqDesc) takeRounds s.2 else []) ∧
      consumeIndices d channel =
        if s.1 > 0 then takenIndices (ccbField d.shmem channel ccbSqFifo)
          (ccbField d.shmem channel ccbSqDesc) takeRounds s.2 else [] := by
  have hscan := emptied_scanned d channel
  have hcount : (d.sendEntry channel 0).nonEmpty.toNat + (d.sendEntry channel 1).nonEmpty.toNat
      = (d.emptied channel).1 := hscan.count.symm
  refine ⟨d.emptied channel, ⟨?_, ?_, fun a len ha hclear =>
    apart_emptyLoop (d.pointersRead channel) h.fifo ha hclear⟩, ?_, consumeTaken_eq d channel, rfl⟩
  · intro hzero i hi
    rw [hzero] at hcount
    obtain ⟨h0, h1⟩ := Nat.add_eq_zero_iff.mp hcount
    obtain rfl | rfl : i = 0 ∨ i = 1 := by omega
    · exact Bool.toNat_eq_zero.mp h0
    · exact Bool.toNat_eq_zero.mp h1
  · intro i hi
    obtain rfl | rfl : i = 0 ∨ i = 1 := by omega
    · exact hscan.entry_zero
    · exact hscan.entry_one
  · intro i
    rw [ChifDrvdata.entryAfter, consumePacket_eq, apply_ite Prod.snd]

section SecondLoop

variable {d : ChifDrvdata} {channel i : ℕ} {s : ℕ × ChifDrvdata}

theorem FirstLoop.eligible (hs : FirstLoop d channel s) (hi : i < 2) :
    (s.2.entry (ccbField d.shmem channel ccbSqFifo) i).eligible
      = ((d.sendEntry channel i).eligible && (d.sendEntry channel i).nonEmpty) := by
  rw [hs.entry i hi, eligible_afterEmpty]

/-- An entry that is found is as it was. -/
theorem FirstLoop.entry_of_found (hs : FirstLoop d channel s) (hi : i < 2)
    (hfound : (s.2.entry (ccbField d.shmem channel ccbSqFifo) i).eligible = true) :
    (d.sendEntry channel i).nonEmpty = true ∧
      s.2.entry (ccbField d.shmem channel ccbSqFifo) i = d.sendEntry channel i := by
  rw [hs.eligible hi, Bool.and_eq_true] at hfound
  rw [hs.entry i hi]
  exact ⟨hfound.2, afterEmpty_of_nonEmpty hfound.2⟩

/-- And so is its descriptor. -/
theorem FirstLoop.packet_of_found (hs : FirstLoop d channel s) (h : InRange d channel) (hi : i < 2)
    (hfound : (s.2.entry (ccbField d.shmem channel ccbSqFifo) i).eligible = true) :
    descPacket s.2.shmem (ccbField d.shmem channel ccbSqDesc)
      (s.2.entry (ccbField d.shmem channel ccbSqFifo) i) = d.packetAt channel i := by
  obtain ⟨hne, hsame⟩ := hs.entry_of_found hi hfound
  obtain ⟨hend, hclear⟩ := h.desc i hi hne
  rw [hsame, packetAt, descPacket, descPacket]
  exact hs.apart _ _ hend hclear

/-- The second loop marks the entries it finds, and takes their packets. -/
theorem FirstLoop.take_marked (hs : FirstLoop d channel s) (h : InRange d channel) :
    Marked (ccbField d.shmem channel ccbSqFifo) s.2.shmem
        (takeLoop (ccbField d.shmem channel ccbSqFifo) (ccbField d.shmem channel ccbSqDesc)
          takeRounds s.2).shmem ∧
      (takenLoop channel (ccbField d.shmem channel ccbSqFifo)
          (ccbField d.shmem channel ccbSqDesc) takeRounds s.2).map Taken.packet
        = (takenIndices (ccbField d.shmem channel ccbSqFifo)
          (ccbField d.shmem channel ccbSqDesc) takeRounds s.2).map (d.packetAt channel) := by
  obtain ⟨hmarked, hpackets⟩ : Marked (ccbField d.shmem channel ccbSqFifo) s.2.shmem
      (takeLoop _ (ccbField d.shmem channel ccbSqDesc) takeRounds s.2).shmem ∧ _ := by
    refine takeLoop_marked channel h.fifo fun hfound => ?_
    obtain ⟨hne, hsame⟩ := hs.entry_of_found Nat.zero_lt_two hfound
    rw [hsame]
    exact h.desc 0 Nat.zero_lt_two hne
  refine ⟨hmarked, ?_⟩
  rw [hpackets, takenIndices_eq, packetsWhere]
  refine List.map_congr_left fun i hi => ?_
  obtain ⟨hmem, hfound⟩ := List.mem_filter.mp hi
  have hlt : i < 2 := by
    simp only [List.mem_cons, List.not_mem_nil, or_false] at hmem
    omega
  exact hs.packet_of_found h hlt hfound

end SecondLoop

/-- **One call**: what becomes of the entries, which of them are taken, and with
what packet. -/
theorem InRange.after_consume {d : ChifDrvdata} {channel : ℕ} (h : InRange d channel) :
    (∀ i < 2, d.entryAfter channel i = afterTake (afterEmpty (d.sendEntry channel i))) ∧
      consumeIndices d channel = ([1, 0].filter fun i =>
        (d.sendEntry channel i).eligible && (d.sendEntry channel i).nonEmpty) ∧
      (consumeTaken d channel).map Taken.packet
        = (consumeIndices d channel).map (d.packetAt channel) := by
  obtain ⟨s, hs, hafter, htaken, hindices⟩ := h.first_loop
  by_cases hpos : s.1 > 0
  · obtain ⟨hmarked, hpackets⟩ := hs.take_marked h
    rw [if_pos hpos] at htaken hindices
    refine ⟨fun i hi => ?_, ?_, ?_⟩
    · rw [hafter, if_pos hpos, ← hs.entry i hi]
      obtain rfl | rfl : i = 0 ∨ i = 1 := by omega
      · exact hmarked.entry_zero
      · exact hmarked.entry_one
    · rw [hindices, takenIndices_eq, filter_one_zero, filter_one_zero, hs.eligible Nat.zero_lt_two,
        hs.eligible Nat.one_lt_two]
    · rw [htaken, hindices]
      exact hpackets
  · -- only empty packets, if any: there is no second loop
    have hnone := hs.count (by omega)
    rw [if_neg hpos] at htaken hindices
    refine ⟨fun i hi => ?_, ?_, ?_⟩
    · rw [hafter, if_neg hpos, hs.entry i hi, afterTake_of_not_eligible]
      rw [eligible_afterEmpty, hnone i hi, Bool.and_false]
    · rw [hindices, filter_one_zero, hnone 0 Nat.zero_lt_two, hnone 1 Nat.one_lt_two,
        Bool.and_false, Bool.and_false]
      rfl
    · rw [htaken, hindices]
      rfl

/-- With room for them all, what is taken is queued. -/
theorem InRange.packets_consume {d : ChifDrvdata} {channel : ℕ} (h : InRange d channel)
    (hc : channel < maxChannels)
    (hroom : d.chif24Queue.1.size + nonEmptyPackets d channel ≤ sharedMemChifQueueSize) :
    (consumePacket d channel).2.chif24Queue.1.packets
      = d.chif24Queue.1.packets ++ (consumeIndices d channel).map (d.packetAt channel) := by
  obtain ⟨-, hindices, hpackets⟩ := h.after_consume
  have hoffered : offered d channel = (consumeIndices d channel).map (d.sendEntry channel) := by
    rw [hindices]
    exact List.filter_map (f := d.sendEntry channel) (l := [1, 0])
  have hfits : ∀ e ∈ offered d channel, e.descLen ≤ sharedMemChifDescriptorSize := by
    intro e he
    rw [FifoEntry.descLen, sharedMemChifDescriptorSize]
    rcases List.mem_cons.mp (List.mem_filter.mp he).1 with rfl | he
    · have hq := h.qwords 1 Nat.one_lt_two
      rw [sendEntry] at hq
      omega
    · have hq := h.qwords 0 Nat.zero_lt_two
      rw [sendEntry] at hq
      rw [List.mem_singleton.mp he]
      omega
  -- what is offered is among the non-empty packets, for which there is room
  have hcount : (offered d channel).length ≤ nonEmptyPackets d channel := by
    have hone : ∀ i, (if ((d.sendEntry channel i).eligible &&
        (d.sendEntry channel i).nonEmpty) = true then [i] else []).length
          ≤ (d.sendEntry channel i).nonEmpty.toNat := by
      intro i
      split
      · next htake =>
        rw [Bool.and_eq_true] at htake
        rw [htake.2]
        exact Nat.le_refl 1
      · exact Nat.zero_le _
    have h0 := hone 0
    have h1 := hone 1
    rw [hoffered, List.length_map, hindices, filter_one_zero, List.length_append]
    exact (Nat.add_le_add h1 h0).trans_eq (Nat.add_comm _ _)
  have hall : enqueued d.chif24Queue (offered d channel) = offered d channel := by
    rw [enqueued, List.filter_eq_self.mpr (by simpa using hfits),
      List.take_of_length_le (by omega)]
  -- as many are accepted as are taken, so all are
  have haccepted : accepted (consumeTaken d channel) = consumeTaken d channel := by
    have hlen := accepted_consumeTaken_length d hc
    have htaken := congrArg List.length hpackets
    rw [List.length_map, List.length_map] at htaken
    rw [hall, hoffered, List.length_map, ← htaken, accepted] at hlen
    rw [accepted]
    exact List.filter_eq_self.mpr (List.length_filter_eq_length_iff.mp hlen)
  rw [packets_consumePacket, haccepted, hpackets]

/-- A pending entry that is empty or found is consumed. -/
theorem consumed_of_found {e : FifoEntry} (hpending : e.pending = true)
    (hfound : e.nonEmpty = true → e.eligible = true) :
    (afterTake (afterEmpty e)).consumed = true := by
  by_cases hq : e.qwords.val = 0
  · rw [afterEmpty, if_pos ⟨hpending, hq⟩, afterTake_of_not_eligible (not_eligible_of_consumed e)]
  · have hne : e.nonEmpty = true := by
      rw [FifoEntry.nonEmpty, hpending, Bool.true_and, decide_eq_true_iff]
      exact hq
    rw [afterEmpty_of_nonEmpty hne, afterTake_of_eligible (hfound hne)]

private theorem pending_of_found {e : FifoEntry} (hfound : e.nonEmpty = true → e.eligible = true) :
    (afterTake (afterEmpty e)).pending = false := by
  cases hpending : e.pending with
  | true => rw [FifoEntry.pending, consumed_of_found hpending hfound, Bool.not_true, Bool.and_false]
  | false =>
    have hnot : e.eligible = false := by rw [FifoEntry.eligible, hpending, Bool.false_and]
    have hempty : afterEmpty e = e := by
      rw [afterEmpty, if_neg]
      rintro ⟨htrue, -⟩
      rw [hpending] at htrue
      exact Bool.false_ne_true htrue
    rw [hempty, afterTake_of_not_eligible hnot, hpending]

/-- Of the non-empty entries those with sequence number 0 are found. -/
theorem eligible_iff_of_nonEmpty {e : FifoEntry} (hne : e.nonEmpty = true) :
    e.eligible = true ↔ e.sequenceNum = 0 := by
  rw [FifoEntry.nonEmpty, Bool.and_eq_true] at hne
  rw [FifoEntry.eligible, hne.1, Bool.true_and, decide_eq_true_iff]
  exact Fin.val_eq_zero_iff

section Drained

variable {d : ChifDrvdata} {channel : ℕ}

/-- An entry that is not found stays pending. -/
theorem InRange.sequenceNum_of_drains (h : InRange d channel) (hdrains : Drains d channel) {i : ℕ}
    (hi : i < sharedMemChifDescriptorNum) (hne : (d.sendEntry channel i).nonEmpty = true) :
    (d.sendEntry channel i).sequenceNum = 0 := by
  obtain ⟨hafter, -, -⟩ := h.after_consume
  refine (eligible_iff_of_nonEmpty hne).mp ?_
  by_contra hnot
  have hleft := hdrains.none_left i hi
  rw [hafter i hi, afterEmpty_of_nonEmpty hne,
    afterTake_of_not_eligible (Bool.eq_false_iff.mpr hnot)] at hleft
  rw [FifoEntry.nonEmpty, hleft] at hne
  exact absurd hne Bool.false_ne_true

/-- Of two entries that are found, entry 1 is taken first. -/
theorem InRange.one_before_zero (h : InRange d channel) (hdrains : Drains d channel)
    (h0 : (d.sendEntry channel 0).nonEmpty = true)
    (h1 : (d.sendEntry channel 1).nonEmpty = true) : Precedes d channel 1 0 := by
  obtain ⟨-, hindices, -⟩ := h.after_consume
  have he0 := (eligible_iff_of_nonEmpty h0).mpr (h.sequenceNum_of_drains hdrains Nat.zero_lt_two h0)
  have he1 := (eligible_iff_of_nonEmpty h1).mpr (h.sequenceNum_of_drains hdrains Nat.one_lt_two h1)
  have hsorted := hdrains.sorted
  rw [hindices, filter_one_zero, he0, he1, h0, h1] at hsorted
  exact List.rel_of_pairwise_cons hsorted (List.mem_singleton.mpr rfl)

theorem InRange.at_most_one_of_drains (h : InRange d channel) (hdrains : Drains d channel) :
    nonEmptyPackets d channel ≤ 1 := by
  by_contra hmany
  have hcount : nonEmptyPackets d channel = (d.sendEntry channel 0).nonEmpty.toNat
      + (d.sendEntry channel 1).nonEmpty.toNat := rfl
  have hle0 := Bool.toNat_le (d.sendEntry channel 0).nonEmpty
  have hle1 := Bool.toNat_le (d.sendEntry channel 1).nonEmpty
  have h0 : (d.sendEntry channel 0).nonEmpty = true := Bool.toNat_eq_one.mp (by omega)
  have h1 : (d.sendEntry channel 1).nonEmpty = true := Bool.toNat_eq_one.mp (by omega)
  have hfirst := h.one_before_zero hdrains h0 h1
  rw [Precedes, h.sequenceNum_of_drains hdrains Nat.zero_lt_two h0,
    h.sequenceNum_of_drains hdrains Nat.one_lt_two h1] at hfirst
  rcases hfirst with hlt | ⟨-, hlt⟩
  · exact absurd hlt (by decide)
  · exact absurd hlt (by decide)

/-- If every packet is found, all are taken, from the last entry to the first. -/
theorem InRange.consumeIndices_of_found (h : InRange d channel)
    (hfound : ∀ i < sharedMemChifDescriptorNum, (d.sendEntry channel i).nonEmpty = true →
      (d.sendEntry channel i).eligible = true) :
    consumeIndices d channel = [1, 0].filter fun i => (d.sendEntry channel i).nonEmpty := by
  obtain ⟨-, hindices, -⟩ := h.after_consume
  have hsame : ∀ i < sharedMemChifDescriptorNum,
      ((d.sendEntry channel i).eligible && (d.sendEntry channel i).nonEmpty)
        = (d.sendEntry channel i).nonEmpty := by
    intro i hi
    cases hne : (d.sendEntry channel i).nonEmpty with
    | true => rw [hfound i hi hne, Bool.and_true]
    | false => rw [Bool.and_false]
  rw [hindices, filter_one_zero, filter_one_zero, hsame 0 Nat.zero_lt_two,
    hsame 1 Nat.one_lt_two]

/-- One packet is in order. -/
theorem sorted_of_at_most_one (hfew : nonEmptyPackets d channel ≤ 1) :
    ([1, 0].filter fun i => (d.sendEntry channel i).nonEmpty).Pairwise (Precedes d channel) := by
  have hcount : nonEmptyPackets d channel = (d.sendEntry channel 0).nonEmpty.toNat
      + (d.sendEntry channel 1).nonEmpty.toNat := rfl
  rw [hcount] at hfew
  rw [filter_one_zero]
  cases h0 : (d.sendEntry channel 0).nonEmpty with
  | false => cases h1 : (d.sendEntry channel 1).nonEmpty <;> simp
  | true =>
    cases h1 : (d.sendEntry channel 1).nonEmpty with
    | false => simp
    | true =>
      rw [h0, h1] at hfew
      exact absurd hfew (by decide)

end Drained

/-- **A doorbell drains the FIFO in sequence order iff it finds at most one
packet, with sequence number 0.** -/
theorem drains_iff {d : ChifDrvdata} {channel : ℕ} (hc : channel < maxChannels)
    (h : InRange d channel)
    (hroom : d.chif24Queue.1.size + nonEmptyPackets d channel ≤ sharedMemChifQueueSize) :
    Drains d channel ↔
      (∀ i < sharedMemChifDescriptorNum, (d.sendEntry channel i).nonEmpty = true →
        (d.sendEntry channel i).sequenceNum = 0) ∧ nonEmptyPackets d channel ≤ 1 := by
  constructor
  · intro hdrains
    exact ⟨fun i hi hne => h.sequenceNum_of_drains hdrains hi hne, h.at_most_one_of_drains hdrains⟩
  · rintro ⟨hseq, hfew⟩
    obtain ⟨hafter, -, -⟩ := h.after_consume
    -- a packet with sequence number 0 is found by the second loop
    have hfound : ∀ i < sharedMemChifDescriptorNum, (d.sendEntry channel i).nonEmpty = true →
        (d.sendEntry channel i).eligible = true :=
      fun i hi hne => (eligible_iff_of_nonEmpty hne).mpr (hseq i hi hne)
    have htaken := h.consumeIndices_of_found hfound
    refine ⟨?_, ?_, ?_, ?_, h.packets_consume hc hroom⟩
    · intro i hi
      rw [hafter i hi]
      exact pending_of_found (hfound i hi)
    · intro i hi hpending hq
      refine ⟨?_, fun hmem => ?_⟩
      · rw [hafter i hi]
        exact consumed_of_found hpending (hfound i hi)
      · rw [htaken] at hmem
        have hne := (List.mem_filter.mp hmem).2
        rw [FifoEntry.nonEmpty, hq, Bool.and_eq_true] at hne
        exact absurd hne.2 (by decide)
    · rw [htaken, range_descriptorNum]
      exact (List.Perm.swap 0 1 []).filter _
    · rw [htaken]
      exact sorted_of_at_most_one hfew

/-- A driver with an empty queue and a host that posts one 8-byte packet on channel
24, its FIFO at offset 4096 and its descriptors at 8192. -/
def onePacket (sequenceNum : UInt8) : ChifDrvdata where
  touched := []
  shmem := fun x =>
    if x = ccbSize * channelSharemem + ccbSqFifo + 1 then 0x10
    else if x = ccbSize * channelSharemem + ccbSqDesc + 1 then 0x20
    else if x = ccbSize * channelSharemem + ccbSqCtrl + 3 then 0x80
    else if x = 0x1000 then 1
    else if x = 0x1002 then 0x80
    else if x = 0x1003 then sequenceNum
    else 0
  chif24Queue := .init
  waiting := fun _ => false
  woken := []
  outdoor := []

/-- A packet with sequence number 1 stays where it is. -/
theorem not_drains_onePacket : ¬Drains (onePacket 1) channelSharemem := by
  intro h
  have hleft : ((onePacket 1).entryAfter channelSharemem 0).pending = true := by decide +kernel
  rw [h.none_left 0 Nat.zero_lt_two] at hleft
  exact Bool.false_ne_true hleft

/-- One with sequence number 0 is queued. -/
theorem drains_onePacket : Drains (onePacket 0) channelSharemem :=
  (drains_iff (by decide) ⟨by decide +kernel, by decide +kernel, by decide +kernel⟩
    (by decide +kernel)).mpr (by decide +kernel)

end Chif
