/-
What `consume_packet` does, whatever the shared memory holds.

The two FIFO entries decide everything: `Served` describes the effect of
taking a list of entries (which descriptors are copied, how the queue grows),
and `consumePacket_spec` gives that list for one call.

* `getOccupiedEntry_eq` — entry 1 is preferred, sequence numbers other than 0
  are never picked;
* `takeLoop_served`, `takeLoop_rounds` — the second loop takes every eligible entry
  and ends by itself, before its bound;
* `consumePacket_spec` — return value, queue and accesses of one call.
-/
import Canopy.ChifDriver

namespace Chif

open Bytes WrapMem ChifDrvdata

/-! ### Accesses inside the window -/

/-- Every byte of a block of shared memory lies in the 1 MiB window. -/
def InWindow (r : ℕ × ℕ) : Prop := ∀ i < r.2, (r.1 + i) % addressSpace < sharedMemSize

instance : DecidablePred InWindow := fun r => by
  unfold InWindow
  infer_instance

theorem inWindow_iff {a len : ℕ} (hpos : 0 < len) (hlen : len ≤ 8192) :
    InWindow (a, len) ↔ a % addressSpace + len ≤ sharedMemSize :=
  forall_addr_lt_iff hpos (by rw [sharedMemSize, addressSpace]; omega)

theorem inWindow_ccb {channel field : ℕ} (hc : channel < maxChannels) (hf : field + 8 ≤ ccbSize) :
    InWindow (ccbSize * channel + field, 8) := by
  rw [maxChannels] at hc
  rw [ccbSize] at hf ⊢
  rw [inWindow_iff (by decide) (by decide), addressSpace, sharedMemSize]
  omega

/-- All accesses so far stayed inside. -/
def ChifDrvdata.Inside (d : ChifDrvdata) : Prop := ∀ r ∈ d.touched, InWindow r

@[simp] theorem inside_touch (d : ChifDrvdata) (a len : ℕ) :
    (d.touch a len).Inside ↔ d.Inside ∧ InWindow (a, len) := by
  simp [Inside, touch, or_imp, forall_and]

/-- Only the log matters. -/
theorem inside_congr {d d' : ChifDrvdata} (h : d'.touched = d.touched) : d'.Inside ↔ d.Inside := by
  rw [Inside, Inside, h]

@[simp] theorem inside_getFifo (d : ChifDrvdata) (a : ℕ) :
    (d.getFifo a).2.Inside ↔ d.Inside ∧ InWindow (a, 4) := by
  rw [getFifo, inside_touch]

@[simp] theorem inside_setFifo (d : ChifDrvdata) (a : ℕ) (e : FifoEntry) :
    (d.setFifo a e).Inside ↔ d.Inside ∧ InWindow (a, 4) := by
  rw [← inside_touch]
  exact inside_congr rfl

@[simp] theorem inside_setConsumed (d : ChifDrvdata) (a : ℕ) :
    (d.setConsumed a).Inside ↔ d.Inside ∧ InWindow (a, 4) := by
  rw [setConsumed, inside_setFifo]

@[simp] theorem inside_getCcb (d : ChifDrvdata) (channel field : ℕ) :
    (d.getCcb channel field).2.Inside ↔ d.Inside ∧ InWindow (ccbSize * channel + field, 8) := by
  rw [getCcb, inside_touch]

@[simp] theorem inside_setCcb (d : ChifDrvdata) (channel field value : ℕ) :
    (d.setCcb channel field value).Inside ↔
      d.Inside ∧ InWindow (ccbSize * channel + field, 8) := by
  rw [← inside_touch]
  exact inside_congr rfl

/-! ### The two FIFO entries -/

/-- Entry `i` of the FIFO at address `fifo`. -/
def ChifDrvdata.entry (d : ChifDrvdata) (fifo i : ℕ) : FifoEntry :=
  fifoEntry d.shmem (fifoAddr fifo i)

private theorem entry_setConsumed_self (d : ChifDrvdata) (fifo i : ℕ) :
    (d.setConsumed (fifoAddr fifo i)).entry fifo i
      = { d.entry fifo i with consumed := true } :=
  fifoEntry_set_self _ _ _

private theorem entry_setConsumed_zero (d : ChifDrvdata) (fifo : ℕ) :
    (d.setConsumed (fifoAddr fifo 0)).entry fifo 1 = d.entry fifo 1 :=
  fifoEntry_set_zero _ _ _

private theorem entry_setConsumed_one (d : ChifDrvdata) (fifo : ℕ) :
    (d.setConsumed (fifoAddr fifo 1)).entry fifo 0 = d.entry fifo 0 :=
  fifoEntry_set_one _ _ _

private theorem compareSeq_zero_le (a : ℕ) : compareSeq a 0 ≤ 0 ↔ a = 0 := by
  rw [compareSeq]
  split
  · next h => exact ⟨fun h1 => absurd h1 (by decide), fun h0 => by omega⟩
  · next h =>
    constructor
    · intro _
      omega
    · intro h0
      simp [h0]

/-- Both entries are looked at; an eligible entry 1 wins over entry 0. -/
theorem getOccupiedEntry_eq (fifo : ℕ) (d : ChifDrvdata) :
    getOccupiedEntry fifo d =
      (if (d.entry fifo 1).eligible then some 1
        else if (d.entry fifo 0).eligible then some 0 else none,
        (d.touch (fifoAddr fifo 0) 4).touch (fifoAddr fifo 1) 4) := by
  have helig : ∀ i, (d.entry fifo i).eligible = true ↔
      (d.entry fifo i).pending = true ∧ (d.entry fifo i).sequenceNum.val = 0 := by
    intro i
    simp [FifoEntry.eligible]
  -- the running sequence number stays 0, so each round tests for exactly 0
  have hstep : ∀ (d' : ChifDrvdata) (idx : Option ℕ) (i : ℕ), d'.shmem = d.shmem →
      occupiedStep fifo ((idx, 0), d') i =
        (if (d.entry fifo i).eligible then (some i, 0) else (idx, 0),
          d'.touch (fifoAddr fifo i) 4) := by
    intro d' idx i hd'
    have he : d'.entry fifo i = d.entry fifo i := by rw [entry, hd', entry]
    show (if (d'.entry fifo i).pending = true ∧ compareSeq (d'.entry fifo i).sequenceNum 0 ≤ 0
      then ((some i, (d'.entry fifo i).sequenceNum.val), d'.touch (fifoAddr fifo i) 4)
      else ((idx, 0), d'.touch (fifoAddr fifo i) 4)) = _
    rw [he]
    by_cases h : (d.entry fifo i).eligible = true
    · obtain ⟨hpending, hseq⟩ := (helig i).mp h
      rw [if_pos ⟨hpending, (compareSeq_zero_le _).mpr hseq⟩, if_pos h, hseq]
    · rw [if_neg h, if_neg]
      rintro ⟨hpending, hseq⟩
      exact h ((helig i).mpr ⟨hpending, (compareSeq_zero_le _).mp hseq⟩)
  rw [getOccupiedEntry, range_descriptorNum]
  simp only [List.foldl_cons, List.foldl_nil]
  have hfirst := hstep d none 0 rfl
  by_cases h0 : (d.entry fifo 0).eligible = true
  · rw [if_pos h0] at hfirst ⊢
    rw [hfirst, hstep (d.touch (fifoAddr fifo 0) 4) (some 0) 1 rfl]
    split <;> rfl
  · rw [if_neg h0] at hfirst ⊢
    rw [hfirst, hstep (d.touch (fifoAddr fifo 0) 4) none 1 rfl]
    split <;> rfl

/-! ### Taking entries -/

/-- `q'` comes from `q` by pushes. -/
inductive PushedFrom (q : PacketQueue) : PacketQueue → Prop where
  | refl : PushedFrom q q
  | push {q' : PacketQueue} (h : PushedFrom q q') (pkt : ℕ → UInt8) (len : ℕ) :
      PushedFrom q (q'.push pkt len).2

theorem PushedFrom.trans {q q' q'' : PacketQueue} (h : PushedFrom q q') (h' : PushedFrom q' q'') :
    PushedFrom q q'' := by
  induction h' with
  | refl => exact h
  | push _ pkt len ih => exact ih.push pkt len

/-- Of the entries `es`, those whose descriptor is copied into the queue: the
packet fits a slot and a slot is free. -/
def enqueued (q : PacketQueue) (es : List FifoEntry) : List FifoEntry :=
  (es.filter fun e => e.descLen ≤ sharedMemChifDescriptorSize).take
    (sharedMemChifQueueSize - q.1.size)

private theorem enqueued_append {q q' : PacketQueue} {es es' : List FifoEntry}
    (h : q'.1.size = q.1.size + (enqueued q es).length) :
    enqueued q (es ++ es') = enqueued q es ++ enqueued q' es' := by
  have hfree : sharedMemChifQueueSize - q'.1.size
      = sharedMemChifQueueSize - q.1.size
        - (es.filter fun e => e.descLen ≤ sharedMemChifDescriptorSize).length := by
    rw [h, enqueued, List.length_take]
    omega
  rw [enqueued, List.filter_append, List.take_append, enqueued, enqueued, hfree]

/-- The effect of taking the entries `es` of the FIFO at `fifo`. -/
structure Served (fifo desc : ℕ) (es : List FifoEntry) (d d' : ChifDrvdata) : Prop where
  inside : InWindow (fifoAddr fifo 0, 4) → InWindow (fifoAddr fifo 1, 4) →
    (d'.Inside ↔ d.Inside ∧ ∀ e ∈ enqueued d.chif24Queue es,
      InWindow (descAddr desc e.descriptorNum, e.descLen))
  size : d'.chif24Queue.1.size = d.chif24Queue.1.size + (enqueued d.chif24Queue es).length
  pushed : PushedFrom d.chif24Queue d'.chif24Queue
  /-- the log only grows -/
  log : d'.Inside → d.Inside
  waiting : d'.waiting = d.waiting
  woken : d'.woken = d.woken

theorem Served.trans {fifo desc : ℕ} {es es' : List FifoEntry} {d d' d'' : ChifDrvdata}
    (h : Served fifo desc es d d') (h' : Served fifo desc es' d' d'') :
    Served fifo desc (es ++ es') d d'' where
  inside := by
    intro h0 h1
    rw [h'.inside h0 h1, h.inside h0 h1, enqueued_append h.size, List.forall_mem_append, and_assoc]
  size := by
    rw [h'.size, h.size, enqueued_append h.size, List.length_append, Nat.add_assoc]
  pushed := h.pushed.trans h'.pushed
  log := fun hin => h.log (h'.log hin)
  waiting := h'.waiting.trans h.waiting
  woken := h'.woken.trans h.woken

/-- A round of `get_occupied_entry` takes nothing. -/
theorem served_nil {fifo desc : ℕ} {d d' : ChifDrvdata} (hqueue : d'.chif24Queue = d.chif24Queue)
    (hwaiting : d'.waiting = d.waiting) (hwoken : d'.woken = d.woken)
    (hlog : d'.Inside → d.Inside)
    (hinside : InWindow (fifoAddr fifo 0, 4) → InWindow (fifoAddr fifo 1, 4) →
      d.Inside → d'.Inside) :
    Served fifo desc [] d d' where
  inside := by
    intro h0 h1
    rw [enqueued, List.filter_nil, List.take_nil]
    simpa using ⟨hlog, hinside h0 h1⟩
  size := by simp [hqueue, enqueued]
  pushed := by
    rw [hqueue]
    exact .refl
  log := hlog
  waiting := hwaiting
  woken := hwoken

theorem served_scan (fifo desc : ℕ) (d : ChifDrvdata) :
    Served fifo desc [] d (getOccupiedEntry fifo d).2 := by
  rw [getOccupiedEntry_eq]
  refine served_nil rfl rfl rfl ?_ ?_
  · intro hin
    rw [inside_touch, inside_touch] at hin
    obtain ⟨⟨hd, -⟩, -⟩ := hin
    exact hd
  · intro h0 h1 hin
    rw [inside_touch, inside_touch]
    exact ⟨⟨hin, h0⟩, h1⟩

theorem accepts_iff (q : PacketQueue) (len : ℕ) :
    q.1.Accepts len ↔ q.1.size < sharedMemChifQueueSize ∧ len ≤ sharedMemChifDescriptorSize := by
  rw [ChifQueue.Accepts, q.2.maxSize_eq, q.2.maxPktLen_eq]

/-- A single entry is enqueued when it fits and a slot is free. -/
theorem enqueued_singleton (q : PacketQueue) (e : FifoEntry) :
    enqueued q [e] = if q.1.Accepts e.descLen then [e] else [] := by
  have hacc := accepts_iff q e.descLen
  rw [enqueued]
  by_cases hfit : e.descLen ≤ sharedMemChifDescriptorSize
  · rw [List.filter_cons_of_pos (by simpa using hfit), List.filter_nil]
    by_cases hroom : q.1.size < sharedMemChifQueueSize
    · rw [if_pos (hacc.mpr ⟨hroom, hfit⟩),
        List.take_of_length_le (by rw [List.length_singleton]; omega)]
    · rw [if_neg (fun h => hroom (hacc.mp h).1), Nat.sub_eq_zero_of_le (Nat.le_of_not_lt hroom),
        List.take_zero]
  · rw [if_neg (fun h => hfit (hacc.mp h).2), List.filter_cons_of_neg (by simpa using hfit),
      List.filter_nil, List.take_nil]

private theorem inside_pushDesc (d : ChifDrvdata) (a len : ℕ) :
    (pushDesc d a len).Inside ↔
      d.Inside ∧ (d.chif24Queue.1.Accepts len → InWindow (a, len)) := by
  have hrc : (d.chif24Queue.push (fun i => d.shmem ((a + i) % addressSpace)) len).1 = 0 ↔
      d.chif24Queue.1.Accepts len := ChifQueue.push_rc d.chif24Queue.2 _ len
  by_cases hacc : d.chif24Queue.1.Accepts len
  · have htouched : (pushDesc d a len).touched = (d.touch a len).touched := by
      show (if _ = (0 : ℤ) then d.touch a len else d).touched = _
      rw [if_pos (hrc.mpr hacc)]
    rw [inside_congr htouched, inside_touch, imp_iff_right hacc]
  · have htouched : (pushDesc d a len).touched = d.touched := by
      show (if _ = (0 : ℤ) then d.touch a len else d).touched = _
      rw [if_neg (fun h0 => hacc (hrc.mp h0))]
    rw [inside_congr htouched]
    simp [hacc]

theorem pushDesc_frame (d : ChifDrvdata) (a len : ℕ) :
    (pushDesc d a len).shmem = d.shmem ∧ (pushDesc d a len).waiting = d.waiting ∧
      (pushDesc d a len).woken = d.woken := by
  refine ⟨?_, ?_, ?_⟩
  · show (if _ = (0 : ℤ) then d.touch a len else d).shmem = _
    split <;> rfl
  · show (if _ = (0 : ℤ) then d.touch a len else d).waiting = _
    split <;> rfl
  · show (if _ = (0 : ℤ) then d.touch a len else d).woken = _
    split <;> rfl

/-- Taking one entry. -/
theorem served_take (fifo desc : ℕ) (d : ChifDrvdata) {i : ℕ} (hi : i = 0 ∨ i = 1) :
    Served fifo desc [d.entry fifo i] d (takeEntry fifo desc d i) := by
  obtain ⟨-, hwaiting, hwoken⟩ := pushDesc_frame (d.touch (fifoAddr fifo i) 4)
    (descAddr desc (d.entry fifo i).descriptorNum) (d.entry fifo i).descLen
  refine ⟨?_, ?_, ?_, ?_, hwaiting, hwoken⟩
  · intro h0 h1
    -- the packet is read only if the queue accepts it
    have hword : InWindow (fifoAddr fifo i, 4) := by
      rcases hi with rfl | rfl
      · exact h0
      · exact h1
    show (ChifDrvdata.setConsumed (pushDesc (d.touch (fifoAddr fifo i) 4) _ _) _).Inside ↔ _
    rw [inside_setConsumed, inside_pushDesc, inside_touch, enqueued_singleton]
    show ((d.Inside ∧ _) ∧ (d.chif24Queue.1.Accepts (d.entry fifo i).descLen →
      InWindow (descAddr desc (d.entry fifo i).descriptorNum, (d.entry fifo i).descLen))) ∧ _ ↔ _
    split
    · next hacc => simp [hword, hacc]
    · next hacc => simp [hword, hacc]
  · show (d.chif24Queue.push _ (d.entry fifo i).descLen).2.1.size = _
    rw [enqueued_singleton]
    show (chifQueuePush d.chif24Queue.1 _ _).2.size = _
    rw [ChifQueue.push_size d.chif24Queue.2]
    split <;> rfl
  · exact PushedFrom.refl.push _ _
  · intro hin
    have hin' : (ChifDrvdata.setConsumed (pushDesc (d.touch (fifoAddr fifo i) 4) _ _) _).Inside :=
      hin
    rw [inside_setConsumed, inside_pushDesc, inside_touch] at hin'
    obtain ⟨⟨⟨hd, -⟩, -⟩, -⟩ := hin'
    exact hd

theorem entry_congr {d d' : ChifDrvdata} (h : d'.shmem = d.shmem) (fifo i : ℕ) :
    d'.entry fifo i = d.entry fifo i := by
  rw [entry, h, entry]

/-- The driver just before a taken entry is marked consumed. -/
def pushedEntry (fifo desc : ℕ) (d : ChifDrvdata) (i : ℕ) : ChifDrvdata :=
  pushDesc (d.touch (fifoAddr fifo i) 4) (descAddr desc (d.entry fifo i).descriptorNum)
    (d.entry fifo i).descLen

theorem takeEntry_eq (fifo desc : ℕ) (d : ChifDrvdata) (i : ℕ) :
    takeEntry fifo desc d i = (pushedEntry fifo desc d i).setConsumed (fifoAddr fifo i) := rfl

theorem entry_pushedEntry (fifo desc : ℕ) (d : ChifDrvdata) (i j : ℕ) :
    (pushedEntry fifo desc d i).entry fifo j = d.entry fifo j :=
  entry_congr (pushDesc_frame _ _ _).1 fifo j

/-- The entry is consumed and the other one untouched. -/
theorem entry_take_zero (fifo desc : ℕ) (d : ChifDrvdata) :
    (takeEntry fifo desc d 0).entry fifo 0 = { d.entry fifo 0 with consumed := true } ∧
      (takeEntry fifo desc d 0).entry fifo 1 = d.entry fifo 1 := by
  rw [takeEntry_eq, entry_setConsumed_self, entry_setConsumed_zero, entry_pushedEntry,
    entry_pushedEntry]
  exact ⟨rfl, rfl⟩

theorem entry_take_one (fifo desc : ℕ) (d : ChifDrvdata) :
    (takeEntry fifo desc d 1).entry fifo 1 = { d.entry fifo 1 with consumed := true } ∧
      (takeEntry fifo desc d 1).entry fifo 0 = d.entry fifo 0 := by
  rw [takeEntry_eq, entry_setConsumed_self, entry_setConsumed_one, entry_pushedEntry,
    entry_pushedEntry]
  exact ⟨rfl, rfl⟩

theorem not_eligible_of_consumed (e : FifoEntry) :
    ({ e with consumed := true } : FifoEntry).eligible = false := by
  simp [FifoEntry.eligible, FifoEntry.pending]

/-! ### The second loop -/

theorem takeLoop_none {fifo desc n : ℕ} {d : ChifDrvdata} (h0 : (d.entry fifo 0).eligible = false)
    (h1 : (d.entry fifo 1).eligible = false) :
    takeLoop fifo desc (n + 1) d = (getOccupiedEntry fifo d).2 := by
  rw [takeLoop, getOccupiedEntry_eq, h0, h1]
  rfl

theorem takeLoop_one {fifo desc n : ℕ} {d : ChifDrvdata} (h1 : (d.entry fifo 1).eligible = true) :
    takeLoop fifo desc (n + 1) d
      = takeLoop fifo desc n (takeEntry fifo desc (getOccupiedEntry fifo d).2 1) := by
  rw [takeLoop, getOccupiedEntry_eq, h1]
  rfl

theorem takeLoop_zero {fifo desc n : ℕ} {d : ChifDrvdata} (h0 : (d.entry fifo 0).eligible = true)
    (h1 : (d.entry fifo 1).eligible = false) :
    takeLoop fifo desc (n + 1) d
      = takeLoop fifo desc n (takeEntry fifo desc (getOccupiedEntry fifo d).2 0) := by
  rw [takeLoop, getOccupiedEntry_eq, h0, h1]
  rfl

/-- The scan changes no entry. -/
theorem entry_scan (fifo : ℕ) (d : ChifDrvdata) (i : ℕ) :
    (getOccupiedEntry fifo d).2.entry fifo i = d.entry fifo i := by
  rw [getOccupiedEntry_eq]
  rfl

/-- No entry is left for a further round. -/
def Drained (fifo : ℕ) (d : ChifDrvdata) : Prop :=
  (d.entry fifo 0).eligible = false ∧ (d.entry fifo 1).eligible = false

/-- With at most entry 0 left, two rounds are enough. -/
theorem takeLoop_entry_zero (fifo desc : ℕ) {n : ℕ} {d : ChifDrvdata}
    (h1 : (d.entry fifo 1).eligible = false) :
    Served fifo desc ([d.entry fifo 0].filter FifoEntry.eligible) d
        (takeLoop fifo desc (n + 2) d) ∧ Drained fifo (takeLoop fifo desc (n + 2) d) := by
  cases h0 : (d.entry fifo 0).eligible with
  | false =>
    rw [List.filter_cons_of_neg (by simp [h0]), List.filter_nil, takeLoop_none h0 h1, Drained,
      entry_scan, entry_scan]
    exact ⟨served_scan fifo desc d, h0, h1⟩
  | true =>
    rw [List.filter_cons_of_pos h0, List.filter_nil, takeLoop_zero h0 h1]
    have hscan := served_scan fifo desc d
    have htake := served_take fifo desc (getOccupiedEntry fifo d).2 (i := 0) (Or.inl rfl)
    obtain ⟨he0, he1⟩ := entry_take_zero fifo desc (getOccupiedEntry fifo d).2
    rw [entry_scan] at htake
    generalize takeEntry fifo desc (getOccupiedEntry fifo d).2 0 = d' at htake he0 he1
    -- after the round neither entry is eligible, so the next one ends the loop
    have hd0 : (d'.entry fifo 0).eligible = false := by
      rw [he0, not_eligible_of_consumed]
    have hd1 : (d'.entry fifo 1).eligible = false := by
      rw [he1, entry_scan, h1]
    rw [takeLoop_none hd0 hd1, Drained, entry_scan, entry_scan]
    have hlast := served_scan fifo desc d'
    have htotal := (hscan.trans htake).trans hlast
    exact ⟨htotal, hd0, hd1⟩

/-- **Three rounds take every eligible entry**, entry 1 before entry 0. -/
theorem takeLoop_served (fifo desc : ℕ) (n : ℕ) (d : ChifDrvdata) :
    Served fifo desc ([d.entry fifo 1, d.entry fifo 0].filter FifoEntry.eligible) d
        (takeLoop fifo desc (takeRounds + n) d) ∧
      Drained fifo (takeLoop fifo desc (takeRounds + n) d) := by
  have hrounds : takeRounds + n = n + 1 + 2 := by
    rw [takeRounds, sharedMemChifDescriptorNum]
    omega
  rw [hrounds]
  cases h1 : (d.entry fifo 1).eligible with
  | false =>
    rw [List.filter_cons_of_neg (by simp [h1])]
    exact takeLoop_entry_zero fifo desc h1
  | true =>
    rw [List.filter_cons_of_pos h1, takeLoop_one h1]
    have hscan := served_scan fifo desc d
    have htake := served_take fifo desc (getOccupiedEntry fifo d).2 (i := 1) (Or.inr rfl)
    obtain ⟨he1, he0⟩ := entry_take_one fifo desc (getOccupiedEntry fifo d).2
    rw [entry_scan] at htake he0
    generalize takeEntry fifo desc (getOccupiedEntry fifo d).2 1 = d' at htake he0 he1
    have hd1 : (d'.entry fifo 1).eligible = false := by
      rw [he1, not_eligible_of_consumed]
    -- entry 1 is consumed now; entry 0 is as it was
    obtain ⟨hrest, hdone⟩ := takeLoop_entry_zero fifo desc (n := n) hd1
    rw [he0] at hrest
    exact ⟨(hscan.trans htake).trans hrest, hdone⟩

private theorem takeLoop_entry_zero_rounds (fifo desc n : ℕ) {d : ChifDrvdata}
    (h1 : (d.entry fifo 1).eligible = false) :
    takeLoop fifo desc (n + 2) d = takeLoop fifo desc 2 d := by
  cases h0 : (d.entry fifo 0).eligible with
  | false => rw [takeLoop_none h0 h1, takeLoop_none h0 h1]
  | true =>
    rw [takeLoop_zero h0 h1, takeLoop_zero h0 h1]
    obtain ⟨he0, he1⟩ := entry_take_zero fifo desc (getOccupiedEntry fifo d).2
    generalize takeEntry fifo desc (getOccupiedEntry fifo d).2 0 = d' at he0 he1
    have hd0 : (d'.entry fifo 0).eligible = false := by
      rw [he0, not_eligible_of_consumed]
    have hd1 : (d'.entry fifo 1).eligible = false := by
      rw [he1, entry_scan, h1]
    rw [takeLoop_none hd0 hd1, takeLoop_none hd0 hd1]

/-- More rounds change nothing: the loop has ended. -/
theorem takeLoop_rounds (fifo desc n : ℕ) (d : ChifDrvdata) :
    takeLoop fifo desc (takeRounds + n) d = takeLoop fifo desc takeRounds d := by
  have hrounds : takeRounds + n = n + 1 + 2 := by
    rw [takeRounds, sharedMemChifDescriptorNum]
    omega
  have hthree : takeRounds = 2 + 1 := rfl
  cases h1 : (d.entry fifo 1).eligible with
  | false => rw [hrounds, hthree, takeLoop_entry_zero_rounds fifo desc (n + 1) h1,
      takeLoop_entry_zero_rounds fifo desc 1 h1]
  | true =>
    have hsucc : n + 1 + 2 = n + 2 + 1 := by omega
    rw [hrounds, hsucc, hthree, takeLoop_one h1, takeLoop_one h1]
    obtain ⟨he1, -⟩ := entry_take_one fifo desc (getOccupiedEntry fifo d).2
    generalize takeEntry fifo desc (getOccupiedEntry fifo d).2 1 = d' at he1
    have hd1 : (d'.entry fifo 1).eligible = false := by
      rw [he1, not_eligible_of_consumed]
    exact takeLoop_entry_zero_rounds fifo desc n hd1

/-! ### The first loop -/

/-- An empty packet is consumed on the spot. -/
def afterEmpty (e : FifoEntry) : FifoEntry :=
  if e.pending = true ∧ e.qwords.val = 0 then { e with consumed := true } else e

theorem afterEmpty_of_nonEmpty {e : FifoEntry} (h : e.nonEmpty = true) : afterEmpty e = e := by
  rw [afterEmpty, if_neg]
  rintro ⟨-, hq⟩
  simp [FifoEntry.nonEmpty, hq] at h

theorem eligible_afterEmpty (e : FifoEntry) :
    (afterEmpty e).eligible = (e.eligible && e.nonEmpty) := by
  rw [afterEmpty]
  split
  · next h => simp [FifoEntry.eligible, FifoEntry.nonEmpty, FifoEntry.pending, h.2]
  · next h =>
    cases hp : e.pending with
    | false => simp [FifoEntry.eligible, FifoEntry.nonEmpty, hp]
    | true =>
      have hq : e.qwords.val ≠ 0 := fun h0 => h ⟨hp, h0⟩
      simp [FifoEntry.eligible, FifoEntry.nonEmpty, hp, hq]

/-- One round: entry `i` is looked at, counted or consumed. -/
theorem emptyStep_spec (fifo : ℕ) (n : ℕ) (d : ChifDrvdata) {i j : ℕ}
    (hij : i = 0 ∧ j = 1 ∨ i = 1 ∧ j = 0) :
    (emptyStep fifo (n, d) i).1 = n + (d.entry fifo i).nonEmpty.toNat ∧
      ((emptyStep fifo (n, d) i).2.Inside ↔ d.Inside ∧ InWindow (fifoAddr fifo i, 4)) ∧
      (emptyStep fifo (n, d) i).2.entry fifo i = afterEmpty (d.entry fifo i) ∧
      (emptyStep fifo (n, d) i).2.entry fifo j = d.entry fifo j ∧
      (emptyStep fifo (n, d) i).2.chif24Queue = d.chif24Queue ∧
      (emptyStep fifo (n, d) i).2.waiting = d.waiting ∧
      (emptyStep fifo (n, d) i).2.woken = d.woken := by
  -- marking one entry leaves the other alone
  have hother : ((d.touch (fifoAddr fifo i) 4).setConsumed (fifoAddr fifo i)).entry fifo j
      = d.entry fifo j := by
    rcases hij with ⟨rfl, rfl⟩ | ⟨rfl, rfl⟩
    · exact entry_setConsumed_zero _ fifo
    · exact entry_setConsumed_one _ fifo
  have heq : emptyStep fifo (n, d) i =
      if (d.entry fifo i).pending then
        if (d.entry fifo i).qwords.val = 0 then
          (n, (d.touch (fifoAddr fifo i) 4).setConsumed (fifoAddr fifo i))
        else (n + 1, d.touch (fifoAddr fifo i) 4)
      else (n, d.touch (fifoAddr fifo i) 4) := rfl
  rw [heq, afterEmpty]
  by_cases hp : (d.entry fifo i).pending = true
  · by_cases hq : (d.entry fifo i).qwords.val = 0
    · rw [if_pos hp, if_pos hq, if_pos ⟨hp, hq⟩]
      refine ⟨by simp [FifoEntry.nonEmpty, hq], by simp, ?_, hother, rfl, rfl, rfl⟩
      exact entry_setConsumed_self _ fifo i
    · rw [if_pos hp, if_neg hq, if_neg (fun h => hq h.2)]
      exact ⟨by simp [FifoEntry.nonEmpty, hp, hq], inside_touch _ _ _, rfl, rfl, rfl, rfl, rfl⟩
  · rw [if_neg hp, if_neg (fun h => hp h.1)]
    exact ⟨by simp [FifoEntry.nonEmpty, hp], inside_touch _ _ _, rfl, rfl, rfl, rfl, rfl⟩

/-- The first loop counts the non-empty packets and consumes the empty ones. -/
structure Scanned (fifo : ℕ) (d : ChifDrvdata) (r : ℕ × ChifDrvdata) : Prop where
  count : r.1 = (d.entry fifo 0).nonEmpty.toNat + (d.entry fifo 1).nonEmpty.toNat
  inside : r.2.Inside ↔
    d.Inside ∧ (InWindow (fifoAddr fifo 0, 4) ∧ InWindow (fifoAddr fifo 1, 4))
  entry_zero : r.2.entry fifo 0 = afterEmpty (d.entry fifo 0)
  entry_one : r.2.entry fifo 1 = afterEmpty (d.entry fifo 1)
  queue : r.2.chif24Queue = d.chif24Queue
  waiting : r.2.waiting = d.waiting
  woken : r.2.woken = d.woken

private theorem emptyLoop_scanned (fifo : ℕ) (d : ChifDrvdata) :
    Scanned fifo d ((List.range sharedMemChifDescriptorNum).foldl (emptyStep fifo) (0, d)) := by
  obtain ⟨hn0, hin0, he0, ho0, hq0, hw0, hk0⟩ :=
    emptyStep_spec fifo 0 d (i := 0) (j := 1) (Or.inl ⟨rfl, rfl⟩)
  generalize hs : emptyStep fifo (0, d) 0 = s at hn0 hin0 he0 ho0 hq0 hw0 hk0
  obtain ⟨hn1, hin1, he1, ho1, hq1, hw1, hk1⟩ :=
    emptyStep_spec fifo s.1 s.2 (i := 1) (j := 0) (Or.inr ⟨rfl, rfl⟩)
  rw [range_descriptorNum, List.foldl_cons, List.foldl_cons, List.foldl_nil, hs]
  refine ⟨?_, ?_, ?_, ?_, ?_, ?_, ?_⟩
  · rw [hn1, hn0, ho0, Nat.zero_add]
  · rw [hin1, hin0, and_assoc]
  · rw [ho1, he0]
  · rw [he1, ho0]
  · rw [hq1, hq0]
  · rw [hw1, hw0]
  · rw [hk1, hk0]

/-! ### One call -/

/-- The number `consume_packet` returns: non-empty packets posted on the channel. -/
def nonEmptyPackets (d : ChifDrvdata) (channel : ℕ) : ℕ :=
  (d.entry (ccbField d.shmem channel ccbSqFifo) 0).nonEmpty.toNat
    + (d.entry (ccbField d.shmem channel ccbSqFifo) 1).nonEmpty.toNat

/-- The entries it offers to the queue, in order. -/
def offered (d : ChifDrvdata) (channel : ℕ) : List FifoEntry :=
  [d.entry (ccbField d.shmem channel ccbSqFifo) 1,
    d.entry (ccbField d.shmem channel ccbSqFifo) 0].filter fun e => e.eligible && e.nonEmpty

/-- The channel's two FIFO words and the descriptors that are copied lie inside
the window. -/
def ConsumeInRange (d : ChifDrvdata) (channel : ℕ) : Prop :=
  ccbField d.shmem channel ccbSqFifo % addressSpace + 12 ≤ sharedMemSize ∧
    ∀ e ∈ enqueued d.chif24Queue (offered d channel),
      descAddr (ccbField d.shmem channel ccbSqDesc) e.descriptorNum % addressSpace + e.descLen
        ≤ sharedMemSize

private theorem inWindow_fifo (fifo : ℕ) :
    (InWindow (fifoAddr fifo 0, 4) ∧ InWindow (fifoAddr fifo 1, 4)) ↔
      fifo % addressSpace + 12 ≤ sharedMemSize := by
  rw [inWindow_iff (by decide) (by decide), inWindow_iff (by decide) (by decide), fifoAddr,
    fifoAddr, fifoEntrySize, sharedMemSize, addressSpace]
  omega

private theorem descLen_pos_of_mem_offered {d : ChifDrvdata} {channel : ℕ} {e : FifoEntry}
    (h : e ∈ offered d channel) : 0 < e.descLen := by
  have hne : e.nonEmpty = true := by
    have := (List.mem_filter.mp h).2
    rw [Bool.and_eq_true] at this
    exact this.2
  simp only [FifoEntry.nonEmpty, Bool.and_eq_true, decide_eq_true_eq] at hne
  rw [FifoEntry.descLen]
  omega

private theorem mem_of_mem_enqueued {q : PacketQueue} {es : List FifoEntry} {e : FifoEntry}
    (h : e ∈ enqueued q es) : e ∈ es ∧ e.descLen ≤ sharedMemChifDescriptorSize := by
  have hmem := List.mem_filter.mp (List.mem_of_mem_take h)
  exact ⟨hmem.1, by simpa using hmem.2⟩

/-- The effect of one call of `consume_packet`. -/
structure Consumed (channel : ℕ) (d d' : ChifDrvdata) : Prop where
  inside : d'.Inside ↔ d.Inside ∧ ConsumeInRange d channel
  size : d'.chif24Queue.1.size
    = d.chif24Queue.1.size + (enqueued d.chif24Queue (offered d channel)).length
  pushed : PushedFrom d.chif24Queue d'.chif24Queue
  waiting : d'.waiting = d.waiting
  woken : d'.woken = d.woken

/-- What the second loop finds eligible after the first one is what is offered. -/
theorem filter_afterEmpty (e0 e1 : FifoEntry) :
    [afterEmpty e1, afterEmpty e0].filter FifoEntry.eligible
      = [e1, e0].filter fun e => e.eligible && e.nonEmpty := by
  have hmap : [afterEmpty e1, afterEmpty e0] = [e1, e0].map afterEmpty := rfl
  have hcomp : (FifoEntry.eligible ∘ afterEmpty) = fun e => e.eligible && e.nonEmpty := by
    funext e
    exact eligible_afterEmpty e
  rw [hmap, List.filter_map, hcomp]
  refine (List.map_congr_left fun e he => ?_).trans (List.map_id _)
  have hboth := (List.mem_filter.mp he).2
  rw [Bool.and_eq_true] at hboth
  exact afterEmpty_of_nonEmpty hboth.2

private theorem offered_eq_nil {d : ChifDrvdata} {channel : ℕ} (h : nonEmptyPackets d channel = 0) :
    offered d channel = [] := by
  have hzero : ∀ b : Bool, b.toNat = 0 → b = false := by decide
  obtain ⟨h0, h1⟩ := Nat.add_eq_zero_iff.mp h
  refine List.filter_eq_nil_iff.mpr fun e he => ?_
  rcases List.mem_cons.mp he with rfl | he
  · simp [hzero _ h1]
  · rw [List.mem_singleton.mp he]
    simp [hzero _ h0]

/-- `consume_packet` reads the two pointers of the send queue first. -/
def ChifDrvdata.pointersRead (d : ChifDrvdata) (channel : ℕ) : ChifDrvdata :=
  (d.touch (ccbSize * channel + ccbSqFifo) 8).touch (ccbSize * channel + ccbSqDesc) 8

/-- What its first loop counts and leaves. -/
def ChifDrvdata.emptied (d : ChifDrvdata) (channel : ℕ) : ℕ × ChifDrvdata :=
  (List.range sharedMemChifDescriptorNum).foldl (emptyStep (ccbField d.shmem channel ccbSqFifo))
    (0, d.pointersRead channel)

private theorem inside_pointersRead (d : ChifDrvdata) {channel : ℕ} (hc : channel < maxChannels) :
    (d.pointersRead channel).Inside ↔ d.Inside := by
  rw [ChifDrvdata.pointersRead, inside_touch, inside_touch, and_assoc]
  exact and_iff_left ⟨inWindow_ccb hc (by decide), inWindow_ccb hc (by decide)⟩

theorem emptied_scanned (d : ChifDrvdata) (channel : ℕ) :
    Scanned (ccbField d.shmem channel ccbSqFifo) (d.pointersRead channel) (d.emptied channel) :=
  emptyLoop_scanned _ _

theorem consumePacket_eq (d : ChifDrvdata) (channel : ℕ) :
    consumePacket d channel =
      if (d.emptied channel).1 > 0 then
        ((d.emptied channel).1, takeLoop (ccbField d.shmem channel ccbSqFifo)
          (ccbField d.shmem channel ccbSqDesc) takeRounds (d.emptied channel).2)
      else d.emptied channel :=
  rfl

/-- **`consume_packet`, for every content of the memory.** -/
theorem consumePacket_spec (d : ChifDrvdata) {channel : ℕ} (hc : channel < maxChannels) :
    (consumePacket d channel).1 = nonEmptyPackets d channel ∧
      Consumed channel d (consumePacket d channel).2 := by
  set fifo := ccbField d.shmem channel ccbSqFifo with hfifo
  set desc := ccbField d.shmem channel ccbSqDesc with hdesc
  have hptr := inside_pointersRead d hc
  have hscan := emptied_scanned d channel
  have heq := consumePacket_eq d channel
  rw [← hfifo] at hscan heq
  rw [← hdesc] at heq
  generalize d.emptied channel = s at hscan heq
  have hcount : s.1 = nonEmptyPackets d channel := hscan.count
  have hqueue : s.2.chif24Queue = d.chif24Queue := hscan.queue
  -- the second loop, or its absence, takes exactly the entries offered
  have hserved : Served fifo desc (offered d channel) s.2 (consumePacket d channel).2 := by
    rw [heq]
    split
    · have htake := (takeLoop_served fifo desc 0 s.2).1
      rw [hscan.entry_zero, hscan.entry_one, filter_afterEmpty] at htake
      exact htake
    · next hzero =>
      rw [offered_eq_nil (by omega)]
      exact served_nil rfl rfl rfl id fun _ _ => id
  refine ⟨?_, ?_, ?_, ?_, ?_, ?_⟩
  · rw [← hcount, heq]
    split <;> rfl
  · have hdesc : (∀ e ∈ enqueued d.chif24Queue (offered d channel),
        InWindow (descAddr desc e.descriptorNum, e.descLen)) ↔
        ∀ e ∈ enqueued d.chif24Queue (offered d channel),
          descAddr desc e.descriptorNum % addressSpace + e.descLen ≤ sharedMemSize := by
      refine forall₂_congr fun e he => ?_
      obtain ⟨hoff, hlen⟩ := mem_of_mem_enqueued he
      rw [sharedMemChifDescriptorSize] at hlen
      exact inWindow_iff (descLen_pos_of_mem_offered hoff) (by omega)
    rw [ConsumeInRange, ← inWindow_fifo, ← hdesc]
    constructor
    · intro hin
      obtain ⟨hd0, hw0, hw1⟩ := hscan.inside.mp (hserved.log hin)
      have hcopy := ((hserved.inside hw0 hw1).mp hin).2
      rw [hqueue] at hcopy
      exact ⟨hptr.mp hd0, ⟨hw0, hw1⟩, hcopy⟩
    · rintro ⟨hin, ⟨hw0, hw1⟩, hcopy⟩
      refine (hserved.inside hw0 hw1).mpr ⟨hscan.inside.mpr ⟨hptr.mpr hin, hw0, hw1⟩, ?_⟩
      rw [hqueue]
      exact hcopy
  · rw [hserved.size, hqueue]
  · rw [← hqueue]
    exact hserved.pushed
  · exact hserved.waiting.trans hscan.waiting
  · exact hserved.woken.trans hscan.woken

end Chif
