/-
Is the packet handed to userspace the packet that was popped?

`chif_queue_pop` frees the slot and hands out a pointer into it, and only then
the bytes are copied out.  The slot is the last one the ring gets to again, so
the copy is safe until the ring has filled up once more.

* `Held` — what the ring still has of a popped packet;
* `held_push` — what a push does to it;
* `faithful_iff_untouched` — the runs that deliver what they popped.
-/
import Canopy.ChifReader

namespace Chif

open Bytes ReaderSys

/-! ### A popped packet in the ring -/

namespace ChifQueue

/-- The slot before the oldest packet: the one a full ring ends in. -/
def lastSlot (q : ChifQueue) : ℕ :=
  RingIndex.slot sharedMemChifQueueSize q.head (sharedMemChifQueueSize - 1)

/-- The packet pushed last. -/
def newest (q : ChifQueue) : Bytes := q.packets.getLastD []

private theorem newest_of_full {q : ChifQueue} (h : Wf q)
    (hfull : q.size = sharedMemChifQueueSize) :
    q.newest = q.packet q.lastSlot := by
  have hsucc : sharedMemChifQueueSize = sharedMemChifQueueSize - 1 + 1 := rfl
  rw [newest, packets, hfull, hsucc, List.range_succ, List.map_append, List.map_singleton,
    List.getLastD_concat, h.maxSize_eq]
  rfl

/-- The ring still has the packet `popped` in `slot`, except that the first
bytes may have been used again if it is full. -/
structure Held (q : ChifQueue) (slot : ℕ) (popped : Bytes) : Prop where
  slot_eq : slot = q.lastSlot
  intact : ∀ (i : ℕ) (hi : i < popped.length),
    q.size < sharedMemChifQueueSize ∨ q.pktLen slot ≤ i → q.pkt slot i = popped[i]

theorem held_push {q : ChifQueue} (h : Wf q) {slot : ℕ} {popped : Bytes}
    (hheld : q.Held slot popped) (src : ℕ → UInt8) (len : ℕ) :
    (chifQueuePush q src len).2.Held slot popped := by
  by_cases hacc : q.Accepts len
  · have hsize := hacc.1
    rw [h.maxSize_eq] at hsize
    rw [push_of_accepts src hacc]
    refine ⟨hheld.slot_eq, fun i hi hor => ?_⟩
    have hold : q.pkt slot i = popped[i] := hheld.intact i hi (Or.inl hsize)
    rw [← hold]
    show (if slot = q.tail ∧ i < len then src i else q.pkt slot i) = _
    refine if_neg ?_
    rintro ⟨htail, hlt⟩
    rcases hor with hroom | hover
    · -- the slot written is the last one only when the ring is full afterwards
      rw [hheld.slot_eq, lastSlot, h.tail_eq] at htail
      have hlast := RingIndex.slot_inj (by decide) hsize htail
      have hroom' : q.size + 1 < sharedMemChifQueueSize := hroom
      omega
    · have hover' : (if slot = q.tail then len else q.pktLen slot) ≤ i := hover
      rw [if_pos htail] at hover'
      omega
  · rw [push_of_not_accepts h src hacc]
    exact hheld

theorem pop_of_not_fails {q : ChifQueue} {len : ℕ} (h : ¬(chifQueuePop q len).1 < 0) :
    0 < q.size ∧ chifQueuePop q len = (((q.pktLen q.head : ℕ) : ℤ), some q.head,
      { q with size := q.size - 1, head := RingIndex.next q.maxSize q.head }) := by
  rw [chifQueuePop] at h ⊢
  split at h
  · exact absurd (Int.negSucc_lt_zero 2) h
  · next hne =>
    split at h
    · exact absurd (Int.negSucc_lt_zero 3) h
    · next hle => exact ⟨Nat.pos_of_ne_zero hne, by rw [if_neg hne, if_neg hle]⟩

/-- Right after the pop the whole packet is there. -/
theorem held_pop {q : ChifQueue} (h : Wf q) :
    ChifQueue.Held { q with size := q.size - 1, head := RingIndex.next q.maxSize q.head } q.head
      (q.packet q.head) where
  slot_eq := by
    show q.head = RingIndex.slot _ (RingIndex.next q.maxSize q.head) _
    rw [h.maxSize_eq, RingIndex.slot_next h.head_lt]
    exact ((RingIndex.slot_self q.head).trans (Nat.mod_eq_of_lt h.head_lt)).symm
  intact := by
    intro i hi _
    simp [packet]

end ChifQueue

theorem PushedFrom.held {q q' : PacketQueue} (h : PushedFrom q q') {slot : ℕ} {popped : Bytes}
    (hheld : q.1.Held slot popped) : q'.1.Held slot popped := by
  induction h with
  | refl => exact hheld
  | push _ pkt len ih => exact ChifQueue.held_push (Subtype.property _) ih pkt len

/-! ### Reads -/

/-- The reader has popped a packet and not delivered it yet. -/
def Pc.holding : Pc → Bool
  | .setRunning .delivered | .removeWait .delivered | .clearWaiting .delivered | .copying => true
  | _ => false

namespace ReaderSys

/-- The bytes copied are bytes of the popped packet, and a read that returns
with a packet has copied all of it. -/
def Faithful (s : ReaderSys) : Prop :=
  s.userBuf <+: s.popped ∧ (s.pc = .idle → 0 < s.ret → s.userBuf = s.popped)

/-- Byte `i` of the slot is not that of another packet: the ring is not full, or
its newest packet has the same byte there, or none. -/
def ByteKept (s : ReaderSys) (i : ℕ) : Prop :=
  s.queue.1.size = sharedMemChifQueueSize → ∀ b, s.queue.1.newest[i]? = some b →
    s.popped[i]? = some b

/-- A copy step finds the bytes it copies kept. -/
def Untouched (s : ReaderSys) : Event → Prop
  | .reader (some n) => s.pc = .copying →
      ∀ i, s.userBuf.length ≤ i → i < min (s.userBuf.length + n) s.pktLen → s.ByteKept i
  | _ => True

/-- The reader's part of the invariant: what it popped is still in the ring. -/
structure Holding (s : ReaderSys) : Prop where
  fresh : s.pc ≠ .idle → s.pc ≠ .copying → s.userBuf = []
  held : s.pc.holding = true → s.queue.1.Held s.slot s.popped
  length_eq : s.pc.holding = true → s.popped.length = s.pktLen

private theorem holding_of_free {s : ReaderSys}
    (hfresh : s.pc ≠ .idle → s.pc ≠ .copying → s.userBuf = [])
    (hpc : s.pc.holding = false) : s.Holding where
  fresh := hfresh
  held := fun h => absurd h (by rw [hpc]; decide)
  length_eq := fun h => absurd h (by rw [hpc]; decide)

theorem holding_finish (s : ReaderSys) (ret : ℤ) : (s.finish ret).Holding :=
  holding_of_free (fun h => absurd rfl h) rfl

private theorem holding_probe : probe.Holding :=
  holding_of_free (fun h => absurd rfl h) rfl

private theorem holding_take {s : ReaderSys} (hok : ¬s.popFails) (hbuf : s.userBuf = [])
    (next : Pc) :
    (s.take next).Holding := by
  obtain ⟨hpos, hpop⟩ := ChifQueue.pop_of_not_fails hok
  -- what the pop removes from the list is the packet in the head slot
  have hhead : s.queue.1.packets.headD [] = s.queue.1.packet s.queue.1.head := by
    rw [ChifQueue.packets_pop s.queue.2 hpos le_rfl, List.headD_cons]
  have hslot : (s.take next).slot = s.queue.1.head := by
    show (chifQueuePop s.queue.1 s.call.count).2.1.getD s.slot = _
    rw [hpop]
    rfl
  have hqueue : (s.take next).queue.1 = { s.queue.1 with
      size := s.queue.1.size - 1
      head := RingIndex.next s.queue.1.maxSize s.queue.1.head } := by
    show (chifQueuePop s.queue.1 s.call.count).2.2 = _
    rw [hpop]
  have hpopped : (s.take next).popped = s.queue.1.packet s.queue.1.head := hhead
  have hlen : (s.take next).pktLen = s.queue.1.pktLen s.queue.1.head := by
    show (chifQueuePop s.queue.1 s.call.count).1.toNat = _
    rw [hpop]
    rfl
  refine ⟨fun _ _ => hbuf, fun _ => ?_, fun _ => ?_⟩
  · rw [hslot, hqueue, hpopped]
    exact ChifQueue.held_pop s.queue.2
  · rw [hlen, hpopped, ChifQueue.packet, List.length_map, List.length_range]

/-- Before the copy a step of the reader copies nothing. -/
theorem faithful_of_fresh {s : ReaderSys} (hbuf : s.userBuf = []) (hpc : s.pc ≠ .idle) :
    s.Faithful := by
  refine ⟨?_, fun h => absurd h hpc⟩
  rw [hbuf]
  exact List.nil_prefix

private theorem faithful_finish {s : ReaderSys} (h : s.userBuf <+: s.popped) {ret : ℤ}
    (hret : ret ≤ 0) :
    (s.finish ret).Faithful :=
  ⟨h, fun _ hpos => absurd hpos (Int.not_lt.mpr hret)⟩

/-! ### The copy -/

/-- With the popped packet held, a byte of the slot is the packet's exactly when
it is kept. -/
theorem byte_eq_iff {s : ReaderSys} (hheld : s.queue.1.Held s.slot s.popped) {i : ℕ}
    (hi : i < s.popped.length) :
    s.popped[i]? = some (s.queue.1.pkt s.slot i) ↔ s.ByteKept i := by
  have hsize := s.queue.2.size_le
  have hget : s.popped[i]? = some s.popped[i] := List.getElem?_eq_getElem hi
  rw [ByteKept]
  by_cases hfull : s.queue.1.size = sharedMemChifQueueSize
  · rw [imp_iff_right hfull, ChifQueue.newest_of_full s.queue.2 hfull, ← hheld.slot_eq]
    -- full: the newest packet lies in the slot, and past its end the old bytes are left
    by_cases hlt : i < s.queue.1.pktLen s.slot
    · have hbyte : (s.queue.1.packet s.slot)[i]? = some (s.queue.1.pkt s.slot i) := by
        rw [ChifQueue.packet, List.getElem?_map, List.getElem?_range hlt, Option.map_some]
      rw [hbyte]
      constructor
      · intro h b hb
        exact h.trans hb
      · intro h
        exact h _ rfl
    · have hle := Nat.le_of_not_lt hlt
      have hnone : (s.queue.1.packet s.slot)[i]? = none := by
        rw [List.getElem?_eq_none_iff, ChifQueue.packet, List.length_map, List.length_range]
        exact hle
      rw [hnone, hget, hheld.intact i hi (Or.inr hle)]
      exact iff_of_true rfl fun b hb => absurd hb (by simp)
  · rw [hget, hheld.intact i hi (Or.inl (by omega))]
    exact iff_of_true rfl fun h => absurd h hfull

/-- Copying on keeps to the popped packet exactly when every byte copied does. -/
theorem prefix_chunk_iff {s : ReaderSys} (hlen : s.popped.length = s.pktLen)
    (hpre : s.userBuf <+: s.popped) (n : ℕ) :
    s.userBuf ++ s.chunk n <+: s.popped ↔
      ∀ i, s.userBuf.length ≤ i → i < min (s.userBuf.length + n) s.pktLen →
        s.popped[i]? = some (s.queue.1.pkt s.slot i) := by
  -- past the bytes already copied, both sides are compared with the rest of the packet
  obtain ⟨rest, hrest⟩ := hpre
  have hrestLen : s.userBuf.length + rest.length = s.pktLen := by
    rw [← hlen, ← hrest, List.length_append]
  have hchunk : (s.chunk n).length = min n (s.pktLen - s.userBuf.length) := by
    rw [chunk, List.length_map, List.length_range]
  have hbyte : ∀ j, s.popped[s.userBuf.length + j]? = rest[j]? := by
    intro j
    rw [← hrest, List.getElem?_append_right (Nat.le_add_right _ _), Nat.add_sub_cancel_left]
  rw [← hrest, List.prefix_append_right_inj, List.prefix_iff_getElem?, hrest]
  constructor
  · intro h i hge hlt
    obtain ⟨j, rfl⟩ := Nat.exists_eq_add_of_le hge
    have hj : j < (s.chunk n).length := by omega
    rw [hbyte, h j hj]
    simp [chunk]
  · intro h j hj
    rw [← hbyte, h _ (Nat.le_add_right _ _) (by omega)]
    simp [chunk]

/-- A copy step. -/
theorem faithful_copyMore_iff {s : ReaderSys} (hpc : s.pc = .copying) (h : s.Holding)
    (hf : s.Faithful) (n : ℕ) : (s.copyMore n).Faithful ↔ s.Untouched (.reader (some n)) := by
  have hholding : s.pc.holding = true := by
    rw [hpc]
    rfl
  have hlen := h.length_eq hholding
  have hheld := h.held hholding
  have hkept : s.userBuf ++ s.chunk n <+: s.popped ↔ s.Untouched (.reader (some n)) := by
    rw [prefix_chunk_iff hlen hf.1, Untouched, imp_iff_right hpc]
    refine forall_congr' fun i => forall₂_congr fun _ hlt => byte_eq_iff hheld (by omega)
  rw [← hkept, copyMore]
  dsimp only
  split
  · next hdone =>
    constructor
    · intro hfin
      exact hfin.1
    · intro hpre
      -- the copy is complete, so a prefix of the packet is the packet
      have hall : s.userBuf ++ s.chunk n = s.popped := hpre.eq_of_length (hdone.trans hlen.symm)
      exact ⟨hpre, fun _ _ => hall⟩
  · constructor
    · intro hmore
      exact hmore.1
    · intro hpre
      refine ⟨hpre, fun hidle => ?_⟩
      have hcopying : s.pc = .idle := hidle
      rw [hpc] at hcopying
      exact Pc.noConfusion hcopying

/-! ### One step -/

/-- The popped packet is where the reader expects it, and so far it has copied
nothing else. -/
structure Sound (s : ReaderSys) : Prop where
  holding : s.Holding
  faithful : s.Faithful

private theorem sound_probe : probe.Sound :=
  ⟨holding_probe, List.prefix_rfl, fun _ _ => rfl⟩

theorem sound_finish {s : ReaderSys} (hbuf : s.userBuf <+: s.popped) {ret : ℤ} (hret : ret ≤ 0) :
    (s.finish ret).Sound :=
  ⟨holding_finish s ret, faithful_finish hbuf hret⟩

/-- A step of a read that holds no packet. -/
theorem sound_of_free {s : ReaderSys} (hbuf : s.userBuf = []) (hidle : s.pc ≠ .idle)
    (hfree : s.pc.holding = false) : s.Sound :=
  ⟨holding_of_free (fun _ _ => hbuf) hfree, faithful_of_fresh hbuf hidle⟩

/-- A step of a read that holds a packet and has copied nothing. -/
theorem sound_of_held {s : ReaderSys} (hheld : s.queue.1.Held s.slot s.popped)
    (hlen : s.popped.length = s.pktLen) (hbuf : s.userBuf = []) (hidle : s.pc ≠ .idle) : s.Sound :=
  ⟨⟨fun _ _ => hbuf, fun _ => hheld, fun _ => hlen⟩, faithful_of_fresh hbuf hidle⟩

private theorem sound_take {s : ReaderSys} (hok : ¬s.popFails) (hbuf : s.userBuf = []) {next : Pc}
    (hidle : next ≠ .idle) : (s.take next).Sound :=
  ⟨holding_take hok hbuf next, faithful_of_fresh hbuf hidle⟩

/-- Until the copy the reader keeps hold of what it popped. -/
theorem sound_readerStep {s : ReaderSys} (h : s.Sound) (hcopy : s.pc ≠ .copying)
    (copy : Option ℕ) : (s.readerStep copy).Sound := by
  obtain ⟨hhold, hfaith⟩ := h
  have hfresh := hhold.fresh
  cases hpc : s.pc with
  | idle =>
    simp only [readerStep, hpc]
    exact ⟨hhold, hfaith⟩
  | start =>
    have hbuf := hfresh (by simp [hpc]) hcopy
    simp only [readerStep, hpc]
    split
    · exact sound_finish hfaith.1 (by decide)
    · split
      · exact sound_finish hfaith.1 (by decide)
      · split
        · split
          · exact sound_finish hfaith.1 (by decide)
          · exact sound_of_free hbuf Pc.noConfusion rfl
        -- the first pop succeeded: straight to the copy
        · next hok => exact sound_take hok hbuf Pc.noConfusion
  | addWait =>
    simp only [readerStep, hpc]
    exact sound_of_free (hfresh (by simp [hpc]) hcopy) Pc.noConfusion rfl
  | setWaiting =>
    simp only [readerStep, hpc]
    exact sound_of_free (hfresh (by simp [hpc]) hcopy) Pc.noConfusion rfl
  | setState =>
    simp only [readerStep, hpc]
    exact sound_of_free (hfresh (by simp [hpc]) hcopy) Pc.noConfusion rfl
  | schedule =>
    have hbuf := hfresh (by simp [hpc]) hcopy
    simp only [readerStep, hpc]
    split
    · exact sound_of_free hbuf Pc.noConfusion rfl
    · exact sound_of_free hbuf Pc.noConfusion rfl
  | asleep =>
    have hbuf := hfresh (by simp [hpc]) hcopy
    simp only [readerStep, hpc]
    split
    · exact ⟨hhold, hfaith⟩
    · exact sound_of_free hbuf Pc.noConfusion rfl
  | checkSignal =>
    have hbuf := hfresh (by simp [hpc]) hcopy
    simp only [readerStep, hpc]
    split
    · exact sound_of_free hbuf Pc.noConfusion rfl
    · exact sound_of_free hbuf Pc.noConfusion rfl
  | repop =>
    have hbuf := hfresh (by simp [hpc]) hcopy
    simp only [readerStep, hpc]
    split
    · exact sound_of_free hbuf Pc.noConfusion rfl
    · next hok => exact sound_take hok hbuf Pc.noConfusion
  | setRunning e =>
    have hbuf := hfresh (by simp [hpc]) hcopy
    simp only [readerStep, hpc]
    cases e with
    | interrupted => exact sound_of_free hbuf Pc.noConfusion rfl
    | delivered =>
      have hon : s.pc.holding = true := congrArg Pc.holding hpc
      exact sound_of_held (hhold.held hon) (hhold.length_eq hon) hbuf Pc.noConfusion
  | removeWait e =>
    have hbuf := hfresh (by simp [hpc]) hcopy
    simp only [readerStep, hpc]
    cases e with
    | interrupted => exact sound_of_free hbuf Pc.noConfusion rfl
    | delivered =>
      have hon : s.pc.holding = true := congrArg Pc.holding hpc
      exact sound_of_held (hhold.held hon) (hhold.length_eq hon) hbuf Pc.noConfusion
  | clearWaiting e =>
    have hbuf := hfresh (by simp [hpc]) hcopy
    cases e with
    | interrupted =>
      simp only [readerStep, hpc]
      exact sound_finish (s := { s with waiting := false }) hfaith.1 (by decide)
    | delivered =>
      have hon : s.pc.holding = true := congrArg Pc.holding hpc
      simp only [readerStep, hpc]
      exact sound_of_held (hhold.held hon) (hhold.length_eq hon) hbuf Pc.noConfusion
  | copying => exact absurd hpc hcopy

private theorem holding_copyMore {s : ReaderSys} (h : s.Holding) (hpc : s.pc = .copying) (n : ℕ) :
    (s.copyMore n).Holding := by
  have hon : s.pc.holding = true := congrArg Pc.holding hpc
  rw [copyMore]
  dsimp only
  split
  · exact holding_finish _ _
  · exact ⟨fun _ hne => absurd hpc hne, fun _ => h.held hon, fun _ => h.length_eq hon⟩

private theorem holding_readerStep {s : ReaderSys} (h : s.Sound) (copy : Option ℕ) :
    (s.readerStep copy).Holding := by
  by_cases hpc : s.pc = .copying
  · simp only [readerStep, hpc]
    split
    · exact holding_finish s 0
    · cases copy with
      | none => exact holding_finish s (-efault)
      | some n => exact holding_copyMore h.holding hpc n
  · exact (sound_readerStep h hpc copy).holding

/-- **A step of the reader** stays faithful exactly when the bytes it copies are
kept. -/
theorem faithful_readerStep_iff {s : ReaderSys} (h : s.Sound) (copy : Option ℕ) :
    (s.readerStep copy).Faithful ↔ s.Untouched (.reader copy) := by
  by_cases hpc : s.pc = .copying
  · simp only [readerStep, hpc]
    split
    · next hzero =>
      refine iff_of_true (faithful_finish h.faithful.1 le_rfl) ?_
      cases copy with
      | none => trivial
      | some n => exact fun _ i _ hlt => absurd hlt (by rw [hzero]; omega)
    · cases copy with
      | none => exact iff_of_true (faithful_finish h.faithful.1 (by decide)) trivial
      | some n => exact faithful_copyMore_iff hpc h.holding h.faithful n
  · refine iff_of_true (sound_readerStep h hpc copy).faithful ?_
    cases copy with
    | none => trivial
    | some n => exact fun hcopy => absurd hcopy hpc

/-- An interrupt only pushes. -/
theorem sound_irq {s : ReaderSys} (h : s.Sound) (shmem : Shmem) (doorbell : ℕ) :
    (s.irq shmem doorbell).Sound := by
  -- the handler never pops, so what is held stays held
  have hpushed : PushedFrom s.queue (chifIrqHandle (s.drvdata shmem) doorbell).chif24Queue :=
    (handled_irq (s.drvdata shmem) doorbell).pushed
  obtain ⟨hhold, hfaith⟩ := h
  rw [irq_eq]
  exact ⟨⟨hhold.fresh, fun hon => hpushed.held (hhold.held hon), hhold.length_eq⟩, hfaith⟩

private theorem sound_call {s : ReaderSys} (h : s.Sound) (c : ReadCall) :
    (step s (.call c)).Sound := by
  rw [step]
  split
  · exact sound_of_free rfl Pc.noConfusion rfl
  · exact h

private theorem faithful_step_iff {s : ReaderSys} (e : Event) (h : s.Sound) :
    (step s e).Faithful ↔ s.Untouched e := by
  cases e with
  | irq shmem doorbell => exact iff_of_true (sound_irq h shmem doorbell).faithful trivial
  | call c => exact iff_of_true (sound_call h c).faithful trivial
  | reader copy => exact faithful_readerStep_iff h copy
  | signal => exact iff_of_true h.faithful trivial

theorem holding_step {s : ReaderSys} (e : Event) (h : s.Sound) : (step s e).Holding := by
  cases e with
  | irq shmem doorbell => exact (sound_irq h shmem doorbell).holding
  | call c => exact (sound_call h c).holding
  | reader copy => exact holding_readerStep h copy
  | signal => exact ⟨h.holding.fresh, h.holding.held, h.holding.length_eq⟩

/-- **What a read delivers is what it popped**, in exactly the runs in which no
copy step meets a full ring whose newest packet has other bytes in that place. -/
theorem faithful_iff_untouched (es : List Event) :
    (∀ v ∈ Run.visits step probe es, (step v.1 v.2).Faithful) ↔
      ∀ v ∈ Run.visits step probe es, v.1.Untouched v.2 :=
  Run.forall_visits_iff (I := Sound) (P := fun s e => (step s e).Faithful)
    (Q := fun s e => s.Untouched e) (fun _ e h hstep => ⟨holding_step e h, hstep⟩)
    (fun _ e h => faithful_step_iff e h) sound_probe

/-- A host that posts two packets of 8 bytes `b` on channel 24, its FIFO at offset 4096
and its descriptors at 8192. -/
def twoPackets (b : UInt8) : Shmem := fun x =>
  if x = ccbSize * channelSharemem + ccbSqFifo + 1 then 0x10
  else if x = ccbSize * channelSharemem + ccbSqDesc + 1 then 0x20
  else if x = ccbSize * channelSharemem + ccbSqCtrl + 3 then 0x80
  else if x = 0x1000 ∨ x = 0x1008 then 1
  else if x = 0x1002 ∨ x = 0x100a then 0x80
  else if 0x2000 ≤ x then b
  else 0

/-- The host fills the ring, the reader pops, the host posts one more. -/
def refillDuringRead : List Event :=
  List.replicate 8 (.irq (twoPackets 0) (2 ^ channelSharemem)) ++
    [.call ⟨channelSharemem, sharedMemChifDescriptorSize, false⟩, .reader none,
      .irq (twoPackets 1) (2 ^ channelSharemem), .reader (some 8)]

instance (s : ReaderSys) : Decidable s.Faithful := by
  unfold Faithful
  infer_instance

/-- The reader is handed the packet posted last instead of the one it popped. -/
theorem not_faithful_refillDuringRead : ¬(Run.run step probe refillDuringRead).Faithful := by
  decide +kernel

end ReaderSys

end Chif
