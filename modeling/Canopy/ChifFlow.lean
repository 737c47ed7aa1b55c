/-
Packets through the CHIF driver: from the send FIFOs into `chif24_queue` and
out of it through `chif_read`.

The host rewrites the shared memory as it likes, doorbell interrupts run on what
it left there, and reads run to their end.  `taken` and `reads` remember, in
order, the FIFO entries the driver took and the packets it popped.

* `chifRead_eq_run` — a read that nothing interrupts is the stepwise one;
* `inv_step` — what was accepted is what was popped and what is still queued;
* `taken_perm` — no packet is lost or duplicated but the ones the driver drops.
-/
import Canopy.ChifTrace
import Canopy.ChifCopy

namespace Chif

open Bytes WrapMem ChifDrvdata

/-! ### An uninterrupted read -/

structure ReadOutcome where
  /-- the value returned; `none` if the read has to wait for a packet -/
  ret : Option ℤ
  queue : PacketQueue
  /-- the packet taken off the queue, and whether userspace gets it -/
  popped : Option (Bytes × Bool)

/-- The packet in the slot a pop hands out. -/
def poppedPacket (r : ℤ × Option ℕ × PacketQueue) : Bytes :=
  (List.range r.1.toNat).map (r.2.2.1.pkt (r.2.1.getD 0))

/-- `chif_read` from its start to its end; `fault` says whether `copy_to_user` fails. -/
def chifRead (q : PacketQueue) (c : ReadCall) (fault : Bool) : ReadOutcome :=
  if c.channel ≠ channelSharemem then ⟨some (-eio), q, none⟩
  else if c.count < sharedMemChifDescriptorSize then ⟨some (-einval), q, none⟩
  else
    let r := q.pop c.count
    if r.1 < 0 then ⟨if c.nonblock then some (-eagain) else none, q, none⟩
    else if r.1 > 0 ∧ fault = true then ⟨some (-efault), r.2.2, some (poppedPacket r, false)⟩
    else ⟨some r.1, r.2.2, some (poppedPacket r, true)⟩

/-- A read changes nothing, or takes the oldest packet off the queue. -/
theorem chifRead_cases (q : PacketQueue) (c : ReadCall) (fault : Bool) :
    (chifRead q c fault).popped = none ∧ (chifRead q c fault).queue = q ∨
    ∃ packet ok, (chifRead q c fault).popped = some (packet, ok) ∧
      q.1.packets = packet :: (chifRead q c fault).queue.1.packets := by
  rw [chifRead]
  split
  · exact Or.inl ⟨rfl, rfl⟩
  · split
    · exact Or.inl ⟨rfl, rfl⟩
    · next hcount =>
      dsimp only
      split
      · exact Or.inl ⟨rfl, rfl⟩
      · next hneg =>
        -- the packet leaves the queue whether or not the copy to the user succeeds
        obtain ⟨hpos, hpop⟩ := ChifQueue.pop_of_not_fails hneg
        have hpacket : poppedPacket (q.pop c.count) = q.1.packet q.1.head := by
          rw [poppedPacket, PacketQueue.pop]
          simp only [hpop]
          rfl
        have hpackets := ChifQueue.packets_pop q.2 hpos (Nat.le_of_not_lt hcount)
        rw [← hpacket] at hpackets
        split
        · exact Or.inr ⟨_, false, rfl, hpackets⟩
        · exact Or.inr ⟨_, true, rfl, hpackets⟩

/-- A read with room for a packet delivers the oldest one. -/
theorem chifRead_of_pos {q : PacketQueue} (hpos : 0 < q.1.size) :
    ∃ packet, (chifRead q ⟨channelSharemem, sharedMemChifDescriptorSize, false⟩ false).popped
      = some (packet, true) := by
  have hpop := ChifQueue.pop_of_pos q.2 hpos (le_refl sharedMemChifDescriptorSize)
  have hrc : ¬(q.pop sharedMemChifDescriptorSize).1 < 0 := by
    show ¬(chifQueuePop q.1 sharedMemChifDescriptorSize).1 < 0
    rw [hpop]
    exact Int.not_lt.mpr (Int.natCast_nonneg _)
  refine ⟨poppedPacket (q.pop sharedMemChifDescriptorSize), ?_⟩
  rw [chifRead]
  simp [hrc]

/-- A reader ends a read the way `chifRead` says, with the packet in the
caller's buffer, or it is on the wait queue. -/
structure ReadsAs (s : ReaderSys) (r : ReadOutcome) : Prop where
  queue : s.queue = r.queue
  ret : ∀ v, r.ret = some v → s.pc = .idle ∧ s.ret = v
  waits : r.ret = none → s.onWaitQueue = true
  packet : ∀ p, r.popped = some (p, true) → s.userBuf = p

private theorem readsAs_finish (s : ReaderSys) (ret : ℤ) :
    ReadsAs (s.finish ret) ⟨some ret, s.queue, none⟩ where
  queue := rfl
  ret := fun _ hv => ⟨rfl, Option.some_inj.mp hv⟩
  waits := fun h => absurd h (Option.some_ne_none ret)
  packet := fun _ h => absurd h.symm (Option.some_ne_none _)

/-- `copy_to_user` copies in one piece or fails at once. -/
def copyArg (fault : Bool) : Option ℕ :=
  if fault then none else some sharedMemChifDescriptorSize

private theorem readsAs_copying {s : ReaderSys} (hpc : s.pc = .copying) (hbuf : s.userBuf = [])
    (hlen : s.pktLen ≤ sharedMemChifDescriptorSize) (fault : Bool) :
    ReadsAs (s.readerStep (copyArg fault))
      (if s.pktLen > 0 ∧ fault = true then
        ⟨some (-efault), s.queue, some ((List.range s.pktLen).map (s.queue.1.pkt s.slot), false)⟩
      else
        ⟨some s.pktLen, s.queue,
          some ((List.range s.pktLen).map (s.queue.1.pkt s.slot), true)⟩) := by
  simp only [ReaderSys.readerStep, hpc]
  by_cases hzero : s.pktLen = 0
  · rw [if_pos hzero, if_neg (by omega), hzero]
    refine ⟨rfl, fun v hv => ⟨rfl, Option.some_inj.mp hv⟩,
      fun h => absurd h (Option.some_ne_none _), ?_⟩
    intro p hp
    simp only [List.range_zero, List.map_nil, Option.some_inj, Prod.mk.injEq, and_true] at hp
    rw [← hp]
    exact hbuf
  · rw [if_neg hzero]
    cases fault with
    | true =>
      rw [if_pos ⟨Nat.pos_of_ne_zero hzero, rfl⟩]
      exact ⟨rfl, fun v hv => ⟨rfl, Option.some_inj.mp hv⟩,
        fun h => absurd h (Option.some_ne_none _), fun p hp => by simp at hp⟩
    | false =>
      -- the one piece is the whole packet
      have hchunk : s.chunk sharedMemChifDescriptorSize
          = (List.range s.pktLen).map (s.queue.1.pkt s.slot) := by
        rw [ReaderSys.chunk, hbuf, List.length_nil, Nat.sub_zero, Nat.min_eq_right hlen]
        simp only [Nat.zero_add]
      rw [if_neg (by simp)]
      show ReadsAs (s.copyMore sharedMemChifDescriptorSize) _
      simp only [ReaderSys.copyMore, hchunk, hbuf, List.nil_append, List.length_map,
        List.length_range, if_true]
      refine ⟨rfl, fun v hv => ⟨rfl, Option.some_inj.mp hv⟩,
        fun h => absurd h (Option.some_ne_none _), ?_⟩
      intro p hp
      rw [Option.some_inj, Prod.mk.injEq] at hp
      exact hp.1

/-- A read from its first check on. -/
private theorem readsAs_start {s : ReaderSys} (hpc : s.pc = .start) (hbuf : s.userBuf = [])
    (fault : Bool) :
    ReadsAs ((s.readerStep none).readerStep (copyArg fault)) (chifRead s.queue s.call fault) := by
  have hstart : s.readerStep none =
      if s.call.channel ≠ channelSharemem then s.finish (-eio)
      else if s.call.count < sharedMemChifDescriptorSize then s.finish (-einval)
      else if s.popFails then
        if s.call.nonblock then s.finish (-eagain) else { s with pc := .addWait }
      else s.take .copying := by
    simp only [ReaderSys.readerStep, hpc]
  rw [hstart, chifRead]
  split
  · exact readsAs_finish s _
  · split
    · exact readsAs_finish s _
    · have hfails : s.popFails ↔ (s.queue.pop s.call.count).1 < 0 := Iff.rfl
      dsimp only
      by_cases hneg : (s.queue.pop s.call.count).1 < 0
      · rw [if_pos (hfails.mpr hneg), if_pos hneg]
        cases s.call.nonblock with
        | true => exact readsAs_finish s _
        | false =>
          exact ⟨rfl, fun v hv => absurd hv.symm (Option.some_ne_none v), fun _ => rfl,
            fun p hp => absurd hp.symm (Option.some_ne_none _)⟩
      · rw [if_neg (fun h => hneg (hfails.mp h)), if_neg hneg]
        obtain ⟨hpos, hpop⟩ := ChifQueue.pop_of_not_fails hneg
        -- the slot popped and the length that comes back
        have hret : (s.queue.pop s.call.count).1 = (s.queue.1.pktLen s.queue.1.head : ℤ) :=
          congrArg Prod.fst hpop
        have hslot : (s.queue.pop s.call.count).2.1 = some s.queue.1.head :=
          congrArg (fun r => r.2.1) hpop
        have hlen : (s.take .copying).pktLen = (s.queue.pop s.call.count).1.toNat := rfl
        have hle := s.queue.2.pktLen_le s.queue.1.head
        have hcopy := readsAs_copying (s := s.take .copying) rfl hbuf
          (by rw [hlen, hret, Int.toNat_natCast]; exact hle) fault
        have hpacket : poppedPacket (s.queue.pop s.call.count)
            = (List.range (s.take .copying).pktLen).map
              ((s.take .copying).queue.1.pkt (s.take .copying).slot) := by
          rw [poppedPacket, ReaderSys.take]
          dsimp only
          rw [hslot]
          rfl
        have hval : ((s.take .copying).pktLen : ℤ) = (s.queue.pop s.call.count).1 := by
          rw [hlen, hret, Int.toNat_natCast]
        rw [← hpacket, hval] at hcopy
        have hiff : (s.take .copying).pktLen > 0 ↔ (s.queue.pop s.call.count).1 > 0 := by
          rw [hlen, hret, Int.toNat_natCast, gt_iff_lt, gt_iff_lt, Int.natCast_pos]
        simp only [hiff] at hcopy
        exact hcopy

/-- **An uninterrupted read** of the stepwise reader is `chifRead`. -/
theorem chifRead_eq_run {s : ReaderSys} (hidle : s.pc = .idle) (c : ReadCall) (fault : Bool) :
    ReadsAs (Run.run ReaderSys.step s [.call c, .reader none, .reader (copyArg fault)])
      (chifRead s.queue c fault) := by
  rw [Run.run_cons, Run.run_cons, Run.run_cons, Run.run_nil, ReaderSys.step, if_pos hidle]
  exact readsAs_start
    (s := { s with pc := .start, call := c, signalPending := false, popped := [], userBuf := [] })
    rfl rfl fault

/-! ### The machine -/

/-- The driver with what it took, acknowledged and popped since `chif_probe`. -/
structure ChifFlow where
  driver : ChifDrvdata
  taken : List Taken
  /-- the packets popped, and whether `copy_to_user` delivered them -/
  reads : List (Bytes × Bool)

namespace ChifFlow

/-- After `chif_probe`, with the shared memory as the host set it up. -/
def probe (shmem : Shmem) : ChifFlow where
  driver :=
    { touched := [], shmem := shmem, chif24Queue := .init, waiting := fun _ => false, woken := []
      outdoor := [] }
  taken := []
  reads := []

inductive Event where
  /-- the host leaves the shared memory so -/
  | host (shmem : Shmem)
  | irq (doorbell : ℕ)
  | read (c : ReadCall) (fault : Bool)

def step (s : ChifFlow) : Event → ChifFlow
  | .host shmem => { s with driver := { s.driver with shmem := shmem } }
  | .irq doorbell =>
    { s with
      driver := chifIrqHandle s.driver doorbell
      taken := s.taken ++ irqTaken s.driver doorbell }
  | .read c fault =>
    let r := chifRead s.driver.chif24Queue c fault
    { s with
      driver := { s.driver with chif24Queue := r.queue }
      reads := s.reads ++ r.popped.toList }

/-- The packets still in `chif24_queue`. -/
def queued (s : ChifFlow) : List Bytes := s.driver.chif24Queue.1.packets

/-- The packets `chif_read` returned. -/
def returned (s : ChifFlow) : List Bytes := (s.reads.filter Prod.snd).map Prod.fst

/-- The packets lost to a failing `copy_to_user`. -/
def faulted (s : ChifFlow) : List Bytes := (s.reads.filter fun r => !r.2).map Prod.fst

/-- The packets `chif_queue_push` did not accept. -/
def dropped (s : ChifFlow) : List Bytes :=
  (s.taken.filter fun t => !decide (t.rc = 0)).map Taken.packet

/-! ### Conservation -/

/-- What was accepted and not popped is still queued, in order. -/
structure Inv (s : ChifFlow) : Prop where
  flow : (accepted s.taken).map Taken.packet = s.reads.map Prod.fst ++ s.queued
  rc : ∀ t ∈ s.taken, t.RcOk

theorem inv_probe (shmem : Shmem) : (probe shmem).Inv where
  flow := rfl
  rc := fun _ h => absurd h List.not_mem_nil

theorem inv_step (s : ChifFlow) (e : Event) (h : s.Inv) : (step s e).Inv := by
  cases e with
  | host shmem => exact ⟨h.flow, h.rc⟩
  | irq doorbell =>
    refine ⟨?_, ?_⟩
    · show (accepted (s.taken ++ irqTaken s.driver doorbell)).map Taken.packet
        = s.reads.map Prod.fst ++ (chifIrqHandle s.driver doorbell).chif24Queue.1.packets
      rw [accepted_append, List.map_append, h.flow, packets_irq, List.append_assoc]
      rfl
    · intro t ht
      rcases List.mem_append.mp ht with ht | ht
      · exact h.rc t ht
      · exact irqTaken_rc t ht
  | read c fault =>
    refine ⟨?_, h.rc⟩
    show (accepted s.taken).map Taken.packet
      = (s.reads ++ (chifRead s.driver.chif24Queue c fault).popped.toList).map Prod.fst
        ++ (chifRead s.driver.chif24Queue c fault).queue.1.packets
    rw [h.flow, List.map_append, List.append_assoc, queued]
    rcases chifRead_cases s.driver.chif24Queue c fault with ⟨hpopped, hqueue⟩ | hpop
    · rw [hpopped, hqueue]
      rfl
    · obtain ⟨packet, ok, hpopped, hpackets⟩ := hpop
      rw [hpopped, hpackets]
      rfl

theorem inv_run (shmem : Shmem) (es : List Event) : (Run.run step (probe shmem) es).Inv :=
  Run.run_invariant inv_step (inv_probe shmem) es

/-- **Nothing is lost or duplicated** between the FIFOs and userspace, except the
packets a push refuses and those a failing copy throws away. -/
theorem taken_perm {s : ChifFlow} (h : s.Inv) :
    (s.taken.map Taken.packet).Perm (s.returned ++ s.queued ++ s.dropped ++ s.faulted) := by
  -- a taken packet is accepted or dropped, a popped one delivered or lost in the copy
  have htaken : (s.taken.map Taken.packet).Perm
      ((accepted s.taken).map Taken.packet ++ s.dropped) := by
    rw [dropped, ← List.map_append]
    exact ((List.filter_append_perm (fun t : Taken => decide (t.rc = 0)) s.taken).map _).symm
  have hreads : (s.reads.map Prod.fst).Perm (s.returned ++ s.faulted) := by
    rw [returned, faulted, ← List.map_append]
    exact ((List.filter_append_perm Prod.snd s.reads).map _).symm
  calc (s.taken.map Taken.packet).Perm (s.reads.map Prod.fst ++ s.queued ++ s.dropped) := by
        rw [← h.flow]
        exact htaken
    List.Perm _ (s.returned ++ s.faulted ++ s.queued ++ s.dropped) :=
        (hreads.append_right _).append_right _
    List.Perm _ (s.returned ++ s.queued ++ s.dropped ++ s.faulted) := by
        simp only [List.append_assoc]
        refine List.Perm.append_left _ ?_
        rw [← List.append_assoc s.queued s.dropped s.faulted]
        exact List.perm_append_comm

end ChifFlow

end Chif
