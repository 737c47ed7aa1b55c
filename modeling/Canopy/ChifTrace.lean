/-
What the doorbell interrupt puts into the packet queue, packet by packet.

`takenLoop`, `consumeTaken` and `irqTaken` follow the second loop of
`consume_packet` and list the FIFO entries it takes: the channel, the bytes of
the descriptor at that moment, and what `chif_queue_push` answers.

* `packets_irq` — the queue grows by exactly the accepted packets, in order;
* `irqTaken_rc` — the only reasons for which a packet is not accepted;
* `exists_accepted_iff` — when an interrupt queues a packet of a given kind of channel.
-/
import Canopy.ChifIrq

namespace Chif

open Bytes WrapMem ChifDrvdata

/-! ### Taken entries -/

/-- A FIFO entry taken by the second loop of `consume_packet`. -/
structure Taken where
  channel : ℕ
  /-- the bytes of its descriptor when it is taken -/
  packet : Bytes
  /-- what `chif_queue_push` answers -/
  rc : ℤ
  deriving DecidableEq, Repr

/-- The packet of a FIFO entry: the first bytes of its descriptor. -/
def descPacket (m : Shmem) (desc : ℕ) (e : FifoEntry) : Bytes :=
  read addressSpace m (descAddr desc e.descriptorNum) e.descLen

/-- The entries whose packet went into the queue. -/
def accepted (ts : List Taken) : List Taken := ts.filter fun t => t.rc = 0

@[simp] theorem accepted_append (ts ts' : List Taken) :
    accepted (ts ++ ts') = accepted ts ++ accepted ts' := List.filter_append ..

/-- What `takeEntry` takes. -/
def takenEntry (channel fifo desc : ℕ) (d : ChifDrvdata) (i : ℕ) : Taken where
  channel := channel
  packet := descPacket d.shmem desc (d.entry fifo i)
  rc := (d.chif24Queue.push
    (fun j => d.shmem ((descAddr desc (d.entry fifo i).descriptorNum + j) % addressSpace))
    (d.entry fifo i).descLen).1

/-- What `takeLoop` takes. -/
def takenLoop (channel fifo desc : ℕ) : ℕ → ChifDrvdata → List Taken
  | 0, _ => []
  | fuel + 1, d =>
    match getOccupiedEntry fifo d with
    | (none, _) => []
    | (some i, d) =>
      takenEntry channel fifo desc d i :: takenLoop channel fifo desc fuel (takeEntry fifo desc d i)

/-- What `consumePacket` takes. -/
def consumeTaken (d : ChifDrvdata) (channel : ℕ) : List Taken :=
  let (sendFifo, d) := d.getCcb channel ccbSqFifo
  let (sendDesc, d) := d.getCcb channel ccbSqDesc
  let (nonEmptyPackets, d) :=
    (List.range sharedMemChifDescriptorNum).foldl (emptyStep sendFifo) (0, d)
  if nonEmptyPackets > 0 then takenLoop channel sendFifo sendDesc takeRounds d else []

/-- What one interrupt takes. -/
def irqTaken (d : ChifDrvdata) (doorbell : ℕ) : List Taken :=
  (consumeCalls d doorbell).flatMap fun c => consumeTaken c.1 c.2

/-! ### The queue grows by the accepted packets -/

private theorem packets_takeEntry (channel fifo desc : ℕ) (d : ChifDrvdata) (i : ℕ) :
    (takeEntry fifo desc d i).chif24Queue.1.packets
      = d.chif24Queue.1.packets
        ++ (accepted [takenEntry channel fifo desc d i]).map Taken.packet := by
  set e := d.entry fifo i with he
  set src := fun j => d.shmem ((descAddr desc e.descriptorNum + j) % addressSpace) with hsrc
  have hqueue : (takeEntry fifo desc d i).chif24Queue.1
      = (chifQueuePush d.chif24Queue.1 src e.descLen).2 := rfl
  have htaken : takenEntry channel fifo desc d i =
      ⟨channel, (List.range e.descLen).map src, (chifQueuePush d.chif24Queue.1 src e.descLen).1⟩ :=
    rfl
  -- the packet is accepted exactly when the push returns 0
  have hrc := ChifQueue.push_rc d.chif24Queue.2 src e.descLen
  rw [hqueue, htaken, accepted]
  by_cases hacc : d.chif24Queue.1.Accepts e.descLen
  · rw [ChifQueue.packets_push d.chif24Queue.2 src hacc,
      List.filter_cons_of_pos (by simpa using hrc.mpr hacc)]
    rfl
  · rw [ChifQueue.push_of_not_accepts d.chif24Queue.2 src hacc,
      List.filter_cons_of_neg (by simpa using fun h => hacc (hrc.mp h))]
    simp

private theorem packets_takeLoop (channel fifo desc : ℕ) : ∀ (n : ℕ) (d : ChifDrvdata),
    (takeLoop fifo desc n d).chif24Queue.1.packets
      = d.chif24Queue.1.packets ++ (accepted (takenLoop channel fifo desc n d)).map Taken.packet
  | 0, d => by simp [takeLoop, takenLoop, accepted]
  | n + 1, d => by
    have hscan : (getOccupiedEntry fifo d).2.chif24Queue = d.chif24Queue := by
      rw [getOccupiedEntry_eq]
      rfl
    rw [takeLoop, takenLoop]
    generalize getOccupiedEntry fifo d = r at hscan
    obtain ⟨idx, d'⟩ := r
    dsimp only at hscan
    cases idx with
    | none =>
      dsimp only
      rw [hscan]
      simp [accepted]
    | some i =>
      dsimp only
      rw [packets_takeLoop channel fifo desc n, packets_takeEntry channel, hscan, List.append_assoc,
        ← List.map_append, ← accepted_append, List.singleton_append]

theorem consumeTaken_eq (d : ChifDrvdata) (channel : ℕ) :
    consumeTaken d channel =
      if (d.emptied channel).1 > 0 then
        takenLoop channel (ccbField d.shmem channel ccbSqFifo)
          (ccbField d.shmem channel ccbSqDesc) takeRounds (d.emptied channel).2
      else [] :=
  rfl

theorem packets_consumePacket (d : ChifDrvdata) (channel : ℕ) :
    (consumePacket d channel).2.chif24Queue.1.packets
      = d.chif24Queue.1.packets ++ (accepted (consumeTaken d channel)).map Taken.packet := by
  have hqueue : (d.emptied channel).2.chif24Queue = d.chif24Queue :=
    (emptied_scanned d channel).queue
  rw [consumePacket_eq, consumeTaken_eq]
  split
  · rw [packets_takeLoop channel, hqueue]
  · rw [hqueue]
    simp [accepted]

private theorem queue_activeCcb (d : ChifDrvdata) {i : ℕ} (hi : i < maxChannels) :
    (activeCcb d i).2.chif24Queue = d.chif24Queue := by
  obtain ⟨-, -, hqueue, -, -⟩ := activeCcb_spec d hi
  exact hqueue

/-- What the handler takes from one channel. -/
def takenOf (doorbell : ℕ) (v : ChifDrvdata × ℕ) : List Taken :=
  (callOf doorbell v).flatMap fun c => consumeTaken c.1 c.2

private theorem packets_irqStep (doorbell : ℕ) (d : ChifDrvdata) {i : ℕ} (hi : i < maxChannels) :
    (irqStep doorbell d i).chif24Queue.1.packets
      = d.chif24Queue.1.packets ++ (accepted (takenOf doorbell (d, i))).map Taken.packet := by
  have hactive := queue_activeCcb d hi
  rw [takenOf, callOf]
  by_cases h : Serviced doorbell d i
  · have hqueue : (irqStep doorbell d i).chif24Queue
        = (consumePacket (activeCcb d i).2 i).2.chif24Queue := by
      rw [irqStep_of_serviced hi h]
      split <;> rfl
    rw [if_pos h, List.flatMap_singleton, hqueue, packets_consumePacket, hactive]
  · rw [if_neg h]
    rcases irqStep_of_not_serviced hi h with heq | heq
    · rw [heq]
      simp [accepted]
    · rw [heq, hactive]
      simp [accepted]

theorem packets_run (doorbell : ℕ) (is : List ℕ) (d : ChifDrvdata)
    (h : ∀ i ∈ is, i < maxChannels) :
    (Run.run (irqStep doorbell) d is).chif24Queue.1.packets
      = d.chif24Queue.1.packets ++
        (accepted ((callsFor doorbell d is).flatMap fun c => consumeTaken c.1 c.2)).map
          Taken.packet := by
  induction is generalizing d with
  | nil => simp [callsFor, Run.visits, accepted]
  | cons i is ih =>
    obtain ⟨hi, his⟩ := List.forall_mem_cons.mp h
    rw [Run.run_cons, ih _ his, packets_irqStep doorbell d hi, List.append_assoc, ← List.map_append,
      ← accepted_append, callsFor, callsFor, Run.visits, List.flatMap_cons, List.flatMap_append]
    rfl

private theorem mem_irqChannels {i : ℕ} (h : i ∈ irqChannels) : i < maxChannels := by
  rw [irqChannels, List.mem_reverse, List.mem_range] at h
  exact h

/-- **The queue after an interrupt**: the accepted packets behind those it had. -/
theorem packets_irq (d : ChifDrvdata) (doorbell : ℕ) :
    (chifIrqHandle d doorbell).chif24Queue.1.packets
      = d.chif24Queue.1.packets ++ (accepted (irqTaken d doorbell)).map Taken.packet :=
  packets_run doorbell irqChannels d fun _ => mem_irqChannels

/-! ### Where the packets come from and why some are dropped -/

/-- `chif_queue_push` accepts the packet, finds the queue full, or the packet
too large. -/
def Taken.RcOk (t : Taken) : Prop :=
  t.rc = 0 ∨ t.rc = -queueRcFull ∨
    t.rc = -queueRcPktOverSize ∧ sharedMemChifDescriptorSize < t.packet.length

private theorem takenEntry_rc (channel fifo desc : ℕ) (d : ChifDrvdata) (i : ℕ) :
    (takenEntry channel fifo desc d i).RcOk := by
  have hmax := d.chif24Queue.2.maxPktLen_eq
  rw [Taken.RcOk]
  show (chifQueuePush d.chif24Queue.1 _ _).1 = 0 ∨ (chifQueuePush d.chif24Queue.1 _ _).1 = _ ∨
    (chifQueuePush d.chif24Queue.1 _ _).1 = _ ∧ _
  rw [chifQueuePush]
  split
  · exact Or.inr (Or.inl rfl)
  · split
    · next hlen =>
      rw [hmax] at hlen
      refine Or.inr (Or.inr ⟨rfl, ?_⟩)
      show _ < (descPacket d.shmem desc (d.entry fifo i)).length
      rw [descPacket, read_length]
      exact hlen
    · exact Or.inl rfl

private theorem forall_takenLoop {P : Taken → Prop} {channel fifo desc : ℕ}
    (h : ∀ d i, P (takenEntry channel fifo desc d i)) :
    ∀ (n : ℕ) (d : ChifDrvdata), ∀ t ∈ takenLoop channel fifo desc n d, P t
  | 0, d => by simp [takenLoop]
  | n + 1, d => by
    rw [takenLoop]
    generalize getOccupiedEntry fifo d = r
    obtain ⟨idx, d'⟩ := r
    cases idx with
    | none => simp
    | some i =>
      dsimp only
      rw [List.forall_mem_cons]
      exact ⟨h d' i, forall_takenLoop h n _⟩

private theorem forall_consumeTaken {P : Taken → Prop} {channel : ℕ}
    (h : ∀ fifo desc d i, P (takenEntry channel fifo desc d i)) (d : ChifDrvdata) :
    ∀ t ∈ consumeTaken d channel, P t := by
  intro t ht
  rw [consumeTaken] at ht
  dsimp only at ht
  split at ht
  · exact forall_takenLoop (h _ _) _ _ t ht
  · exact absurd ht List.not_mem_nil

theorem irqTaken_rc {d : ChifDrvdata} {doorbell : ℕ} : ∀ t ∈ irqTaken d doorbell, t.RcOk := by
  intro t ht
  obtain ⟨c, -, hc⟩ := List.mem_flatMap.mp ht
  exact forall_consumeTaken (fun fifo desc d' i => takenEntry_rc c.2 fifo desc d' i) c.1 t hc

private theorem consumeTaken_channel {d : ChifDrvdata} {channel : ℕ} :
    ∀ t ∈ consumeTaken d channel, t.channel = channel :=
  forall_consumeTaken (fun _ _ _ _ => rfl) d

/-- The queue accepts as many packets as there is room for. -/
theorem accepted_consumeTaken_length (d : ChifDrvdata) {channel : ℕ} (hc : channel < maxChannels) :
    (accepted (consumeTaken d channel)).length
      = (enqueued d.chif24Queue (offered d channel)).length := by
  have hsize := (consumePacket_spec d hc).2.size
  have hpackets := congrArg List.length (packets_consumePacket d channel)
  rw [List.length_append, List.length_map, ChifQueue.packets, ChifQueue.packets, List.length_map,
    List.length_map, List.length_range, List.length_range] at hpackets
  omega

private theorem channel_lt_of_mem_consumeCalls {d : ChifDrvdata} {doorbell : ℕ}
    {c : ChifDrvdata × ℕ}
    (h : c ∈ consumeCalls d doorbell) : c.2 < maxChannels := by
  obtain ⟨v, hv, hc⟩ := List.mem_flatMap.mp h
  rw [callOf] at hc
  split at hc
  · have hi : v.2 ∈ irqChannels := Run.event_mem_of_mem_visits hv
    rw [List.mem_singleton.mp hc]
    exact mem_irqChannels hi
  · exact absurd hc List.not_mem_nil

/-- An interrupt queues a packet of a channel in `P` exactly when one of its
calls is made for such a channel and offers a packet the queue has room for. -/
theorem exists_accepted_iff (d : ChifDrvdata) (doorbell : ℕ) (P : ℕ → Prop) :
    (∃ t ∈ accepted (irqTaken d doorbell), P t.channel) ↔
      ∃ c ∈ consumeCalls d doorbell, P c.2 ∧ enqueued c.1.chif24Queue (offered c.1 c.2) ≠ [] := by
  have hcall : ∀ c ∈ consumeCalls d doorbell, (enqueued c.1.chif24Queue (offered c.1 c.2) ≠ [] ↔
      ∃ t, t ∈ accepted (consumeTaken c.1 c.2)) := by
    intro c hc
    have hlen := accepted_consumeTaken_length c.1 (channel_lt_of_mem_consumeCalls hc)
    rw [← List.length_pos_iff, ← hlen, List.length_pos_iff_exists_mem]
  constructor
  · rintro ⟨t, ht, hP⟩
    obtain ⟨hmem, hrc⟩ := List.mem_filter.mp ht
    obtain ⟨c, hc, htc⟩ := List.mem_flatMap.mp hmem
    refine ⟨c, hc, ?_, (hcall c hc).mpr ⟨t, List.mem_filter.mpr ⟨htc, hrc⟩⟩⟩
    rw [← consumeTaken_channel t htc]
    exact hP
  · rintro ⟨c, hc, hP, hne⟩
    obtain ⟨t, ht⟩ := (hcall c hc).mp hne
    obtain ⟨htc, hrc⟩ := List.mem_filter.mp ht
    refine ⟨t, List.mem_filter.mpr ⟨List.mem_flatMap.mpr ⟨c, hc, htc⟩, hrc⟩, ?_⟩
    rw [consumeTaken_channel t htc]
    exact hP

end Chif
