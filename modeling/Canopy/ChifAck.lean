/-
Are the packets the driver acknowledges the packets userspace gets?

`acked` watches the shared memory: it lists the packets whose FIFO entry on
channel 24 turns from pending to consumed in the interrupts of a run.

* `acked_perm` — where the acknowledged packets are at the end of a run;
* `acked_not_perm` — the packets dropped at a full queue are acknowledged too.
-/
import Canopy.ChifFlow
import Canopy.ChifPosted

namespace Chif

open Bytes

namespace ChifFlow

/-! ### The host -/

/-- The host leaves the memory posted, and an entry that is still pending as it is. -/
def Obeys (s : ChifFlow) : Event → Prop
  | .host shmem => Posted shmem ∧ ∀ i < sharedMemChifDescriptorNum,
      (entryOf s.driver.shmem i).pending = true →
        fifoOf shmem = fifoOf s.driver.shmem ∧ entryOf shmem i = entryOf s.driver.shmem i ∧
          descPacket shmem (descOf shmem) (entryOf shmem i)
            = descPacket s.driver.shmem (descOf s.driver.shmem) (entryOf s.driver.shmem i)
  | _ => True

instance (s : ChifFlow) (e : Event) : Decidable (s.Obeys e) := by
  cases e <;> (unfold Obeys; infer_instance)

/-- The packets acknowledged by one step. -/
def ackedStep (s : ChifFlow) : Event → List Bytes
  | .irq doorbell => ackedBy s.driver.shmem (step s (.irq doorbell)).driver.shmem
  | _ => []

/-- The packets acknowledged in a run. -/
def acked (shmem : Shmem) (es : List Event) : List Bytes :=
  (Run.visits step (probe shmem) es).flatMap fun v => v.1.ackedStep v.2

/-- The packets dropped at a full queue. -/
def full (s : ChifFlow) : List Bytes :=
  (s.taken.filter fun t => t.rc = -queueRcFull).map Taken.packet

/-! ### Acknowledged and taken packets -/

/-- Between two steps of the run: the memory is posted and only packets that fit
a slot were taken. -/
structure Fair (s : ChifFlow) : Prop where
  posted : Posted s.driver.shmem
  fits : ∀ t ∈ s.taken, t.packet.length ≤ sharedMemChifDescriptorSize

/-- Acknowledged packets fit a slot. -/
theorem length_le_of_mem_ackedBy {m m' : Shmem} (hm : Posted m) :
    ∀ p ∈ ackedBy m m', p.length ≤ sharedMemChifDescriptorSize := by
  intro p hp
  obtain ⟨i, hi, hpi⟩ := List.mem_map.mp hp
  obtain ⟨hmem, hcond⟩ := List.mem_filter.mp hi
  have hlt : i < sharedMemChifDescriptorNum := by
    simp only [List.mem_cons, List.not_mem_nil, or_false] at hmem
    rw [sharedMemChifDescriptorNum]
    omega
  rw [Bool.and_eq_true] at hcond
  obtain ⟨-, -, hlen, -⟩ := hm.2.2.2 i hlt hcond.1
  rw [← hpi, descPacket, WrapMem.read_length]
  exact hlen

theorem fair_step {s : ChifFlow} {e : Event} (h : s.Fair) (hobeys : s.Obeys e) :
    (step s e).Fair ∧
      (step s e).taken.map Taken.packet = s.taken.map Taken.packet ++ s.ackedStep e := by
  cases e with
  | host shmem => exact ⟨⟨hobeys.1, h.fits⟩, (List.append_nil _).symm⟩
  | read c fault => exact ⟨⟨h.posted, h.fits⟩, (List.append_nil _).symm⟩
  | irq doorbell =>
    obtain ⟨hposted, htaken⟩ := posted_irq h.posted doorbell
    have hstep : (step s (.irq doorbell)).taken = s.taken ++ irqTaken s.driver doorbell := rfl
    refine ⟨⟨hposted, ?_⟩, ?_⟩
    · intro t ht
      rw [hstep] at ht
      rcases List.mem_append.mp ht with hold | hnew
      · exact h.fits t hold
      · -- what the interrupt takes was posted, and a posted packet fits a queue entry
        have hmem : t.packet ∈ (irqTaken s.driver doorbell).map Taken.packet :=
          List.mem_map_of_mem hnew
        rw [htaken] at hmem
        exact length_le_of_mem_ackedBy h.posted t.packet hmem
    · rw [hstep, List.map_append, htaken]
      rfl

private theorem fair_probe {shmem : Shmem} (hm : Posted shmem) : (probe shmem).Fair where
  posted := hm
  fits := fun _ ht => absurd ht List.not_mem_nil

/-- **What the driver took is what it acknowledged.** -/
theorem fair_run {s : ChifFlow} (h : s.Fair) {es : List Event}
    (hobeys : ∀ v ∈ Run.visits step s es, v.1.Obeys v.2) :
    (Run.run step s es).Fair ∧ (Run.run step s es).taken.map Taken.packet
      = s.taken.map Taken.packet ++
        (Run.visits step s es).flatMap fun v => v.1.ackedStep v.2 := by
  induction es generalizing s with
  | nil => exact ⟨h, (List.append_nil _).symm⟩
  | cons e es ih =>
    rw [Run.visits, List.forall_mem_cons] at hobeys
    obtain ⟨hfair, htaken⟩ := fair_step h hobeys.1
    obtain ⟨hend, hrest⟩ := ih hfair hobeys.2
    rw [Run.run_cons, Run.visits, List.flatMap_cons, hrest, htaken, List.append_assoc]
    exact ⟨hend, rfl⟩

/-- With packets that fit, a packet is dropped only at a full queue. -/
theorem dropped_eq_full {s : ChifFlow} (h : s.Inv) (hfair : s.Fair) : s.dropped = s.full := by
  have hne : -queueRcFull ≠ 0 := by decide
  rw [dropped, full]
  refine congrArg (List.map Taken.packet) (List.filter_congr fun t ht => ?_)
  rcases h.rc t ht with hzero | hfull | ⟨-, hover⟩
  · simp [hzero, hne.symm]
  · simp [hfull, hne]
  · have hfits := hfair.fits t ht
    omega

/-- **Where the acknowledged packets are**: returned by `chif_read`, queued,
dropped at a full queue, or lost to a failing `copy_to_user`; so none is lost or
duplicated exactly in the runs in which no push finds the queue full and no copy
fails. -/
theorem acked_perm {shmem : Shmem} (hm : Posted shmem) {es : List Event}
    (hobeys : ∀ v ∈ Run.visits step (probe shmem) es, v.1.Obeys v.2) :
    let s := Run.run step (probe shmem) es
    (acked shmem es).Perm (s.returned ++ s.queued ++ s.full ++ s.faulted) ∧
      ((acked shmem es).Perm (s.returned ++ s.queued) ↔ s.full = [] ∧ s.faulted = []) := by
  intro s
  obtain ⟨hfair, htaken⟩ := fair_run (fair_probe hm) hobeys
  have hinv : s.Inv := inv_run shmem es
  have hacked : s.taken.map Taken.packet = acked shmem es := htaken
  have hall := taken_perm hinv
  rw [hacked, dropped_eq_full hinv hfair] at hall
  refine ⟨hall, ?_, ?_⟩
  · intro hsome
    have hlen := (hall.symm.trans hsome).length_eq
    rw [List.length_append, List.length_append] at hlen
    exact ⟨List.length_eq_zero_iff.mp (by omega), List.length_eq_zero_iff.mp (by omega)⟩
  · rintro ⟨hfull, hfaulted⟩
    rw [hfull, hfaulted, List.append_nil, List.append_nil] at hall
    exact hall

/-- A host with two 8-byte packets posted on channel 24, its FIFO at offset 4096
and its descriptors at 8192. -/
def twoPackets : Shmem := fun x =>
  if x = ccbSize * channelSharemem + ccbSqFifo + 1 then 0x10
  else if x = ccbSize * channelSharemem + ccbSqDesc + 1 then 0x20
  else if x = ccbSize * channelSharemem + ccbSqCtrl + 3 then 0x80
  else if x = 0x1000 ∨ x = 0x1008 then 1
  else if x = 0x1002 ∨ x = 0x100a then 0x80
  else if x = 0x1009 then 0x04
  else 0

/-- The two packets are posted again each time they are consumed, and nothing is read. -/
def nineDoorbells : List Event :=
  .irq (2 ^ channelSharemem) ::
    (List.replicate 8 [.host twoPackets, .irq (2 ^ channelSharemem)]).flatten

/-- Eighteen packets are acknowledged; the queue has room for sixteen. -/
theorem acked_not_perm : Posted twoPackets ∧
    (∀ v ∈ Run.visits step (probe twoPackets) nineDoorbells, v.1.Obeys v.2) ∧
    ¬(acked twoPackets nineDoorbells).Perm
      ((Run.run step (probe twoPackets) nineDoorbells).returned ++
        (Run.run step (probe twoPackets) nineDoorbells).queued) := by
  refine ⟨by decide +kernel, by decide +kernel, fun hperm => ?_⟩
  have hlen := hperm.length_eq
  revert hlen
  decide +kernel

/-- Two packets acknowledged, and two more posted by the host. -/
theorem acked_perm_twoPackets :
    let es : List Event := [.irq (2 ^ channelSharemem), .host twoPackets]
    let s := Run.run step (probe twoPackets) es
    (acked twoPackets es).Perm (s.returned ++ s.queued ++ s.full ++ s.faulted) ∧
      ((acked twoPackets es).Perm (s.returned ++ s.queued) ↔ s.full = [] ∧ s.faulted = []) :=
  acked_perm (by decide +kernel) (by decide +kernel)

end ChifFlow

end Chif
