/-
What the doorbell interrupt handler does, whatever the shared memory holds.

`consumeCalls` lists the calls of `consume_packet` the handler makes, each with
the state it finds.  `handled_irq` reads the effect of a whole interrupt off
that list: whether its accesses stay in the window, whether it leaves a packet
in the queue, and whose reader it wakes.
-/
import Canopy.ChifConsume
import Canopy.Run

namespace Chif

open Bytes WrapMem ChifDrvdata

/-! ### One channel -/

/-- The doorbell rings for channel `i` and the host has set its go bit. -/
def Serviced (doorbell : ℕ) (d : ChifDrvdata) (i : ℕ) : Prop :=
  doorbell.testBit i = true ∧ ccbField d.shmem i ccbSqCtrl &&& ccbCtrlGoMask ≠ 0

instance (doorbell : ℕ) (d : ChifDrvdata) (i : ℕ) : Decidable (Serviced doorbell d i) := by
  unfold Serviced
  infer_instance

/-- `active_ccb` answers by the go bit and touches only the control block. -/
theorem activeCcb_spec (d : ChifDrvdata) {i : ℕ} (hi : i < maxChannels) :
    ((activeCcb d i).1 < 0 ↔ ccbField d.shmem i ccbSqCtrl &&& ccbCtrlGoMask = 0) ∧
      ((activeCcb d i).2.Inside ↔ d.Inside) ∧
      (activeCcb d i).2.chif24Queue = d.chif24Queue ∧
      (activeCcb d i).2.waiting = d.waiting ∧ (activeCcb d i).2.woken = d.woken := by
  have hblock : InWindow (ccbSize * i + ccbSqCtrl, 8) := inWindow_ccb hi (by decide)
  have hread : (d.getCcb i ccbSqCtrl).2.Inside ↔ d.Inside := by
    rw [inside_getCcb, and_iff_left hblock]
  have hwrite : ∀ value, ((d.getCcb i ccbSqCtrl).2.setCcb i ccbSqCtrl value).Inside ↔ d.Inside := by
    intro value
    rw [inside_setCcb, and_iff_left hblock, hread]
  have heq : activeCcb d i =
      if ccbField d.shmem i ccbSqCtrl &&& ccbCtrlGoMask = 0 then
        (-1, (d.getCcb i ccbSqCtrl).2.setCcb i ccbSqCtrl
          (ccbField d.shmem i ccbSqCtrl &&& (2 ^ 64 - 1 - ccbCtrlActiveMask)))
      else if ccbField d.shmem i ccbSqCtrl &&& ccbCtrlActiveMask = 0 then
        (1, (d.getCcb i ccbSqCtrl).2.setCcb i ccbSqCtrl
          (ccbField d.shmem i ccbSqCtrl ||| ccbCtrlActiveMask))
      else (1, (d.getCcb i ccbSqCtrl).2) := rfl
  rw [heq]
  -- without the go bit the active bit is cleared, else it is set once
  by_cases hgo : ccbField d.shmem i ccbSqCtrl &&& ccbCtrlGoMask = 0
  · rw [if_pos hgo]
    exact ⟨iff_of_true (by simp) hgo, hwrite _, rfl, rfl, rfl⟩
  · rw [if_neg hgo]
    split
    · exact ⟨iff_of_false (by simp) hgo, hwrite _, rfl, rfl, rfl⟩
    · exact ⟨iff_of_false (by simp) hgo, hread, rfl, rfl, rfl⟩

/-- The call of `consume_packet` made for a channel, if there is one. -/
def callOf (doorbell : ℕ) (v : ChifDrvdata × ℕ) : List (ChifDrvdata × ℕ) :=
  if Serviced doorbell v.1 v.2 then [((activeCcb v.1 v.2).2, v.2)] else []

theorem irqStep_of_not_serviced {doorbell : ℕ} {d : ChifDrvdata} {i : ℕ} (hi : i < maxChannels)
    (h : ¬Serviced doorbell d i) :
    irqStep doorbell d i = d ∨ irqStep doorbell d i = (activeCcb d i).2 := by
  rw [irqStep]
  split
  · next hbit =>
    have hgo := not_not.mp fun hgo => h ⟨hbit, hgo⟩
    have hneg := (activeCcb_spec d hi).1.mpr hgo
    right
    exact if_pos hneg
  · exact Or.inl rfl

theorem irqStep_of_serviced {doorbell : ℕ} {d : ChifDrvdata} {i : ℕ} (hi : i < maxChannels)
    (h : Serviced doorbell d i) :
    irqStep doorbell d i =
      if (consumePacket (activeCcb d i).2 i).1 > 0 ∧
          (consumePacket (activeCcb d i).2 i).2.waiting i = true then
        wakeUpInterruptible (consumePacket (activeCcb d i).2 i).2 i
      else (consumePacket (activeCcb d i).2 i).2 := by
  obtain ⟨hbit, hgo⟩ := h
  have hpos : ¬(activeCcb d i).1 < 0 := fun hneg => hgo ((activeCcb_spec d hi).1.mp hneg)
  rw [irqStep, if_pos hbit]
  exact if_neg hpos

/-- The effect of the handler on one channel, in terms of the call it makes. -/
structure Handled (calls : List (ChifDrvdata × ℕ)) (d d' : ChifDrvdata) : Prop where
  inside : d'.Inside ↔ d.Inside ∧ ∀ c ∈ calls, ConsumeInRange c.1 c.2
  size : d'.chif24Queue.1.size = 0 ↔ d.chif24Queue.1.size = 0 ∧
    ∀ c ∈ calls, enqueued c.1.chif24Queue (offered c.1 c.2) = []
  pushed : PushedFrom d.chif24Queue d'.chif24Queue
  waiting : d'.waiting = d.waiting
  woken : ∀ i, i ∈ d'.woken ↔
    i ∈ d.woken ∨ ∃ c ∈ calls, c.2 = i ∧ nonEmptyPackets c.1 c.2 > 0 ∧ d.waiting i = true

theorem Handled.trans {calls calls' : List (ChifDrvdata × ℕ)} {d d' d'' : ChifDrvdata}
    (h : Handled calls d d') (h' : Handled calls' d' d'') : Handled (calls ++ calls') d d'' where
  inside := by rw [h'.inside, h.inside, List.forall_mem_append, and_assoc]
  size := by rw [h'.size, h.size, List.forall_mem_append, and_assoc]
  pushed := h.pushed.trans h'.pushed
  waiting := h'.waiting.trans h.waiting
  woken := by
    intro i
    rw [h'.woken, h.woken, h.waiting, or_assoc]
    simp only [List.mem_append, or_and_right, exists_or]

private theorem handled_refl (d : ChifDrvdata) : Handled [] d d where
  inside := by simp
  size := by simp
  pushed := .refl
  waiting := rfl
  woken := by simp

private theorem handled_activeCcb (d : ChifDrvdata) {i : ℕ} (hi : i < maxChannels) :
    Handled [] d (activeCcb d i).2 := by
  obtain ⟨-, hinside, hqueue, hwaiting, hwoken⟩ := activeCcb_spec d hi
  refine ⟨by simp [hinside], by simp [hqueue], ?_, hwaiting, by simp [hwoken]⟩
  rw [hqueue]
  exact .refl

/-- One call of `consume_packet`; waking changes neither the memory nor the queue. -/
theorem handled_consumed {d d1 d2 : ChifDrvdata} {i : ℕ} (h : Consumed i d d1)
    (htouched : d2.touched = d1.touched) (hqueue : d2.chif24Queue = d1.chif24Queue)
    (hwaiting : d2.waiting = d1.waiting)
    (hwoken : ∀ j, j ∈ d2.woken ↔ j ∈ d.woken ∨
      (i = j ∧ nonEmptyPackets d i > 0 ∧ d.waiting j = true)) : Handled [(d, i)] d d2 := by
  refine ⟨?_, ?_, ?_, hwaiting.trans h.waiting, ?_⟩
  · rw [inside_congr htouched, h.inside, List.forall_mem_singleton]
  · rw [hqueue, h.size, List.forall_mem_singleton, Nat.add_eq_zero_iff, List.length_eq_zero_iff]
  · rw [hqueue]
    exact h.pushed
  · intro j
    rw [hwoken]
    simp

private theorem handled_irqStep (doorbell : ℕ) (d : ChifDrvdata) {i : ℕ} (hi : i < maxChannels) :
    Handled (callOf doorbell (d, i)) d (irqStep doorbell d i) := by
  rw [callOf]
  by_cases h : Serviced doorbell d i
  · rw [if_pos h, irqStep_of_serviced hi h]
    have hactive := handled_activeCcb d hi
    rw [← List.nil_append [((activeCcb d i).2, i)]]
    refine hactive.trans ?_
    obtain ⟨hn, hconsumed⟩ := consumePacket_spec (activeCcb d i).2 hi
    generalize (activeCcb d i).2 = d1 at hn hconsumed
    rw [hn, hconsumed.waiting]
    split
    · next hwake =>
      refine handled_consumed hconsumed rfl rfl rfl ?_
      intro j
      show j ∈ (consumePacket d1 i).2.woken ++ [i] ↔ _
      rw [hconsumed.woken, List.mem_append, List.mem_singleton]
      refine or_congr_right ⟨?_, fun hj => hj.1.symm⟩
      rintro rfl
      exact ⟨rfl, hwake⟩
    · next hwake =>
      refine handled_consumed hconsumed rfl rfl rfl ?_
      intro j
      rw [hconsumed.woken]
      refine ⟨Or.inl, fun hj => hj.resolve_right ?_⟩
      rintro ⟨rfl, hrest⟩
      exact hwake hrest
  · rw [if_neg h]
    rcases irqStep_of_not_serviced hi h with heq | heq
    · rw [heq]
      exact handled_refl d
    · rw [heq]
      exact handled_activeCcb d hi

/-! ### The whole interrupt -/

/-- The calls of `consume_packet` made for the channels `is`. -/
def callsFor (doorbell : ℕ) (d : ChifDrvdata) (is : List ℕ) : List (ChifDrvdata × ℕ) :=
  (Run.visits (irqStep doorbell) d is).flatMap (callOf doorbell)

theorem handled_run (doorbell : ℕ) (is : List ℕ) (d : ChifDrvdata)
    (h : ∀ i ∈ is, i < maxChannels) :
    Handled (callsFor doorbell d is) d (Run.run (irqStep doorbell) d is) := by
  induction is generalizing d with
  | nil => exact handled_refl d
  | cons i is ih =>
    obtain ⟨hi, his⟩ := List.forall_mem_cons.mp h
    have hhead := handled_irqStep doorbell d hi
    have htail := ih (irqStep doorbell d i) his
    rw [Run.run_cons, callsFor, Run.visits, List.flatMap_cons]
    exact hhead.trans htail

/-- The calls of `consume_packet` in one interrupt, each with the state it finds. -/
def consumeCalls (d : ChifDrvdata) (doorbell : ℕ) : List (ChifDrvdata × ℕ) :=
  callsFor doorbell d irqChannels

/-- **One interrupt**: everything it does follows from its calls. -/
theorem handled_irq (d : ChifDrvdata) (doorbell : ℕ) :
    Handled (consumeCalls d doorbell) d (chifIrqHandle d doorbell) := by
  refine handled_run doorbell irqChannels d fun i hi => ?_
  rw [irqChannels, List.mem_reverse, List.mem_range] at hi
  exact hi

end Chif
