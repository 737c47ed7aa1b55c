/-
Setting and clearing the bits of a mask.

* `or_and_of_sub`, `and_not_and_of_sub` — what a mask covers, set or cleared;
* `or_and_of_disjoint`, `and_not_and_of_disjoint` — the bits outside it;
* `writeOneToClear` — a register whose flags are cleared by writing ones, with what
  a write leaves of a flag (`writeOneToClear_and`) and of another bit
  (`writeOneToClear_and_of_disjoint`).

Nothing here knows about a particular program.
-/
import Mathlib.Tactic.Common

namespace BitMask

variable {w : ℕ}

/-- Setting `m` sets what it covers. -/
theorem or_and_of_sub {m m' : BitVec w} (h : m' &&& m = m') (x : BitVec w) :
    (x ||| m) &&& m' = m' := by
  refine BitVec.eq_of_getLsbD_eq fun i _ => ?_
  have hbit := congrArg (BitVec.getLsbD · i) h
  simp only [BitVec.getLsbD_and] at hbit
  rw [BitVec.getLsbD_and, BitVec.getLsbD_or, ← hbit]
  cases x.getLsbD i <;> cases m.getLsbD i <;> simp

/-- Clearing `m` clears what it covers. -/
theorem and_not_and_of_sub {m m' : BitVec w} (h : m' &&& m = m') (x : BitVec w) :
    (x &&& ~~~m) &&& m' = 0 := by
  rw [← h, BitVec.and_comm m' m, ← BitVec.and_assoc, BitVec.and_assoc x, BitVec.and_comm (~~~m),
    BitVec.and_not_self, BitVec.ofNat_eq_ofNat, BitVec.and_zero, BitVec.zero_and]

/-- Setting `m` leaves the bits outside it. -/
theorem or_and_of_disjoint {m m' : BitVec w} (h : m &&& m' = 0) (x : BitVec w) :
    (x ||| m) &&& m' = x &&& m' := by
  rw [BitVec.and_or_distrib_right, h, BitVec.ofNat_eq_ofNat, BitVec.or_zero]

/-- Clearing `m` leaves the bits outside it. -/
theorem and_not_and_of_disjoint {m m' : BitVec w} (h : m &&& m' = 0) (x : BitVec w) :
    (x &&& ~~~m) &&& m' = x &&& m' := by
  refine BitVec.eq_of_getLsbD_eq fun i hi => ?_
  have hbit := congrArg (BitVec.getLsbD · i) h
  simp only [BitVec.getLsbD_and, BitVec.ofNat_eq_ofNat, BitVec.getLsbD_zero] at hbit
  simp only [BitVec.getLsbD_and, BitVec.getLsbD_not, hi, decide_true, Bool.true_and]
  cases hm : m.getLsbD i
  · simp
  · rw [hm, Bool.true_and] at hbit
    rw [hbit, Bool.and_false, Bool.and_false]

theorem or_and_self_right (x m : BitVec w) : (x ||| m) &&& m = m := or_and_of_sub BitVec.and_self x

theorem and_not_self_right (x m : BitVec w) : (x &&& ~~~m) &&& m = 0 :=
  and_not_and_of_sub BitVec.and_self x

/-- The register after a write of `value`: ones clear the `flags`, the other bits are stored. -/
def writeOneToClear (flags reg value : BitVec w) : BitVec w :=
  (reg &&& ~~~value &&& flags) ||| (value &&& ~~~flags)

/-- A flag stays if the value written does not carry it. -/
theorem writeOneToClear_and {flags m : BitVec w} (hm : m &&& flags = m) (reg value : BitVec w) :
    writeOneToClear flags reg value &&& m = reg &&& ~~~value &&& m := by
  refine BitVec.eq_of_getLsbD_eq fun i hi => ?_
  have hbit := congrArg (BitVec.getLsbD · i) hm
  simp only [BitVec.getLsbD_and] at hbit
  simp only [writeOneToClear, BitVec.getLsbD_and, BitVec.getLsbD_or, BitVec.getLsbD_not]
  cases hbm : m.getLsbD i
  · simp
  · rw [hbm, Bool.true_and] at hbit
    simp [hbit]

/-- The other bits are those of the value written. -/
theorem writeOneToClear_and_of_disjoint {flags m : BitVec w} (hm : m &&& flags = 0)
    (reg value : BitVec w) : writeOneToClear flags reg value &&& m = value &&& m := by
  refine BitVec.eq_of_getLsbD_eq fun i hi => ?_
  have hbit := congrArg (BitVec.getLsbD · i) hm
  simp only [BitVec.getLsbD_and] at hbit
  simp only [writeOneToClear, BitVec.getLsbD_and, BitVec.getLsbD_or, BitVec.getLsbD_not]
  cases hbm : m.getLsbD i
  · simp
  · rw [hbm, Bool.true_and, BitVec.ofNat_eq_ofNat, BitVec.getLsbD_zero] at hbit
    simp only [hbit, hi, Bool.and_false, Bool.false_or, decide_true, Bool.not_false,
      Bool.and_true]

end BitMask
