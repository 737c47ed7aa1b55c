/-
Bytes packed four to a 32-bit register.

Byte `k` of the bank at `base` is byte lane `k % 4` of the register at
`base + 4 * (k / 4)`; it is written by reading that register, replacing the lane
and writing the register back.

* `laneRead_laneWrite` — a bank read after a write to it;
* `laneWrite_of_lt` — registers below the bank are left alone.

Nothing here knows about a particular program.
-/
import Mathlib.Logic.Function.Basic
import Mathlib.Tactic.IntervalCases

namespace ByteLanes

/-- The register that holds byte `k`. -/
def laneAddr (base k : ℕ) : ℕ := base + 4 * (k / 4)

/-- `(value >> (8 * i)) & 0xff`. -/
def getLane (r : BitVec 32) (i : ℕ) : BitVec 8 := (r >>> (8 * i)).setWidth 8

/-- `(reg & ~(0xff << (8 * i))) | (value << (8 * i))`. -/
def setLane (r : BitVec 32) (i : ℕ) (v : BitVec 8) : BitVec 32 :=
  (r &&& ~~~(0xff#32 <<< (8 * i))) ||| (v.setWidth 32 <<< (8 * i))

def laneRead (regs : ℕ → BitVec 32) (base k : ℕ) : BitVec 8 :=
  getLane (regs (laneAddr base k)) (k % 4)

def laneWrite (regs : ℕ → BitVec 32) (base k : ℕ) (v : BitVec 8) : ℕ → BitVec 32 :=
  Function.update regs (laneAddr base k) (setLane (regs (laneAddr base k)) (k % 4) v)

theorem getLane_setLane_self (r : BitVec 32) {i : ℕ} (hi : i < 4) (v : BitVec 8) :
    getLane (setLane r i v) i = v := by
  refine BitVec.eq_of_getLsbD_eq fun b hb => ?_
  rw [getLane, setLane]
  interval_cases i <;> interval_cases b <;> simp

theorem getLane_setLane_of_ne (r : BitVec 32) {i j : ℕ} (hi : i < 4) (hj : j < 4) (hne : j ≠ i)
    (v : BitVec 8) : getLane (setLane r i v) j = getLane r j := by
  refine BitVec.eq_of_getLsbD_eq fun b hb => ?_
  rw [getLane, setLane, getLane]
  interval_cases i <;> interval_cases j <;> interval_cases b <;> simp at hne ⊢

/-- Reading a bank after writing one of its bytes. -/
theorem laneRead_laneWrite (regs : ℕ → BitVec 32) (base k j : ℕ) (v : BitVec 8) :
    laneRead (laneWrite regs base k v) base j
      = Function.update (laneRead regs base) k v j := by
  have hk : k % 4 < 4 := Nat.mod_lt _ (by decide)
  have hj : j % 4 < 4 := Nat.mod_lt _ (by decide)
  rw [laneRead, laneWrite]
  by_cases hsame : j = k
  · rw [hsame, Function.update_self, Function.update_self, getLane_setLane_self _ hk]
  · rw [Function.update_of_ne hsame]
    by_cases haddr : laneAddr base j = laneAddr base k
    · -- another lane of the register written
      have hlane : j % 4 ≠ k % 4 := by
        rw [laneAddr, laneAddr] at haddr
        omega
      rw [haddr, Function.update_self, getLane_setLane_of_ne _ hk hj hlane, ← haddr]
      rfl
    · rw [Function.update_of_ne haddr]
      rfl

theorem laneWrite_of_lt (regs : ℕ → BitVec 32) {base a : ℕ} (h : a < base) (k : ℕ)
    (v : BitVec 8) : laneWrite regs base k v a = regs a := by
  have hne : a ≠ laneAddr base k := by
    rw [laneAddr]
    omega
  rw [laneWrite, Function.update_of_ne hne]

/-- Writing a register below the bank does not change its bytes. -/
theorem laneRead_update_of_lt (regs : ℕ → BitVec 32) {base a : ℕ} (h : a < base)
    (r : BitVec 32) : laneRead (Function.update regs a r) base = laneRead regs base := by
  funext k
  have hne : laneAddr base k ≠ a := by
    rw [laneAddr]
    omega
  rw [laneRead, laneRead, Function.update_of_ne hne]

end ByteLanes
