/-
Index arithmetic of a ring buffer with `n` slots.

A ring is described by the index of its oldest element and the number of
elements; the slots in use are `slot n head i` for `i < size`.

* `next` — the index after `i`, wrapping to 0;
* `next_slot` — it is the slot one further;
* `slot_inj` — distinct elements lie in distinct slots;
* `exists_slot` — `n` elements fill the ring.

Nothing here knows about a particular program.
-/
import Mathlib.Data.Nat.ModEq
import Mathlib.Tactic.Common

namespace RingIndex

variable {n : ℕ}

/-- The slot `i` places after `head`. -/
def slot (n head i : ℕ) : ℕ := (head + i) % n

/-- `i++; if (i >= n) i = 0;` -/
def next (n i : ℕ) : ℕ := if i + 1 ≥ n then 0 else i + 1

theorem slot_lt (h : 0 < n) (head i : ℕ) : slot n head i < n := Nat.mod_lt _ h

theorem slot_zero {head : ℕ} (h : head < n) : slot n head 0 = head := Nat.mod_eq_of_lt h

theorem next_eq {i : ℕ} (h : i < n) : next n i = (i + 1) % n := by
  rw [next]
  split
  · next hge =>
    have : i + 1 = n := by omega
    rw [this, Nat.mod_self]
  · next hlt => rw [Nat.mod_eq_of_lt (by omega)]

theorem next_lt {i : ℕ} (h : i < n) : next n i < n := by
  rw [next_eq h]
  exact Nat.mod_lt _ (by omega)

theorem next_slot (h : 0 < n) (head i : ℕ) : next n (slot n head i) = slot n head (i + 1) := by
  rw [next_eq (slot_lt h head i), slot, slot, Nat.mod_add_mod, Nat.add_assoc]

/-- Moving the head on by one renumbers the slots. -/
theorem slot_next {head : ℕ} (h : head < n) (i : ℕ) :
    slot n (next n head) i = slot n head (i + 1) := by
  rw [next_eq h, slot, slot, Nat.mod_add_mod]
  congr 1
  omega

theorem slot_inj {head i j : ℕ} (hi : i < n) (hj : j < n) (h : slot n head i = slot n head j) :
    i = j := by
  have hmod : head + i ≡ head + j [MOD n] := h
  have := Nat.ModEq.add_left_cancel' head hmod
  rwa [Nat.ModEq, Nat.mod_eq_of_lt hi, Nat.mod_eq_of_lt hj] at this

/-- Every slot is some number of places after `head`. -/
theorem exists_slot {head i : ℕ} (hh : head < n) (hi : i < n) : ∃ k < n, i = slot n head k := by
  refine ⟨(i + (n - head)) % n, Nat.mod_lt _ (by omega), ?_⟩
  have hsum : head + (i + (n - head)) = i + n := by omega
  rw [slot, Nat.add_mod_mod, hsum, Nat.add_mod_right, Nat.mod_eq_of_lt hi]

theorem slot_self (head : ℕ) : slot n head n = head % n := Nat.add_mod_right head n

end RingIndex
