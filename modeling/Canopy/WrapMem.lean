/-
Byte memory over an address space of `n` bytes whose addresses wrap around.

* `read`, `write` — blocks of bytes at an address taken modulo `n`;
* `read_write_self`, `read_write_disjoint` — reading after a write;
* `read_write_prefix`, `write_write` — a write to the first bytes of a block;
* `forall_addr_lt_iff` — when a block lies below a limit.

Nothing here knows about a particular program.
-/
import Canopy.Bytes
import Mathlib.Data.List.GetD

namespace WrapMem

open Bytes

variable {n : ℕ}

/-- The `len` bytes from address `a` on. -/
def read (n : ℕ) (m : ℕ → UInt8) (a len : ℕ) : Bytes :=
  (List.range len).map fun i => m ((a + i) % n)

/-- How far address `x` lies behind address `a`. -/
def offset (n a x : ℕ) : ℕ := (x + n - a % n) % n

/-- The memory with the bytes `bs` at address `a`. -/
def write (n : ℕ) (m : ℕ → UInt8) (a : ℕ) (bs : Bytes) : ℕ → UInt8 :=
  fun x => bs.getD (offset n a x) (m x)

@[simp] theorem read_length (n : ℕ) (m : ℕ → UInt8) (a len : ℕ) :
    (read n m a len).length = len := by
  simp [read]

theorem offset_add {i : ℕ} (h : i < n) (a : ℕ) : offset n a ((a + i) % n) = i := by
  have ha : a % n < n := Nat.mod_lt _ (by omega)
  rw [offset, ← Nat.mod_add_mod]
  by_cases hwrap : a % n + i < n
  · rw [Nat.mod_eq_of_lt hwrap, show a % n + i + n - a % n = i + n by omega, Nat.add_mod_right,
      Nat.mod_eq_of_lt h]
  · have hval : (a % n + i) % n = a % n + i - n := by
      rw [Nat.mod_eq_sub_mod (by omega), Nat.mod_eq_of_lt (by omega)]
    rw [hval, show a % n + i - n + n - a % n = i by omega, Nat.mod_eq_of_lt h]

/-- A block that was written reads back. -/
theorem read_write_self (m : ℕ → UInt8) (a : ℕ) {bs : Bytes} (h : bs.length ≤ n) :
    read n (write n m a bs) a bs.length = bs := by
  refine List.ext_getElem (by simp) fun i hi hi' => ?_
  simp only [read, List.getElem_map, List.getElem_range, write, offset_add (show i < n by omega)]
  exact List.getD_eq_getElem _ _ hi'

/-- A block that the written one does not reach is unchanged. -/
theorem read_write_of_offset (m : ℕ → UInt8) {a b len : ℕ} {bs : Bytes}
    (h : ∀ j < len, bs.length ≤ offset n a ((b + j) % n)) :
    read n (write n m a bs) b len = read n m b len := by
  refine List.map_congr_left fun j hj => ?_
  exact List.getD_eq_default _ _ (h j (List.mem_range.mp hj))

/-- Blocks that lie apart, neither of them wrapping around. -/
theorem read_write_disjoint (m : ℕ → UInt8) {a b len : ℕ} {bs : Bytes} (ha : a + bs.length ≤ n)
    (hb : b + len ≤ n) (h : b + len ≤ a ∨ a + bs.length ≤ b) :
    read n (write n m a bs) b len = read n m b len := by
  by_cases hlen : len = 0
  · subst hlen
    rfl
  · refine read_write_of_offset m fun j hj => ?_
    by_cases hnil : bs.length = 0
    · rw [hnil]
      exact Nat.zero_le _
    · have hmod : a % n = a := Nat.mod_eq_of_lt (by omega)
      rw [offset, Nat.mod_eq_of_lt (show b + j < n by omega), hmod]
      -- the block read lies wholly before the one written, or wholly behind it
      rcases h with hbefore | hbehind
      · rw [Nat.mod_eq_of_lt (by omega)]
        omega
      · have hsum : b + j + n - a = b + j - a + n := by omega
        rw [hsum, Nat.add_mod_right, Nat.mod_eq_of_lt (by omega)]
        omega

theorem read_add (m : ℕ → UInt8) (a i j : ℕ) :
    read n m a (i + j) = read n m a i ++ read n m (a + i) j := by
  rw [read, List.range_add, List.map_append, List.map_map, read, read]
  congr 1
  refine List.map_congr_left fun k _ => ?_
  rw [Function.comp_apply, Nat.add_assoc]

/-- A block whose first bytes were written. -/
theorem read_write_prefix (m : ℕ → UInt8) {a len : ℕ} {bs : Bytes} (ha : a + len ≤ n)
    (h : bs.length ≤ len) :
    read n (write n m a bs) a len = bs ++ (read n m a len).drop bs.length := by
  obtain ⟨k, rfl⟩ := Nat.exists_eq_add_of_le h
  have hself := read_write_self m a (show bs.length ≤ n by omega)
  have hrest : read n (write n m a bs) (a + bs.length) k = read n m (a + bs.length) k :=
    read_write_disjoint m (by omega) (by omega) (Or.inr (Nat.le_refl _))
  rw [read_add, read_add, hself, hrest, List.drop_left' (read_length n m a bs.length)]

theorem write_write (m : ℕ → UInt8) (a : ℕ) (bs bs' : Bytes) :
    write n (write n m a bs) a bs' = write n m a (bs' ++ bs.drop bs'.length) := by
  funext x
  by_cases hx : offset n a x < bs'.length
  · simp only [write, List.getD_append _ _ _ _ hx]
    rw [List.getD_eq_getElem _ _ hx, List.getD_eq_getElem _ _ hx]
  · rw [not_lt] at hx
    simp only [write, List.getD_append_right _ _ _ _ hx, List.getD_eq_default _ _ hx]
    rw [List.getD_eq_getElem?_getD, List.getD_eq_getElem?_getD, List.getElem?_drop,
      Nat.add_sub_of_le hx]

/-- A block lies below `limit` exactly when its end does. -/
theorem forall_addr_lt_iff {a len limit : ℕ} (hpos : 0 < len) (h : limit + len ≤ n) :
    (∀ i < len, (a + i) % n < limit) ↔ a % n + len ≤ limit := by
  have ha : a % n < n := Nat.mod_lt _ (by omega)
  constructor
  · intro hall
    by_contra hcon
    have h0 : a % n < limit := by
      have := hall 0 hpos
      rwa [Nat.add_zero] at this
    -- the byte at `limit` itself belongs to the block
    have hlast := hall (limit - a % n) (by omega)
    rw [← Nat.mod_add_mod, show a % n + (limit - a % n) = limit by omega,
      Nat.mod_eq_of_lt (by omega)] at hlast
    omega
  · intro hend i hi
    rw [← Nat.mod_add_mod, Nat.mod_eq_of_lt (by omega)]
    omega

end WrapMem
