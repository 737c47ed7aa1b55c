/-
Fields of a byte string at an offset, as packed C structs have them.

* `field` — the `len` bytes at offset `off`;
* `uint8At`, `uintAt` — a byte and a little-endian integer at an offset;
* `field_append_right`, `field_append_left` — a field of `pre ++ bs` lies
  behind the prefix or inside it.

Nothing here knows about a particular program.
-/
import Canopy.Bytes

namespace Bytes

/-- The bytes `[off, off + len)`, as far as there are any. -/
def field (bs : Bytes) (off len : ℕ) : Bytes := (bs.drop off).take len

/-- The byte at `off`. -/
def uint8At (bs : Bytes) (off : ℕ) : UInt8 := bs.getD off 0

/-- The little-endian integer in the `len` bytes at `off`. -/
def uintAt (bs : Bytes) (off len : ℕ) : ℕ := toLE (field bs off len)

variable {pre bs post : Bytes} {off len : ℕ}

theorem field_length (h : off + len ≤ bs.length) : (field bs off len).length = len := by
  rw [field, List.length_take, List.length_drop]
  omega

theorem field_length_le (bs : Bytes) (off len : ℕ) : (field bs off len).length ≤ len :=
  List.length_take_le _ _

/-! ### Behind a prefix, and inside it -/

theorem field_append_right {i : ℕ} (h : pre.length = i) :
    field (pre ++ bs) (i + off) len = field bs off len := by
  subst h
  rw [field, field, List.drop_length_add_append]

theorem field_append_left (h : off + len ≤ pre.length) :
    field (pre ++ bs) off len = field pre off len :=
  slice_append h bs

/-- A block lies within the bytes it is a part of. -/
theorem length_block_le {mid : Bytes} (h : bs = pre ++ (mid ++ post)) :
    pre.length + mid.length ≤ bs.length := by
  rw [h, List.length_append, List.length_append]
  omega

/-- A whole block. -/
theorem field_block {i n : ℕ} {mid : Bytes} (hpre : pre.length = i) (hmid : mid.length = n) :
    field (pre ++ (mid ++ post)) i n = mid :=
  slice_block hpre hmid

theorem uint8At_append_right {i : ℕ} (h : pre.length = i) :
    uint8At (pre ++ bs) (i + off) = uint8At bs off := by
  subst h
  rw [uint8At, uint8At, List.getD_eq_getElem?_getD, List.getD_eq_getElem?_getD,
    List.getElem?_append_right (Nat.le_add_right _ _), Nat.add_sub_cancel_left]

/-! ### A field of a field -/

theorem uint8At_field {off' : ℕ} (h : off' < len) :
    uint8At (field bs off len) off' = uint8At bs (off + off') := by
  rw [uint8At, uint8At, field, List.getD_eq_getElem?_getD, List.getD_eq_getElem?_getD,
    List.getElem?_take_of_lt h, List.getElem?_drop]

theorem uintAt_lt (bs : Bytes) (off len : ℕ) : uintAt bs off len < 256 ^ len :=
  (toLE_lt _).trans_le (Nat.pow_le_pow_right (by norm_num) (field_length_le bs off len))

end Bytes
