/-
Byte strings as C and C++ code handles them.

* `toLE`, `ofLE` — little-endian integers of a given width;
* `take_block`, `slice_block` — reading back a field of known length;
* `memcpyAt` — `memcpy` of a block into a buffer at an offset;
* `cstr` — the C string a buffer starts with (everything before the first NUL);
* `padTo` — a string stored in a fixed-width NUL-padded field.

Nothing here knows about a particular program.
-/
import Mathlib.Data.List.TakeWhile
import Mathlib.Tactic.Ring

abbrev Bytes := List UInt8

namespace Bytes

/-! ### Little-endian integers -/

/-- The value of a little-endian byte string. -/
def toLE : Bytes → ℕ
  | [] => 0
  | b :: bs => b.toNat + 256 * toLE bs

/-- The `w` low bytes of `n`, least significant byte first. -/
def ofLE : ℕ → ℕ → Bytes
  | 0, _ => []
  | w + 1, n => UInt8.ofNat n :: ofLE w (n / 256)

@[simp] theorem ofLE_length (w n : ℕ) : (ofLE w n).length = w := by
  induction w generalizing n with
  | zero => rfl
  | succ w ih => rw [ofLE, List.length_cons, ih]

theorem toLE_ofLE (w n : ℕ) : toLE (ofLE w n) = n % 256 ^ w := by
  induction w generalizing n with
  | zero => simp [ofLE, toLE, Nat.mod_one]
  | succ w ih =>
    rw [ofLE, toLE, ih, pow_succ, Nat.mul_comm (256 ^ w) 256, Nat.mod_mul]
    simp

theorem toLE_ofLE_of_lt {w n : ℕ} (h : n < 256 ^ w) : toLE (ofLE w n) = n := by
  rw [toLE_ofLE, Nat.mod_eq_of_lt h]

theorem ofLE_toLE (bs : Bytes) : ofLE bs.length (toLE bs) = bs := by
  induction bs with
  | nil => rfl
  | cons b bs ih =>
    have hlow : UInt8.ofNat (b.toNat + 256 * toLE bs) = b := by
      rw [← UInt8.toNat_inj, UInt8.toNat_ofNat']
      have := b.toNat_lt
      omega
    have hhigh : (b.toNat + 256 * toLE bs) / 256 = toLE bs := by
      have := b.toNat_lt
      omega
    rw [toLE, List.length_cons, ofLE, hlow, hhigh, ih]

theorem toLE_lt (bs : Bytes) : toLE bs < 256 ^ bs.length := by
  induction bs with
  | nil => exact Nat.one_pos
  | cons b bs ih =>
    have hb : b.toNat < 256 := b.toNat_lt
    rw [toLE, List.length_cons, pow_succ]
    omega

/-- A short read of an integer field gives at most the value of the whole
field. -/
theorem toLE_take_le : ∀ (k : ℕ) (bs : Bytes), toLE (bs.take k) ≤ toLE bs
  | 0, bs => by simp [toLE]
  | k + 1, [] => by simp [toLE]
  | k + 1, b :: bs => by
    have ih := toLE_take_le k bs
    rw [List.take_succ_cons, toLE, toLE]
    omega

/-! ### Blocks of a byte string -/

/-- The first `n + k` bytes after a block of `n`. -/
theorem take_block {n k : ℕ} {block : Bytes} (h : block.length = n) (tail : Bytes) :
    (block ++ tail).take (n + k) = block ++ tail.take k := by
  subst h
  exact List.take_length_add_append k

/-- The `n` bytes at offset `off`, when a block of that length lies there. -/
theorem slice_block {off n : ℕ} {pre mid post : Bytes} (hpre : pre.length = off)
    (hmid : mid.length = n) : ((pre ++ (mid ++ post)).drop off).take n = mid := by
  subst hpre hmid
  rw [List.drop_left, List.take_left]

/-- Bytes behind a block do not matter for reads inside it. -/
theorem slice_append {bs : Bytes} {off len : ℕ} (h : off + len ≤ bs.length) (pad : Bytes) :
    ((bs ++ pad).drop off).take len = (bs.drop off).take len := by
  rw [List.drop_append_of_le_length (by omega),
    List.take_append_of_le_length (by rw [List.length_drop]; omega)]

/-! ### Copying into a buffer -/

/-- `memcpy(buf + off, src, src.size())`. -/
def memcpyAt (buf : Bytes) (off : ℕ) (src : Bytes) : Bytes :=
  buf.take off ++ src ++ buf.drop (off + src.length)

theorem memcpyAt_zero (buf src : Bytes) : memcpyAt buf 0 src = src ++ buf.drop src.length := by
  rw [memcpyAt, List.take_zero, List.nil_append, Nat.zero_add]

theorem memcpyAt_length {buf src : Bytes} {off : ℕ} (h : off + src.length ≤ buf.length) :
    (memcpyAt buf off src).length = buf.length := by
  simp only [memcpyAt, List.length_append, List.length_take, List.length_drop]
  omega

/-- Copying over a block of the same length replaces exactly that block. -/
theorem memcpyAt_append (pre : Bytes) {old : Bytes} (post : Bytes) {src : Bytes} {off : ℕ}
    (hoff : off = pre.length) (h : src.length = old.length) :
    memcpyAt (pre ++ (old ++ post)) off src = pre ++ (src ++ post) := by
  subst hoff
  rw [memcpyAt, List.take_left, h, ← List.length_append, ← List.append_assoc pre old post,
    List.drop_left, List.append_assoc]

/-! ### C strings and NUL-padded fields -/

/-- The C string at the start of a buffer. -/
def cstr (bs : Bytes) : Bytes := bs.takeWhile (· ≠ 0)

/-- `s` in a field of `w` bytes, NUL-padded on the right. -/
def padTo (w : ℕ) (s : Bytes) : Bytes := s ++ List.replicate (w - s.length) 0

theorem nul_notMem_cstr (bs : Bytes) : (0 : UInt8) ∉ cstr bs := by
  intro h
  have := List.mem_takeWhile_imp h
  simp at this

theorem cstr_length_le (bs : Bytes) : (cstr bs).length ≤ bs.length :=
  (List.takeWhile_prefix _).length_le

theorem cstr_eq_self {s : Bytes} (h : (0 : UInt8) ∉ s) : cstr s = s := by
  rw [cstr, List.takeWhile_eq_self_iff]
  intro b hb
  simp only [ne_eq, decide_eq_true_eq]
  rintro rfl
  exact h hb

/-- Bytes after a NUL do not matter. -/
theorem cstr_append_nul (s t : Bytes) : cstr (s ++ 0 :: t) = cstr s := by
  rw [cstr, cstr, List.takeWhile_append]
  split
  · next h =>
    have hs : s.takeWhile (· ≠ 0) = s := (List.takeWhile_prefix _).eq_of_length h
    rw [List.takeWhile_cons, if_neg (by decide), List.append_nil, hs]
  · rfl

/-- A string with a NUL inside does not look behind its block. -/
theorem cstr_append_of_nul_mem {s : Bytes} (h : (0 : UInt8) ∈ s) (t : Bytes) :
    cstr (s ++ t) = cstr s := by
  obtain ⟨pre, post, rfl⟩ := List.append_of_mem h
  rw [List.append_assoc, List.cons_append, cstr_append_nul, cstr_append_nul]

/-- A region whose last byte is NUL has a NUL inside. -/
theorem nul_mem_of_getLastD {bs : Bytes} {n : ℕ} (hn : 0 < n) (hlen : n ≤ bs.length)
    (h : (bs.take n).getLastD 0 = 0) : (0 : UInt8) ∈ bs := by
  have hne : bs.take n ≠ [] := by
    intro hnil
    have hlength := congrArg List.length hnil
    rw [List.length_take, List.length_nil] at hlength
    omega
  rw [List.getLastD_eq_getLast?, List.getLast?_eq_some_getLast hne, Option.getD_some] at h
  exact List.mem_of_mem_take (h ▸ List.getLast_mem hne)

theorem cstr_padTo {w : ℕ} {s : Bytes} (h : (0 : UInt8) ∉ s) : cstr (padTo w s) = s := by
  rw [padTo]
  rcases hk : w - s.length with _ | k
  · rw [List.replicate_zero, List.append_nil, cstr_eq_self h]
  · rw [List.replicate_succ, cstr_append_nul, cstr_eq_self h]

/-- A NUL at position `i` ends the C string there or earlier. -/
theorem cstr_length_le_of_nul {bs : Bytes} {i : ℕ} (h : bs[i]? = some 0) :
    (cstr bs).length ≤ i := by
  by_contra hlt
  rw [not_le] at hlt
  have hget : (cstr bs)[i]? = some 0 := by
    obtain ⟨t, ht⟩ : cstr bs <+: bs := List.takeWhile_prefix _
    rw [← ht, List.getElem?_append_left hlt] at h
    exact h
  exact nul_notMem_cstr bs (List.mem_of_getElem? hget)

theorem padTo_of_length {w : ℕ} {s : Bytes} (h : s.length = w) : padTo w s = s := by
  rw [padTo, h, Nat.sub_self, List.replicate_zero, List.append_nil]

/-- Writing the terminator into a field that has room for it changes nothing. -/
theorem padTo_set_last {w : ℕ} {s : Bytes} (h : s.length < w) :
    (padTo w s).set (w - 1) 0 = padTo w s := by
  rw [padTo, List.set_append_right (w - 1) 0 (by omega), List.set_replicate_self]

theorem padTo_length {w : ℕ} {s : Bytes} (h : s.length ≤ w) : (padTo w s).length = w := by
  rw [padTo, List.length_append, List.length_replicate]
  omega

end Bytes
