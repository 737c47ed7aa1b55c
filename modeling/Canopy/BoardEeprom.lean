/-
The virtual EEPROM of the board, as U-Boot and Linux check it.

`gxp_eeprom_probe` and `gxp_nvmem_probe` accept a region of whole blocks, each with a
known version and 16-bit words that add up to zero.

* `Eeprom` — a region that was accepted, and what its readers may ask of it;
* `accepts_iff` — the loops of the check, block by block;
* `eq_of_accepts` — accepted regions that differ in one word at most are the same;
* `damage_refused` — whatever happens to one word of an accepted region is noticed.
-/
import Canopy.ByteField
import Mathlib.Algebra.BigOperators.Group.Finset.Basic
import Mathlib.Data.BitVec
import Mathlib.Data.Int.Notation

namespace GxpEeprom

open Bytes

def einval : ℤ := 22

def ebadmsg : ℤ := 74

/-- `GXP_EEPROM_BLOCK_SIZE` -/
def blockSize : ℕ := 128

/-- `readw` -/
def readw (bs : Bytes) (off : ℕ) : BitVec 16 := BitVec.ofNat 16 (uintAt bs off 2)

/-- `gxp_eeprom_validate_checksum`, and `gxp_nvmem_validate_block`. -/
def validateChecksum (block : Bytes) : Bool :=
  let version := uint8At block 0
  if version ≠ 2 ∧ version ≠ 3 then false
  else (List.range (blockSize / 2)).foldl (fun sum i => sum + readw block (2 * i)) 0 == 0

/-- `gxp_eeprom_probe`, and `gxp_nvmem_probe`, once the region is mapped. -/
def probe (mem : Bytes) : Except ℤ Unit :=
  if mem.length = 0 ∨ mem.length % blockSize ≠ 0 then .error (-einval)
  else if (List.range (mem.length / blockSize)).all fun i =>
    validateChecksum (mem.drop (i * blockSize)) then .ok ()
  else .error (-ebadmsg)

/-- A region that was accepted. -/
structure Eeprom where
  bytes : Bytes
  accepted : probe bytes = .ok ()

/-- `gxp_eeprom_read` -/
def Eeprom.read (e : Eeprom) (offset size : ℤ) : Except ℤ Bytes :=
  if offset < 0 ∨ size ≤ 0 ∨ offset + size > e.bytes.length then .error (-einval)
  else .ok (field e.bytes offset.toNat size.toNat)

theorem Eeprom.read_field (e : Eeprom) {off len : ℕ} (hlen : 0 < len)
    (h : off + len ≤ e.bytes.length) : e.read off len = .ok (field e.bytes off len) := by
  have hok : ¬((off : ℤ) < 0 ∨ (len : ℤ) ≤ 0 ∨ (off : ℤ) + len > e.bytes.length) := by omega
  rw [Eeprom.read, if_neg hok]
  rfl

/-! ### Block by block -/

/-- The sum of the words of block `i`. -/
def blockSum (mem : Bytes) (i : ℕ) : BitVec 16 :=
  ∑ j ∈ Finset.range (blockSize / 2), readw mem (i * blockSize + 2 * j)

private theorem readw_drop (mem : Bytes) (n off : ℕ) :
    readw (mem.drop n) off = readw mem (n + off) := by
  rw [readw, readw, uintAt, uintAt, field, field, List.drop_drop]

private theorem foldl_add_eq_sum (f : ℕ → BitVec 16) (n : ℕ) :
    (List.range n).foldl (fun sum i => sum + f i) 0 = ∑ i ∈ Finset.range n, f i := by
  induction n with
  | zero => rfl
  | succ n ih => rw [List.range_succ, List.foldl_append, ih, Finset.sum_range_succ]; rfl

private theorem validateChecksum_drop_iff (mem : Bytes) (i : ℕ) :
    validateChecksum (mem.drop (i * blockSize)) = true ↔
      (uint8At mem (i * blockSize) = 2 ∨ uint8At mem (i * blockSize) = 3) ∧
        blockSum mem i = 0 := by
  have hversion : uint8At (mem.drop (i * blockSize)) 0 = uint8At mem (i * blockSize) := by
    rw [uint8At, uint8At, List.getD_eq_getElem?_getD, List.getElem?_drop, Nat.add_zero,
      List.getD_eq_getElem?_getD]
  have hsum : (List.range (blockSize / 2)).foldl
      (fun sum j => sum + readw (mem.drop (i * blockSize)) (2 * j)) 0 = blockSum mem i := by
    rw [foldl_add_eq_sum]
    exact Finset.sum_congr rfl fun j _ => readw_drop mem _ _
  rw [validateChecksum, hversion, hsum]
  by_cases h : uint8At mem (i * blockSize) = 2 ∨ uint8At mem (i * blockSize) = 3
  · rw [if_neg (by tauto), beq_iff_eq]
    exact (and_iff_right h).symm
  · rw [if_pos (by tauto)]
    exact iff_of_false Bool.false_ne_true fun hboth => h hboth.1

/-- A region is accepted when it is of whole blocks that are. -/
theorem accepts_iff (mem : Bytes) :
    probe mem = .ok () ↔ mem.length ≠ 0 ∧ blockSize ∣ mem.length ∧
      ∀ i < mem.length / blockSize,
        (uint8At mem (i * blockSize) = 2 ∨ uint8At mem (i * blockSize) = 3) ∧
          blockSum mem i = 0 := by
  rw [probe]
  split
  · next hsize =>
    refine iff_of_false (by rintro ⟨⟩) fun h => ?_
    exact hsize.elim h.1 fun hrest => hrest (Nat.mod_eq_zero_of_dvd h.2.1)
  · next hsize =>
    rw [not_or, not_not] at hsize
    have hblocks : (∀ i < mem.length / blockSize,
        (uint8At mem (i * blockSize) = 2 ∨ uint8At mem (i * blockSize) = 3) ∧
          blockSum mem i = 0) ↔
        ((List.range (mem.length / blockSize)).all fun i =>
          validateChecksum (mem.drop (i * blockSize))) = true := by
      simp only [List.all_eq_true, List.mem_range, validateChecksum_drop_iff]
    rw [hblocks]
    split
    · next hall => exact iff_of_true rfl ⟨hsize.1, Nat.dvd_of_mod_eq_zero hsize.2, hall⟩
    · next hnot => exact iff_of_false (by rintro ⟨⟩) fun h => hnot h.2.2

/-! ### Damage -/

variable {mem mem' : Bytes}

private theorem field_congr {off len : ℕ} (h : ∀ i, off ≤ i → i < off + len → mem[i]? = mem'[i]?) :
    field mem off len = field mem' off len := by
  refine List.ext_getElem? fun i => ?_
  rw [field, field, List.getElem?_take, List.getElem?_take, List.getElem?_drop, List.getElem?_drop]
  split
  · exact h _ (Nat.le_add_right _ _) (by omega)
  · rfl

/-- A word says what its bytes are. -/
theorem field_of_readw {off : ℕ} (hlen : mem.length = mem'.length)
    (h : readw mem off = readw mem' off) : field mem off 2 = field mem' off 2 := by
  have hto : uintAt mem off 2 = uintAt mem' off 2 := by
    have hlt : ∀ bs : Bytes, uintAt bs off 2 < 2 ^ 16 := fun bs => uintAt_lt bs off 2
    have hnat := congrArg BitVec.toNat h
    rw [readw, readw, BitVec.toNat_ofNat, BitVec.toNat_ofNat, Nat.mod_eq_of_lt (hlt mem),
      Nat.mod_eq_of_lt (hlt mem')] at hnat
    exact hnat
  have hsame : (field mem off 2).length = (field mem' off 2).length := by
    rw [field, field, List.length_take, List.length_take, List.length_drop, List.length_drop, hlen]
  rw [← ofLE_toLE (field mem off 2), ← ofLE_toLE (field mem' off 2), hsame]
  exact congrArg _ hto

/-- Where all words of a block but one agree, and the sums do, that one agrees as well. -/
theorem readw_of_blockSum {i j : ℕ} (hj : j < blockSize / 2)
    (hsum : blockSum mem i = blockSum mem' i)
    (h : ∀ j' < blockSize / 2, j' ≠ j →
      readw mem (i * blockSize + 2 * j') = readw mem' (i * blockSize + 2 * j')) :
    readw mem (i * blockSize + 2 * j) = readw mem' (i * blockSize + 2 * j) := by
  have hmem : j ∈ Finset.range (blockSize / 2) := Finset.mem_range.mpr hj
  rw [blockSum, blockSum, ← Finset.add_sum_erase _ _ hmem, ← Finset.add_sum_erase _ _ hmem] at hsum
  have hrest : ∀ j' ∈ (Finset.range (blockSize / 2)).erase j,
      readw mem (i * blockSize + 2 * j') = readw mem' (i * blockSize + 2 * j') := by
    intro j' hj'
    obtain ⟨hne, hlt⟩ := Finset.mem_erase.mp hj'
    exact h j' (Finset.mem_range.mp hlt) hne
  rw [Finset.sum_congr rfl hrest] at hsum
  exact add_right_cancel hsum

/-- Of two regions of a size that differ in the bytes of one word only, one at most is
accepted. -/
theorem eq_of_accepts {k : ℕ} (hmem : probe mem = .ok ()) (hmem' : probe mem' = .ok ())
    (hlen : mem.length = mem'.length) (h : ∀ i, i / 2 ≠ k → mem[i]? = mem'[i]?) :
    mem = mem' := by
  have hword : ∀ i, i / 2 = k → mem[i]? = mem'[i]? := by
    intro i hi
    by_cases hout : mem.length ≤ i
    · rw [List.getElem?_eq_none hout, List.getElem?_eq_none (hlen ▸ hout)]
    obtain ⟨-, ⟨n, hn⟩, hsums⟩ := (accepts_iff mem).mp hmem
    obtain ⟨-, -, hsums'⟩ := (accepts_iff mem').mp hmem'
    -- the word is one of block `k / 64`
    have hblock : k / 64 < mem.length / blockSize := by
      rw [hn, Nat.mul_div_cancel_left n (by decide)]
      rw [blockSize] at hn
      omega
    have hat : k / 64 * blockSize + 2 * (k % 64) = 2 * k := by
      rw [blockSize]
      omega
    have hsum : blockSum mem (k / 64) = blockSum mem' (k / 64) :=
      (hsums _ hblock).2.trans (hsums' _ (hlen ▸ hblock)).2.symm
    have hj : k % 64 < blockSize / 2 := Nat.mod_lt k (by decide)
    have hsame := readw_of_blockSum hj hsum fun j hj hne => by
      have hfield : field mem (k / 64 * blockSize + 2 * j) 2 =
          field mem' (k / 64 * blockSize + 2 * j) 2 := by
        refine field_congr fun i' hle hlt => h i' ?_
        rw [blockSize] at hle hlt hj
        omega
      rw [readw, readw, uintAt, uintAt, hfield]
    rw [hat] at hsame
    have hfield := field_of_readw hlen hsame
    have hget := congrArg (·[i - 2 * k]?) hfield
    simp only [field, List.getElem?_take, List.getElem?_drop] at hget
    rwa [if_pos (by omega), if_pos (by omega), Nat.add_sub_cancel' (by omega)] at hget
  refine List.ext_getElem? fun i => ?_
  by_cases hi : i / 2 = k
  · exact hword i hi
  · exact h i hi

/-- **Damage to one word is noticed**: an accepted region with other bytes in one of its
words is refused. -/
theorem damage_refused {k : ℕ} (hmem : probe mem = .ok ()) (hlen : mem'.length = mem.length)
    (hword : ∀ i, i / 2 ≠ k → mem'[i]? = mem[i]?) (hne : mem' ≠ mem) :
    probe mem' = .error (-ebadmsg) := by
  have hrefused : probe mem' ≠ .ok () := fun hmem' =>
    hne (eq_of_accepts hmem' hmem hlen hword)
  have hsize : ¬(mem'.length = 0 ∨ mem'.length % blockSize ≠ 0) := by
    obtain ⟨hpos, hdvd, -⟩ := (accepts_iff mem).mp hmem
    rw [hlen, not_or, not_not]
    exact ⟨hpos, Nat.mod_eq_zero_of_dvd hdvd⟩
  rw [probe, if_neg hsize] at hrefused ⊢
  split at hrefused
  · exact absurd rfl hrefused
  · next hnot => exact if_neg hnot

/-- One block with nothing in it but its version and checksum. -/
def blankBlock : Bytes := 2 :: List.replicate 125 0 ++ [0xfe, 0xff]

private theorem accepts_blankBlock : probe blankBlock = .ok () := by decide +kernel

theorem damage_refused_blankBlock : probe (blankBlock.set 20 1) = .error (-ebadmsg) :=
  damage_refused (k := 10) accepts_blankBlock List.length_set
    (fun i hi => List.getElem?_set_ne fun h : 20 = i => hi (h ▸ rfl)) (by decide)

end GxpEeprom
