/-
The record walk of `parseI2cSegments`, on arbitrary bytes.

`Checked.parseI2cSegments` is the walk as the machine runs it: the outer loop on
fuel, the offsets as `size_t` values, and every `memcpy` a read that fails
outside the string.

* `walk_induction` — the induction rule of the walk;
* `checked_parseI2cSegments` — the walk ends, no read fails, and the result is
  the one of `parseI2cSegments`;
* `sourced_parseI2cSegments` — every mapping comes from a segment slot of an
  I2CEngine record the walk comes to.
-/
import Canopy.BoundedMem
import Canopy.PlatDef
import Canopy.UefiFv

open Bytes BoundedMem OrderedMap WhileLoop UefiFv

namespace PlatDef

/-- A `std::vector<uint8_t>` there can be: `max_size()` is `PTRDIFF_MAX`. -/
structure PlatDefVector (sz : SizeWidth) where
  bytes : Bytes
  size_lt : 2 * bytes.length < sz.modulus

/-! ### The walk, record by record -/

/-- The header of the record at `pos`. -/
def recordAt (platDef : Bytes) (pos : ℕ) : PlatDefRecordHeader :=
  .ofBytes (field platDef pos recordHeaderSize)

/-- `recordBytes` of the record at `pos`. -/
def recordBytesAt (platDef : Bytes) (pos : ℕ) : ℕ := (recordAt platDef pos).size.toNat * 16

/-- The walk passes the record at `pos`. -/
structure WholeRecord (platDef : Bytes) (pos : ℕ) : Prop where
  header_le : pos + recordHeaderSize ≤ platDef.length
  type_ne : (recordAt platDef pos).type ≠ recordTypeEndOfTable
  size_ne : (recordAt platDef pos).size.toNat ≠ 0
  record_le : pos + recordBytesAt platDef pos ≤ platDef.length

/-- What a record the walk passes does to the result; nothing where it ends
the walk after all. -/
def passRecord (platDef : Bytes) (pos : ℕ) (result : OMap UInt8 I2cSegmentMapping) :
    Option (OMap UInt8 I2cSegmentMapping) :=
  if (recordAt platDef pos).type = recordTypeI2CEngine then
    parseEngine platDef pos (recordBytesAt platDef pos) result
  else some result

theorem ofBytes_field (platDef : Bytes) (pos : ℕ) :
    PlatDefRecordHeader.ofBytes (field platDef pos recordHeaderSize) = recordAt platDef pos := by
  rw [recordAt]

private theorem size_mul (platDef : Bytes) (pos : ℕ) :
    (recordAt platDef pos).size.toNat * 16 = recordBytesAt platDef pos := by
  rw [recordBytesAt]

private theorem recordBytesAt_le (platDef : Bytes) (pos : ℕ) :
    recordBytesAt platDef pos ≤ 4080 := by
  have := (recordAt platDef pos).size.toNat_lt
  rw [recordBytesAt]
  omega

theorem WholeRecord.recordBytesAt_pos {platDef : Bytes} {pos : ℕ} (h : WholeRecord platDef pos) :
    0 < recordBytesAt platDef pos := by
  have := h.size_ne
  rw [recordBytesAt]
  omega

section Walk

variable {platDef : Bytes} {pos : ℕ} {m m' : OMap UInt8 I2cSegmentMapping}

theorem parseRecords_of_not_whole (h : ¬ WholeRecord platDef pos) :
    parseRecords platDef pos m = m := by
  rw [parseRecords]
  split
  · next hheader =>
    dsimp only
    split
    · rfl
    · next htype =>
      split
      · rfl
      · next hsize =>
        rw [if_pos]
        by_contra hle
        exact h ⟨hheader, htype, hsize, not_lt.mp hle⟩
  · rfl

theorem parseRecords_of_whole (h : WholeRecord platDef pos) :
    parseRecords platDef pos m =
      match passRecord platDef pos m with
      | none => m
      | some m' => parseRecords platDef (pos + recordBytesAt platDef pos) m' := by
  rw [parseRecords, if_pos h.header_le]
  simp only [ofBytes_field, size_mul]
  rw [if_neg h.type_ne, if_neg h.size_ne, if_neg (not_lt.mpr h.record_le), passRecord]
  split
  · rfl
  · rfl

/-- **Induction along the walk.** -/
theorem walk_induction (platDef : Bytes) {P : ℕ → OMap UInt8 I2cSegmentMapping → Prop}
    (stop : ∀ pos m, ¬ WholeRecord platDef pos → P pos m)
    (cut : ∀ pos m, WholeRecord platDef pos → passRecord platDef pos m = none → P pos m)
    (pass : ∀ pos m m', WholeRecord platDef pos → passRecord platDef pos m = some m' →
      P (pos + recordBytesAt platDef pos) m' → P pos m) (pos : ℕ)
    (m : OMap UInt8 I2cSegmentMapping) : P pos m := by
  induction hleft : platDef.length - pos using Nat.strong_induction_on generalizing pos m with
  | _ left ih =>
    by_cases h : WholeRecord platDef pos
    · cases hpass : passRecord platDef pos m with
      | none => exact cut pos m h hpass
      | some m' =>
        have hpos := h.recordBytesAt_pos
        have hle := h.record_le
        exact pass pos m m' h hpass (ih _ (by omega) _ m' rfl)
    · exact stop pos m h

end Walk

/-! ### The walk with every read checked -/

namespace Checked

variable (sz : SizeWidth) (platDef : Bytes)

/-- The loop over the segments of an engine. -/
def parseSegments (segStart recordEnd : ℕ) :
    ℕ → ℕ → OMap UInt8 I2cSegmentMapping → Option (OMap UInt8 I2cSegmentMapping)
  | 0, _, result => some result
  | left + 1, i, result =>
    let segOff := sz.wrap (segStart + i * i2cSegmentSize)
    let segEnd := sz.wrap (segOff + i2cSegmentSize)
    if segEnd > platDef.length ∨ segEnd > recordEnd then some result
    else do
      let seg ← load platDef segOff i2cSegmentSize
      parseSegments segStart recordEnd left (i + 1) (addSegment result (.ofBytes seg))

/-- An I2CEngine record; the inner `none` ends the walk. -/
def parseEngine (pos recordBytes : ℕ) (result : OMap UInt8 I2cSegmentMapping) :
    Option (Option (OMap UInt8 I2cSegmentMapping)) :=
  let fixedEnd := sz.wrap (pos + recordHeaderSize + i2cEngineFixedSize)
  if fixedEnd > platDef.length then some none
  else do
    let eng ← load platDef (sz.wrap (pos + recordHeaderSize)) i2cEngineFixedSize
    let result ← parseSegments sz platDef fixedEnd (sz.wrap (pos + recordBytes))
      (uint8At eng 38).toNat 0 result
    some (some result)

/-- One round of the loop over the records; it ends with `none` where a read
leaves the string. -/
def parseRecord (s : ℕ × OMap UInt8 I2cSegmentMapping) :
    (ℕ × OMap UInt8 I2cSegmentMapping) ⊕ Option (OMap UInt8 I2cSegmentMapping) :=
  if sz.wrap (s.1 + recordHeaderSize) ≤ platDef.length then
    match load platDef s.1 recordHeaderSize with
    | none => .inr none
    | some bs =>
      let hdr := PlatDefRecordHeader.ofBytes bs
      if hdr.type = recordTypeEndOfTable then .inr (some s.2)
      else if hdr.size.toNat = 0 then .inr (some s.2)
      else
        let recordBytes := hdr.size.toNat * 16
        let next := sz.wrap (s.1 + recordBytes)
        if next > platDef.length then .inr (some s.2)
        else if hdr.type = recordTypeI2CEngine then
          match parseEngine sz platDef s.1 recordBytes s.2 with
          | none => .inr none
          | some none => .inr (some s.2)
          | some (some result) => .inl (next, result)
        else .inl (next, s.2)
  else .inr (some s.2)

/-- Nothing without enough fuel, `some none` where a read leaves the string. -/
def parseI2cSegments (fuel : ℕ) : Option (Option (OMap UInt8 I2cSegmentMapping)) :=
  if platDef.length < recordHeaderSize then some (some .empty)
  else
    match load platDef 0 recordHeaderSize with
    | none => some none
    | some bs =>
      if (PlatDefRecordHeader.ofBytes bs).size.toNat * 16 ≠ tableDataSize then some (some .empty)
      else iterate (parseRecord sz platDef) fuel (0, .empty)

end Checked

/-! ### No read fails -/

variable {sz : SizeWidth}

/-- A sum of an offset into the vector and a record size does not wrap. -/
theorem PlatDefVector.wrap_eq (v : PlatDefVector sz) {x : ℕ} (h : x ≤ v.bytes.length + 16384) :
    sz.wrap x = x := by
  have hsize := v.size_lt
  have hmin := sz.le_modulus
  refine SizeWidth.wrap_of_lt ?_
  omega

theorem load_field {bs : Bytes} {off len : ℕ} (h : off + len ≤ bs.length) :
    load bs off len = some (field bs off len) := load_eq h

/-- A segment count is a byte. -/
theorem checked_parseSegments (v : PlatDefVector sz) {segStart recordEnd : ℕ}
    (hstart : segStart ≤ v.bytes.length) : ∀ (left i : ℕ) (m : OMap UInt8 I2cSegmentMapping),
      i + left ≤ 255 → Checked.parseSegments sz v.bytes segStart recordEnd left i m =
        some (parseSegments v.bytes segStart recordEnd left i m)
  | 0, _, _, _ => rfl
  | left + 1, i, m, hcount => by
    have hseg : i2cSegmentSize = 32 := rfl
    have hmul : i * i2cSegmentSize = 32 * i := Nat.mul_comm i 32
    have hoff : sz.wrap (segStart + i * i2cSegmentSize) = segStart + i * i2cSegmentSize :=
      v.wrap_eq (by omega)
    have hend : sz.wrap (segStart + i * i2cSegmentSize + i2cSegmentSize) =
        segStart + i * i2cSegmentSize + i2cSegmentSize := v.wrap_eq (by omega)
    rw [Checked.parseSegments, parseSegments]
    simp only [hoff, hend]
    split
    · rfl
    · next hinside =>
      obtain ⟨hfit, -⟩ := not_or.mp hinside
      rw [load_field (not_lt.mp hfit), Option.bind_eq_bind, Option.bind_some]
      exact checked_parseSegments v hstart left (i + 1) _ (by omega)

private theorem checked_parseEngine (v : PlatDefVector sz) {pos recordBytes : ℕ}
    (hpos : pos ≤ v.bytes.length) (hrecord : recordBytes ≤ 4080)
    (m : OMap UInt8 I2cSegmentMapping) :
    Checked.parseEngine sz v.bytes pos recordBytes m =
      some (parseEngine v.bytes pos recordBytes m) := by
  have hheader : recordHeaderSize = 32 := rfl
  have hfixed : i2cEngineFixedSize = 48 := rfl
  have hend : sz.wrap (pos + recordHeaderSize + i2cEngineFixedSize) =
      pos + recordHeaderSize + i2cEngineFixedSize := v.wrap_eq (by omega)
  have hstart : sz.wrap (pos + recordHeaderSize) = pos + recordHeaderSize := v.wrap_eq (by omega)
  have hnext : sz.wrap (pos + recordBytes) = pos + recordBytes := v.wrap_eq (by omega)
  rw [Checked.parseEngine, parseEngine]
  simp only [hend, hstart, hnext]
  split
  · rfl
  · next hinside =>
    have hinside := not_lt.mp hinside
    -- a byte counts the segments, so no index wraps
    have hcount : (uint8At (field v.bytes (pos + recordHeaderSize) i2cEngineFixedSize) 38).toNat
        ≤ 255 := Nat.le_of_lt_succ (UInt8.toNat_lt _)
    rw [load_field hinside, Option.bind_eq_bind, Option.bind_some,
      checked_parseSegments v hinside _ 0 m (by omega)]
    rfl

/-- One checked round is one step along the walk. -/
theorem checked_parseRecord (v : PlatDefVector sz) {pos : ℕ} (m : OMap UInt8 I2cSegmentMapping)
    (hpos : pos ≤ v.bytes.length) :
    (¬ WholeRecord v.bytes pos → Checked.parseRecord sz v.bytes (pos, m) = .inr (some m)) ∧
    (WholeRecord v.bytes pos → Checked.parseRecord sz v.bytes (pos, m) =
      match passRecord v.bytes pos m with
      | none => .inr (some m)
      | some m' => .inl (pos + recordBytesAt v.bytes pos, m')) := by
  have hheader : recordHeaderSize = 32 := rfl
  have hbytes := recordBytesAt_le v.bytes pos
  have hend : sz.wrap (pos + recordHeaderSize) = pos + recordHeaderSize := v.wrap_eq (by omega)
  have hnext : sz.wrap (pos + recordBytesAt v.bytes pos) = pos + recordBytesAt v.bytes pos :=
    v.wrap_eq (by omega)
  constructor
  · intro h
    rw [Checked.parseRecord, hend]
    split
    · next hfit =>
      rw [load_field hfit]
      dsimp only
      split
      · rfl
      · next htype =>
        split
        · rfl
        · next hsize =>
          -- the sum does not wrap, so it tells whether the record fits
          rw [if_pos]
          by_contra hle
          exact h ⟨hfit, htype, hsize, by rw [← hnext]; exact not_lt.mp hle⟩
    · rfl
  · intro h
    have hle : ¬ sz.wrap (pos + recordBytesAt v.bytes pos) > v.bytes.length := by
      rw [hnext]
      exact not_lt.mpr h.record_le
    rw [Checked.parseRecord, hend, if_pos h.header_le, load_field h.header_le]
    simp only [ofBytes_field, size_mul, checked_parseEngine v hpos hbytes]
    rw [if_neg h.type_ne, if_neg h.size_ne, if_neg hle, passRecord, hnext]
    split
    · cases parseEngine v.bytes pos (recordBytesAt v.bytes pos) m with
      | none => rfl
      | some m' => rfl
    · rfl

/-- **The loop over the records ends**, with what `parseRecords` gives. -/
theorem returns_parseRecords (v : PlatDefVector sz) (pos : ℕ) (m : OMap UInt8 I2cSegmentMapping) :
    pos ≤ v.bytes.length →
      Returns (Checked.parseRecord sz v.bytes) (pos, m) (some (parseRecords v.bytes pos m)) := by
  induction pos, m using walk_induction v.bytes with
  | stop pos m h =>
    intro hpos
    rw [returns_iff_of_done ((checked_parseRecord v m hpos).1 h), parseRecords_of_not_whole h]
  | cut pos m h hcut =>
    intro hpos
    have hstep := (checked_parseRecord v m hpos).2 h
    rw [hcut] at hstep
    rw [returns_iff_of_done hstep, parseRecords_of_whole h, hcut]
  | pass pos m m' h hpass ih =>
    intro hpos
    have hstep := (checked_parseRecord v m hpos).2 h
    rw [hpass] at hstep
    rw [returns_iff_of_next hstep, parseRecords_of_whole h, hpass]
    exact ih h.record_le

/-- **The walk ends, and no read leaves the string.** -/
theorem checked_parseI2cSegments (v : PlatDefVector sz) :
    ∃ fuel, Checked.parseI2cSegments sz v.bytes fuel = some (some (parseI2cSegments v.bytes)) := by
  by_cases hshort : v.bytes.length < recordHeaderSize
  · exact ⟨0, by rw [Checked.parseI2cSegments, if_pos hshort, parseI2cSegments, if_pos hshort]⟩
  · have hload : load v.bytes 0 recordHeaderSize = some (field v.bytes 0 recordHeaderSize) :=
      load_field (by omega)
    obtain ⟨fuel, hfuel⟩ := returns_parseRecords v 0 .empty (Nat.zero_le _)
    refine ⟨fuel, ?_⟩
    rw [Checked.parseI2cSegments, if_neg hshort, hload, parseI2cSegments, if_neg hshort]
    dsimp only
    split
    · rfl
    · exact hfuel

/-! ### Where a mapping comes from -/

/-- The walk comes to `pos`. -/
inductive Reached (platDef : Bytes) : ℕ → Prop
  | start : Reached platDef 0
  | pass {pos : ℕ} (h : Reached platDef pos) (whole : WholeRecord platDef pos) :
      Reached platDef (pos + recordBytesAt platDef pos)

/-- `eng.count` of the engine record at `pos`. -/
def segmentCount (platDef : Bytes) (pos : ℕ) : ℕ :=
  (uint8At (field platDef (pos + recordHeaderSize) i2cEngineFixedSize) 38).toNat

/-- `segOff` of segment `i`. -/
def segmentOffset (pos i : ℕ) : ℕ :=
  pos + recordHeaderSize + i2cEngineFixedSize + i * i2cSegmentSize

def segmentAt (platDef : Bytes) (pos i : ℕ) : PlatDefI2CSegment :=
  .ofBytes (field platDef (segmentOffset pos i) i2cSegmentSize)

/-- Segment `i` of the engine record at `pos`, which the walk comes to. -/
structure SegmentSlot (platDef : Bytes) (pos i : ℕ) : Prop where
  reached : Reached platDef pos
  whole : WholeRecord platDef pos
  type_eq : (recordAt platDef pos).type = recordTypeI2CEngine
  lt_count : i < segmentCount platDef pos
  slot_le : segmentOffset pos i + i2cSegmentSize ≤ pos + recordBytesAt platDef pos

/-- Every mapping comes from a segment slot. -/
def Sourced (platDef : Bytes) (m : OMap UInt8 I2cSegmentMapping) : Prop :=
  ∀ id mapping, m.lookup id = some mapping → ∃ pos i, SegmentSlot platDef pos i ∧
    (segmentAt platDef pos i).muxType = i2cMuxTypeCpld ∧ (segmentAt platDef pos i).id = id ∧
    mapping = ⟨(segmentAt platDef pos i).byte, (segmentAt platDef pos i).selectMask⟩

variable {platDef : Bytes} {pos : ℕ} {m m' : OMap UInt8 I2cSegmentMapping}

private theorem sourced_empty : Sourced platDef .empty := by
  intro id mapping h
  cases h

theorem Sourced.addSegment {i : ℕ} (hm : Sourced platDef m) (hslot : SegmentSlot platDef pos i) :
    Sourced platDef (addSegment m (segmentAt platDef pos i)) := by
  intro id mapping h
  rw [PlatDef.addSegment] at h
  split at h
  · next hcpld =>
    rw [lookup_put] at h
    split at h
    · next hid => exact ⟨pos, i, hslot, hcpld, hid, (Option.some.inj h).symm⟩
    · exact hm id mapping h
  · exact hm id mapping h

theorem Sourced.parseSegments (hreached : Reached platDef pos) (hwhole : WholeRecord platDef pos)
    (htype : (recordAt platDef pos).type = recordTypeI2CEngine) (left : ℕ) :
    ∀ (i : ℕ) (m : OMap UInt8 I2cSegmentMapping), i + left = segmentCount platDef pos →
      Sourced platDef m → Sourced platDef (parseSegments platDef
        (pos + recordHeaderSize + i2cEngineFixedSize) (pos + recordBytesAt platDef pos)
        left i m) := by
  induction left with
  | zero =>
    intro i m _ hm
    exact hm
  | succ left ih =>
    intro i m hcount hm
    rw [PlatDef.parseSegments]
    split
    · exact hm
    · next hinside =>
      obtain ⟨-, hend⟩ := not_or.mp hinside
      -- what is read is the slot of a segment, in a record the walk has reached
      have hslot : SegmentSlot platDef pos i :=
        ⟨hreached, hwhole, htype, by omega, not_lt.mp hend⟩
      exact ih (i + 1) _ (by omega) (hm.addSegment hslot)

theorem Sourced.passRecord (hreached : Reached platDef pos) (hwhole : WholeRecord platDef pos)
    (hm : Sourced platDef m) (h : passRecord platDef pos m = some m') : Sourced platDef m' := by
  rw [PlatDef.passRecord] at h
  split at h
  · next htype =>
    rw [parseEngine] at h
    dsimp only at h
    split at h
    · cases h
    · obtain rfl := Option.some.inj h
      exact Sourced.parseSegments hreached hwhole htype _ 0 m (Nat.zero_add _) hm
  · obtain rfl := Option.some.inj h
    exact hm

theorem Sourced.parseRecords (pos : ℕ) (m : OMap UInt8 I2cSegmentMapping) :
    Reached platDef pos → Sourced platDef m → Sourced platDef (parseRecords platDef pos m) := by
  induction pos, m using walk_induction platDef with
  | stop pos m h =>
    intro _ hm
    rwa [parseRecords_of_not_whole h]
  | cut pos m h hcut =>
    intro _ hm
    rwa [parseRecords_of_whole h, hcut]
  | pass pos m m' h hpass ih =>
    intro hreached hm
    rw [parseRecords_of_whole h, hpass]
    exact ih (hreached.pass h) (hm.passRecord hreached h hpass)

/-- **Every mapping comes from a segment slot.** -/
theorem sourced_parseI2cSegments (platDef : Bytes) :
    Sourced platDef (parseI2cSegments platDef) := by
  rw [parseI2cSegments]
  split
  · exact sourced_empty
  · dsimp only
    split
    · exact sourced_empty
    · exact sourced_empty.parseRecords 0 .empty .start

/-- **The walk is safe on every string.** -/
theorem parseI2cSegments_robust (v : PlatDefVector sz) :
    (∃ fuel, Checked.parseI2cSegments sz v.bytes fuel =
      some (some (parseI2cSegments v.bytes))) ∧
    Sourced v.bytes (parseI2cSegments v.bytes) :=
  ⟨checked_parseI2cSegments v, sourced_parseI2cSegments v.bytes⟩

end PlatDef
