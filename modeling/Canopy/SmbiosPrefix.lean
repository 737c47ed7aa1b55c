/-
Blobs that are cut short.

A record blob may stop anywhere: inside the count, inside a size, between a
size and its record, or inside a record.  `wholeRecords` says which records of
the list are still there in full, from where each of them ends.

* `addRecords_prefix` — the loop on a blob that is cut short;
* `addRecord_keeps_whole` — `addRecord` adds the records that are there in full
  and nothing else.
-/
import Canopy.SmbiosSession

namespace Chif

open Bytes

/-- The encoding of a list of records: the count, then each with its size. -/
def encodeRecords (rs : List SmbiosRecord) : Bytes :=
  ofLE 4 rs.length ++ rs.flatMap SmbiosRecord.sized

/-- Where record `i` ends when the first one starts at `start`. -/
def recordEnd (start : ℕ) (rs : List SmbiosRecord) (i : ℕ) : ℕ :=
  start + ((rs.take (i + 1)).flatMap SmbiosRecord.sized).length

/-- The records that end within the first `n` bytes, in their order. -/
def wholeRecords (start n : ℕ) (rs : List SmbiosRecord) : List SmbiosRecord :=
  ((List.range rs.length).filter fun i => recordEnd start rs i ≤ n).filterMap (rs[·]?)

/-! ### Which records are whole -/

private theorem recordEnd_zero (start : ℕ) (r : SmbiosRecord) (rs : List SmbiosRecord) :
    recordEnd start (r :: rs) 0 = start + r.sized.length := by
  rw [recordEnd, List.take_succ_cons, List.take_zero, List.flatMap_cons, List.flatMap_nil,
    List.append_nil]

private theorem recordEnd_succ (start : ℕ) (r : SmbiosRecord) (rs : List SmbiosRecord) (i : ℕ) :
    recordEnd start (r :: rs) (i + 1) = recordEnd (start + r.sized.length) rs i := by
  rw [recordEnd, recordEnd, List.take_succ_cons, List.flatMap_cons, List.length_append,
    Nat.add_assoc]

/-- The first record decides: behind one that is cut off nothing is whole. -/
theorem wholeRecords_cons (start n : ℕ) (r : SmbiosRecord) (rs : List SmbiosRecord) :
    wholeRecords start n (r :: rs) =
      if start + r.sized.length ≤ n then r :: wholeRecords (start + r.sized.length) n rs
      else [] := by
  rw [wholeRecords]
  split
  · next hfit =>
    rw [List.length_cons, List.range_succ_eq_map, List.filter_cons, recordEnd_zero,
      if_pos (decide_eq_true hfit), List.filterMap_cons, List.filter_map, List.filterMap_map,
      wholeRecords]
    simp only [List.getElem?_cons_zero, List.getElem?_cons_succ, Function.comp_def,
      recordEnd_succ]
  · next hcut =>
    -- the first record is cut, and so is every later one
    have hnone : ∀ i ∈ List.range (r :: rs).length, ¬ recordEnd start (r :: rs) i ≤ n := by
      intro i _ hle
      rcases i with _ | i
      · rw [recordEnd_zero] at hle
        exact hcut hle
      · rw [recordEnd_succ, recordEnd] at hle
        omega
    rw [List.filter_eq_nil_iff.mpr, List.filterMap_nil]
    intro i hi
    rw [decide_eq_true_eq]
    exact hnone i hi

private theorem wholeRecords_nil (start n : ℕ) : wholeRecords start n [] = [] := rfl

/-- Every record is whole when the last one is. -/
theorem wholeRecords_all (rs : List SmbiosRecord) (start n : ℕ)
    (h : start + (rs.flatMap SmbiosRecord.sized).length ≤ n) : wholeRecords start n rs = rs := by
  induction rs generalizing start with
  | nil => rfl
  | cons r rs ih =>
    rw [List.flatMap_cons, List.length_append] at h
    rw [wholeRecords_cons, if_pos (by omega), ih _ (by omega)]

/-- In less than three bytes there is no record. -/
theorem wholeRecords_short (rs : List SmbiosRecord) {start n : ℕ} (h : n < start + 3) :
    wholeRecords start n rs = [] := by
  rcases rs with _ | ⟨r, rs⟩
  · rfl
  · have hpos := r.length_pos
    rw [wholeRecords_cons, sized_length, if_neg (by omega)]

/-! ### The loop on a blob that is cut short -/

/-- One turn of the loop, on a record that is cut off. -/
theorem addRecords_cut (k : ℕ) (r : SmbiosRecord) (rest pre acc : Bytes) {n : ℕ}
    (h : n < r.sized.length) :
    addRecords (k + 1) (pre ++ (r.sized ++ rest).take n) pre.length acc = acc := by
  have hlt : r.bytes.length < 256 ^ 2 := r.length_lt
  have htake : (r.sized ++ rest).take n = r.sized.take n :=
    List.take_append_of_le_length (by omega)
  have hlength : (pre ++ r.sized.take n).length = pre.length + n := by
    rw [List.length_append, List.length_take]
    omega
  rw [sized_length] at h
  rw [htake, addRecords]
  split
  · next hsize =>
    -- the size is there, the record is not
    have hread : ((pre ++ r.sized.take n).drop pre.length).take 2 = ofLE 2 r.bytes.length := by
      rw [List.drop_left, List.take_take, Nat.min_eq_left (by omega), SmbiosRecord.sized,
        List.take_left' (ofLE_length 2 _)]
    dsimp only
    rw [hread, toLE_ofLE_of_lt hlt, if_pos (Or.inr (by omega))]
  · rfl

/-- The loop takes the records that are there in full. -/
theorem addRecords_prefix (rs : List SmbiosRecord) (pre acc : Bytes) (n : ℕ)
    (h : acc.length + ((wholeRecords pre.length (pre.length + n) rs).flatMap
      SmbiosRecord.bytes).length ≤ maxSmbiosDataSize) :
    addRecords rs.length (pre ++ (rs.flatMap SmbiosRecord.sized).take n) pre.length acc =
      acc ++ (wholeRecords pre.length (pre.length + n) rs).flatMap SmbiosRecord.bytes := by
  induction rs generalizing pre acc n with
  | nil => simp [addRecords, wholeRecords_nil]
  | cons r rs ih =>
    rw [wholeRecords_cons] at h ⊢
    rw [List.length_cons, List.flatMap_cons]
    by_cases hfit : r.sized.length ≤ n
    · -- the cut is behind the first record
      have htake : (r.sized ++ rs.flatMap SmbiosRecord.sized).take n =
          r.sized ++ (rs.flatMap SmbiosRecord.sized).take (n - r.sized.length) := by
        rw [List.take_append, List.take_of_length_le hfit]
      have hpre : (pre ++ r.sized).length = pre.length + r.sized.length := List.length_append
      have hend : pre.length + n = (pre ++ r.sized).length + (n - r.sized.length) := by omega
      rw [if_pos (by omega), List.flatMap_cons, ← hpre] at h ⊢
      rw [hend] at h ⊢
      rw [List.length_append] at h
      rw [htake, addRecords_cons, if_neg (by omega), ih, List.append_assoc]
      rw [List.length_append]
      omega
    · rw [if_neg (by omega), List.flatMap_nil, List.append_nil,
        addRecords_cut _ _ _ _ _ (not_le.mp hfit)]

/-! ### The writer -/

/-- A blob that is cut short adds the records that are there in full. -/
theorem addRecord_prefix (w : SmbiosWriter) {rs : List SmbiosRecord}
    (hcount : rs.length ≤ maxRecordsPerBlob) {p : Bytes} (hp : p <+: encodeRecords rs)
    (h : w.records.length + ((wholeRecords 4 p.length rs).flatMap SmbiosRecord.bytes).length
      ≤ maxSmbiosDataSize) :
    w.addRecord p =
      { w with records :=
          w.records ++ (wholeRecords 4 p.length rs).flatMap SmbiosRecord.bytes } := by
  rw [SmbiosWriter.addRecord]
  split
  · next hshort => rw [wholeRecords_short rs (by omega), List.flatMap_nil, List.append_nil]
  · next hlong =>
    have hcut : p = ofLE 4 rs.length ++ (rs.flatMap SmbiosRecord.sized).take (p.length - 4) := by
      conv_lhs => rw [List.prefix_iff_eq_take.mp hp]
      rw [encodeRecords, List.take_append, ofLE_length, List.take_of_length_le]
      rw [ofLE_length]
      omega
    -- the count is whole, however little of the records follows it
    have hread : toLE (p.take 4) = rs.length := by
      have hlt : rs.length < 256 ^ 4 := by
        rw [maxRecordsPerBlob] at hcount
        omega
      rw [hcut, List.take_left' (ofLE_length 4 _), toLE_ofLE_of_lt hlt]
    have hloop := addRecords_prefix rs (ofLE 4 rs.length) w.records (p.length - 4)
    rw [ofLE_length, Nat.add_sub_of_le (by omega), ← hcut] at hloop
    dsimp only
    rw [hread, if_neg (Nat.not_lt.mpr hcount), hloop h]

/-- **`addRecord` keeps exactly the whole records.** -/
theorem addRecord_keeps_whole (w : SmbiosWriter) (rs : List SmbiosRecord)
    (hcount : rs.length ≤ maxRecordsPerBlob) :
    (∀ p, p <+: encodeRecords rs →
      w.records.length + ((wholeRecords 4 p.length rs).flatMap SmbiosRecord.bytes).length
        ≤ maxSmbiosDataSize →
      w.addRecord p = { w with
        records := w.records ++ (wholeRecords 4 p.length rs).flatMap SmbiosRecord.bytes }) ∧
    (w.records.length + (rs.flatMap SmbiosRecord.bytes).length ≤ maxSmbiosDataSize →
      w.addRecord (encodeRecords rs) =
        { w with records := w.records ++ rs.flatMap SmbiosRecord.bytes }) := by
  refine ⟨fun p hp h => addRecord_prefix w hcount hp h, fun h => ?_⟩
  have hall : wholeRecords 4 (encodeRecords rs).length rs = rs := by
    refine wholeRecords_all rs 4 _ ?_
    rw [encodeRecords, List.length_append, ofLE_length]
  have hwhole := addRecord_prefix w hcount (List.prefix_refl (encodeRecords rs))
  rw [hall] at hwhole
  exact hwhole h

/-- Two records of six bytes. -/
def twoRecords : List SmbiosRecord :=
  [⟨[2, 4, 1, 0, 0, 0], by decide, by decide⟩, ⟨[127, 4, 2, 0, 0, 0], by decide, by decide⟩]

/-- The blob stops inside the size of the second record. -/
theorem addRecord_keeps_whole_twoRecords :
    (SmbiosWriter.new none none).addRecord ((encodeRecords twoRecords).take 13) =
      { SmbiosWriter.new none none with records := [2, 4, 1, 0, 0, 0] } ∧
    (SmbiosWriter.new none none).addRecord (encodeRecords twoRecords) =
      { SmbiosWriter.new none none with records := [2, 4, 1, 0, 0, 0, 127, 4, 2, 0, 0, 0] } := by
  obtain ⟨hbegin, hfull⟩ := addRecord_keeps_whole (.new none none) twoRecords (by decide)
  exact ⟨hbegin _ (List.take_prefix _ _) (by decide), hfull (by decide)⟩

end Chif
