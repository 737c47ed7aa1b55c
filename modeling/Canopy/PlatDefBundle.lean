/-
Compressed and plain platform definition bundles.

A bundle is a bundle header, a table header and the records, plain or as zlib
compressed them.

* `decompressPlatDef_plain`, `decompressPlatDef_zlib` — what comes out of
  either: the table header and the records;
* `parseRecords_append` — the walk from a record on sees nothing of what lies
  before it;
* `parseI2cSegments_tableHeader` — what the walk makes of a table header with
  records behind it.  The header is the first record, and one of type I2CEngine
  has a segment that ends with its `compressedSize` field;
* `parseI2cSegments_zlib_eq_plain` — the two bundles mean the same, unless they
  differ in such a segment.
-/
import Canopy.PlatDefBlob
import Canopy.PlatDefWalk

open Bytes OrderedMap

namespace PlatDef

/-- The bytes of a table header whose size field is the one of a
`PlatDefTableData`. -/
structure TableHeader where
  bytes : Bytes
  length_eq : bytes.length = tableDataSize
  size_eq : (uint8At bytes 1).toNat * 16 = tableDataSize

namespace TableHeader

def data (h : TableHeader) : PlatDefTableData := .ofBytes h.bytes

def type (h : TableHeader) : UInt8 := uint8At h.bytes 0

/-- The byte of the header where an I2CEngine record has its segment count. -/
def count (h : TableHeader) : UInt8 := uint8At h.bytes 70

/-- What an I2CEngine record has for its first segment. -/
def segment (h : TableHeader) : PlatDefI2CSegment := .ofBytes (field h.bytes 80 32)

/-- The mappings of the header itself. -/
def ownMappings (h : TableHeader) : OMap UInt8 I2cSegmentMapping :=
  if h.type = recordTypeI2CEngine ∧ h.count.toNat ≠ 0 then addSegment .empty h.segment else .empty

end TableHeader

/-- A bundle; `info` is the bundle header behind its signature. -/
def bundle (info : Vector UInt8 16) (h : TableHeader) (records : Bytes) : Bytes :=
  platdefBundleSignature ++ info.toList ++ (h.bytes ++ records)

/-! ### Decompression -/

/-- `uncompress` gives `records` back where it reads `compressed` and has room
for them. -/
def Inflates (uncompress : UncompressCall → Option Bytes) (compressed records : Bytes) : Prop :=
  ∀ call : UncompressCall, field call.source call.sourceOffset call.sourceLen = compressed →
    records.length ≤ call.destLen → uncompress call = some records

section Decompress

variable {w : ℕ} {uncompress : UncompressCall → Option Bytes} {info : Vector UInt8 16}
  {h : TableHeader} {records compressed : Bytes}

private theorem bundle_drop :
    (bundle info h records).drop bundleHeaderSize = h.bytes ++ records := by
  rw [bundle, List.drop_left']
  rw [List.length_append, Vector.length_toList]
  rfl

private theorem bundle_length :
    (bundle info h records).length = bundleHeaderSize + tableDataSize + records.length := by
  rw [bundle, List.length_append, List.length_append, List.length_append, Vector.length_toList,
    h.length_eq]
  show 16 + 16 + _ = 32 + _ + _
  omega

private theorem bundle_signature :
    (bundle info h records).take platdefBundleSignature.length = platdefBundleSignature := by
  rw [bundle, List.append_assoc, List.take_left']
  rfl

private theorem field_bundle :
    field (bundle info h records) bundleHeaderSize tableDataSize = h.bytes := by
  rw [field, bundle_drop, List.take_left' h.length_eq]

theorem tableHdr_bundle : tableHdr (bundle info h records) = h.data := by
  rw [tableHdr, field_bundle, TableHeader.data]

theorem decompressPlatDef_plain (hplain : h.data.flags &&& tableDataFlagZLib = 0) :
    decompressPlatDef w uncompress (bundle info h records) = h.bytes ++ records := by
  have hlength : bundleHeaderSize + tableDataSize ≤ (bundle info h records).length := by
    rw [bundle_length]
    omega
  have hcall : uncompressCall w (bundle info h records) = .error (h.bytes ++ records) := by
    rw [uncompressCall, if_neg (by omega), if_neg (not_not.mpr bundle_signature)]
    dsimp only
    rw [if_neg (by omega), tableHdr_bundle, if_pos hplain, bundle_drop]
  rw [decompressPlatDef, hcall]

theorem decompressPlatDef_zlib {trailing : Bytes} (hzlib : Inflates uncompress compressed records)
    (hflag : h.data.flags &&& tableDataFlagZLib ≠ 0)
    (hsize : h.data.compressedSize = tableDataSize + compressed.length)
    (hroom : records.length ≤ decompSize h.data.totalSize) :
    decompressPlatDef w uncompress (bundle info h (compressed ++ trailing)) =
      h.bytes ++ records := by
  have hlength : (bundle info h (compressed ++ trailing)).length = _ := bundle_length
  rw [List.length_append] at hlength
  have hcall : uncompressCall w (bundle info h (compressed ++ trailing)) =
      .ok (callFor (bundle info h (compressed ++ trailing))) := by
    refine uncompressCall_eq_ok.mpr ⟨⟨by omega, bundle_signature, ?_⟩, ?_, ?_, rfl⟩
    · rwa [tableHdr_bundle]
    · rw [tableHdr_bundle, hsize]
      omega
    · refine (Nat.mod_le _ _).trans ?_
      rw [tableHdr_bundle, hsize]
      omega
  -- what zlib is given ends where the compressed records end
  have hsource : field (bundle info h (compressed ++ trailing)) (bundleHeaderSize + tableDataSize)
      (h.data.compressedSize - tableDataSize) = compressed := by
    rw [hsize, Nat.add_sub_cancel_left, field, ← List.drop_drop, bundle_drop,
      List.drop_left' h.length_eq, List.take_left' rfl]
  have hout : uncompress (callFor (bundle info h (compressed ++ trailing))) = some records := by
    refine hzlib _ ?_ ?_
    · rw [callFor, tableHdr_bundle]
      exact hsource
    · rw [callFor, tableHdr_bundle]
      exact hroom
  rw [decompressPlatDef, hcall]
  dsimp only
  rw [hout]
  dsimp only
  rw [callFor, field_bundle, List.take_left' h.length_eq]

end Decompress

/-! ### The walk behind a prefix -/

section Shift

variable {pre bs : Bytes} {n pos : ℕ} {m : OMap UInt8 I2cSegmentMapping}

theorem recordAt_append (hpre : pre.length = n) :
    recordAt (pre ++ bs) (n + pos) = recordAt bs pos := by
  rw [recordAt, field_append_right hpre, recordAt]

theorem recordBytesAt_append (hpre : pre.length = n) :
    recordBytesAt (pre ++ bs) (n + pos) = recordBytesAt bs pos := by
  rw [recordBytesAt, recordAt_append hpre, recordBytesAt]

private theorem wholeRecord_append (hpre : pre.length = n) :
    WholeRecord (pre ++ bs) (n + pos) ↔ WholeRecord bs pos := by
  have hlength : (pre ++ bs).length = n + bs.length := by rw [List.length_append, hpre]
  constructor
  · rintro ⟨hheader, htype, hsize, hrecord⟩
    rw [recordAt_append hpre] at htype hsize
    rw [recordBytesAt_append hpre] at hrecord
    exact ⟨by omega, htype, hsize, by omega⟩
  · rintro ⟨hheader, htype, hsize, hrecord⟩
    refine ⟨by omega, ?_, ?_, ?_⟩
    · rwa [recordAt_append hpre]
    · rwa [recordAt_append hpre]
    · rw [recordBytesAt_append hpre]
      omega

private theorem parseSegments_append (hpre : pre.length = n) (segStart recordEnd left : ℕ) :
    ∀ (i : ℕ) (m : OMap UInt8 I2cSegmentMapping),
      parseSegments (pre ++ bs) (n + segStart) (n + recordEnd) left i m =
        parseSegments bs segStart recordEnd left i m := by
  induction left with
  | zero =>
    intro i m
    rfl
  | succ left ih =>
    intro i m
    have hlength : (pre ++ bs).length = n + bs.length := by rw [List.length_append, hpre]
    have hoff : n + segStart + i * i2cSegmentSize = n + (segStart + i * i2cSegmentSize) :=
      Nat.add_assoc _ _ _
    rw [parseSegments, parseSegments, hoff, field_append_right hpre, ih]
    refine if_congr (or_congr ?_ ?_) rfl rfl
    · omega
    · omega

private theorem parseEngine_append (hpre : pre.length = n) (recordBytes : ℕ) :
    parseEngine (pre ++ bs) (n + pos) recordBytes m = parseEngine bs pos recordBytes m := by
  have hlength : (pre ++ bs).length = n + bs.length := by rw [List.length_append, hpre]
  have hfixed : n + pos + recordHeaderSize = n + (pos + recordHeaderSize) := Nat.add_assoc _ _ _
  have hend : n + (pos + recordHeaderSize) + i2cEngineFixedSize =
      n + (pos + recordHeaderSize + i2cEngineFixedSize) := Nat.add_assoc _ _ _
  have hrecord : n + pos + recordBytes = n + (pos + recordBytes) := Nat.add_assoc _ _ _
  rw [parseEngine, parseEngine, hfixed, hend, hrecord, field_append_right hpre]
  dsimp only
  rw [parseSegments_append hpre]
  refine if_congr ?_ rfl rfl
  omega

private theorem passRecord_append (hpre : pre.length = n) :
    passRecord (pre ++ bs) (n + pos) m = passRecord bs pos m := by
  rw [passRecord, recordAt_append hpre, recordBytesAt_append hpre, parseEngine_append hpre,
    passRecord]

/-- **The walk from a record on sees nothing of what lies before it.** -/
theorem parseRecords_append (hpre : pre.length = n) (pos : ℕ)
    (m : OMap UInt8 I2cSegmentMapping) :
    parseRecords (pre ++ bs) (n + pos) m = parseRecords bs pos m := by
  induction pos, m using walk_induction bs with
  | stop pos m h =>
    rw [parseRecords_of_not_whole h, parseRecords_of_not_whole (mt (wholeRecord_append hpre).mp h)]
  | cut pos m h hcut =>
    rw [parseRecords_of_whole h, hcut, parseRecords_of_whole ((wholeRecord_append hpre).mpr h),
      passRecord_append hpre, hcut]
  | pass pos m m' h hpass ih =>
    rw [parseRecords_of_whole h, hpass, parseRecords_of_whole ((wholeRecord_append hpre).mpr h),
      passRecord_append hpre, hpass, recordBytesAt_append hpre, Nat.add_assoc]
    exact ih

end Shift

/-! ### The table header as the first record -/

namespace TableHeader

variable (h : TableHeader) (records : Bytes)

theorem recordAt_zero :
    recordAt (h.bytes ++ records) 0 = ⟨h.type, uint8At h.bytes 1⟩ := by
  have hlength : h.bytes.length = 112 := h.length_eq
  rw [recordAt, field_append_left (by rw [hlength]; decide), PlatDefRecordHeader.ofBytes,
    uint8At_field (by decide), uint8At_field (by decide), type]

theorem recordBytesAt_zero : recordBytesAt (h.bytes ++ records) 0 = tableDataSize := by
  rw [recordBytesAt, h.recordAt_zero, h.size_eq]

private theorem wholeRecord_zero (htype : h.type ≠ recordTypeEndOfTable) :
    WholeRecord (h.bytes ++ records) 0 := by
  have hlength : (h.bytes ++ records).length = tableDataSize + records.length := by
    rw [List.length_append, h.length_eq]
  have htable : tableDataSize = 112 := rfl
  have hheader : recordHeaderSize = 32 := rfl
  have hsize := h.size_eq
  refine ⟨by omega, ?_, ?_, ?_⟩
  · rwa [h.recordAt_zero]
  · rw [h.recordAt_zero]
    dsimp only
    omega
  · rw [h.recordBytesAt_zero]
    omega

/-- There is room for one segment in a table header. -/
theorem parseSegments_zero (count : ℕ) :
    parseSegments (h.bytes ++ records) 80 112 count 0 .empty =
      if count ≠ 0 then addSegment .empty h.segment else .empty := by
  have hlength : (h.bytes ++ records).length = 112 + records.length := by
    rw [List.length_append, h.length_eq]
    rfl
  have hseg : i2cSegmentSize = 32 := rfl
  have hfield : field (h.bytes ++ records) (80 + 0 * i2cSegmentSize) i2cSegmentSize =
      field h.bytes 80 32 := field_append_left (by rw [h.length_eq]; decide)
  rcases count with _ | left
  · rfl
  · rw [if_pos (Nat.succ_ne_zero left), parseSegments, if_neg (by omega), hfield]
    rcases left with _ | left
    · rfl
    · -- a second segment would begin where the header ends
      rw [parseSegments, if_pos (Or.inr (by omega)), segment]

private theorem passRecord_zero :
    passRecord (h.bytes ++ records) 0 .empty = some h.ownMappings := by
  have hlength : (h.bytes ++ records).length = 112 + records.length := by
    rw [List.length_append, h.length_eq]
    rfl
  have hcount : uint8At (field (h.bytes ++ records) 32 i2cEngineFixedSize) 38 = h.count := by
    rw [field_append_left (by rw [h.length_eq]; decide), uint8At_field (by decide), count]
  rw [passRecord, h.recordAt_zero, h.recordBytesAt_zero, ownMappings]
  dsimp only
  by_cases htype : h.type = recordTypeI2CEngine
  · have hfixed : ¬ 0 + recordHeaderSize + i2cEngineFixedSize > (h.bytes ++ records).length := by
      show ¬ 80 > _
      omega
    rw [if_pos htype, parseEngine, if_neg hfixed]
    change some (parseSegments (h.bytes ++ records) 80 112
      (uint8At (field (h.bytes ++ records) 32 i2cEngineFixedSize) 38).toNat 0 .empty) = _
    rw [hcount, h.parseSegments_zero]
    simp only [htype, true_and]
  · rw [if_neg htype, if_neg (fun hboth => htype hboth.1)]

end TableHeader

/-- **What the walk makes of a table header with records behind it.** -/
theorem parseI2cSegments_tableHeader (h : TableHeader) (records : Bytes) :
    parseI2cSegments (h.bytes ++ records) =
      if h.type = recordTypeEndOfTable then .empty else parseRecords records 0 h.ownMappings := by
  have hlength : (h.bytes ++ records).length = 112 + records.length := by
    rw [List.length_append, h.length_eq]
    rfl
  have hheader : recordHeaderSize = 32 := rfl
  have hfirst : (recordAt (h.bytes ++ records) 0).size.toNat * 16 = tableDataSize :=
    h.recordBytesAt_zero records
  rw [parseI2cSegments, if_neg (by omega)]
  dsimp only
  rw [ofBytes_field, if_neg (not_not.mpr hfirst)]
  split
  · next htype =>
    -- the walk ends at the header itself
    refine parseRecords_of_not_whole fun hwhole => hwhole.type_ne ?_
    rw [h.recordAt_zero, htype]
  · next htype =>
    rw [parseRecords_of_whole (h.wholeRecord_zero records htype), h.passRecord_zero,
      h.recordBytesAt_zero, Nat.zero_add]
    exact parseRecords_append h.length_eq 0 h.ownMappings

/-! ### Plain and compressed -/

/-- Two table headers that differ at most in `flags`, `totalSize` and
`compressedSize`, the fields that say how the records are packed. -/
def SameTable (p z : TableHeader) : Prop :=
  ∀ i < tableDataSize, ¬(64 ≤ i ∧ i < 66) → ¬(76 ≤ i ∧ i < 80) → ¬(96 ≤ i ∧ i < 100) →
    uint8At p.bytes i = uint8At z.bytes i

theorem SameTable.ownMappings_eq {p z : TableHeader} (h : SameTable p z)
    (hown : p.type = recordTypeI2CEngine → p.count ≠ 0 →
      field p.bytes 96 4 = field z.bytes 96 4) : p.ownMappings = z.ownMappings := by
  have htype : p.type = z.type := h 0 (by decide) (by omega) (by omega) (by omega)
  have hcount : p.count = z.count := h 70 (by decide) (by omega) (by omega) (by omega)
  rw [TableHeader.ownMappings, TableHeader.ownMappings, ← htype, ← hcount]
  split
  · next hengine =>
    have hzero : p.count ≠ 0 := fun hzero => hengine.2 (by rw [hzero]; rfl)
    have hsize := hown hengine.1 hzero
    have hbyte : ∀ i < 4, uint8At p.bytes (96 + i) = uint8At z.bytes (96 + i) := by
      intro i hi
      rw [← uint8At_field hi, hsize, uint8At_field hi]
    -- the segment takes one byte the tables share and three of these four
    have hsegment : p.segment = z.segment := by
      rw [TableHeader.segment, TableHeader.segment, PlatDefI2CSegment.ofBytes,
        PlatDefI2CSegment.ofBytes]
      simp only [uint8At_field (show 5 < 32 by decide), uint8At_field (show 16 < 32 by decide),
        uint8At_field (show 17 < 32 by decide), uint8At_field (show 19 < 32 by decide)]
      rw [h 85 (by decide) (by omega) (by omega) (by omega), hbyte 0 (by omega), hbyte 1 (by omega),
        hbyte 3 (by omega)]
    rw [hsegment]
  · rfl

/-- **A compressed bundle means what the plain one means**, unless the table
header is itself an I2CEngine record with segments and the two differ in
`compressedSize`. -/
theorem parseI2cSegments_zlib_eq_plain {w : ℕ} {uncompress : UncompressCall → Option Bytes}
    {compressed records : Bytes} (hzlib : Inflates uncompress compressed records)
    {p z : TableHeader} (hsame : SameTable p z)
    (hplain : p.data.flags &&& tableDataFlagZLib = 0)
    (hflag : z.data.flags &&& tableDataFlagZLib ≠ 0)
    (hsize : z.data.compressedSize = tableDataSize + compressed.length)
    (hroom : records.length ≤ decompSize z.data.totalSize)
    (hown : p.type = recordTypeI2CEngine → p.count ≠ 0 →
      field p.bytes 96 4 = field z.bytes 96 4)
    (info info' : Vector UInt8 16) (trailing : Bytes) :
    parseI2cSegments (decompressPlatDef w uncompress (bundle info z (compressed ++ trailing))) =
      parseI2cSegments (decompressPlatDef w uncompress (bundle info' p records)) := by
  have htype : p.type = z.type := hsame 0 (by decide) (by omega) (by omega) (by omega)
  rw [decompressPlatDef_zlib hzlib hflag hsize hroom, decompressPlatDef_plain hplain,
    parseI2cSegments_tableHeader, parseI2cSegments_tableHeader, htype, hsame.ownMappings_eq hown]

/-- What zlib makes of a single zero byte. -/
def zlibOfZero : Bytes := [0x78, 0x9C, 0x63, 0x00, 0x00, 0x00, 0x01, 0x00, 0x01]

/-- zlib, as far as it knows `zlibOfZero`. -/
def uncompressZero (call : UncompressCall) : Option Bytes :=
  if field call.source call.sourceOffset call.sourceLen = zlibOfZero ∧ 1 ≤ call.destLen then
    some [0]
  else none

private theorem inflates_uncompressZero : Inflates uncompressZero zlibOfZero [0] := by
  intro call hsource hroom
  rw [uncompressZero, if_pos ⟨hsource, hroom⟩]

/-- A table header of type I2CEngine with a segment count of 1. -/
def engineTable (flags : UInt8) (compressedSize : Vector UInt8 4) : TableHeader where
  bytes := [14, 7] ++ List.replicate 62 0 ++ [flags, 0, 0, 0, 0, 0, 1] ++ List.replicate 25 0 ++
    (compressedSize.toList ++ List.replicate 12 0)
  length_eq := by
    simp only [List.length_append, List.length_replicate, Vector.length_toList]
    rfl
  size_eq := rfl

theorem parseI2cSegments_zlib_eq_plain_engineTable :
    parseI2cSegments (decompressPlatDef 32 uncompressZero (bundle (.replicate 16 0)
      (engineTable 0x10 #v[121, 0, 0, 0]) (zlibOfZero ++ [0]))) =
    parseI2cSegments (decompressPlatDef 32 uncompressZero (bundle (.replicate 16 0)
      (engineTable 0 #v[121, 0, 0, 0]) [0])) :=
  parseI2cSegments_zlib_eq_plain inflates_uncompressZero (by unfold SameTable; decide +kernel)
    (by decide +kernel) (by decide +kernel) (by decide +kernel) (by decide +kernel)
    (by decide +kernel) _ _ [0]

/-- The header's own segment reads the `compressedSize` of the plain bundle as
the registers of a mux. -/
theorem not_forall_parseI2cSegments_zlib_eq_plain :
    ¬∀ (w : ℕ) (uncompress : UncompressCall → Option Bytes) (compressed records : Bytes)
      (p z : TableHeader) (info info' : Vector UInt8 16) (trailing : Bytes),
      Inflates uncompress compressed records → SameTable p z →
      p.data.flags &&& tableDataFlagZLib = 0 → z.data.flags &&& tableDataFlagZLib ≠ 0 →
      z.data.compressedSize = tableDataSize + compressed.length → records ≠ [] →
      records.length ≤ decompSize z.data.totalSize →
      parseI2cSegments (decompressPlatDef w uncompress (bundle info z (compressed ++ trailing))) =
        parseI2cSegments (decompressPlatDef w uncompress (bundle info' p records)) := by
  intro h
  have heq := h 64 uncompressZero zlibOfZero [0] (engineTable 0 #v[1, 0x85, 0, 4])
    (engineTable 0x10 #v[121, 0, 0, 0]) (.replicate 16 0) (.replicate 16 0) []
    inflates_uncompressZero (by unfold SameTable; decide +kernel) (by decide +kernel)
    (by decide +kernel) (by decide +kernel) (by decide) (by decide +kernel)
  rw [decompressPlatDef_zlib inflates_uncompressZero (by decide +kernel) (by decide +kernel)
    (by decide +kernel), decompressPlatDef_plain (by decide +kernel),
    parseI2cSegments_tableHeader, parseI2cSegments_tableHeader] at heq
  have hnone : ∀ m, parseRecords [0] 0 m = m := fun m =>
    parseRecords_of_not_whole fun hwhole => absurd hwhole.header_le (by decide)
  rw [if_neg (by decide), if_neg (by decide), hnone, hnone] at heq
  exact absurd (congrArg OMap.entries heq) (by decide)

end PlatDef
