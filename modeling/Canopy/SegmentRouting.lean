/-
Segment routing, from the bytes of a platform definition table to kernel
buses.

A table is a list of records in their encoded form (`PlatDefTable.encode`).
The walk of `parseI2cSegments` visits exactly these records, and the maps it
and `buildSegmentBusMap` fill are read off with "the last one wins".

* `parseI2cSegments_encode` — the walk adds the segments in record order;
* `lookup_scanMuxTopology` — the packed keys of sysfs channels do not clash;
* `muxTopology_of_lists` — the scan of a listing gives the topology that it lists;
* `lookup_segmentBusMap` — a segment is mapped to a bus iff its last CPLD
  entry names a register of a mux and the topology that sysfs lists has the channel.
-/
import Canopy.MuxListing

open Bytes OrderedMap

namespace PlatDef

/-! ### Encoded tables -/

/-- An I2C segment: the bytes that routing uses, and the others. -/
structure SegmentRecord where
  flagsSpeed : Vector UInt8 5
  id : UInt8
  parentReserved : Vector UInt8 10
  muxType : UInt8
  byte : UInt8
  initMask : UInt8
  selectMask : UInt8
  muxRest : Vector UInt8 12

def SegmentRecord.encode (g : SegmentRecord) : Bytes :=
  g.flagsSpeed.toList ++ (g.id :: (g.parentReserved.toList ++
    (g.muxType :: g.byte :: g.initMask :: g.selectMask :: g.muxRest.toList)))

/-- What the parser sees of a segment. -/
def SegmentRecord.fields (g : SegmentRecord) : PlatDefI2CSegment :=
  ⟨g.id, g.muxType, g.byte, g.selectMask⟩

/-- An I2CEngine record; `trailer` is what follows the segments, in units of
16 bytes. -/
structure EngineRecord where
  header : Vector UInt8 30
  fixedHead : Vector UInt8 38
  fixedTail : Vector UInt8 9
  segments : List SegmentRecord
  trailer : List (Vector UInt8 16)
  size_le : 5 + 2 * segments.length + trailer.length ≤ 255

/-- A record of another type, of any size that holds its header. -/
structure OtherRecord where
  type : UInt8
  header : Vector UInt8 30
  body : List (Vector UInt8 16)
  not_engine : type ≠ recordTypeI2CEngine
  not_end : type ≠ recordTypeEndOfTable
  size_le : 2 + body.length ≤ 255

inductive PlatDefRecord where
  | engine (r : EngineRecord)
  | other (r : OtherRecord)

namespace PlatDefRecord

def type : PlatDefRecord → UInt8
  | .engine _ => recordTypeI2CEngine
  | .other r => r.type

/-- The size field: the length in units of 16 bytes. -/
def size : PlatDefRecord → ℕ
  | .engine r => 5 + 2 * r.segments.length + r.trailer.length
  | .other r => 2 + r.body.length

/-- The 30 bytes of the header behind the type and the size. -/
def header : PlatDefRecord → Bytes
  | .engine r => r.header.toList
  | .other r => r.header.toList

/-- What follows the header. -/
def body : PlatDefRecord → Bytes
  | .engine r => r.fixedHead.toList ++ (UInt8.ofNat r.segments.length ::
      (r.fixedTail.toList ++ (r.segments.flatMap SegmentRecord.encode ++
        r.trailer.flatMap Vector.toList)))
  | .other r => r.body.flatMap Vector.toList

def encode (r : PlatDefRecord) : Bytes :=
  r.type :: UInt8.ofNat r.size :: (r.header ++ r.body)

/-- The segments of a record; only engines have any. -/
def segments : PlatDefRecord → List PlatDefI2CSegment
  | .engine r => r.segments.map SegmentRecord.fields
  | .other _ => []

end PlatDefRecord

/-- A table: its own header record, the records, and what begins with the
end-of-table record. -/
structure PlatDefTable where
  type : UInt8
  not_engine : type ≠ recordTypeI2CEngine
  not_end : type ≠ recordTypeEndOfTable
  header : Vector UInt8 30
  body : Vector UInt8 80
  records : List PlatDefRecord
  endRest : Bytes

namespace PlatDefTable

/-- The 112 bytes of the table header record. -/
def headerRecord (t : PlatDefTable) : Bytes := t.type :: 7 :: (t.header.toList ++ t.body.toList)

def encode (t : PlatDefTable) : Bytes :=
  t.headerRecord ++ (t.records.flatMap PlatDefRecord.encode ++
    (recordTypeEndOfTable :: t.endRest))

/-- All segments, in record order. -/
def segments (t : PlatDefTable) : List PlatDefI2CSegment :=
  t.records.flatMap PlatDefRecord.segments

/-- The last CPLD-type segment with id `s`. -/
def lastCpld (t : PlatDefTable) (s : UInt8) : Option PlatDefI2CSegment :=
  t.segments.reverse.find? fun g => g.muxType = i2cMuxTypeCpld ∧ g.id = s

end PlatDefTable

/-! ### Lengths -/

theorem flatMap_length_of_forall {α : Type*} {f : α → Bytes} {n : ℕ} (hf : ∀ a, (f a).length = n)
    (l : List α) : (l.flatMap f).length = n * l.length := by
  induction l with
  | nil => rfl
  | cons a l ih =>
    rw [List.flatMap_cons, List.length_append, hf, ih, List.length_cons]
    ring

theorem SegmentRecord.encode_length (g : SegmentRecord) : g.encode.length = 32 := by
  simp [SegmentRecord.encode]

namespace PlatDefRecord

theorem header_length : ∀ r : PlatDefRecord, r.header.length = 30
  | .engine r => by simp [header]
  | .other r => by simp [header]

private theorem two_le_size : ∀ r : PlatDefRecord, 2 ≤ r.size
  | .engine r => by
    rw [size]
    omega
  | .other r => Nat.le_add_right _ _

theorem size_le : ∀ r : PlatDefRecord, r.size ≤ 255
  | .engine r => r.size_le
  | .other r => r.size_le

theorem encode_length : ∀ r : PlatDefRecord, r.encode.length = r.size * 16
  | .engine r => by
    simp only [encode, header, body, size, List.length_cons, List.length_append,
      Vector.length_toList, flatMap_length_of_forall SegmentRecord.encode_length,
      flatMap_length_of_forall fun v : Vector UInt8 16 => v.length_toList]
    ring
  | .other r => by
    simp only [encode, header, body, size, List.length_cons, List.length_append,
      Vector.length_toList, flatMap_length_of_forall fun v : Vector UInt8 16 => v.length_toList]
    ring

end PlatDefRecord

/-! ### The segments of an engine -/

theorem SegmentRecord.ofBytes_encode (g : SegmentRecord) :
    PlatDefI2CSegment.ofBytes g.encode = g.fields := by
  have hflags : g.flagsSpeed.toList.length = 5 := Vector.length_toList
  have hparent : g.parentReserved.toList.length = 10 := Vector.length_toList
  have hmux (k : ℕ) : uint8At g.encode (16 + k) =
      uint8At (g.muxType :: g.byte :: g.initMask :: g.selectMask :: g.muxRest.toList) k := by
    rw [SegmentRecord.encode, show 16 + k = 5 + (11 + k) by omega, uint8At_append_right hflags,
      ← List.cons_append]
    exact uint8At_append_right (by rw [List.length_cons, hparent])
  rw [PlatDefI2CSegment.ofBytes, SegmentRecord.fields]
  congr 1
  · show uint8At (g.flagsSpeed.toList ++ _) (5 + 0) = g.id
    rw [uint8At_append_right hflags]
    rfl
  · exact hmux 0
  · exact hmux 1
  · exact hmux 3

/-- The loop adds the segments that lie behind one another from `segStart` on. -/
theorem parseSegments_encode {platDef pre post : Bytes} {segStart recordEnd : ℕ}
    (todo : List SegmentRecord) :
    ∀ (done : List SegmentRecord) (m : OMap UInt8 I2cSegmentMapping),
      platDef = pre ++ (done.flatMap SegmentRecord.encode ++
        (todo.flatMap SegmentRecord.encode ++ post)) →
      pre.length = segStart → segStart + 32 * (done.length + todo.length) ≤ recordEnd →
      parseSegments platDef segStart recordEnd todo.length done.length m =
        (todo.map SegmentRecord.fields).foldl addSegment m := by
  induction todo with
  | nil =>
    intro done m _ _ _
    rfl
  | cons g todo ih =>
    intro done m hdef hpre hend
    have hdone : (done.flatMap SegmentRecord.encode).length = 32 * done.length :=
      flatMap_length_of_forall SegmentRecord.encode_length done
    have htodo : (todo.flatMap SegmentRecord.encode).length = 32 * todo.length :=
      flatMap_length_of_forall SegmentRecord.encode_length todo
    have hsize : i2cSegmentSize = 32 := rfl
    have hoff : done.length * i2cSegmentSize = 32 * done.length := Nat.mul_comm _ _
    have hsplit : platDef = (pre ++ done.flatMap SegmentRecord.encode) ++
        (g.encode ++ (todo.flatMap SegmentRecord.encode ++ post)) := by
      rw [hdef, List.flatMap_cons, List.append_assoc, List.append_assoc]
    have hlength : segStart + done.length * i2cSegmentSize + i2cSegmentSize ≤ platDef.length := by
      rw [hsplit]
      simp only [List.length_append, hpre, hdone, htodo, g.encode_length]
      omega
    -- what the round reads is the next segment, behind those done
    have hseg : field platDef (segStart + done.length * i2cSegmentSize) i2cSegmentSize =
        g.encode := by
      rw [hsplit]
      refine field_block ?_ g.encode_length
      rw [List.length_append, hpre, hdone]
      omega
    have hnext : platDef = pre ++ ((done ++ [g]).flatMap SegmentRecord.encode ++
        (todo.flatMap SegmentRecord.encode ++ post)) := by
      rw [hdef]
      simp [List.flatMap_append]
    rw [List.length_cons] at hend
    rw [List.length_cons, parseSegments, if_neg (by omega), hseg, SegmentRecord.ofBytes_encode]
    have hrest := ih (done ++ [g]) (addSegment m g.fields) hnext hpre (by simp; omega)
    rw [List.length_append, List.length_singleton] at hrest
    rw [hrest, List.map_cons, List.foldl_cons]

/-! ### One record of the walk -/

namespace PlatDefRecord

variable {platDef pre post : Bytes} {pos : ℕ}

/-- A whole record fits. -/
theorem fits {r : PlatDefRecord} (hdef : platDef = pre ++ (r.encode ++ post))
    (hpre : pre.length = pos) : pos + r.size * 16 ≤ platDef.length := by
  rw [hdef, List.length_append, List.length_append, r.encode_length, hpre]
  omega

private theorem ofBytes_encode {r : PlatDefRecord} (hdef : platDef = pre ++ (r.encode ++ post))
    (hpre : pre.length = pos) :
    PlatDefRecordHeader.ofBytes (field platDef pos recordHeaderSize) =
      ⟨r.type, UInt8.ofNat r.size⟩ := by
  have hheader : recordHeaderSize = 32 := rfl
  rw [PlatDefRecordHeader.ofBytes, uint8At_field (by omega), uint8At_field (by omega), hdef,
    uint8At_append_right hpre, uint8At_append_right hpre]
  rfl

private theorem size_toNat (r : PlatDefRecord) : (UInt8.ofNat r.size).toNat = r.size :=
  UInt8.toNat_ofNat_of_lt' (Nat.lt_succ_of_le r.size_le)

/-- The segments an engine record adds. -/
theorem parseEngine_encode {r : EngineRecord}
    (hdef : platDef = pre ++ ((engine r).encode ++ post)) (hpre : pre.length = pos)
    (m : OMap UInt8 I2cSegmentMapping) :
    parseEngine platDef pos ((engine r).size * 16) m =
      some ((engine r).segments.foldl addSegment m) := by
  have hfits := fits hdef hpre
  have hsize : (engine r).size = 5 + 2 * r.segments.length + r.trailer.length := rfl
  have hle := r.size_le
  have hheader : recordHeaderSize = 32 := rfl
  have hfixed : i2cEngineFixedSize = 48 := rfl
  -- the count field is byte 38 of the fixed part
  have hcount : uint8At (field platDef (pos + recordHeaderSize) i2cEngineFixedSize) 38 =
      UInt8.ofNat r.segments.length := by
    rw [uint8At_field (by omega), hdef, Nat.add_assoc, uint8At_append_right hpre, encode, header,
      body]
    simp only [List.cons_append, List.append_assoc]
    rw [show recordHeaderSize + 38 = (30 + (38 + 0)) + 1 + 1 by rfl]
    show uint8At (r.header.toList ++ _) (30 + (38 + 0)) = _
    rw [uint8At_append_right Vector.length_toList, uint8At_append_right Vector.length_toList]
    rfl
  have hcountNat : (UInt8.ofNat r.segments.length).toNat = r.segments.length :=
    UInt8.toNat_ofNat_of_lt' (by show _ < 256; omega)
  rw [parseEngine]
  simp only
  rw [if_neg (by omega), hcount, hcountNat]
  congr 1
  -- everything before the segments
  let before : Bytes := pre ++ (recordTypeI2CEngine :: UInt8.ofNat (engine r).size ::
    (r.header.toList ++ (r.fixedHead.toList ++ (UInt8.ofNat r.segments.length ::
      r.fixedTail.toList))))
  have hbefore : before.length = pos + recordHeaderSize + i2cEngineFixedSize := by
    simp [before, hpre]
    omega
  have hsplit : platDef = before ++ (([] : List SegmentRecord).flatMap SegmentRecord.encode ++
      (r.segments.flatMap SegmentRecord.encode ++ (r.trailer.flatMap Vector.toList ++ post))) := by
    rw [hdef, encode, header, body]
    simp [before, type]
  refine parseSegments_encode r.segments [] m hsplit hbefore ?_
  rw [List.length_nil]
  omega

/-- **The walk adds the segments of a record and goes on behind it.** -/
theorem parseRecords_encode {r : PlatDefRecord} (hdef : platDef = pre ++ (r.encode ++ post))
    (hpre : pre.length = pos) (m : OMap UInt8 I2cSegmentMapping) :
    parseRecords platDef pos m =
      parseRecords platDef (pos + r.size * 16) (r.segments.foldl addSegment m) := by
  have hfits := fits hdef hpre
  have htwo := r.two_le_size
  have hheader : recordHeaderSize = 32 := rfl
  -- the checks of the header pass, and the type decides what is read
  have hnot_end : r.type ≠ recordTypeEndOfTable := by
    cases r with
    | engine r => exact show recordTypeI2CEngine ≠ recordTypeEndOfTable by decide
    | other r => exact r.not_end
  rw [parseRecords, if_pos (by omega)]
  simp only [ofBytes_encode hdef hpre, r.size_toNat]
  rw [if_neg hnot_end, if_neg (by omega), if_neg (by omega)]
  cases r with
  | engine r =>
    rw [if_pos (show (engine r).type = recordTypeI2CEngine from rfl), parseEngine_encode hdef hpre]
  | other r =>
    rw [if_neg (show (other r).type ≠ recordTypeI2CEngine from r.not_engine)]
    rfl

/-- The walk over a list of records. -/
theorem parseRecords_flatMap : ∀ (records : List PlatDefRecord) {pre : Bytes} {pos : ℕ}
    (m : OMap UInt8 I2cSegmentMapping),
    platDef = pre ++ (records.flatMap encode ++ post) → pre.length = pos →
      ∃ pos', (platDef.drop pos' = post ∧ pos' ≤ platDef.length) ∧
        parseRecords platDef pos m =
          parseRecords platDef pos' ((records.flatMap segments).foldl addSegment m)
  | [], pre, pos, m, hdef, hpre => by
    refine ⟨pos, ⟨?_, ?_⟩, rfl⟩
    · rw [hdef, ← hpre, List.drop_left]
      rfl
    · rw [hdef, ← hpre, List.length_append]
      omega
  | r :: records, pre, pos, m, hdef, hpre => by
    rw [List.flatMap_cons, List.append_assoc] at hdef
    have hnext : platDef = (pre ++ r.encode) ++ (records.flatMap encode ++ post) := by
      rw [hdef, List.append_assoc]
    have hpos : (pre ++ r.encode).length = pos + r.size * 16 := by
      rw [List.length_append, hpre, r.encode_length]
    obtain ⟨pos', hpos', hwalk⟩ := parseRecords_flatMap records
      (r.segments.foldl addSegment m) hnext hpos
    refine ⟨pos', hpos', ?_⟩
    rw [parseRecords_encode hdef hpre, hwalk, List.flatMap_cons, List.foldl_append]

end PlatDefRecord

/-- The walk stops at the end-of-table record, or before a header that does
not fit. -/
theorem parseRecords_end {platDef rest : Bytes} {pos : ℕ} (m : OMap UInt8 I2cSegmentMapping)
    (h : platDef.drop pos = recordTypeEndOfTable :: rest) : parseRecords platDef pos m = m := by
  rw [parseRecords]
  split
  · have htype : (PlatDefRecordHeader.ofBytes (field platDef pos recordHeaderSize)).type =
        recordTypeEndOfTable := by
      rw [PlatDefRecordHeader.ofBytes, field, h]
      rfl
    simp only
    rw [if_pos htype]
  · rfl

/-- **`parseI2cSegments` adds the segments of the table in record order.** -/
theorem parseI2cSegments_encode (t : PlatDefTable) :
    parseI2cSegments t.encode = t.segments.foldl addSegment .empty := by
  have hheader : t.headerRecord.length = tableDataSize := by
    simp [PlatDefTable.headerRecord, tableDataSize]
  have hlength : tableDataSize ≤ t.encode.length := by
    rw [PlatDefTable.encode, List.length_append, hheader]
    exact Nat.le_add_right _ _
  have hrecord : recordHeaderSize ≤ tableDataSize := by decide
  have hfirst : PlatDefRecordHeader.ofBytes (field t.encode 0 recordHeaderSize) = ⟨t.type, 7⟩ := by
    rw [PlatDefRecordHeader.ofBytes, uint8At_field (by decide), uint8At_field (by decide)]
    rfl
  -- the walk passes over the table header record first
  have hstart (m : OMap UInt8 I2cSegmentMapping) :
      parseRecords t.encode 0 m = parseRecords t.encode tableDataSize m := by
    rw [parseRecords, if_pos (by omega)]
    simp only [hfirst]
    rw [if_neg t.not_end, if_neg (by decide), if_neg (by
      show ¬0 + tableDataSize > _
      omega), if_neg t.not_engine]
    rfl
  obtain ⟨pos, ⟨hpos, -⟩, hwalk⟩ := PlatDefRecord.parseRecords_flatMap t.records
    (.empty : OMap UInt8 I2cSegmentMapping) (show t.encode = _ from rfl) hheader
  rw [parseI2cSegments, if_neg (by omega)]
  simp only [hfirst]
  rw [if_neg (by decide), hstart, hwalk, parseRecords_end _ hpos]
  rfl

/-! ### What the maps contain -/

/-- What a segment record maps `s` to. -/
def PlatDefI2CSegment.binds (g : PlatDefI2CSegment) (s : UInt8) : Option I2cSegmentMapping :=
  if g.muxType = i2cMuxTypeCpld ∧ g.id = s then some ⟨g.byte, g.selectMask⟩ else none

private theorem lookup_addSegment (m : OMap UInt8 I2cSegmentMapping) (g : PlatDefI2CSegment)
    (s : UInt8) :
    (addSegment m g).lookup s = (g.binds s).or (m.lookup s) := by
  rw [addSegment, PlatDefI2CSegment.binds]
  by_cases hmux : g.muxType = i2cMuxTypeCpld
  · rw [if_pos hmux, lookup_put]
    by_cases hid : g.id = s
    · rw [if_pos hid, if_pos ⟨hmux, hid⟩, Option.some_or]
    · rw [if_neg hid, if_neg fun h => hid h.2, Option.none_or]
  · rw [if_neg hmux, if_neg fun h => hmux h.1, Option.none_or]

/-- The mapping of a segment is the one of its last CPLD entry. -/
theorem lookup_parseI2cSegments (t : PlatDefTable) (s : UInt8) :
    (parseI2cSegments t.encode).lookup s =
      (t.lastCpld s).map fun g => ⟨g.byte, g.selectMask⟩ := by
  rw [parseI2cSegments_encode, lookup_foldl fun m g => lookup_addSegment m g s]
  simp only [PlatDefI2CSegment.binds]
  rw [findSome_ite, PlatDefTable.lastCpld]
  exact Option.or_none

/-- The routes sysfs lists, in the order of the scan. -/
def muxRoutes (w : ℕ) (ahb : List MuxEntry) : List ((UInt8 × UInt8) × ℤ) :=
  ahb.flatMap fun entry =>
    match entry.muxId w with
    | none => []
    | some muxId =>
      entry.channels.filterMap fun c => (c.route w).map fun r => ((muxId, r.1), r.2)

/-- The bus of a channel of a mux: the last route listed for it. -/
def muxTopology (w : ℕ) (ahb : List MuxEntry) (muxIndex channel : UInt8) : Option ℤ :=
  ((muxRoutes w ahb).reverse.find? fun r => r.1 = (muxIndex, channel)).map Prod.snd

private theorem muxKey_toNat (m c : UInt8) : (muxKey m c).toNat = m.toNat * 256 + c.toNat := by
  have hm : m.toNat < 256 := m.toNat_lt
  have hc : c.toNat < 2 ^ 8 := c.toNat_lt
  have hshift : m.toNat <<< 8 % 2 ^ 16 = m.toNat <<< 8 := by
    rw [Nat.shiftLeft_eq]
    exact Nat.mod_eq_of_lt (by omega)
  rw [muxKey, UInt16.toNat_or, UInt16.toNat_shiftLeft, UInt8.toNat_toUInt16,
    UInt8.toNat_toUInt16]
  show m.toNat <<< 8 % 2 ^ 16 ||| c.toNat = _
  rw [hshift, ← Nat.shiftLeft_add_eq_or_of_lt hc, Nat.shiftLeft_eq]

/-- Eight bits for each half: no two channels share a key. -/
theorem muxKey_inj {m c m' c' : UInt8} : muxKey m c = muxKey m' c' ↔ (m, c) = (m', c') := by
  constructor
  · intro h
    have hnat := congrArg UInt16.toNat h
    rw [muxKey_toNat, muxKey_toNat] at hnat
    have hc : c.toNat < 256 := c.toNat_lt
    have hc' : c'.toNat < 256 := c'.toNat_lt
    rw [Prod.mk.injEq, ← UInt8.toNat_inj, ← UInt8.toNat_inj]
    omega
  · rintro h
    rw [Prod.mk.injEq] at h
    rw [h.1, h.2]

private theorem scanMux_eq (w : ℕ) (m : OMap UInt16 ℤ) (entry : MuxEntry) :
    scanMux w m entry =
      (muxRoutes w [entry]).foldl (fun m r => m.put (muxKey r.1.1 r.1.2) r.2) m := by
  rw [scanMux, muxRoutes, List.flatMap_cons, List.flatMap_nil, List.append_nil]
  cases entry.muxId w with
  | none => rfl
  | some muxId =>
    simp only
    induction entry.channels generalizing m with
    | nil => rfl
    | cons c channels ih =>
      rw [List.foldl_cons, ih, List.filterMap_cons, scanChannel]
      cases c.route w with
      | none => rfl
      | some r => rfl

private theorem scanMuxTopology_eq (w : ℕ) (ahb : List MuxEntry) :
    scanMuxTopology w ahb =
      (muxRoutes w ahb).foldl (fun m r => m.put (muxKey r.1.1 r.1.2) r.2) .empty := by
  rw [scanMuxTopology]
  generalize (OMap.empty : OMap UInt16 ℤ) = m
  induction ahb generalizing m with
  | nil => rfl
  | cons entry ahb ih =>
    have hcons : muxRoutes w (entry :: ahb) = muxRoutes w [entry] ++ muxRoutes w ahb := by
      simp [muxRoutes]
    rw [List.foldl_cons, ih, scanMux_eq, hcons, List.foldl_append]

/-- What a route says of a channel of a mux. -/
def routeOf (m c : UInt8) (r : (UInt8 × UInt8) × ℤ) : Option ℤ :=
  if r.1 = (m, c) then some r.2 else none

private theorem lookup_put_muxKey (result : OMap UInt16 ℤ) (r : (UInt8 × UInt8) × ℤ) (m c : UInt8) :
    (result.put (muxKey r.1.1 r.1.2) r.2).lookup (muxKey m c) =
      (routeOf m c r).or (result.lookup (muxKey m c)) := by
  rw [lookup_put, routeOf]
  by_cases hr : r.1 = (m, c)
  · rw [if_pos (muxKey_inj.mpr hr), if_pos hr, Option.some_or]
  · rw [if_neg fun h => hr (muxKey_inj.mp h), if_neg hr, Option.none_or]

/-- The scanned map has the last route of each channel. -/
theorem lookup_scanMuxTopology (w : ℕ) (ahb : List MuxEntry) (m c : UInt8) :
    (scanMuxTopology w ahb).lookup (muxKey m c) = muxTopology w ahb m c := by
  rw [scanMuxTopology_eq, lookup_foldl fun result r => lookup_put_muxKey result r m c]
  unfold routeOf
  rw [findSome_ite, muxTopology]
  exact Option.or_none

/-! ### The routes of a listing -/

section Listing

variable {w : ℕ} {ahb : List MuxEntry} {topology : MuxTopology}

private theorem mem_muxRoutes {r : (UInt8 × UInt8) × ℤ} : r ∈ muxRoutes w ahb ↔
    ∃ entry ∈ ahb, entry.muxId w = some r.1.1 ∧
      ∃ link ∈ entry.channels, link.route w = some (r.1.2, r.2) := by
  obtain ⟨⟨m, c⟩, bus⟩ := r
  rw [muxRoutes, List.mem_flatMap]
  refine exists_congr fun entry => and_congr_right fun _ => ?_
  cases entry.muxId w with
  | none => simp
  | some muxId =>
    simp only [List.mem_filterMap, Option.map_eq_some_iff, Prod.mk.injEq, Option.some_inj]
    constructor
    · rintro ⟨link, hlink, ⟨_, _⟩, hroute, ⟨rfl, rfl⟩, rfl⟩
      exact ⟨rfl, link, hlink, hroute⟩
    · rintro ⟨rfl, link, hlink, hroute⟩
      exact ⟨link, hlink, (c, bus), hroute, ⟨rfl, rfl⟩, rfl⟩

/-- Where every entry is named as sysfs does it, the routes are those the names say. -/
theorem mem_muxRoutes_iff_names (hw : 32 ≤ w)
    (hmuxes : ∀ entry ∈ ahb, entry.Foreign ∨ ∃ mux, entry.Names mux)
    (hchannels : ∀ entry ∈ ahb, ∀ mux, entry.Names mux → ∀ link ∈ entry.channels,
      link.Foreign ∨ ∃ channel bus, link.Names channel bus) {r : (UInt8 × UInt8) × ℤ} :
    r ∈ muxRoutes w ahb ↔
      ∃ entry ∈ ahb, entry.Names r.1.1 ∧ ∃ link ∈ entry.channels, link.Names r.1.2 r.2 := by
  rw [mem_muxRoutes]
  refine exists_congr fun entry => and_congr_right fun hentry => ?_
  constructor
  · rintro ⟨hmux, link, hlink, hroute⟩
    rcases hmuxes entry hentry with hforeign | ⟨mux, hnames⟩
    · rw [muxId_of_foreign hforeign] at hmux
      cases hmux
    obtain rfl := Option.some.inj ((muxId_of_names hw hnames).symm.trans hmux)
    refine ⟨hnames, link, hlink, ?_⟩
    rcases hchannels entry hentry _ hnames link hlink with hforeign | ⟨channel, bus, hlinkNames⟩
    · rw [route_of_foreign hforeign] at hroute
      cases hroute
    · cases (route_of_names hw hlinkNames).symm.trans hroute
      exact hlinkNames
  · rintro ⟨hnames, link, hlink, hlinkNames⟩
    exact ⟨muxId_of_names hw hnames, link, hlink, route_of_names hw hlinkNames⟩

/-- The scan of a listing finds the routes of its topology, and no others. -/
theorem mem_muxRoutes_of_lists (hw : 32 ≤ w) (h : Lists ahb topology)
    {r : (UInt8 × UInt8) × ℤ} : r ∈ muxRoutes w ahb ↔ topology r.1.1 r.1.2 = some r.2 := by
  rw [mem_muxRoutes_iff_names hw h.muxes h.channels, h.routes]

/-- **The scan of a listing gives the topology that it lists.** -/
theorem muxTopology_of_lists (hw : 32 ≤ w) (h : Lists ahb topology) (m c : UInt8) :
    muxTopology w ahb m c = topology m c := by
  have hroute : ∀ r ∈ (muxRoutes w ahb).reverse, r.1 = (m, c) → topology m c = some r.2 := by
    rintro ⟨_, bus⟩ hr rfl
    exact (mem_muxRoutes_of_lists hw h).mp (List.mem_reverse.mp hr)
  rw [muxTopology]
  cases hfind : (muxRoutes w ahb).reverse.find? fun r => r.1 = (m, c) with
  | some r =>
    have hkey : r.1 = (m, c) := by simpa using List.find?_some hfind
    exact (hroute r (List.mem_of_find?_eq_some hfind) hkey).symm
  | none =>
    cases hbus : topology m c with
    | none => rfl
    | some bus =>
      have hmem : ((m, c), bus) ∈ (muxRoutes w ahb).reverse :=
        List.mem_reverse.mpr ((mem_muxRoutes_of_lists hw h).mpr hbus)
      have hne := List.find?_eq_none.mp hfind _ hmem
      exact absurd (decide_eq_true rfl) hne

end Listing

/-! ### Segments to buses -/

/-- The bus of a mapping, if the scan finds it. -/
def I2cSegmentMapping.bus (w : ℕ) (ahb : List MuxEntry) (mapping : I2cSegmentMapping) :
    Option ℤ :=
  if mapping.cpldRegister < cpldRegisterBase then none
  else muxTopology w ahb (mapping.cpldRegister - cpldRegisterBase) mapping.channelValue

/-- A segment without a bus adds nothing, so an earlier one of its id stays. -/
theorem lookup_addBus (w : ℕ) (ahb : List MuxEntry) (m : OMap UInt8 ℤ)
    (p : UInt8 × I2cSegmentMapping) (s : UInt8) :
    (addBus (scanMuxTopology w ahb) m p).lookup s =
      (if p.1 = s then p.2.bus w ahb else none).or (m.lookup s) := by
  rw [addBus, I2cSegmentMapping.bus]
  by_cases hlow : p.2.cpldRegister < cpldRegisterBase
  · rw [if_pos hlow, if_pos hlow, ite_self, Option.none_or]
  · rw [if_neg hlow, if_neg hlow]
    simp only [lookup_scanMuxTopology]
    cases muxTopology w ahb (p.2.cpldRegister - cpldRegisterBase) p.2.channelValue with
    | none => rw [ite_self, Option.none_or]
    | some bus =>
      simp only
      rw [lookup_put]
      by_cases hp : p.1 = s
      · rw [if_pos hp, if_pos hp, Option.some_or]
      · rw [if_neg hp, if_neg hp, Option.none_or]

/-- Each mapping is resolved on its own. -/
theorem lookup_buildSegmentBusMap (w : ℕ) (ahb : List MuxEntry)
    (segments : OMap UInt8 I2cSegmentMapping) (s : UInt8) :
    (buildSegmentBusMap w ahb segments).lookup s =
      (segments.lookup s).bind (I2cSegmentMapping.bus w ahb) := by
  rw [buildSegmentBusMap, lookup_foldl fun m p => lookup_addBus w ahb m p s,
    findSome_reverse_entries segments s (I2cSegmentMapping.bus w ahb)]
  exact Option.or_none

/-- **Segment routing end to end.**  `unsigned long` has at least 32 bits. -/
theorem lookup_segmentBusMap {w : ℕ} (hw : 32 ≤ w) (t : PlatDefTable) {ahb : List MuxEntry}
    {topology : MuxTopology} (hlists : Lists ahb topology) (s : UInt8) (bus : ℤ) :
    (buildSegmentBusMap w ahb (parseI2cSegments t.encode)).lookup s = some bus ↔
      ∃ g, t.lastCpld s = some g ∧ cpldRegisterBase ≤ g.byte ∧
        topology (g.byte - cpldRegisterBase) g.selectMask = some bus := by
  rw [lookup_buildSegmentBusMap, lookup_parseI2cSegments]
  cases t.lastCpld s with
  | none => simp
  | some g =>
    rw [Option.map_some, Option.bind_some, I2cSegmentMapping.bus]
    simp only [muxTopology_of_lists hw hlists, Option.some_inj, exists_eq_left']
    by_cases hlow : g.byte < cpldRegisterBase
    · have hnot : ¬cpldRegisterBase ≤ g.byte := UInt8.not_le.mpr hlow
      simp [hlow, hnot]
    · have hle : cpldRegisterBase ≤ g.byte := UInt8.not_lt.mp hlow
      simp [hlow, hle]

/-! ### Two muxes -/

/-- An entry of a mux directory that is no link, and channel 2 as bus 7. -/
def muxThreeDir : MuxEntry :=
  ⟨"ahb@80000000:i2cmux@3", [⟨"uevent", none⟩, ⟨"channel-2", some "i2c-7"⟩]⟩

def muxZeroDir : MuxEntry := ⟨"ahb@80000000:i2cmux@0", [⟨"channel-1", some "i2c-4"⟩]⟩

/-- What the bus directory lists. -/
def twoMuxDirs : List MuxEntry := [⟨"power", []⟩, muxThreeDir, muxZeroDir]

/-- Channel 2 of mux 3 and channel 1 of mux 0. -/
def twoMuxTopology : MuxTopology := fun mux channel =>
  if (mux, channel) = (3, 2) then some 7 else if (mux, channel) = (0, 1) then some 4 else none

private theorem lists_twoMux : Lists twoMuxDirs twoMuxTopology := by
  have hmuxes : ∀ entry ∈ twoMuxDirs, entry.Foreign ∨ ∃ mux, entry.Names mux := by
    simp only [twoMuxDirs, List.forall_mem_cons]
    refine ⟨Or.inl (Or.inl (by decide)), Or.inr ⟨3, "80000000:", by decide, by decide⟩,
      Or.inr ⟨0, "80000000:", by decide, by decide⟩, List.forall_mem_nil _⟩
  have hthree : ∀ link ∈ muxThreeDir.channels,
      link.Foreign ∨ ∃ channel bus, link.Names channel bus := by
    simp only [muxThreeDir, List.forall_mem_cons]
    exact ⟨Or.inl (Or.inl (by decide)),
      Or.inr ⟨2, 7, 7, by decide, rfl, by decide, by decide⟩, List.forall_mem_nil _⟩
  have hzero : ∀ link ∈ muxZeroDir.channels,
      link.Foreign ∨ ∃ channel bus, link.Names channel bus := by
    simp only [muxZeroDir, List.forall_mem_cons]
    exact ⟨Or.inr ⟨1, 4, 4, by decide, rfl, by decide, by decide⟩, List.forall_mem_nil _⟩
  have hchannels : ∀ entry ∈ twoMuxDirs, ∀ mux, entry.Names mux → ∀ link ∈ entry.channels,
      link.Foreign ∨ ∃ channel bus, link.Names channel bus := by
    simp only [twoMuxDirs, List.forall_mem_cons]
    exact ⟨fun _ _ => List.forall_mem_nil _, fun _ _ => hthree, fun _ _ => hzero,
      List.forall_mem_nil _⟩
  refine ⟨hmuxes, hchannels, fun mux channel bus => ?_⟩
  have hroutes : muxRoutes 32 twoMuxDirs = [((3, 2), 7), ((0, 1), 4)] := by decide
  have hnames : ((mux, channel), bus) ∈ muxRoutes 32 twoMuxDirs ↔ _ :=
    mem_muxRoutes_iff_names le_rfl hmuxes hchannels
  have hpair (key : UInt8 × UInt8) (b : ℤ) :
      ((mux, channel), bus) = (key, b) ↔ (mux, channel) = key ∧ bus = b := Prod.mk_inj
  rw [← hnames, hroutes, List.mem_cons, List.mem_singleton, hpair, hpair, twoMuxTopology]
  by_cases hkey : (mux, channel) = (3, 2)
  · have hother : (mux, channel) ≠ (0, 1) := by
      rw [hkey]
      decide
    rw [if_pos hkey, Option.some_inj]
    simp [hkey, eq_comm]
  · rw [if_neg hkey]
    by_cases hzeroKey : (mux, channel) = (0, 1)
    · rw [if_pos hzeroKey, Option.some_inj]
      simp [hzeroKey, eq_comm]
    · simp [hkey, hzeroKey]

/-- Segment 5 is at channel 1 of mux 0 first and then at channel 2 of mux 3; what another
record and a segment of another type say does not count. -/
def twoMuxTable : PlatDefTable where
  type := 4
  not_engine := by decide
  not_end := by decide
  header := .replicate 30 0
  body := .replicate 80 0
  records := [
    .engine
      { header := .replicate 30 0
        fixedHead := .replicate 38 0
        fixedTail := .replicate 9 0
        segments := [⟨.replicate 5 0, 5, .replicate 10 0, i2cMuxTypeCpld, 0x84, 0, 1,
          .replicate 12 0⟩]
        trailer := []
        size_le := by decide },
    .other
      { type := 3
        header := .replicate 30 0
        body := [.replicate 16 0xFF]
        not_engine := by decide
        not_end := by decide
        size_le := by decide },
    .engine
      { header := .replicate 30 0
        fixedHead := .replicate 38 0
        fixedTail := .replicate 9 0
        segments := [
          ⟨.replicate 5 0, 5, .replicate 10 0, i2cMuxTypeCpld, 0x87, 0, 2, .replicate 12 0⟩,
          ⟨.replicate 5 0, 5, .replicate 10 0, 0, 0x84, 0, 1, .replicate 12 0⟩]
        trailer := []
        size_le := by decide }]
  endRest := []

theorem lookup_segmentBusMap_twoMux :
    (buildSegmentBusMap 64 twoMuxDirs (parseI2cSegments twoMuxTable.encode)).lookup 5 = some 7 :=
  (lookup_segmentBusMap (by decide) twoMuxTable lists_twoMux 5 7).mpr
    ⟨⟨5, i2cMuxTypeCpld, 0x87, 2⟩, by decide, by decide, by decide⟩

end PlatDef
