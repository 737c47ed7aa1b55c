/-
The platform definition blob: decompression, the record walk, and the map
from BIOS I2C segments to kernel buses.

* `decompressPlatDef` — bundle header, table header, zlib; the call it makes
  to zlib is `uncompressCall`;
* `parseI2cSegments` — the walk over the records, and inside an I2CEngine
  record over its segments;
* `scanMuxTopology` — the mux channels sysfs lists;
* `buildSegmentBusMap` — the two joined.
-/
import Canopy.ByteField
import Canopy.OrderedMap

open Bytes OrderedMap

namespace PlatDef

/-! ### Record layouts -/

/-- `sizeof(PlatDefBundleHeader)`. -/
def bundleHeaderSize : ℕ := 32

/-- `sizeof(PlatDefRecordHeader)`. -/
def recordHeaderSize : ℕ := 32

/-- `sizeof(PlatDefTableData)`. -/
def tableDataSize : ℕ := 112

/-- `sizeof(PlatDefI2CEngineFixed)`. -/
def i2cEngineFixedSize : ℕ := 48

/-- `sizeof(PlatDefI2CSegment)`. -/
def i2cSegmentSize : ℕ := 32

/-- The characters of `$PlatdefBundle1$`. -/
def platdefBundleSignature : Bytes :=
  [0x24, 0x50, 0x6C, 0x61, 0x74, 0x64, 0x65, 0x66, 0x42, 0x75, 0x6E, 0x64, 0x6C, 0x65, 0x31, 0x24]

def tableDataFlagZLib : ℕ := 0x0010

def recordTypeI2CEngine : UInt8 := 14

def recordTypeEndOfTable : UInt8 := 255

def i2cMuxTypeCpld : UInt8 := 1

/-- Register base of mux 0. -/
def cpldRegisterBase : UInt8 := 0x84

/-- The fields of a record header that the code reads. -/
structure PlatDefRecordHeader where
  type : UInt8
  /-- in units of 16 bytes -/
  size : UInt8
  deriving DecidableEq

/-- A record header at the start of `bs`. -/
def PlatDefRecordHeader.ofBytes (bs : Bytes) : PlatDefRecordHeader :=
  ⟨uint8At bs 0, uint8At bs 1⟩

/-- The fields of the table header that decide what happens to the blob. -/
structure PlatDefTableData where
  flags : ℕ
  totalSize : ℕ
  compressedSize : ℕ
  deriving DecidableEq

/-- The table header at the start of `bs`. -/
def PlatDefTableData.ofBytes (bs : Bytes) : PlatDefTableData :=
  ⟨uintAt bs 64 2, uintAt bs 76 4, uintAt bs 96 4⟩

/-- The fields of an I2C segment that routing uses. -/
structure PlatDefI2CSegment where
  id : UInt8
  muxType : UInt8
  byte : UInt8
  selectMask : UInt8
  deriving DecidableEq

/-- A segment at the start of `bs`. -/
def PlatDefI2CSegment.ofBytes (bs : Bytes) : PlatDefI2CSegment :=
  ⟨uint8At bs 5, uint8At bs 16, uint8At bs 17, uint8At bs 19⟩

/-! ### Decompression -/

/-- A `std::vector<uint8_t>`: its size is a `size_t` of `w` bits. -/
structure ByteVector (w : ℕ) where
  bytes : Bytes
  size_lt : bytes.length < 2 ^ w

/-- The arguments of a call of `uncompress`: a slice of `dest` to write to and
a slice of `source` to read from. -/
structure UncompressCall where
  dest : Bytes
  destOffset : ℕ
  destLen : ℕ
  source : Bytes
  sourceOffset : ℕ
  sourceLen : ℕ
  deriving DecidableEq

/-- The table header behind the bundle header. -/
def tableHdr (raw : Bytes) : PlatDefTableData :=
  .ofBytes (field raw bundleHeaderSize tableDataSize)

/-- `tableHdr.totalSize`, capped. -/
def decompSize (totalSize : ℕ) : ℕ :=
  if totalSize = 0 ∨ totalSize > 512 * 1024 then 256 * 1024 else totalSize

/-- `decompressPlatDef` up to zlib: what it returns without asking zlib, or the
call it makes.  Sizes are `size_t` values of `w` bits. -/
def uncompressCall (w : ℕ) (raw : Bytes) : Except Bytes UncompressCall :=
  if raw.length < bundleHeaderSize then .error []
  else if raw.take platdefBundleSignature.length ≠ platdefBundleSignature then .error []
  else
    let offset := bundleHeaderSize
    if offset + tableDataSize > raw.length then .error []
    else
      let hdr := tableHdr raw
      if hdr.flags &&& tableDataFlagZLib = 0 then .error (raw.drop offset)
      else
        let compOffset := offset + tableDataSize
        if hdr.compressedSize < tableDataSize then .error []
        else
          let compSize := hdr.compressedSize - tableDataSize
          -- the sum is a `size_t` and wraps
          if (compOffset + compSize) % 2 ^ w > raw.length then .error []
          else
            let size := decompSize hdr.totalSize
            .ok
              { dest := field raw offset tableDataSize ++ List.replicate size 0
                destOffset := tableDataSize
                destLen := size
                source := raw
                sourceOffset := compOffset
                sourceLen := compSize }

/-- The table header followed by the decompressed records.  `uncompress` gives
the bytes it wrote, or nothing when it does not return `Z_OK`. -/
def decompressPlatDef (w : ℕ) (uncompress : UncompressCall → Option Bytes) (raw : Bytes) :
    Bytes :=
  match uncompressCall w raw with
  | .error result => result
  | .ok call =>
    match uncompress call with
    | none => []
    | some out => call.dest.take tableDataSize ++ out

/-! ### The record walk -/

/-- `I2cSegmentMapping`. -/
structure I2cSegmentMapping where
  cpldRegister : UInt8
  channelValue : UInt8
  deriving DecidableEq

/-- What one segment does to the result. -/
def addSegment (result : OMap UInt8 I2cSegmentMapping) (seg : PlatDefI2CSegment) :
    OMap UInt8 I2cSegmentMapping :=
  if seg.muxType = i2cMuxTypeCpld then result.put seg.id ⟨seg.byte, seg.selectMask⟩ else result

/-- The loop over the segments of an engine, with `left` of them to go. -/
def parseSegments (platDef : Bytes) (segStart recordEnd : ℕ) :
    ℕ → ℕ → OMap UInt8 I2cSegmentMapping → OMap UInt8 I2cSegmentMapping
  | 0, _, result => result
  | left + 1, i, result =>
    let segOff := segStart + i * i2cSegmentSize
    if segOff + i2cSegmentSize > platDef.length ∨ segOff + i2cSegmentSize > recordEnd then result
    else
      parseSegments platDef segStart recordEnd left (i + 1)
        (addSegment result (.ofBytes (field platDef segOff i2cSegmentSize)))

/-- What an I2CEngine record at `pos` does to the result; nothing when its
fixed part does not fit, which ends the walk. -/
def parseEngine (platDef : Bytes) (pos recordBytes : ℕ)
    (result : OMap UInt8 I2cSegmentMapping) : Option (OMap UInt8 I2cSegmentMapping) :=
  let fixedEnd := pos + recordHeaderSize + i2cEngineFixedSize
  if fixedEnd > platDef.length then none
  else
    let count := uint8At (field platDef (pos + recordHeaderSize) i2cEngineFixedSize) 38
    some (parseSegments platDef fixedEnd (pos + recordBytes) count.toNat 0 result)

/-- The loop over the records, from the record at `pos`. -/
def parseRecords (platDef : Bytes) (pos : ℕ) (result : OMap UInt8 I2cSegmentMapping) :
    OMap UInt8 I2cSegmentMapping :=
  if pos + recordHeaderSize ≤ platDef.length then
    let hdr := PlatDefRecordHeader.ofBytes (field platDef pos recordHeaderSize)
    if hdr.type = recordTypeEndOfTable then result
    else if hdr.size.toNat = 0 then result
    else
      let recordBytes := hdr.size.toNat * 16
      if pos + recordBytes > platDef.length then result
      else if hdr.type = recordTypeI2CEngine then
        match parseEngine platDef pos recordBytes result with
        | none => result
        | some result => parseRecords platDef (pos + recordBytes) result
      else parseRecords platDef (pos + recordBytes) result
  else result
termination_by platDef.length - pos
decreasing_by
  all_goals
    show platDef.length - (pos + recordBytes) < platDef.length - pos
    have hheader : recordHeaderSize = 32 := rfl
    omega

/-- `parseI2cSegments`: the segments by id, as the walk over the records finds them. -/
def parseI2cSegments (platDef : Bytes) : OMap UInt8 I2cSegmentMapping :=
  if platDef.length < recordHeaderSize then .empty
  else
    let firstHdr := PlatDefRecordHeader.ofBytes (field platDef 0 recordHeaderSize)
    if firstHdr.size.toNat * 16 ≠ tableDataSize then .empty
    else parseRecords platDef 0 .empty

/-! ### Numbers in file names -/

/-- What is left of a name behind the first occurrence of `pat`. -/
def afterFirst (pat : List Char) : List Char → Option (List Char)
  | [] => if pat = [] then some [] else none
  | c :: cs =>
    if pat.isPrefixOf (c :: cs) then some ((c :: cs).drop pat.length) else afterFirst pat cs

/-- The sign and the decimal digits that `strtol` and `strtoul` read. -/
def readDecimal (s : List Char) : Option (Bool × ℕ) :=
  let s := s.dropWhile fun c => c = ' ' ∨ (9 ≤ c.toNat ∧ c.toNat ≤ 13)
  let negative := s.head? = some '-'
  let digits := (if negative ∨ s.head? = some '+' then s.tail else s).takeWhile Char.isDigit
  if digits = [] then none
  else some (negative, digits.foldl (fun n c => 10 * n + (c.toNat - 48)) 0)

/-- `std::stoul` for an `unsigned long` of `w` bits; nothing where it throws. -/
def stoul (w : ℕ) (s : List Char) : Option ℕ :=
  match readDecimal s with
  | none => none
  | some (negative, n) =>
    if n ≥ 2 ^ w then none else some (if negative then (2 ^ w - n) % 2 ^ w else n)

/-- `std::stoi`; nothing where it throws. -/
def stoi (s : List Char) : Option ℤ :=
  match readDecimal s with
  | none => none
  | some (negative, n) =>
    let v : ℤ := if negative then -n else n
    if v < -2 ^ 31 ∨ v ≥ 2 ^ 31 then none else some v

/-- `std::stoul`, and only values of a byte. -/
def byteOfDecimal (w : ℕ) (s : List Char) : Option UInt8 :=
  match stoul w s with
  | none => none
  | some v => if v > 255 then none else some (UInt8.ofNat v)

/-! ### Mux channels in sysfs -/

/-- An entry of a mux directory: its name and, if it is a symbolic link, the
file name of its target. -/
structure ChannelEntry where
  name : String
  target : Option String
  deriving DecidableEq

/-- An entry of the bus directory and what its own directory lists. -/
structure MuxEntry where
  name : String
  channels : List ChannelEntry
  deriving DecidableEq

/-- The mux a directory entry stands for. -/
def MuxEntry.muxId (w : ℕ) (entry : MuxEntry) : Option UInt8 :=
  if "ahb@".toList.isPrefixOf entry.name.toList then
    (afterFirst "i2cmux@".toList entry.name.toList).bind (byteOfDecimal w)
  else none

/-- The channel and the bus a directory entry stands for. -/
def ChannelEntry.route (w : ℕ) (entry : ChannelEntry) : Option (UInt8 × ℤ) :=
  if "channel-".toList.isPrefixOf entry.name.toList then
    match byteOfDecimal w (entry.name.toList.drop 8) with
    | none => none
    | some chanIdx =>
      match entry.target with
      | none => none
      | some targetName =>
        if "i2c-".toList.isPrefixOf targetName.toList then
          (stoi (targetName.toList.drop 4)).map fun busNum => (chanIdx, busNum)
        else none
  else none

/-- `(muxIndex << 8) | channelNumber`. -/
def muxKey (muxIndex channel : UInt8) : UInt16 :=
  muxIndex.toUInt16 <<< 8 ||| channel.toUInt16

/-- One entry of a mux directory. -/
def scanChannel (w : ℕ) (muxId : UInt8) (result : OMap UInt16 ℤ) (chanEntry : ChannelEntry) :
    OMap UInt16 ℤ :=
  match chanEntry.route w with
  | none => result
  | some (chanIdx, busNum) => result.put (muxKey muxId chanIdx) busNum

/-- One entry of the bus directory. -/
def scanMux (w : ℕ) (result : OMap UInt16 ℤ) (entry : MuxEntry) : OMap UInt16 ℤ :=
  match entry.muxId w with
  | none => result
  | some muxId => entry.channels.foldl (scanChannel w muxId) result

/-- The mux channels, from what the two directory iterators yield before they
end or throw. -/
def scanMuxTopology (w : ℕ) (ahb : List MuxEntry) : OMap UInt16 ℤ :=
  ahb.foldl (scanMux w) .empty

/-! ### Segments to buses -/

/-- What one mapping does to the result. -/
def addBus (muxTopology : OMap UInt16 ℤ) (result : OMap UInt8 ℤ)
    (p : UInt8 × I2cSegmentMapping) : OMap UInt8 ℤ :=
  if p.2.cpldRegister < cpldRegisterBase then result
  else
    let muxIndex := p.2.cpldRegister - cpldRegisterBase
    match muxTopology.lookup (muxKey muxIndex p.2.channelValue) with
    | some bus => result.put p.1 bus
    | none => result

/-- `buildSegmentBusMap`: the segments whose mux and channel sysfs lists. -/
def buildSegmentBusMap (w : ℕ) (ahb : List MuxEntry) (segments : OMap UInt8 I2cSegmentMapping) :
    OMap UInt8 ℤ :=
  segments.entries.foldl (addBus (scanMuxTopology w ahb)) .empty

end PlatDef
