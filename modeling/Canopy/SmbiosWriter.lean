/-
The SMBIOS writer (`smbios_writer.hpp`, `smbios_writer.cpp`).

A `SmbiosWriter` is the accumulated records with the files it writes: the
temporary one and `smbios2`.  What the file operations of `finalize` do is a
parameter.

Design notes: `records_.size()` never exceeds 1 MiB, so the sums of sizes are
natural numbers; the casts to `uint32_t` are kept.
-/
import Canopy.OutputStream
import Mathlib.Data.UInt

namespace Chif

open Bytes

/-! ### File layout -/

/-- MDR V2 header at the start of the file, 10 bytes, packed. -/
structure MdrHeader where
  dirVer : UInt8
  mdrType : UInt8
  timestamp : UInt32
  dataSize : UInt32
  deriving DecidableEq, Repr

def MdrHeader.bytes (mdr : MdrHeader) : Bytes :=
  [mdr.dirVer, mdr.mdrType] ++ (ofLE 4 mdr.timestamp.toNat ++ ofLE 4 mdr.dataSize.toNat)

/-- SMBIOS 3.0 entry point, 24 bytes, packed. -/
structure Smbios3EntryPoint where
  anchorString : Vector UInt8 5
  checksum : UInt8
  entryPointLength : UInt8
  smbiosMajor : UInt8
  smbiosMinor : UInt8
  smbiosDocrev : UInt8
  entryPointRevision : UInt8
  reserved : UInt8
  structureTableMaxSize : UInt32
  structureTableAddress : UInt64
  deriving DecidableEq, Repr

/-- The bytes behind the checksum field. -/
def Smbios3EntryPoint.tail (ep : Smbios3EntryPoint) : Bytes :=
  [ep.entryPointLength, ep.smbiosMajor, ep.smbiosMinor, ep.smbiosDocrev, ep.entryPointRevision,
    ep.reserved] ++ (ofLE 4 ep.structureTableMaxSize.toNat ++ ofLE 8 ep.structureTableAddress.toNat)

def Smbios3EntryPoint.bytes (ep : Smbios3EntryPoint) : Bytes :=
  ep.anchorString.toList ++ ep.checksum :: ep.tail

/-- `sizeof(Smbios3EntryPoint)`. -/
def entryPointSize : ℕ := 24

/-- `offsetof(Smbios3EntryPoint, checksum)`. -/
def checksumOffset : ℕ := 5

def maxSmbiosDataSize : ℕ := 1024 * 1024
def maxRecordsPerBlob : ℕ := 1000

/-! ### Accumulating records -/

/-- The records collected, the version counter and the two files. -/
structure SmbiosWriter where
  records : Bytes
  directoryVersion : UInt8
  /-- the file `smbios_temp` -/
  temp : Option Bytes
  /-- the file `smbios2` -/
  smbios2 : Option Bytes
  deriving DecidableEq, Repr

/-- A writer as constructed, with the files it finds. -/
def SmbiosWriter.new (temp smbios2 : Option Bytes) : SmbiosWriter := ⟨[], 0, temp, smbios2⟩

/-- `SmbiosWriter::begin`: what was collected is dropped. -/
def SmbiosWriter.begin (w : SmbiosWriter) : SmbiosWriter := { w with records := [] }

/-- The loop of `addRecord`; the first argument is `count - i`. -/
def addRecords : ℕ → Bytes → ℕ → Bytes → Bytes
  | 0, _, _, records => records
  | n + 1, record, offset, records =>
    if offset + 2 ≤ record.length then
      let recSize := toLE ((record.drop offset).take 2)
      let offset := offset + 2
      if recSize = 0 ∨ offset + recSize > record.length then records
      else if records.length + recSize > maxSmbiosDataSize then records
      else
        addRecords n record (offset + recSize) (records ++ (record.drop offset).take recSize)
    else records

/-- Blob format: a 32-bit count, then count times a 16-bit size and a record. -/
def SmbiosWriter.addRecord (w : SmbiosWriter) (record : Bytes) : SmbiosWriter :=
  if record.length < 6 then w
  else
    let count := toLE (record.take 4)
    let count := if count > maxRecordsPerBlob then maxRecordsPerBlob else count
    { w with records := addRecords count record 4 w.records }

def SmbiosWriter.dataSize (w : SmbiosWriter) : ℕ := w.records.length

/-! ### Writing the file -/

/-- The bytes of the entry point, summed but for the checksum field itself. -/
def computeChecksum (ep : Smbios3EntryPoint) : UInt8 :=
  -(ep.bytes.zipIdx.foldl (fun sum b => if b.2 = checksumOffset then sum else sum + b.1) 0)

/-- The entry point `finalize` builds for `size` bytes of records. -/
def entryPoint (size : ℕ) : Smbios3EntryPoint :=
  let ep : Smbios3EntryPoint :=
    { anchorString := #v[0x5f, 0x53, 0x4d, 0x33, 0x5f]
      checksum := 0
      entryPointLength := UInt8.ofNat entryPointSize
      smbiosMajor := 3
      smbiosMinor := 3
      smbiosDocrev := 0
      entryPointRevision := 0x01
      reserved := 0
      structureTableMaxSize := UInt32.ofNat size
      structureTableAddress := 0 }
  { ep with checksum := computeChecksum ep }

/-- What the file operations of one `finalize` do. -/
structure FinalizeIo where
  /-- `create_directories` succeeds -/
  dirOk : Bool
  openOk : Bool
  mdr : WriteOutcome
  ep : WriteOutcome
  records : WriteOutcome
  /-- how many bytes the flush in the destructor of the stream gets out -/
  closed : ℕ
  renameOk : Bool
  /-- seconds since the epoch -/
  epoch : ℕ
  deriving DecidableEq, Repr

/-- Every operation succeeds and nothing is written before the stream is closed;
the flush then gets `closed` bytes out. -/
def FinalizeIo.flushing (closed : ℕ) : FinalizeIo where
  dirOk := true
  openOk := true
  mdr := ⟨0, true⟩
  ep := ⟨0, true⟩
  records := ⟨0, true⟩
  closed := closed
  renameOk := true
  epoch := 0

/-- The MDR header `finalize` builds, `directoryVersion_` already counted up. -/
def mdrHeader (directoryVersion : UInt8) (epoch size : ℕ) : MdrHeader where
  dirVer := directoryVersion
  mdrType := 2
  timestamp := UInt32.ofNat epoch
  dataSize := UInt32.ofNat (entryPointSize + size)

/-- The stream after the three writes. -/
def writeSmbios (io : FinalizeIo) (mdr : MdrHeader) (ep : Smbios3EntryPoint) (records : Bytes) :
    OutputStream :=
  ((OutputStream.opened.write mdr.bytes io.mdr).write ep.bytes io.ep).write records io.records

/-- `SmbiosWriter::finalize`: what it returns, and the writer with its files. -/
def SmbiosWriter.finalize (io : FinalizeIo) (w : SmbiosWriter) : Bool × SmbiosWriter :=
  if w.records = [] then (false, w)
  else if io.dirOk = false then (false, w)
  else
    let ep := entryPoint w.records.length
    let w := { w with directoryVersion := w.directoryVersion + 1 }
    let mdr := mdrHeader w.directoryVersion io.epoch w.records.length
    if io.openOk = false then (false, w)
    else
      let out := writeSmbios io mdr ep w.records
      -- the stream is closed on the way out, whether or not the writes were good
      let w := { w with temp := some (out.close io.closed) }
      if out.good = false then (false, w)
      else if io.renameOk then (true, { w with temp := none, smbios2 := w.temp })
      else (false, w)

end Chif
