/-
How the daemon starts (`main.cpp`): the EV file is loaded, the platform
definition is read from the host's flash and joined with the muxes the kernel
lists, and the three services are built.

* `findMtdByLabel`, `extractPlatDef` — from the flash to the platform definition;
* `segmentBusMap` — the map the SMIF service is given;
* `services` — the services `main` registers.
-/
import Canopy.ChifServices
import Canopy.PlatDef
import Canopy.UefiFv

open Bytes OrderedMap UefiFv PlatDef

namespace Chif

/-- An entry of `/sys/class/mtd`: its name, and what its file `name` holds, if
that can be read. -/
structure MtdEntry where
  filename : String
  nameFile : Option String
  deriving DecidableEq

/-- Read-only `mtdNro` entries are skipped; `std::getline` reads the first line. -/
def MtdEntry.HasLabel (label : String) (entry : MtdEntry) : Bool :=
  !"ro".toList.isSuffixOf entry.filename.toList &&
    match entry.nameFile with
    | none => false
    | some content => (content.toList.takeWhile fun c => c ≠ '\n') = label.toList

/-- The device path of the first partition with the label; the entries are those
the directory iterator yields. -/
def findMtdByLabel (label : String) (entries : List MtdEntry) : Option String :=
  (entries.find? (MtdEntry.HasLabel label)).map fun entry => "/dev/" ++ entry.filename

/-- APML firmware volume GUID. -/
def apmlFvGuid : EfiGuid :=
  .ofFields 0x7EBF5AB8 0x525E 0x417C #v[0x9B, 0x6B, 0x5E, 0xF3, 0x67, 0x85, 0x69, 0x54]

/-- APML file GUID. -/
def apmlFileGuid : EfiGuid :=
  .ofFields 0xC5F6001C 0x39B4 0x43DD #v[0x9B, 0x9B, 0x68, 0x32, 0xF1, 0xBB, 0x4B, 0xE9]

/-- The bits of a `size_t`. -/
def sizeBits : SizeWidth → ℕ
  | .bits32 => 32
  | .bits64 => 64

/-- What the daemon finds when it starts, besides its own files. -/
structure Board where
  sz : SizeWidth
  /-- the entries of `/sys/class/mtd`; none if there is no such directory -/
  mtd : List MtdEntry
  /-- the content of a device that can be opened -/
  device : String → Option Bytes
  /-- zlib -/
  uncompress : UncompressCall → Option Bytes
  /-- what the kernel lists below the AHB bus -/
  ahb : List MuxEntry

namespace Board

/-- The call of `extractFfsFile` for an opened device. -/
def apmlCall (b : Board) (rom : Bytes) : ExtractCall where
  sz := b.sz
  rom := rom
  romSize := b.sz.wrap rom.length
  romSize_lt := b.sz.wrap_lt rom.length
  fvGuid := apmlFvGuid
  fileGuid := apmlFileGuid

/-- `extractPlatDef`, with at most `fuel` rounds of the walk over the image. -/
def extractPlatDef (b : Board) (fuel : ℕ) : Option Bytes :=
  match findMtdByLabel "host-prime" b.mtd with
  | none => some []
  | some mtdPath =>
    match b.device mtdPath with
    | none => some []
    | some rom =>
      -- `tellg` at the end of an empty device is not positive
      if rom.length = 0 then some []
      else
        ((b.apmlCall rom).extractFfsFile fuel).map fun raw =>
          if raw = [] then [] else decompressPlatDef (sizeBits b.sz) b.uncompress raw

/-- The map from BIOS segments to kernel buses. -/
def segmentBusMap (b : Board) (fuel : ℕ) : Option (OMap UInt8 ℤ) :=
  (b.extractPlatDef fuel).map fun platDefBlob =>
    if platDefBlob = [] then .empty
    else buildSegmentBusMap (sizeBits b.sz) b.ahb (parseI2cSegments platDefBlob)

/-- The services `main` registers, from the EV file and the SMBIOS files. -/
def services (b : Board) (fuel : ℕ) (opened : Bool) (evFile temp smbios2 : Option Bytes) :
    Option Services :=
  (b.segmentBusMap fuel).map fun m =>
    { smif := .boot opened evFile m.lookup
      rom := ⟨.new temp smbios2, true⟩
      reached := SmifService.reached_boot opened evFile m.lookup }

end Board

end Chif
