/-
Extracting a file from a UEFI firmware image.

`extractFfsFile` is two nested loops over offsets of type `size_t`: the outer
one steps from firmware volume to firmware volume, the inner one walks the
files of a volume whose name matches.  Both are kept as one step function on
`ScanState`, so that a run that never ends is a run of it.

* `ExtractCall.step` — one round of either loop;
* `ExtractCall.extractFfsFile` — the function, on fuel.
-/
import Canopy.ByteField
import Canopy.WhileLoop

open Bytes

namespace UefiFv

/-! ### Machine words -/

/-- The targets the code is built for: `size_t` has 32 or 64 bits. -/
inductive SizeWidth where
  | bits32
  | bits64
  deriving DecidableEq

namespace SizeWidth

/-- The number of `size_t` values. -/
def modulus : SizeWidth → ℕ
  | bits32 => 2 ^ 32
  | bits64 => 2 ^ 64

/-- A `size_t` result. -/
def wrap (sz : SizeWidth) (x : ℕ) : ℕ := x % sz.modulus

theorem le_modulus : ∀ sz : SizeWidth, 2 ^ 32 ≤ sz.modulus
  | bits32 => le_rfl
  | bits64 => Nat.pow_le_pow_right (by omega) (by omega)

theorem dvd_modulus : ∀ sz : SizeWidth, 2 ^ 32 ∣ sz.modulus
  | bits32 => dvd_rfl
  | bits64 => pow_dvd_pow 2 (by omega)

theorem modulus_pos (sz : SizeWidth) : 0 < sz.modulus :=
  lt_of_lt_of_le (by omega) sz.le_modulus

theorem wrap_lt (sz : SizeWidth) (x : ℕ) : sz.wrap x < sz.modulus := Nat.mod_lt x sz.modulus_pos

theorem wrap_of_lt {sz : SizeWidth} {x : ℕ} (h : x < sz.modulus) : sz.wrap x = x :=
  Nat.mod_eq_of_lt h

theorem wrap_wrap_add (sz : SizeWidth) (x y : ℕ) : sz.wrap (sz.wrap x + y) = sz.wrap (x + y) :=
  Nat.mod_add_mod x sz.modulus y

/-- `x & 0x07 ? (x & ~0x07UL) + 0x08 : x`. -/
def align8 (sz : SizeWidth) (x : ℕ) : ℕ := if x % 8 = 0 then x else sz.wrap (x - x % 8 + 8)

/-- `fvLength` as a step: rounded up to 64 KiB, and at least that. -/
def roundUp64K (sz : SizeWidth) (fvLength : ℕ) : ℕ :=
  let fvLen := sz.wrap fvLength
  let fvLen := if fvLen % 0x10000 = 0 then fvLen else sz.wrap (fvLen - fvLen % 0x10000 + 0x10000)
  if fvLen = 0 then 0x10000 else fvLen

end SizeWidth

/-! ### Headers -/

/-- A GUID, as its 16 bytes in memory. -/
structure EfiGuid where
  raw : Bytes
  size : raw.length = 16
  deriving DecidableEq

namespace EfiGuid

/-- A GUID from the fields of the C structure. -/
def ofFields (data1 data2 data3 : ℕ) (data4 : Vector UInt8 8) : EfiGuid where
  raw := ofLE 4 data1 ++ ofLE 2 data2 ++ ofLE 2 data3 ++ data4.toList
  size := by simp

/-- The GUID in the first 16 bytes. -/
def ofBytes (bs : Bytes) : EfiGuid where
  raw := padTo 16 (bs.take 16)
  size := padTo_length (List.length_take_le 16 bs)

end EfiGuid

/-- EFI FFS2 file system. -/
def ffs2Guid : EfiGuid :=
  .ofFields 0x8C8CE578 0x8A3D 0x4F1C #v[0x99, 0x35, 0x89, 0x61, 0x85, 0xC3, 0x2D, 0xD3]

def allFf : EfiGuid :=
  .ofFields 0xFFFFFFFF 0xFFFF 0xFFFF #v[0xFF, 0xFF, 0xFF, 0xFF, 0xFF, 0xFF, 0xFF, 0xFF]

def efiFvhSignature : ℕ := 0x4856465F

def efiFvFileTypeFreeform : UInt8 := 0x02

def efiFfsLargeFile : UInt8 := 0x01

def efiSectionRaw : UInt8 := 0x19

def efiSectionGuidDefined : UInt8 := 0x02

def guidSecHdrSize : ℕ := 20

/-- `sizeof(EfiFvHeader)`. -/
def fvHeaderSize : ℕ := 56

/-- `sizeof(EfiFvExtHeader)`. -/
def extHeaderSize : ℕ := 20

/-- `sizeof(EfiFfsFileHeader)`. -/
def fileHeaderSize : ℕ := 24

/-- `sizeof(EfiSectionHeader)`. -/
def sectionHeaderSize : ℕ := 4

/-- The fields of `EfiFvHeader` that the code reads. -/
structure EfiFvHeader where
  fileSystemGuid : EfiGuid
  fvLength : ℕ
  signature : ℕ
  extHeaderOffset : ℕ
  deriving DecidableEq

def EfiFvHeader.ofBytes (bs : Bytes) : EfiFvHeader :=
  ⟨.ofBytes (field bs 16 16), uintAt bs 32 8, uintAt bs 40 4, uintAt bs 52 2⟩

structure EfiFvExtHeader where
  fvName : EfiGuid
  extHeaderSize : ℕ
  deriving DecidableEq

def EfiFvExtHeader.ofBytes (bs : Bytes) : EfiFvExtHeader :=
  ⟨.ofBytes (field bs 0 16), uintAt bs 16 4⟩

/-- The fields of `EfiFfsFileHeader` that the code reads. -/
structure EfiFfsFileHeader where
  name : EfiGuid
  type : UInt8
  attributes : UInt8
  size : ℕ
  deriving DecidableEq

/-- The size is `ffsFileSize`, the 24-bit field. -/
def EfiFfsFileHeader.ofBytes (bs : Bytes) : EfiFfsFileHeader :=
  ⟨.ofBytes (field bs 0 16), uint8At bs 18, uint8At bs 19, uintAt bs 20 3⟩

/-- A file whose 24-bit size field is not the one that counts. -/
def EfiFfsFileHeader.isLarge (hdr : EfiFfsFileHeader) : Bool :=
  hdr.attributes &&& efiFfsLargeFile ≠ 0

/-! ### The two loops -/

/-- The arguments of `extractFfsFile` and the machine it runs on. -/
structure ExtractCall where
  sz : SizeWidth
  rom : Bytes
  romSize : ℕ
  romSize_lt : romSize < sz.modulus
  fvGuid : EfiGuid
  fileGuid : EfiGuid

/-- A volume whose files are walked. -/
structure Volume where
  fvOffset : ℕ
  hdr : EfiFvHeader
  extHdr : EfiFvExtHeader
  deriving DecidableEq

/-- The head of one of the loops.  `good` is the state of the stream; the
inner loop only goes on while it is good. -/
inductive ScanState where
  | volume (good : Bool) (fvOffset : ℕ)
  | file (v : Volume) (fileOffset : ℕ)
  deriving DecidableEq

/-- A file that was found, and the size of the section header to leave out. -/
structure Extraction where
  volume : Volume
  fileOffset : ℕ
  hdr : EfiFfsFileHeader
  stripped : ℕ
  deriving DecidableEq

/-- What the section header of a file leads to. -/
inductive SectionOutcome where
  | strip (n : ℕ)
  | tooShort
  | readFailed
  deriving DecidableEq

namespace ExtractCall

variable (c : ExtractCall)

/-- `rom.seekg(off); rom.read(dst, n);`.  Every read of the function follows a
seek, so the stream needs no position; the offset becomes a signed 64-bit
`streamoff`, and a stream that is not good stays so. -/
def readAt (good : Bool) (off n : ℕ) : Option Bytes :=
  if good ∧ off < 2 ^ 63 ∧ off + n ≤ c.rom.length then some (field c.rom off n) else none

/-- Where the outer loop goes from a volume of length `fvLength`. -/
def nextVolume (fvOffset fvLength : ℕ) : ℕ := c.sz.wrap (fvOffset + c.sz.roundUp64K fvLength)

/-- `fvEnd`. -/
def fvEnd (v : Volume) : ℕ := min (c.sz.wrap (v.fvOffset + c.sz.wrap v.hdr.fvLength)) c.romSize

/-- Where the file walk of a volume starts. -/
def firstFile (v : Volume) : ℕ :=
  c.sz.wrap (v.fvOffset + v.hdr.extHeaderOffset + v.extHdr.extHeaderSize)

/-- A round of the outer loop that finds the header `hdr`. -/
def scanVolume (fvOffset : ℕ) (hdr : EfiFvHeader) : ScanState :=
  let next := c.nextVolume fvOffset hdr.fvLength
  if hdr.fileSystemGuid ≠ ffs2Guid then .volume true next
  else if hdr.extHeaderOffset = 0 then .volume true next
  else
    match c.readAt true (c.sz.wrap (fvOffset + hdr.extHeaderOffset)) extHeaderSize with
    | none => .volume false next
    | some ext =>
      let v : Volume := ⟨fvOffset, hdr, .ofBytes ext⟩
      if v.extHdr.fvName ≠ c.fvGuid then .volume true next
      else .file v (c.firstFile v)

/-- One round of the outer loop. -/
def stepVolume (good : Bool) (fvOffset : ℕ) : ScanState ⊕ Option Extraction :=
  if c.sz.wrap (fvOffset + fvHeaderSize) < c.romSize then
    match c.readAt good fvOffset fvHeaderSize with
    | none => .inr none
    | some bs =>
      let hdr := EfiFvHeader.ofBytes bs
      if hdr.signature ≠ efiFvhSignature then
        .inl (.volume true (c.sz.wrap (fvOffset + 0x10000)))
      else .inl (c.scanVolume fvOffset hdr)
  else .inr none

/-- The section header of a FREEFORM file. -/
def sectionOutcome (hdr : EfiFfsFileHeader) (dataOffset dataSize : ℕ) : SectionOutcome :=
  if hdr.type = efiFvFileTypeFreeform ∧ dataSize > sectionHeaderSize then
    match c.readAt true dataOffset sectionHeaderSize with
    | none => .readFailed
    | some sec =>
      if uint8At sec 3 = efiSectionRaw then .strip sectionHeaderSize
      else if uint8At sec 3 = efiSectionGuidDefined then
        if dataSize ≤ guidSecHdrSize then .tooShort else .strip guidSecHdrSize
      else .strip 0
  else .strip 0

/-- Where the data of a file begins, behind `stripped` bytes. -/
def dataOffset (fileOffset stripped : ℕ) : ℕ :=
  c.sz.wrap (c.sz.wrap (fileOffset + fileHeaderSize) + stripped)

/-- A round of the inner loop that finds the file it looks for. -/
def extractFile (v : Volume) (fileOffset : ℕ) (hdr : EfiFfsFileHeader) :
    ScanState ⊕ Option Extraction :=
  let dataSize := hdr.size - fileHeaderSize
  match c.sectionOutcome hdr (c.dataOffset fileOffset 0) dataSize with
  | .readFailed => .inr none
  | .tooShort => .inl (.volume true (c.nextVolume v.fvOffset v.hdr.fvLength))
  | .strip n =>
    match c.readAt true (c.dataOffset fileOffset n) (dataSize - n) with
    | none => .inr none
    | some _ => .inr (some ⟨v, fileOffset, hdr, n⟩)

/-- A round of the inner loop that finds the header `hdr` at `fileOffset`. -/
def scanFile (v : Volume) (fileOffset : ℕ) (hdr : EfiFfsFileHeader) :
    ScanState ⊕ Option Extraction :=
  let next := c.nextVolume v.fvOffset v.hdr.fvLength
  if hdr.name = allFf then .inl (.volume true next)
  else if hdr.size < fileHeaderSize then .inl (.volume true next)
  else if hdr.name = c.fileGuid ∧ ¬hdr.isLarge then c.extractFile v fileOffset hdr
  else .inl (.file v (c.sz.wrap (fileOffset + hdr.size)))

/-- One round of the inner loop; its bounds check precedes the alignment. -/
def stepFile (v : Volume) (fileOffset : ℕ) : ScanState ⊕ Option Extraction :=
  let next := c.nextVolume v.fvOffset v.hdr.fvLength
  if c.sz.wrap (fileOffset + fileHeaderSize) < c.fvEnd v then
    let fileOffset := c.sz.align8 fileOffset
    match c.readAt true fileOffset fileHeaderSize with
    | none => .inl (.volume false next)
    | some bs => c.scanFile v fileOffset (.ofBytes bs)
  else .inl (.volume true next)

/-- One round of the loop whose head is given. -/
def step : ScanState → ScanState ⊕ Option Extraction
  | .volume good fvOffset => c.stepVolume good fvOffset
  | .file v fileOffset => c.stepFile v fileOffset

/-- The head of the outer loop at the start. -/
def start : ScanState := .volume true 0

/-- The data of a file that was found. -/
def data (e : Extraction) : Bytes :=
  field c.rom (c.dataOffset e.fileOffset e.stripped) (e.hdr.size - fileHeaderSize - e.stripped)

/-- The vector returned. -/
def result : Option Extraction → Bytes
  | none => []
  | some e => c.data e

/-- The function, with at most `fuel` rounds of its loops. -/
def extractFfsFile (fuel : ℕ) : Option Bytes :=
  (WhileLoop.iterate c.step fuel start).map c.result

end ExtractCall

end UefiFv
