/-
`extractFfsFile` on well-formed images.

A `FlashImage` is a list of 64 KiB filler blocks and firmware volumes; an FFS2
volume is what precedes its first file, its files, and free space.  The spec is
`FlashImage.expected`, the payload of the first candidate.

* `walk_files` — the inner loop over the files of a volume;
* `walk_blocks` — the outer loop over the blocks of an image;
* `extractFfsFile_expected` — the function returns the payload of the first
  file that is not large, has the name, and sits in a volume of the name.
-/
import Canopy.UefiWalk

open Bytes WhileLoop

namespace UefiFv

/-! ### Well-formed images -/

/-- A file: its header, its data, and the padding up to the next one. -/
structure FfsFile where
  header : Bytes
  data : Bytes
  pad : Bytes
  header_length : header.length = fileHeaderSize
  size_eq : (EfiFfsFileHeader.ofBytes header).size = fileHeaderSize + data.length
  name_ne : (EfiFfsFileHeader.ofBytes header).name ≠ allFf
  pad_lt : pad.length < 8
  aligned : 8 ∣ data.length + pad.length

namespace FfsFile

def hdr (g : FfsFile) : EfiFfsFileHeader := .ofBytes g.header

def encode (g : FfsFile) : Bytes := g.header ++ (g.data ++ g.pad)

/-- A file that is looked for. -/
def Matches (fileGuid : EfiGuid) (g : FfsFile) : Prop :=
  g.hdr.name = fileGuid ∧ ¬g.hdr.isLarge

instance (fileGuid : EfiGuid) : DecidablePred (Matches fileGuid) :=
  fun _ => inferInstanceAs (Decidable (_ ∧ _))

/-- The data starts with a section header. -/
def HasSection (g : FfsFile) : Prop :=
  g.hdr.type = efiFvFileTypeFreeform ∧ sectionHeaderSize < g.data.length

instance (g : FfsFile) : Decidable g.HasSection := inferInstanceAs (Decidable (_ ∧ _))

def sectionType (g : FfsFile) : UInt8 := uint8At g.data 3

/-- A GUID-defined section with nothing behind its header. -/
def ShortGuidSection (g : FfsFile) : Prop :=
  g.HasSection ∧ g.sectionType = efiSectionGuidDefined ∧ g.data.length ≤ guidSecHdrSize

/-- The bytes of the section header. -/
def sectionHeader (g : FfsFile) : ℕ :=
  if g.HasSection then
    if g.sectionType = efiSectionRaw then sectionHeaderSize
    else if g.sectionType = efiSectionGuidDefined then guidSecHdrSize
    else 0
  else 0

/-- The data without the section header. -/
def payload (g : FfsFile) : Bytes := g.data.drop g.sectionHeader

end FfsFile

/-- An FFS2 volume with an extended header: what precedes the first file, the
files, the free-space header, and the rest. -/
structure Ffs2Volume where
  head : Bytes
  files : List FfsFile
  tail : Bytes
  head_ge : fvHeaderSize ≤ head.length
  signature : (EfiFvHeader.ofBytes (field head 0 fvHeaderSize)).signature = efiFvhSignature
  fileSystem : (EfiFvHeader.ofBytes (field head 0 fvHeaderSize)).fileSystemGuid = ffs2Guid
  ext_ne : (EfiFvHeader.ofBytes (field head 0 fvHeaderSize)).extHeaderOffset ≠ 0
  ext_le : (EfiFvHeader.ofBytes (field head 0 fvHeaderSize)).extHeaderOffset + extHeaderSize ≤
    head.length
  head_length : ((EfiFvHeader.ofBytes (field head 0 fvHeaderSize)).extHeaderOffset +
    (EfiFvExtHeader.ofBytes (field head
      (EfiFvHeader.ofBytes (field head 0 fvHeaderSize)).extHeaderOffset
      extHeaderSize)).extHeaderSize + 7) / 8 * 8 = head.length
  fvLength_eq : (EfiFvHeader.ofBytes (field head 0 fvHeaderSize)).fvLength =
    head.length + (files.flatMap FfsFile.encode).length + fileHeaderSize + tail.length

namespace Ffs2Volume

def hdr (v : Ffs2Volume) : EfiFvHeader := .ofBytes (field v.head 0 fvHeaderSize)

def extHdr (v : Ffs2Volume) : EfiFvExtHeader :=
  .ofBytes (field v.head v.hdr.extHeaderOffset extHeaderSize)

/-- The free-space header. -/
def freeSpace : Bytes := List.replicate fileHeaderSize 0xFF

def encode (v : Ffs2Volume) : Bytes :=
  v.head ++ (v.files.flatMap FfsFile.encode ++ (freeSpace ++ v.tail))

end Ffs2Volume

/-- A volume whose files are not looked at: of another type, or without an
extended header. -/
structure OtherVolume where
  bytes : Bytes
  length_ge : fvHeaderSize ≤ bytes.length
  signature : (EfiFvHeader.ofBytes (field bytes 0 fvHeaderSize)).signature = efiFvhSignature
  fvLength_eq : (EfiFvHeader.ofBytes (field bytes 0 fvHeaderSize)).fvLength = bytes.length
  skipped : (EfiFvHeader.ofBytes (field bytes 0 fvHeaderSize)).fileSystemGuid ≠ ffs2Guid ∨
    (EfiFvHeader.ofBytes (field bytes 0 fvHeaderSize)).extHeaderOffset = 0

/-- A piece of an image that starts on a 64 KiB boundary. -/
inductive Block where
  | filler (bytes : Bytes) (length_eq : bytes.length = 0x10000)
      (unsigned : (EfiFvHeader.ofBytes (field bytes 0 fvHeaderSize)).signature ≠ efiFvhSignature)
  | other (v : OtherVolume) (pad : Bytes) (pad_lt : pad.length < 0x10000)
      (aligned : 0x10000 ∣ v.bytes.length + pad.length)
  | ffs2 (v : Ffs2Volume) (pad : Bytes) (pad_lt : pad.length < 0x10000)
      (aligned : 0x10000 ∣ v.encode.length + pad.length)

namespace Block

def encode : Block → Bytes
  | .filler bytes _ _ => bytes
  | .other v pad _ _ => v.bytes ++ pad
  | .ffs2 v pad _ _ => v.encode ++ pad

/-- The files of a block that may be returned. -/
def candidates (fvGuid fileGuid : EfiGuid) : Block → List FfsFile
  | .ffs2 v _ _ _ =>
    if v.extHdr.fvName = fvGuid then v.files.filter (FfsFile.Matches fileGuid) else []
  | _ => []

end Block

/-- A whole image, below 2 GiB. -/
structure FlashImage where
  blocks : List Block
  size_lt : (blocks.flatMap Block.encode).length < 2 ^ 31

namespace FlashImage

def encode (img : FlashImage) : Bytes := img.blocks.flatMap Block.encode

/-- The files that may be returned, in image order. -/
def candidates (img : FlashImage) (fvGuid fileGuid : EfiGuid) : List FfsFile :=
  img.blocks.flatMap (Block.candidates fvGuid fileGuid)

/-- The payload of the first candidate. -/
def expected (img : FlashImage) (fvGuid fileGuid : EfiGuid) : Bytes :=
  match (img.candidates fvGuid fileGuid).head? with
  | none => []
  | some g => g.payload

/-- The call of `extractFfsFile` on the image. -/
def call (img : FlashImage) (sz : SizeWidth) (fvGuid fileGuid : EfiGuid) : ExtractCall where
  sz := sz
  rom := img.encode
  romSize := img.encode.length
  romSize_lt := lt_of_lt_of_le img.size_lt
    ((Nat.pow_le_pow_right (by omega) (by omega)).trans sz.le_modulus)
  fvGuid := fvGuid
  fileGuid := fileGuid

end FlashImage

/-! ### Lengths -/

theorem FfsFile.encode_length (g : FfsFile) :
    g.encode.length = fileHeaderSize + g.data.length + g.pad.length := by
  rw [encode, List.length_append, List.length_append, g.header_length, Nat.add_assoc]

theorem Ffs2Volume.fvLength (v : Ffs2Volume) : v.hdr.fvLength = v.encode.length := by
  rw [encode, hdr, v.fvLength_eq]
  simp only [List.length_append, freeSpace, List.length_replicate]
  omega

theorem Ffs2Volume.encode_length (v : Ffs2Volume) : v.encode.length = v.head.length +
    (v.files.flatMap FfsFile.encode).length + fileHeaderSize + v.tail.length := by
  rw [← v.fvLength, Ffs2Volume.hdr, v.fvLength_eq]

namespace ExtractCall

variable {c : ExtractCall}

/-- A call on a whole image small enough for sums not to wrap. -/
structure Small (c : ExtractCall) : Prop where
  romSize_eq : c.romSize = c.rom.length
  length_lt : c.rom.length < 2 ^ 31

theorem wrap_small {x : ℕ} (h : x < 2 ^ 32) : c.sz.wrap x = x :=
  SizeWidth.wrap_of_lt (h.trans_le c.sz.le_modulus)

theorem Small.readAt (hc : Small c) {off n : ℕ} (h : off + n ≤ c.rom.length) :
    c.readAt true off n = some (field c.rom off n) := by
  have := hc.length_lt
  exact readAt_of_le (by omega) h

/-! ### The files of a volume -/

section Files

variable {v : Volume} {pre post : Bytes} {f : ℕ} {g : FfsFile}

/-- The header of a file, read where the walk aligns to. -/
theorem fileHdr_eq (hrom : c.rom = pre ++ (g.encode ++ post)) :
    c.fileHdr pre.length = g.hdr := by
  rw [fileHdr, hrom, FfsFile.encode, List.append_assoc, field_block rfl g.header_length,
    FfsFile.hdr]

/-- A part of the data of a file. -/
theorem field_data (hrom : c.rom = pre ++ (g.encode ++ post)) {n len : ℕ}
    (h : n + len ≤ g.data.length) :
    field c.rom (pre.length + (fileHeaderSize + n)) len = field g.data n len := by
  rw [hrom, field_append_right rfl, FfsFile.encode, List.append_assoc,
    field_append_right g.header_length, List.append_assoc, field_append_left h]

/-- A round of the inner loop at a file. -/
theorem stepFile_at (hc : Small c) (hrom : c.rom = pre ++ (g.encode ++ post))
    (halign : c.sz.align8 f = pre.length) (hf : f ≤ pre.length)
    (hend : pre.length + fileHeaderSize < c.fvEnd v) :
    c.stepFile v f = c.scanFile v pre.length g.hdr := by
  have hlen := hc.length_lt
  have hfits := length_block_le hrom
  rw [g.encode_length] at hfits
  have hheader : fileHeaderSize = 24 := rfl
  rw [stepFile]
  simp only [halign]
  rw [wrap_small (by omega), if_pos (by omega), hc.readAt (by omega)]
  exact congrArg (c.scanFile v pre.length) (fileHdr_eq hrom)

/-- The section header of a file that is found. -/
theorem sectionOutcome_at (hc : Small c) (hrom : c.rom = pre ++ (g.encode ++ post))
    (hshort : ¬g.ShortGuidSection) :
    c.sectionOutcome g.hdr (pre.length + fileHeaderSize) g.data.length =
      .strip g.sectionHeader := by
  have hfits := length_block_le hrom
  rw [g.encode_length] at hfits
  have hsec : sectionHeaderSize = 4 := rfl
  rw [sectionOutcome, FfsFile.sectionHeader]
  by_cases hsection : g.HasSection
  · have hlong := hsection.2
    have htype : uint8At (field c.rom (pre.length + fileHeaderSize) sectionHeaderSize) 3 =
        g.sectionType := by
      have hfield : field c.rom (pre.length + (fileHeaderSize + 0)) sectionHeaderSize =
          field g.data 0 sectionHeaderSize := field_data hrom (by omega)
      rw [Nat.add_zero] at hfield
      rw [hfield, uint8At_field (by omega), FfsFile.sectionType, Nat.zero_add]
    rw [if_pos (show _ ∧ _ from hsection), if_pos hsection, hc.readAt (by omega)]
    simp only
    rw [htype]
    by_cases hraw : g.sectionType = efiSectionRaw
    · rw [if_pos hraw, if_pos hraw]
    · rw [if_neg hraw, if_neg hraw]
      by_cases hguid : g.sectionType = efiSectionGuidDefined
      · -- only a GUID section shorter than its header is not stripped
        have hlonger : ¬g.data.length ≤ guidSecHdrSize := fun hle =>
          hshort ⟨hsection, hguid, hle⟩
        rw [if_pos hguid, if_pos hguid, if_neg hlonger]
      · rw [if_neg hguid, if_neg hguid]
  · rw [if_neg (show ¬(_ ∧ _) from hsection), if_neg hsection]

private theorem sectionHeader_le (hshort : ¬g.ShortGuidSection) :
    g.sectionHeader ≤ g.data.length := by
  rw [FfsFile.sectionHeader]
  split
  · next hsection =>
    split
    · exact hsection.2.le
    split
    · next hguid =>
      by_contra hle
      exact hshort ⟨hsection, hguid, (not_le.mp hle).le⟩
    · exact Nat.zero_le _
  · exact Nat.zero_le _

/-- The file that is looked for is returned. -/
theorem extractFile_at (hc : Small c) (hrom : c.rom = pre ++ (g.encode ++ post))
    (hshort : ¬g.ShortGuidSection) :
    ∃ e, c.extractFile v pre.length g.hdr = .inr (some e) ∧ c.data e = g.payload := by
  have hlen := hc.length_lt
  have hfits := length_block_le hrom
  rw [g.encode_length] at hfits
  have hheader : fileHeaderSize = 24 := rfl
  have hsize : g.hdr.size - fileHeaderSize = g.data.length := by
    rw [FfsFile.hdr, g.size_eq, Nat.add_sub_cancel_left]
  have hle := sectionHeader_le hshort
  have hoff (n : ℕ) (hn : n ≤ g.data.length) :
      c.dataOffset pre.length n = pre.length + (fileHeaderSize + n) := by
    rw [dataOffset, SizeWidth.wrap_wrap_add, wrap_small (by omega), Nat.add_assoc]
  refine ⟨⟨v, pre.length, g.hdr, g.sectionHeader⟩, ?_, ?_⟩
  · rw [extractFile, hsize, hoff 0 (Nat.zero_le _), Nat.add_zero, sectionOutcome_at hc hrom hshort]
    simp only
    rw [hoff _ hle, hc.readAt (by omega)]
  · rw [data]
    simp only
    rw [hsize, hoff _ hle, field_data hrom (by omega), field, FfsFile.payload]
    exact List.take_of_length_le (by rw [List.length_drop])

/-- A file begins at the next multiple of 8. -/
theorem Small.align8_eq (hc : Small c) {f pos : ℕ} (hdvd : 8 ∣ pos) (hf : f ≤ pos)
    (hf' : pos < f + 8) (hpos : pos ≤ c.rom.length) : c.sz.align8 f = pos := by
  obtain ⟨k, hk⟩ := hdvd
  have hlen := hc.length_lt
  have hmin := c.sz.le_modulus
  have hround : (f + 7) / 8 * 8 = pos := by omega
  rw [c.sz.align8_of_lt (by rw [hround]; omega), hround]

/-- **The walk over the files of a volume**: the first match is returned, and
without one the outer loop goes on behind the volume. -/
theorem walk_files (hc : Small c) : ∀ (files : List FfsFile) {pre : Bytes} {f : ℕ},
    c.rom = pre ++ (files.flatMap FfsFile.encode ++ (Ffs2Volume.freeSpace ++ post)) →
    8 ∣ pre.length → f ≤ pre.length → pre.length < f + 8 →
    pre.length + (files.flatMap FfsFile.encode).length + fileHeaderSize ≤ c.fvEnd v →
    (∀ g ∈ files.filter (FfsFile.Matches c.fileGuid), ¬g.ShortGuidSection) →
    match (files.filter (FfsFile.Matches c.fileGuid)).head? with
    | none =>
      Reaches c.step (.file v f) (.volume true (c.nextVolume v.fvOffset v.hdr.fvLength))
    | some g => ∃ e, Returns c.step (.file v f) (some e) ∧ c.data e = g.payload
  | [], pre, f, hrom, hdvd, hf, hf', hend, _ => by
    have hlen := hc.length_lt
    have hheader : fileHeaderSize = 24 := rfl
    refine Relation.ReflTransGen.single ?_
    show c.stepFile v f = _
    have hfits : pre.length + fileHeaderSize ≤ c.rom.length := by
      rw [hrom]
      simp only [List.flatMap_nil, List.nil_append, List.length_append, Ffs2Volume.freeSpace,
        List.length_replicate]
      omega
    have halign : c.sz.align8 f = pre.length := hc.align8_eq hdvd hf hf' (by omega)
    -- where the files end the header reads as free space
    have hfree : EfiFfsFileHeader.ofBytes (field c.rom pre.length fileHeaderSize) =
        .ofBytes Ffs2Volume.freeSpace := by
      rw [hrom, List.flatMap_nil, List.nil_append, field_block rfl]
      rfl
    rw [stepFile]
    simp only [halign]
    split
    · rw [hc.readAt hfits]
      simp only
      rw [hfree, scanFile, if_pos (by decide)]
    · rfl
  | g :: files, pre, f, hrom, hdvd, hf, hf', hend, hshort => by
    have hlen := hc.length_lt
    have hheader : fileHeaderSize = 24 := rfl
    rw [List.flatMap_cons, List.append_assoc] at hrom
    rw [List.flatMap_cons, List.length_append] at hend
    have hgl := g.encode_length
    have hfits := length_block_le hrom
    have halign : c.sz.align8 f = pre.length := hc.align8_eq hdvd hf hf' (by omega)
    have hround := stepFile_at (v := v) hc hrom halign hf (by omega)
    have hsize : g.hdr.size = fileHeaderSize + g.data.length := g.size_eq
    rw [scanFile, if_neg (show g.hdr.name ≠ allFf from g.name_ne), if_neg (by omega)] at hround
    by_cases hmatch : FfsFile.Matches c.fileGuid g
    · -- the first match ends the walk
      rw [List.filter_cons_of_pos (by simpa using hmatch)] at hshort ⊢
      obtain ⟨e, he, hdata⟩ := extractFile_at (v := v) hc hrom (hshort g List.mem_cons_self)
      rw [if_pos (show _ ∧ _ from hmatch), he] at hround
      have hdone : c.step (.file v f) = .inr (some e) := hround
      exact ⟨e, (returns_iff_of_done hdone).mpr rfl, hdata⟩
    · -- the next file begins at most seven bytes behind this one
      rw [List.filter_cons_of_neg (by simpa using hmatch)] at hshort ⊢
      rw [if_neg (show ¬(_ ∧ _) from hmatch), wrap_small (by omega)] at hround
      have haligned := g.aligned
      have hpad := g.pad_lt
      have hlength : (pre ++ g.encode).length = pre.length + g.encode.length :=
        List.length_append
      have hrom' : c.rom = (pre ++ g.encode) ++ (files.flatMap FfsFile.encode ++
          (Ffs2Volume.freeSpace ++ post)) := by
        rw [hrom, List.append_assoc]
      have hrest := walk_files hc files (f := pre.length + g.hdr.size) hrom' (by omega) (by omega)
        (by omega) (by omega) hshort
      have hnext : Next c.step (.file v f) (.file v (pre.length + g.hdr.size)) := hround
      revert hrest
      cases (files.filter (FfsFile.Matches c.fileGuid)).head? with
      | none =>
        intro hrest
        exact hrest.head hnext
      | some g' =>
        rintro ⟨e, he, hdata⟩
        exact ⟨e, (returns_iff_of_next hnext).mpr he, hdata⟩

end Files

/-! ### The blocks of an image -/

section Blocks

variable {pre post : Bytes}

/-- A step of a whole number of 64 KiB blocks goes just behind the volume. -/
theorem nextVolume_eq {o n pad : ℕ} (hpad : pad < 0x10000) (hdvd : 0x10000 ∣ n + pad)
    (hpos : 0 < n) (hlt : o + (n + pad) < 2 ^ 32) : c.nextVolume o n = o + (n + pad) := by
  obtain ⟨k, hk⟩ := hdvd
  have hround : c.sz.roundUp64K n = n + pad := by
    rw [SizeWidth.roundUp64K]
    simp only [wrap_small (x := n) (show n < 2 ^ 32 by omega)]
    by_cases hn : n % 0x10000 = 0
    · rw [if_pos hn, if_neg (by omega)]
      omega
    · rw [if_neg hn, wrap_small (by omega), if_neg (by omega)]
      omega
  rw [nextVolume, hround, wrap_small hlt]

/-- A round of the outer loop at a block. -/
theorem stepVolume_at (hc : Small c) {block : Bytes} (hrom : c.rom = pre ++ (block ++ post))
    (hblock : 0x10000 ≤ block.length) :
    c.stepVolume true pre.length =
      let hdr := EfiFvHeader.ofBytes (field block 0 fvHeaderSize)
      if hdr.signature ≠ efiFvhSignature then
        .inl (.volume true (c.sz.wrap (pre.length + 0x10000)))
      else .inl (c.scanVolume pre.length hdr) := by
  have hlen := hc.length_lt
  have hheader : fvHeaderSize = 56 := rfl
  have hfits := length_block_le hrom
  have hhdr : field c.rom pre.length fvHeaderSize = field block 0 fvHeaderSize := by
    rw [hrom, ← Nat.add_zero pre.length, field_append_right rfl, field_append_left (by omega)]
  rw [stepVolume, wrap_small (by omega), if_pos (by rw [hc.romSize_eq]; omega),
    hc.readAt (by omega), hhdr]

section Ffs2

variable {v : Ffs2Volume} {pad : Bytes}

private theorem nextVolume_ffs2 (hc : Small c) (hpad : pad.length < 0x10000)
    (haligned : 0x10000 ∣ v.encode.length + pad.length)
    (hrom : c.rom = pre ++ ((v.encode ++ pad) ++ post)) :
    c.nextVolume pre.length v.hdr.fvLength = pre.length + (v.encode ++ pad).length := by
  have hlen := hc.length_lt
  have hfits := length_block_le hrom
  have hbytes : (v.encode ++ pad).length = v.encode.length + pad.length := List.length_append
  have hlength := v.encode_length
  have hheader : fileHeaderSize = 24 := rfl
  rw [v.fvLength, nextVolume_eq hpad haligned (by omega) (by omega), hbytes]

/-- A round of the outer loop at a volume of the type looked for: into its files if
it has the name asked for, behind it otherwise. -/
theorem step_ffs2 (hc : Small c) (hpad : pad.length < 0x10000)
    (haligned : 0x10000 ∣ v.encode.length + pad.length)
    (hrom : c.rom = pre ++ ((v.encode ++ pad) ++ post)) :
    c.step (.volume true pre.length) = .inl
      (if v.extHdr.fvName = c.fvGuid then
        .file ⟨pre.length, v.hdr, v.extHdr⟩
          (pre.length + v.hdr.extHeaderOffset + v.extHdr.extHeaderSize)
      else .volume true (pre.length + (v.encode ++ pad).length)) := by
  have hlen := hc.length_lt
  have hfits := length_block_le hrom
  have hbytes : (v.encode ++ pad).length = v.encode.length + pad.length := List.length_append
  have hlength := v.encode_length
  have hhead := v.head_ge
  have hfvHeader : fvHeaderSize = 56 := rfl
  have hblock : 0x10000 ≤ (v.encode ++ pad).length := by
    rw [hbytes]
    exact Nat.le_of_dvd (by omega) haligned
  -- the headers are the ones of the volume
  have hencode : v.encode = v.head ++ (v.files.flatMap FfsFile.encode ++
    (Ffs2Volume.freeSpace ++ v.tail)) := rfl
  have hhdr : EfiFvHeader.ofBytes (field (v.encode ++ pad) 0 fvHeaderSize) = v.hdr := by
    rw [field_append_left (by omega), hencode, field_append_left (by omega), Ffs2Volume.hdr]
  have hextle : v.hdr.extHeaderOffset + extHeaderSize ≤ v.head.length := v.ext_le
  have hext : c.readAt true (c.sz.wrap (pre.length + v.hdr.extHeaderOffset)) extHeaderSize =
      some (field v.head v.hdr.extHeaderOffset extHeaderSize) := by
    rw [wrap_small (by omega), hc.readAt (by omega), hrom, field_append_right rfl,
      field_append_left (by omega), field_append_left (by omega), hencode,
      field_append_left (by omega)]
  have hnext := nextVolume_ffs2 hc hpad haligned hrom
  have hround := stepVolume_at hc hrom hblock
  simp only [hhdr] at hround
  have hsig : v.hdr.signature = efiFvhSignature := v.signature
  have hfs : v.hdr.fileSystemGuid = ffs2Guid := v.fileSystem
  have hne : v.hdr.extHeaderOffset ≠ 0 := v.ext_ne
  rw [if_neg (not_not.mpr hsig), scanVolume] at hround
  simp only at hround
  rw [if_neg (not_not.mpr hfs), if_neg hne, hext, hnext] at hround
  simp only at hround
  have hseen : EfiFvExtHeader.ofBytes (field v.head v.hdr.extHeaderOffset extHeaderSize) =
      v.extHdr := rfl
  rw [hseen] at hround
  refine Eq.trans (show c.step (.volume true pre.length) = c.stepVolume true pre.length from rfl)
    (hround.trans ?_)
  by_cases hname : v.extHdr.fvName = c.fvGuid
  · have hheadLength : (v.hdr.extHeaderOffset + v.extHdr.extHeaderSize + 7) / 8 * 8 =
        v.head.length := v.head_length
    have hfirst : c.firstFile ⟨pre.length, v.hdr, v.extHdr⟩ =
        pre.length + v.hdr.extHeaderOffset + v.extHdr.extHeaderSize :=
      wrap_small (show pre.length + v.hdr.extHeaderOffset + v.extHdr.extHeaderSize < _ by omega)
    rw [if_neg (not_not.mpr hname), if_pos hname, hfirst]
  · rw [if_pos hname, if_neg hname]

/-- The walk over a volume of the type looked for. -/
theorem walk_ffs2 (hc : Small c) (hpad : pad.length < 0x10000)
    (haligned : 0x10000 ∣ v.encode.length + pad.length)
    (hrom : c.rom = pre ++ ((v.encode ++ pad) ++ post)) (hdvd : 0x10000 ∣ pre.length)
    (hshort : ∀ g ∈ (Block.ffs2 v pad hpad haligned).candidates c.fvGuid c.fileGuid,
      ¬g.ShortGuidSection) :
    match ((Block.ffs2 v pad hpad haligned).candidates c.fvGuid c.fileGuid).head? with
    | none =>
      Reaches c.step (.volume true pre.length)
        (.volume true (pre.length + (v.encode ++ pad).length))
    | some g =>
      ∃ e, Returns c.step (.volume true pre.length) (some e) ∧ c.data e = g.payload := by
  have hstep := step_ffs2 hc hpad haligned hrom
  have hnext := nextVolume_ffs2 hc hpad haligned hrom
  rw [Block.candidates] at hshort ⊢
  by_cases hname : v.extHdr.fvName = c.fvGuid
  · rw [if_pos hname] at hshort ⊢ hstep
    have hlen := hc.length_lt
    have hfits := length_block_le hrom
    have hbytes : (v.encode ++ pad).length = v.encode.length + pad.length := List.length_append
    have hlength := v.encode_length
    have hheadLength : (v.hdr.extHeaderOffset + v.extHdr.extHeaderSize + 7) / 8 * 8 =
        v.head.length := v.head_length
    have hfvEnd : c.fvEnd ⟨pre.length, v.hdr, v.extHdr⟩ = pre.length + v.encode.length := by
      rw [fvEnd]
      simp only
      rw [v.fvLength, hc.romSize_eq, wrap_small (x := v.encode.length) (by omega),
        wrap_small (by omega)]
      exact Nat.min_eq_left (by omega)
    have hrom' : c.rom = (pre ++ v.head) ++ (v.files.flatMap FfsFile.encode ++
        (Ffs2Volume.freeSpace ++ (v.tail ++ (pad ++ post)))) := by
      rw [hrom, Ffs2Volume.encode]
      simp only [List.append_assoc]
    have hprefix : (pre ++ v.head).length = pre.length + v.head.length := List.length_append
    have height : 8 ∣ pre.length := Nat.dvd_trans ⟨0x2000, rfl⟩ hdvd
    -- the files begin behind the extended header, padded to eight bytes
    have hwalk := walk_files (v := ⟨pre.length, v.hdr, v.extHdr⟩) hc v.files
      (f := pre.length + v.hdr.extHeaderOffset + v.extHdr.extHeaderSize) hrom' (by omega)
      (by omega) (by omega) (by omega) hshort
    simp only [hnext] at hwalk
    revert hwalk
    cases (v.files.filter (FfsFile.Matches c.fileGuid)).head? with
    | none =>
      intro hwalk
      exact hwalk.head hstep
    | some g =>
      rintro ⟨e, he, hdata⟩
      exact ⟨e, (returns_iff_of_next hstep).mpr he, hdata⟩
  · -- a volume of another type is stepped over
    rw [if_neg hname] at hstep ⊢
    exact Relation.ReflTransGen.single hstep

end Ffs2

/-- The walk over one block. -/
theorem walk_block (hc : Small c) : ∀ {b : Block}, c.rom = pre ++ (b.encode ++ post) →
    0x10000 ∣ pre.length →
    (∀ g ∈ b.candidates c.fvGuid c.fileGuid, ¬g.ShortGuidSection) →
    match (b.candidates c.fvGuid c.fileGuid).head? with
    | none =>
      Reaches c.step (.volume true pre.length) (.volume true (pre.length + b.encode.length))
    | some g =>
      ∃ e, Returns c.step (.volume true pre.length) (some e) ∧ c.data e = g.payload
  | .filler bytes hlength hunsigned, hrom, _, _ => by
    have hlen := hc.length_lt
    have hbytes : (Block.filler bytes hlength hunsigned).encode = bytes := rfl
    have hfits : pre.length + bytes.length ≤ c.rom.length := length_block_le hrom
    have hround := stepVolume_at hc hrom hlength.ge
    simp only at hround
    rw [hbytes, if_pos hunsigned, wrap_small (by omega), ← hlength] at hround
    exact Relation.ReflTransGen.single hround
  | .other v pad hpad haligned, hrom, _, _ => by
    have hlen := hc.length_lt
    have hbytes : (v.bytes ++ pad).length = v.bytes.length + pad.length := List.length_append
    have hfits : pre.length + (v.bytes ++ pad).length ≤ c.rom.length := length_block_le hrom
    -- a volume that is skipped is stepped over as a whole
    have hge := v.length_ge
    have hfvHeader : fvHeaderSize = 56 := rfl
    have hblock : 0x10000 ≤ (v.bytes ++ pad).length := by
      rw [hbytes]
      exact Nat.le_of_dvd (by omega) haligned
    have hround := stepVolume_at hc hrom hblock
    simp only at hround
    rw [show (Block.other v pad hpad haligned).encode = v.bytes ++ pad from rfl,
      field_append_left (by omega), if_neg (not_not.mpr v.signature), scanVolume, v.fvLength_eq,
      nextVolume_eq hpad haligned (by omega) (by omega), ← hbytes] at hround
    simp only at hround
    refine Relation.ReflTransGen.single (hround.trans ?_)
    rcases v.skipped with hfs | hext
    · rw [if_pos hfs]
      rfl
    · split
      · rfl
      · rfl
  | .ffs2 v pad hpad haligned, hrom, hdvd, hshort => walk_ffs2 hc hpad haligned hrom hdvd hshort

theorem Block.dvd_length : ∀ b : Block, 0x10000 ∣ b.encode.length
  | .filler _ hlength _ => ⟨1, hlength⟩
  | .other _ _ _ haligned => by
    rw [Block.encode, List.length_append]
    exact haligned
  | .ffs2 _ _ _ haligned => by
    rw [Block.encode, List.length_append]
    exact haligned

/-- **The walk over the blocks of an image.** -/
theorem walk_blocks (hc : Small c) : ∀ (blocks : List Block) {pre : Bytes},
    c.rom = pre ++ blocks.flatMap Block.encode → 0x10000 ∣ pre.length →
    (∀ g ∈ blocks.flatMap (Block.candidates c.fvGuid c.fileGuid), ¬g.ShortGuidSection) →
    ∃ r, Returns c.step (.volume true pre.length) r ∧
      c.result r =
        match (blocks.flatMap (Block.candidates c.fvGuid c.fileGuid)).head? with
        | none => []
        | some g => g.payload
  | [], pre, hrom, _, _ => by
    have hlen := hc.length_lt
    have hend : pre.length = c.rom.length := by
      rw [hrom, List.flatMap_nil, List.append_nil]
    have hheader : fvHeaderSize = 56 := rfl
    -- at the end of the image there is no room for another header
    have hdone : c.step (.volume true pre.length) = .inr none := by
      show c.stepVolume true pre.length = _
      rw [stepVolume, wrap_small (by omega), if_neg (by rw [hc.romSize_eq]; omega)]
    exact ⟨none, (returns_iff_of_done hdone).mpr rfl, rfl⟩
  | b :: blocks, pre, hrom, hdvd, hshort => by
    rw [List.flatMap_cons] at hrom hshort
    have hblock := walk_block hc hrom hdvd fun g hg => hshort g (List.mem_append_left _ hg)
    have hrom' : c.rom = (pre ++ b.encode) ++ blocks.flatMap Block.encode := by
      rw [hrom, List.append_assoc]
    have hlength : (pre ++ b.encode).length = pre.length + b.encode.length := List.length_append
    obtain ⟨r, hr, hresult⟩ := walk_blocks hc blocks hrom'
      (by rw [hlength]; exact Nat.dvd_add hdvd (Block.dvd_length b))
      fun g hg => hshort g (List.mem_append_right _ hg)
    -- a candidate in this block is the first of all, else the rest decides
    rw [List.flatMap_cons, List.head?_append]
    revert hblock
    cases (b.candidates c.fvGuid c.fileGuid).head? with
    | none =>
      intro hblock
      rw [← hlength] at hblock
      exact ⟨r, (returns_iff_of_reaches hblock).mpr hr, hresult⟩
    | some g =>
      rintro ⟨e, he, hdata⟩
      exact ⟨some e, he, hdata⟩

end Blocks

end ExtractCall

/-- **On a well-formed image the payload of the first candidate is returned.** -/
theorem extractFfsFile_expected (img : FlashImage) (sz : SizeWidth) (fvGuid fileGuid : EfiGuid)
    (hshort : ∀ g ∈ img.candidates fvGuid fileGuid, ¬g.ShortGuidSection) :
    ∃ fuel, (img.call sz fvGuid fileGuid).extractFfsFile fuel =
      some (img.expected fvGuid fileGuid) := by
  have hsmall : (img.call sz fvGuid fileGuid).Small := ⟨rfl, img.size_lt⟩
  obtain ⟨r, ⟨fuel, hr⟩, hresult⟩ := ExtractCall.walk_blocks hsmall img.blocks
    (show (img.call sz fvGuid fileGuid).rom = [] ++ _ from rfl) (Nat.dvd_zero _) hshort
  refine ⟨fuel, ?_⟩
  rw [ExtractCall.extractFfsFile, ExtractCall.start, show (0 : ℕ) = ([] : Bytes).length from rfl,
    hr, Option.map_some, hresult]
  rfl

/-- A FREEFORM file with a RAW section of four bytes. -/
def sampleFile : FfsFile where
  header := ffs2Guid.raw ++ [0, 0, 2, 0] ++ ofLE 3 32 ++ [0]
  data := [8, 0, 0, 0x19, 1, 2, 3, 4]
  pad := []
  header_length := by decide
  size_eq := by decide +kernel
  name_ne := by decide +kernel
  pad_lt := by decide
  aligned := ⟨1, rfl⟩

/-- A file of another name, with padding behind it. -/
def strangerFile : FfsFile where
  header := List.replicate 16 1 ++ [0, 0, 1, 0] ++ ofLE 3 28 ++ [0]
  data := [9, 9, 9, 9]
  pad := [0xFF, 0xFF, 0xFF, 0xFF]
  header_length := by decide
  size_eq := by decide +kernel
  name_ne := by decide +kernel
  pad_lt := by decide
  aligned := ⟨1, rfl⟩

/-- What precedes the files of a volume of the given name and length. -/
def sampleHead (name : EfiGuid) (length : ℕ) : Bytes :=
  List.replicate 16 0 ++ ffs2Guid.raw ++ ofLE 8 length ++ ofLE 4 efiFvhSignature ++ ofLE 8 0 ++
    ofLE 2 56 ++ [0, 0] ++ name.raw ++ ofLE 4 24 ++ ofLE 4 0

/-- A volume with both files. -/
def sampleVolume : Ffs2Volume where
  head := sampleHead ffs2Guid 168
  files := [strangerFile, sampleFile]
  tail := []
  head_ge := by decide +kernel
  signature := by decide +kernel
  fileSystem := by decide +kernel
  ext_ne := by decide +kernel
  ext_le := by decide +kernel
  head_length := by decide +kernel
  fvLength_eq := by decide +kernel

private theorem sampleVolume_length : sampleVolume.encode.length = 168 := by decide +kernel

/-- A volume of another name with the file that is looked for. -/
def strangerVolume : Ffs2Volume where
  head := sampleHead allFf 136
  files := [sampleFile]
  tail := []
  head_ge := by decide +kernel
  signature := by decide +kernel
  fileSystem := by decide +kernel
  ext_ne := by decide +kernel
  ext_le := by decide +kernel
  head_length := by decide +kernel
  fvLength_eq := by decide +kernel

private theorem strangerVolume_length : strangerVolume.encode.length = 136 := by decide +kernel

/-- A volume of another file system. -/
def skippedVolume : OtherVolume where
  bytes := List.replicate 32 0 ++ ofLE 8 56 ++ ofLE 4 efiFvhSignature ++ List.replicate 12 0
  length_ge := by decide +kernel
  signature := by decide +kernel
  fvLength_eq := by decide +kernel
  skipped := Or.inl (by decide +kernel)

private theorem skippedVolume_length : skippedVolume.bytes.length = 56 := by decide +kernel

private theorem field_replicate_zero :
    field (List.replicate 0x10000 0) 0 fvHeaderSize = List.replicate fvHeaderSize 0 := by
  rw [field, List.drop_zero, List.take_replicate]
  rfl

/-- What fills a block up after `n` bytes. -/
theorem length_rest_lt {n : ℕ} (hn : 0 < n) (b : UInt8) :
    (List.replicate (0x10000 - n) b).length < 0x10000 := by
  rw [List.length_replicate]
  omega

def fillerBlock : Block :=
  .filler (List.replicate 0x10000 0) List.length_replicate
    (by rw [field_replicate_zero]; decide +kernel)

def skippedBlock : Block :=
  .other skippedVolume (List.replicate (0x10000 - 56) 0xFF) (length_rest_lt (by decide) _)
    (by rw [skippedVolume_length, List.length_replicate])

def strangerBlock : Block :=
  .ffs2 strangerVolume (List.replicate (0x10000 - 136) 0xFF) (length_rest_lt (by decide) _)
    (by rw [strangerVolume_length, List.length_replicate])

def sampleBlock : Block :=
  .ffs2 sampleVolume (List.replicate (0x10000 - 168) 0xFF) (length_rest_lt (by decide) _)
    (by rw [sampleVolume_length, List.length_replicate])

private theorem fillerBlock_length : fillerBlock.encode.length = 0x10000 := by
  rw [fillerBlock, Block.encode, List.length_replicate]

private theorem skippedBlock_length : skippedBlock.encode.length = 0x10000 := by
  rw [skippedBlock, Block.encode, List.length_append, skippedVolume_length, List.length_replicate]

private theorem strangerBlock_length : strangerBlock.encode.length = 0x10000 := by
  rw [strangerBlock, Block.encode, List.length_append, strangerVolume_length,
    List.length_replicate]

private theorem sampleBlock_length : sampleBlock.encode.length = 0x10000 := by
  rw [sampleBlock, Block.encode, List.length_append, sampleVolume_length, List.length_replicate]

/-- A filler block, two volumes that are passed over, and the one looked for. -/
def sampleImage : FlashImage where
  blocks := [fillerBlock, skippedBlock, strangerBlock, sampleBlock]
  size_lt := by
    simp only [List.flatMap_cons, List.flatMap_nil, List.append_nil, List.length_append,
      fillerBlock_length, skippedBlock_length, strangerBlock_length, sampleBlock_length]
    omega

private theorem sampleImage_candidates :
    sampleImage.candidates ffs2Guid ffs2Guid = [sampleFile] := by
  have hstranger : strangerVolume.extHdr.fvName ≠ ffs2Guid := by decide +kernel
  have hname : sampleVolume.extHdr.fvName = ffs2Guid := by decide +kernel
  have hfiles : sampleVolume.files.filter (FfsFile.Matches ffs2Guid) = [sampleFile] := by
    show [strangerFile, sampleFile].filter _ = _
    rw [List.filter_cons_of_neg (by decide +kernel), List.filter_cons_of_pos (by decide +kernel)]
    rfl
  have hstrangerBlock : strangerBlock.candidates ffs2Guid ffs2Guid = [] := by
    rw [strangerBlock, Block.candidates, if_neg hstranger]
  have hsampleBlock : sampleBlock.candidates ffs2Guid ffs2Guid = [sampleFile] := by
    rw [sampleBlock, Block.candidates, if_pos hname, hfiles]
  rw [FlashImage.candidates, sampleImage]
  simp only [List.flatMap_cons, List.flatMap_nil, hstrangerBlock, hsampleBlock]
  rfl

theorem extractFfsFile_sampleImage :
    ∃ fuel, (sampleImage.call .bits32 ffs2Guid ffs2Guid).extractFfsFile fuel =
      some [1, 2, 3, 4] := by
  have hshort : ∀ g ∈ sampleImage.candidates ffs2Guid ffs2Guid, ¬g.ShortGuidSection := by
    rw [sampleImage_candidates]
    intro g hg hguid
    obtain rfl := List.mem_singleton.mp hg
    exact absurd hguid.2.1 (by decide)
  have hpayload : sampleImage.expected ffs2Guid ffs2Guid = [1, 2, 3, 4] := by
    rw [FlashImage.expected, sampleImage_candidates]
    decide +kernel
  obtain ⟨fuel, hfuel⟩ := extractFfsFile_expected sampleImage .bits32 ffs2Guid ffs2Guid hshort
  exact ⟨fuel, hfuel.trans (congrArg some hpayload)⟩

end UefiFv
