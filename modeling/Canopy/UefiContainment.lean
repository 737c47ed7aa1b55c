/-
Where the data returned by `extractFfsFile` lies.

The file walk checks that a header begins inside the volume, but not how far
the file reaches.

* `Takes.step_eq`, `exists_takes` — the bytes of the image that make a round return a file;
* `staysInVolume_iff` — the data lies in the volume iff the size field in the header of
  every file that is taken ends inside the volume;
* `not_forall_staysInVolume` — a file longer than the volume it is in.
-/
import Canopy.UefiWalk

open Bytes WhileLoop

namespace UefiFv

namespace SizeWidth

private theorem align8_lt (sz : SizeWidth) {x : ℕ} (h : x < sz.modulus) :
    sz.align8 x < sz.modulus := by
  rw [align8]
  split
  · exact h
  · exact sz.wrap_lt _

end SizeWidth

namespace ExtractCall

variable {c : ExtractCall}

/-- The header and the data of a file lie inside its volume, whose name is the
one looked for, and inside the image. -/
structure Contained (c : ExtractCall) (e : Extraction) : Prop where
  genuine : Genuine c e.volume
  header_ge : e.volume.fvOffset ≤ e.fileOffset
  header_le : e.fileOffset + fileHeaderSize ≤ e.volume.fvOffset + e.volume.hdr.fvLength
  header_rom : e.fileOffset + fileHeaderSize ≤ c.rom.length
  data_ge : e.volume.fvOffset ≤ c.dataOffset e.fileOffset e.stripped
  data_le : c.dataOffset e.fileOffset e.stripped + (c.data e).length ≤
    e.volume.fvOffset + e.volume.hdr.fvLength
  data_rom : c.dataOffset e.fileOffset e.stripped + (c.data e).length ≤ c.rom.length

/-- Whatever is returned, if not empty, is contained in its volume. -/
def StaysInVolume (c : ExtractCall) : Prop :=
  ∀ e, Returns c.step start (some e) → c.data e ≠ [] → c.Contained e

/-- The bytes of the image at `f` are those of a file that a round of the inner loop takes,
with data behind a section header of `n` bytes. -/
structure Takes (c : ExtractCall) (v : Volume) (f n : ℕ) : Prop where
  before_end : c.sz.wrap (f + fileHeaderSize) < c.fvEnd v
  header_reads : (c.readAt true (c.sz.align8 f) fileHeaderSize).isSome
  name_ne : (c.fileHdr (c.sz.align8 f)).name ≠ allFf
  name : (c.fileHdr (c.sz.align8 f)).name = c.fileGuid
  not_large : ¬(c.fileHdr (c.sz.align8 f)).isLarge
  size_ge : fileHeaderSize ≤ (c.fileHdr (c.sz.align8 f)).size
  section_header : c.sectionOutcome (c.fileHdr (c.sz.align8 f))
    (c.dataOffset (c.sz.align8 f) 0) ((c.fileHdr (c.sz.align8 f)).size - fileHeaderSize) = .strip n
  data_reads : (c.readAt true (c.dataOffset (c.sz.align8 f) n)
    ((c.fileHdr (c.sz.align8 f)).size - fileHeaderSize - n)).isSome
  not_empty : n < (c.fileHdr (c.sz.align8 f)).size - fileHeaderSize

/-- The file header at `o` begins in the volume, and its size field ends there.  The first
branch is about sums that wrap, at the upper end of the address space only. -/
def SizeFits (c : ExtractCall) (v : Volume) (o n : ℕ) : Prop :=
  v.fvOffset ≤ o ∧
    if c.sz.modulus ≤ o + fileHeaderSize + n then
      v.fvOffset = 0 ∧ o + fileHeaderSize ≤ v.hdr.fvLength
    else o + (c.fileHdr o).size ≤ v.fvOffset + v.hdr.fvLength

/-- Every file that the walk comes to and takes fits. -/
def FilesFit (c : ExtractCall) : Prop :=
  ∀ v f n, Reaches c.step start (.file v f) → c.Takes v f n →
    c.SizeFits v (c.sz.align8 f) n

/-- What is returned of the file at `f`. -/
def extraction (c : ExtractCall) (v : Volume) (f n : ℕ) : Extraction :=
  ⟨v, c.sz.align8 f, c.fileHdr (c.sz.align8 f), n⟩

private theorem fileHdr_size_lt (c : ExtractCall) (f : ℕ) : (c.fileHdr f).size < 2 ^ 24 :=
  uintAt_lt _ 20 3

/-! ### The file that is taken -/

/-- The round at a file that is taken returns it. -/
theorem Takes.step_eq {v : Volume} {f n : ℕ} (h : c.Takes v f n) :
    c.step (.file v f) = .inr (some (c.extraction v f n)) := by
  obtain ⟨bs, hbs⟩ := Option.isSome_iff_exists.mp h.header_reads
  obtain ⟨-, -, rfl⟩ := readAt_eq_some hbs
  obtain ⟨bs, hdata⟩ := Option.isSome_iff_exists.mp h.data_reads
  show c.stepFile v f = _
  rw [stepFile]
  simp only
  rw [if_pos h.before_end, hbs]
  show c.scanFile v (c.sz.align8 f) (c.fileHdr (c.sz.align8 f)) = _
  rw [scanFile, if_neg h.name_ne, if_neg (not_lt.mpr h.size_ge),
    if_pos ⟨h.name, h.not_large⟩, extractFile]
  simp only [h.section_header, hdata]
  rfl

/-- Data that is returned is from a file that is taken. -/
theorem exists_takes {v : Volume} {f : ℕ} {e : Extraction}
    (h : c.step (.file v f) = .inr (some e)) (hdata : c.data e ≠ []) :
    ∃ n, c.Takes v f n ∧ e = c.extraction v f n := by
  have hstep : c.stepFile v f = .inr (some e) := h
  rw [stepFile] at hstep
  simp only at hstep
  split at hstep
  · next hend =>
    split at hstep
    · cases hstep
    next bs hread =>
    obtain ⟨-, -, rfl⟩ := readAt_eq_some hread
    rw [scanFile] at hstep
    split at hstep
    · cases hstep
    next hff =>
    split at hstep
    · cases hstep
    next hsize =>
    split at hstep
    · next hmatch =>
      rw [extractFile] at hstep
      split at hstep
      · cases hstep
      · cases hstep
      next n hstrip =>
      split at hstep
      · cases hstep
      next bs hbytes =>
      obtain rfl := Option.some.inj (Sum.inr.inj hstep)
      -- the file is taken; that there is data is all that is left
      refine ⟨n, ⟨hend, Option.isSome_of_eq_some hread, hff, hmatch.1, hmatch.2,
        not_lt.mp hsize, hstrip, Option.isSome_of_eq_some hbytes, ?_⟩, rfl⟩
      have hlength := List.length_pos_iff.mpr hdata
      rw [data, field_length (readAt_eq_some hbytes).2.1] at hlength
      exact Nat.lt_of_sub_pos hlength
    · cases hstep
  · cases hstep

/-- The data of a file that is taken: as many bytes as its size field says. -/
theorem Takes.data_length {v : Volume} {f n : ℕ} (h : c.Takes v f n) :
    (c.data (c.extraction v f n)).length =
      (c.fileHdr (c.sz.align8 f)).size - fileHeaderSize - n := by
  obtain ⟨bs, hdata⟩ := Option.isSome_iff_exists.mp h.data_reads
  exact field_length (readAt_eq_some hdata).2.1

/-- What being contained comes to for a file that is taken. -/
theorem Takes.contained_iff_le {v : Volume} {f n : ℕ} (hwf : Wf c (.file v f))
    (h : c.Takes v f n) : c.Contained (c.extraction v f n) ↔
      v.fvOffset ≤ c.sz.align8 f ∧
      c.sz.align8 f + fileHeaderSize ≤ v.fvOffset + v.hdr.fvLength ∧
      v.fvOffset ≤ c.dataOffset (c.sz.align8 f) n ∧
      c.dataOffset (c.sz.align8 f) n + (c.data (c.extraction v f n)).length ≤
        v.fvOffset + v.hdr.fvLength := by
  have hfound : FoundAt c v f (c.extraction v f n) := stepFile_eq_some h.step_eq
  constructor
  · intro hin
    exact ⟨hin.header_ge, hin.header_le, hin.data_ge, hin.data_le⟩
  · rintro ⟨hge, hle, hdata_ge, hdata_le⟩
    refine ⟨hwf.1, hge, hle, hfound.header_fits, hdata_ge, hdata_le, ?_⟩
    rw [h.data_length]
    exact hfound.data_fits

/-- A file that is taken is contained in its volume iff its size field says so. -/
theorem Takes.contained_iff {v : Volume} {f n : ℕ} (hwf : Wf c (.file v f)) (h : c.Takes v f n) :
    c.Contained (c.extraction v f n) ↔ c.SizeFits v (c.sz.align8 f) n := by
  have hfound : FoundAt c v f (c.extraction v f n) := stepFile_eq_some h.step_eq
  rw [h.contained_iff_le hwf, h.data_length, SizeFits, dataOffset, SizeWidth.wrap_wrap_add]
  obtain ⟨-, hoff, hdvd, hf⟩ := hwf
  have hmod := c.sz.le_modulus
  have hheader : fileHeaderSize = 24 := rfl
  have hguid : guidSecHdrSize = 20 := rfl
  have hstart : c.sz.align8 f < c.sz.modulus := c.sz.align8_lt hf
  have hsize := fileHdr_size_lt c (c.sz.align8 f)
  have hstrip : n ≤ guidSecHdrSize := hfound.stripped_le.1
  have hle := h.size_ge
  have hpos := h.not_empty
  by_cases hwrap : c.sz.modulus ≤ c.sz.align8 f + fileHeaderSize + n
  · -- the data begins anew at the bottom of the image
    have hlow : c.sz.wrap (c.sz.align8 f + fileHeaderSize + n) =
        c.sz.align8 f + fileHeaderSize + n - c.sz.modulus := by
      rw [SizeWidth.wrap, Nat.mod_eq_sub_mod hwrap, Nat.mod_eq_of_lt (by omega)]
    rw [if_pos hwrap, hlow]
    constructor
    · rintro ⟨hge, hhdr, hdata, -⟩
      -- the header is above the data, so only a volume at 0 holds both
      have hzero : v.fvOffset = 0 := by
        obtain ⟨k, hk⟩ := hdvd
        omega
      exact ⟨hge, hzero, by omega⟩
    · rintro ⟨hge, hzero, hhdr⟩
      exact ⟨hge, by omega, by omega, by omega⟩
  · rw [if_neg hwrap, c.sz.wrap_of_lt (not_le.mp hwrap)]
    constructor
    · rintro ⟨hge, -, -, hdata⟩
      exact ⟨hge, by omega⟩
    · rintro ⟨hge, hend⟩
      exact ⟨hge, by omega, by omega, by omega⟩

/-- **What is returned lies in its volume iff the size field of every file that is taken
ends inside the volume.** -/
theorem staysInVolume_iff (c : ExtractCall) : c.StaysInVolume ↔ c.FilesFit := by
  constructor
  · intro h v f n hreach htakes
    have hreturns : Returns c.step start (some (c.extraction v f n)) :=
      (returns_iff_of_reaches hreach).mpr ((returns_iff_of_done htakes.step_eq).mpr rfl)
    have hdata : c.data (c.extraction v f n) ≠ [] := by
      rw [← List.length_pos_iff, htakes.data_length]
      exact Nat.sub_pos_of_lt htakes.not_empty
    exact (htakes.contained_iff (wf_of_reaches hreach)).mp (h _ hreturns hdata)
  · intro h e hreturns hdata
    obtain ⟨t, hreach, hdone⟩ := exists_reaches_of_returns hreturns
    match t with
    | .volume good o => exact absurd hdone stepVolume_ne_some
    | .file v f =>
      obtain ⟨n, htakes, rfl⟩ := exists_takes hdone hdata
      exact (htakes.contained_iff (wf_of_reaches hreach)).mpr (h v f n hreach htakes)

/-! ### A file that reaches out of its volume -/

/-- A volume of 128 bytes with a file of 124 bytes at offset 80. -/
def overrunCall : ExtractCall where
  sz := .bits32
  rom := List.replicate 16 0 ++ ffs2Guid.raw ++ ofLE 8 128 ++ ofLE 4 efiFvhSignature ++
    ofLE 8 0 ++ ofLE 2 56 ++ [0, 0] ++ allFf.raw ++ ofLE 4 24 ++ ofLE 4 0 ++
    ffs2Guid.raw ++ [0, 0, 1, 0] ++ ofLE 3 124 ++ [0] ++ List.replicate 152 0
  romSize := 256
  romSize_lt := by decide
  fvGuid := allFf
  fileGuid := ffs2Guid

/-- The file that is found. -/
def overrunFile : Extraction where
  volume := ⟨0, ⟨ffs2Guid, 128, efiFvhSignature, 56⟩, ⟨allFf, 24⟩⟩
  fileOffset := 80
  hdr := ⟨ffs2Guid, 1, 0, 124⟩
  stripped := 0

private theorem overrunCall_returns :
    WhileLoop.iterate overrunCall.step 2 start = some (some overrunFile) := by
  decide +kernel

theorem not_forall_staysInVolume : ¬∀ c : ExtractCall, c.StaysInVolume := by
  intro h
  have hdata : (overrunCall.data overrunFile).length = 100 := by decide +kernel
  have hin := h overrunCall overrunFile ⟨2, overrunCall_returns⟩
    (List.ne_nil_of_length_pos (by omega))
  have hle := hin.data_le
  rw [hdata] at hle
  exact absurd hle (by decide)

end ExtractCall

end UefiFv
