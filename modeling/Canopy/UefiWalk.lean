/-
What one round of the loops of `extractFfsFile` can do.

* `stepVolume_cases`, `stepFile_cases` — where a round goes on from;
* `stepFile_eq_some` — the round that finds the file;
* `wf_of_reaches` — offsets are `size_t` values, volumes lie on 64 KiB
  boundaries, and a walked volume is one the image has.
-/
import Canopy.UefiFv

open Bytes WhileLoop

namespace UefiFv

namespace SizeWidth

variable (sz : SizeWidth)

/-! ### Steps in units of 64 KiB -/

private theorem dvd_wrap {x : ℕ} (h : 0x10000 ∣ x) : 0x10000 ∣ sz.wrap x := by
  have hd : 0x10000 ∣ sz.modulus := Nat.dvd_trans ⟨0x10000, by norm_num⟩ sz.dvd_modulus
  exact (Nat.dvd_mod_iff hd).mpr h

private theorem dvd_roundUp64K (fvLength : ℕ) : 0x10000 ∣ sz.roundUp64K fvLength := by
  simp only [roundUp64K]
  generalize sz.wrap fvLength = len
  have hround : 0x10000 ∣ if len % 0x10000 = 0 then len
      else sz.wrap (len - len % 0x10000 + 0x10000) := by
    split
    · next h => exact Nat.dvd_of_mod_eq_zero h
    · exact sz.dvd_wrap (Nat.dvd_add (Nat.dvd_sub_mod len) (Nat.dvd_refl _))
  generalize (if len % 0x10000 = 0 then len
    else sz.wrap (len - len % 0x10000 + 0x10000)) = rounded at hround ⊢
  split
  · exact Nat.dvd_refl _
  · exact hround

private theorem roundUp64K_pos (fvLength : ℕ) : 0 < sz.roundUp64K fvLength := by
  rw [roundUp64K]
  generalize (let fvLen := sz.wrap fvLength
    if fvLen % 0x10000 = 0 then fvLen else sz.wrap (fvLen - fvLen % 0x10000 + 0x10000)) = rounded
  show 0 < if rounded = 0 then 0x10000 else rounded
  split
  · omega
  · next h => exact Nat.pos_of_ne_zero h

/-- Rounding up to a multiple of 8 without the wrap. -/
theorem align8_of_lt {x : ℕ} (h : (x + 7) / 8 * 8 < sz.modulus) :
    sz.align8 x = (x + 7) / 8 * 8 := by
  rw [align8]
  split
  · omega
  · have hround : x - x % 8 + 8 = (x + 7) / 8 * 8 := by omega
    rw [hround, wrap_of_lt h]

end SizeWidth

namespace ExtractCall

variable {c : ExtractCall}

theorem readAt_eq_some {good : Bool} {off n : ℕ} {bs : Bytes}
    (h : c.readAt good off n = some bs) :
    good = true ∧ off + n ≤ c.rom.length ∧ bs = field c.rom off n := by
  rw [readAt] at h
  split at h
  · next hok => exact ⟨hok.1, hok.2.2, (Option.some.inj h).symm⟩
  · cases h

theorem readAt_of_le {off n : ℕ} (hoff : off < 2 ^ 63) (h : off + n ≤ c.rom.length) :
    c.readAt true off n = some (field c.rom off n) := by
  rw [readAt, if_pos ⟨rfl, hoff, h⟩]

/-- A volume whose headers are the ones in the image, of the type and with the
name looked for. -/
structure Genuine (c : ExtractCall) (v : Volume) : Prop where
  header : c.readAt true v.fvOffset fvHeaderSize = some (field c.rom v.fvOffset fvHeaderSize)
  hdr_eq : v.hdr = .ofBytes (field c.rom v.fvOffset fvHeaderSize)
  signature : v.hdr.signature = efiFvhSignature
  fileSystem : v.hdr.fileSystemGuid = ffs2Guid
  extHeader : c.readAt true (c.sz.wrap (v.fvOffset + v.hdr.extHeaderOffset)) extHeaderSize =
    some (field c.rom (c.sz.wrap (v.fvOffset + v.hdr.extHeaderOffset)) extHeaderSize)
  extHdr_eq : v.extHdr =
    .ofBytes (field c.rom (c.sz.wrap (v.fvOffset + v.hdr.extHeaderOffset)) extHeaderSize)
  name : v.extHdr.fvName = c.fvGuid

/-- The image has one volume at an offset. -/
theorem Genuine.unique {v v' : Volume} (h : Genuine c v) (h' : Genuine c v')
    (hoff : v.fvOffset = v'.fvOffset) : v = v' := by
  obtain ⟨off, hdr, ext⟩ := v
  obtain ⟨off', hdr', ext'⟩ := v'
  obtain rfl : off = off' := hoff
  obtain rfl : hdr = hdr' := h.hdr_eq.trans h'.hdr_eq.symm
  obtain rfl : ext = ext' := h.extHdr_eq.trans h'.extHdr_eq.symm
  rfl

/-! ### The outer loop -/

/-- How far the outer loop steps from an offset, by the header there. -/
def volumeStep (c : ExtractCall) (fvOffset : ℕ) : ℕ :=
  let hdr := EfiFvHeader.ofBytes (field c.rom fvOffset fvHeaderSize)
  if hdr.signature ≠ efiFvhSignature then 0x10000 else c.sz.roundUp64K hdr.fvLength

private theorem dvd_volumeStep (o : ℕ) : 0x10000 ∣ c.volumeStep o := by
  simp only [volumeStep]
  split
  · exact Nat.dvd_refl _
  · exact c.sz.dvd_roundUp64K _

theorem volumeStep_pos (o : ℕ) : 0 < c.volumeStep o := by
  simp only [volumeStep]
  split
  · omega
  · exact c.sz.roundUp64K_pos _

/-- Where a round of the outer loop goes on from. -/
theorem stepVolume_cases {good : Bool} {o : ℕ} {t : ScanState}
    (h : c.stepVolume good o = .inl t) :
    good = true ∧
      ((∃ good', t = .volume good' (c.sz.wrap (o + c.volumeStep o))) ∨
        ∃ v, Genuine c v ∧ v.fvOffset = o ∧ t = .file v (c.firstFile v)) := by
  rw [stepVolume] at h
  split at h
  · split at h
    · cases h
    next bs hread =>
    obtain ⟨rfl, hfits, rfl⟩ := readAt_eq_some hread
    refine ⟨rfl, ?_⟩
    simp only at h
    split at h
    · next hsig =>
      have hlen : c.volumeStep o = 0x10000 := if_pos hsig
      rw [hlen]
      exact Or.inl ⟨true, (Sum.inl.inj h).symm⟩
    next hsig =>
    -- a header is read and the volume stepped over as a whole
    have hlen : c.volumeStep o = c.sz.roundUp64K
        (EfiFvHeader.ofBytes (field c.rom o fvHeaderSize)).fvLength := if_neg hsig
    rw [hlen]
    rw [Sum.inl.injEq, scanVolume] at h
    simp only at h
    split at h
    · exact Or.inl ⟨true, h.symm⟩
    next hfs =>
    split at h
    · exact Or.inl ⟨true, h.symm⟩
    split at h
    · exact Or.inl ⟨false, h.symm⟩
    next ext hext =>
    split at h
    · exact Or.inl ⟨true, h.symm⟩
    next hname =>
    obtain ⟨-, -, rfl⟩ := readAt_eq_some hext
    exact Or.inr ⟨_, ⟨hread, rfl, not_not.mp hsig, not_not.mp hfs, hext, rfl, not_not.mp hname⟩,
      rfl, h.symm⟩
  · cases h

/-- The outer loop finds no file. -/
theorem stepVolume_ne_some {good : Bool} {o : ℕ} {e : Extraction} :
    c.stepVolume good o ≠ .inr (some e) := by
  intro h
  rw [stepVolume] at h
  split at h
  · split at h
    · cases h
    · simp only at h
      split at h <;> cases h
  · cases h

/-! ### The inner loop -/

/-- The header a round of the inner loop finds at `fileOffset`. -/
def fileHdr (c : ExtractCall) (fileOffset : ℕ) : EfiFfsFileHeader :=
  .ofBytes (field c.rom fileOffset fileHeaderSize)

/-- Where a round of the inner loop goes on from. -/
theorem stepFile_cases {v : Volume} {f : ℕ} {t : ScanState} (h : c.stepFile v f = .inl t) :
    (∃ good', t = .volume good' (c.nextVolume v.fvOffset v.hdr.fvLength)) ∨
      (fileHeaderSize ≤ (c.fileHdr (c.sz.align8 f)).size ∧
        t = .file v (c.sz.wrap (c.sz.align8 f + (c.fileHdr (c.sz.align8 f)).size))) := by
  rw [stepFile] at h
  simp only at h
  split at h
  · split at h
    · exact Or.inl ⟨false, (Sum.inl.inj h).symm⟩
    next bs hread =>
    obtain ⟨-, -, rfl⟩ := readAt_eq_some hread
    rw [scanFile] at h
    split at h
    · exact Or.inl ⟨true, (Sum.inl.inj h).symm⟩
    split at h
    · exact Or.inl ⟨true, (Sum.inl.inj h).symm⟩
    next hsize =>
    split at h
    · rw [extractFile] at h
      split at h
      · cases h
      · exact Or.inl ⟨true, (Sum.inl.inj h).symm⟩
      · split at h <;> cases h
    · exact Or.inr ⟨not_lt.mp hsize, (Sum.inl.inj h).symm⟩
  · exact Or.inl ⟨true, (Sum.inl.inj h).symm⟩

/-- What a section header can take away from the data. -/
theorem sectionOutcome_strip {hdr : EfiFfsFileHeader} {off size n : ℕ}
    (h : c.sectionOutcome hdr off size = .strip n) : n ≤ guidSecHdrSize ∧ n ≤ size := by
  rw [sectionOutcome] at h
  split at h
  · next hfree =>
    split at h
    · cases h
    split at h
    · obtain rfl := SectionOutcome.strip.inj h
      exact ⟨by decide, hfree.2.le⟩
    split at h
    · split at h
      · cases h
      next hlong =>
      obtain rfl := SectionOutcome.strip.inj h
      exact ⟨le_rfl, (not_le.mp hlong).le⟩
    · obtain rfl := SectionOutcome.strip.inj h
      exact ⟨Nat.zero_le _, Nat.zero_le _⟩
  · obtain rfl := SectionOutcome.strip.inj h
    exact ⟨Nat.zero_le _, Nat.zero_le _⟩

/-- What is known of a file that was found in the round at `f`. -/
structure FoundAt (c : ExtractCall) (v : Volume) (f : ℕ) (e : Extraction) : Prop where
  volume : e.volume = v
  fileOffset : e.fileOffset = c.sz.align8 f
  hdr : e.hdr = c.fileHdr e.fileOffset
  header_fits : e.fileOffset + fileHeaderSize ≤ c.rom.length
  header_le : fileHeaderSize ≤ e.hdr.size
  name : e.hdr.name = c.fileGuid
  not_large : ¬e.hdr.isLarge
  stripped_le : e.stripped ≤ guidSecHdrSize ∧ e.stripped ≤ e.hdr.size - fileHeaderSize
  data_fits : c.dataOffset e.fileOffset e.stripped +
    (e.hdr.size - fileHeaderSize - e.stripped) ≤ c.rom.length

/-- The round that finds the file. -/
theorem stepFile_eq_some {v : Volume} {f : ℕ} {e : Extraction}
    (h : c.stepFile v f = .inr (some e)) : FoundAt c v f e := by
  rw [stepFile] at h
  simp only at h
  split at h
  · split at h
    · cases h
    next bs hread =>
    obtain ⟨-, hfits, rfl⟩ := readAt_eq_some hread
    rw [scanFile] at h
    split at h
    · cases h
    split at h
    · cases h
    next hsize =>
    split at h
    · next hmatch =>
      rw [extractFile] at h
      split at h
      · cases h
      · cases h
      next n hstrip =>
      split at h
      · cases h
      next bs hdata =>
      obtain rfl := Option.some.inj (Sum.inr.inj h)
      -- every check before the copy has passed
      obtain ⟨-, hend, -⟩ := readAt_eq_some hdata
      exact ⟨rfl, rfl, rfl, hfits, not_lt.mp hsize, hmatch.1, hmatch.2, sectionOutcome_strip hstrip,
        hend⟩
    · cases h
  · cases h

/-! ### Reachable loop heads -/

/-- Offsets are `size_t` values, and volumes lie on 64 KiB boundaries. -/
def Wf (c : ExtractCall) : ScanState → Prop
  | .volume _ o => o < c.sz.modulus ∧ 0x10000 ∣ o
  | .file v f => Genuine c v ∧ v.fvOffset < c.sz.modulus ∧ 0x10000 ∣ v.fvOffset ∧ f < c.sz.modulus

private theorem wf_next {o len : ℕ} (ho : 0x10000 ∣ o) (hlen : 0x10000 ∣ len) (good : Bool) :
    Wf c (.volume good (c.sz.wrap (o + len))) :=
  ⟨c.sz.wrap_lt _, c.sz.dvd_wrap (Nat.dvd_add ho hlen)⟩

/-- A step keeps the heads well-formed. -/
theorem wf_step : ∀ (s t : ScanState), Wf c s → c.step s = .inl t → Wf c t
  | .volume good o, t, hs, h => by
    obtain ⟨-, ⟨good', rfl⟩ | ⟨v, hv, rfl, rfl⟩⟩ := stepVolume_cases h
    · exact wf_next hs.2 (dvd_volumeStep o) good'
    · exact ⟨hv, hs.1, hs.2, c.sz.wrap_lt _⟩
  | .file v f, t, hs, h => by
    obtain ⟨hv, hlt, hdvd, -⟩ := hs
    rcases stepFile_cases h with ⟨good', rfl⟩ | ⟨-, rfl⟩
    · exact wf_next hdvd (c.sz.dvd_roundUp64K _) good'
    · exact ⟨hv, hlt, hdvd, c.sz.wrap_lt _⟩

/-- **Every loop head that is reached is well-formed.** -/
theorem wf_of_reaches {t : ScanState} (h : Reaches c.step start t) : Wf c t :=
  reaches_invariant wf_step h ⟨c.sz.modulus_pos, dvd_zero _⟩

end ExtractCall

end UefiFv
