/-
The file `finalize` publishes, and whether it publishes it as a whole.

* `entryPoint_sum` — the bytes of the entry point sum to 0 modulo 256;
* `finalize_cases` — everything a call can do to `smbios2`;
* `finalize_atomic_iff` — the failures under which the file is replaced by
  nothing less than the new one.
-/
import Canopy.SmbiosWriter

namespace Chif

open Bytes

/-! ### The entry point -/

@[simp] theorem MdrHeader.bytes_length (mdr : MdrHeader) : mdr.bytes.length = 10 := by
  simp [bytes]

@[simp] theorem Smbios3EntryPoint.tail_length (ep : Smbios3EntryPoint) : ep.tail.length = 18 := by
  simp [tail]

@[simp] theorem Smbios3EntryPoint.bytes_length (ep : Smbios3EntryPoint) :
    ep.bytes.length = entryPointSize := by
  simp [bytes, entryPointSize]

/-- A part of the bytes that the checksum is not in. -/
theorem foldl_skip_none {off : ℕ} : ∀ (bs : Bytes) (k : ℕ) (acc : UInt8),
    (off < k ∨ k + bs.length ≤ off) →
      (bs.zipIdx k).foldl (fun sum b => if b.2 = off then sum else sum + b.1) acc = acc + bs.sum
  | [], _, acc, _ => by simp
  | b :: bs, k, acc, h => by
    rw [List.length_cons] at h
    have hout : off < k + 1 ∨ k + 1 + bs.length ≤ off := by omega
    have ih := foldl_skip_none bs (k + 1) (acc + b) hout
    rw [List.zipIdx_cons, List.foldl_cons, if_neg (show ¬k = off by omega), ih, List.sum_cons,
      add_assoc]

/-- Everything is summed but the checksum itself. -/
theorem computeChecksum_eq (ep : Smbios3EntryPoint) :
    computeChecksum ep = -(ep.anchorString.toList.sum + ep.tail.sum) := by
  have hoff : ep.anchorString.toList.length = checksumOffset := by simp [checksumOffset]
  rw [computeChecksum, Smbios3EntryPoint.bytes, List.zipIdx_append, List.foldl_append,
    foldl_skip_none _ 0 0 (by omega), List.zipIdx_cons, List.foldl_cons, if_pos (by omega),
    foldl_skip_none _ _ _ (by omega), zero_add]

private theorem toNat_sum (bs : Bytes) : bs.sum.toNat = (bs.map UInt8.toNat).sum % 256 := by
  induction bs with
  | nil => rfl
  | cons b bs ih =>
    rw [List.sum_cons, List.map_cons, List.sum_cons, UInt8.toNat_add, ih, Nat.add_mod_mod]

/-- **The checksum closes the sum**: all 24 bytes add up to 0 modulo 256. -/
theorem entryPoint_sum (size : ℕ) : ((entryPoint size).bytes.map UInt8.toNat).sum % 256 = 0 := by
  rw [← toNat_sum]
  have hsum : (entryPoint size).bytes.sum = 0 := by
    have hchecksum : (entryPoint size).checksum
        = -((entryPoint size).anchorString.toList.sum + (entryPoint size).tail.sum) :=
      computeChecksum_eq _
    rw [Smbios3EntryPoint.bytes, List.sum_append, List.sum_cons, hchecksum]
    grind
  rw [hsum]
  rfl

/-! ### The new file -/

/-- The complete file a call is to publish. -/
def SmbiosWriter.newFile (io : FinalizeIo) (w : SmbiosWriter) : Bytes :=
  (mdrHeader (w.directoryVersion + 1) io.epoch w.records.length).bytes ++
    ((entryPoint w.records.length).bytes ++ w.records)

/-- The stream of a call just before it is closed. -/
def SmbiosWriter.stream (io : FinalizeIo) (w : SmbiosWriter) : OutputStream :=
  writeSmbios io (mdrHeader (w.directoryVersion + 1) io.epoch w.records.length)
    (entryPoint w.records.length) w.records

theorem stream_good_iff (io : FinalizeIo) (w : SmbiosWriter) :
    (w.stream io).good = true ↔ io.mdr.ok = true ∧ io.ep.ok = true ∧ io.records.ok = true := by
  rw [SmbiosWriter.stream, writeSmbios, OutputStream.write_good_iff, OutputStream.write_good_iff,
    OutputStream.write_good_iff, OutputStream.opened, and_assoc, and_assoc]
  exact and_iff_right rfl

/-- While no write has failed, file and buffer together are the new file. -/
theorem stream_content {io : FinalizeIo} {w : SmbiosWriter} (h : (w.stream io).good = true) :
    (w.stream io).content = w.newFile io := by
  rw [SmbiosWriter.stream, writeSmbios] at h ⊢
  have hep := ((OutputStream.write_good_iff _ _ _).mp h).1
  have hmdr := ((OutputStream.write_good_iff _ _ _).mp hep).1
  rw [OutputStream.content_write h, OutputStream.content_write hep, OutputStream.content_write hmdr,
    SmbiosWriter.newFile, List.append_assoc]
  rfl

/-- Every operation before the stream is closed succeeds, and so does the rename. -/
def SmbiosWriter.Reaches (io : FinalizeIo) (w : SmbiosWriter) : Prop :=
  w.records ≠ [] ∧ io.dirOk = true ∧ io.openOk = true ∧ io.mdr.ok = true ∧ io.ep.ok = true ∧
    io.records.ok = true ∧ io.renameOk = true

/-- **All a call can do**: report failure and leave `smbios2` alone, or report
success and replace it by whatever the closed stream left. -/
theorem finalize_cases (io : FinalizeIo) (w : SmbiosWriter) :
    (w.Reaches io ∧ w.finalize io = (true, { w with
      directoryVersion := w.directoryVersion + 1
      temp := none
      smbios2 := some ((w.stream io).close io.closed) })) ∨
    (¬w.Reaches io ∧ (w.finalize io).1 = false ∧ (w.finalize io).2.smbios2 = w.smbios2 ∧
      (w.finalize io).2.records = w.records) := by
  have hgood := stream_good_iff io w
  rw [SmbiosWriter.finalize, SmbiosWriter.Reaches]
  split
  · next hempty => exact Or.inr ⟨fun h => h.1 hempty, rfl, rfl, rfl⟩
  · next hrecords =>
    split
    · next hdir => exact Or.inr ⟨fun h => by simp [hdir] at h, rfl, rfl, rfl⟩
    · next hdir =>
      dsimp only
      split
      · next hopen => exact Or.inr ⟨fun h => by simp [hopen] at h, rfl, rfl, rfl⟩
      · next hopen =>
        split
        · next hbad =>
          -- one of the three writes has failed
          refine Or.inr ⟨fun h => ?_, rfl, rfl, rfl⟩
          have hok := hgood.mpr ⟨h.2.2.2.1, h.2.2.2.2.1, h.2.2.2.2.2.1⟩
          exact absurd hok (by rw [SmbiosWriter.stream, hbad]; exact Bool.false_ne_true)
        · next hok =>
          obtain ⟨hmdr, hep, hrec⟩ := hgood.mp (Bool.eq_true_of_not_eq_false hok)
          split
          · next hrename =>
            exact Or.inl ⟨⟨hrecords, Bool.eq_true_of_not_eq_false hdir,
              Bool.eq_true_of_not_eq_false hopen, hmdr, hep, hrec, hrename⟩, rfl⟩
          · next hrename => exact Or.inr ⟨fun h => hrename h.2.2.2.2.2.2, rfl, rfl, rfl⟩

/-! ### All or nothing -/

/-- `smbios2` has its previous content or the complete new one, and success is
reported only with the new one. -/
def SmbiosWriter.Atomic (io : FinalizeIo) (w : SmbiosWriter) : Prop :=
  ((w.finalize io).2.smbios2 = w.smbios2 ∨ (w.finalize io).2.smbios2 = some (w.newFile io)) ∧
    ((w.finalize io).1 = true → (w.finalize io).2.smbios2 = some (w.newFile io))

instance (io : FinalizeIo) (w : SmbiosWriter) : Decidable (w.Atomic io) := by
  unfold SmbiosWriter.Atomic
  infer_instance

/-- The flush that closes the stream leaves bytes in the buffer. -/
def SmbiosWriter.CloseFails (io : FinalizeIo) (w : SmbiosWriter) : Prop :=
  io.closed < (w.stream io).buffer.length

/-- **Publication is all-or-nothing** unless everything succeeds but the flush
that closes the stream. -/
theorem finalize_atomic_iff (io : FinalizeIo) (w : SmbiosWriter) :
    w.Atomic io ↔ ¬(w.Reaches io ∧ w.CloseFails io) := by
  rcases finalize_cases io w with ⟨hreach, heq⟩ | ⟨hfail, hret, hfile, -⟩
  · have hok : (w.stream io).good = true := by
      obtain ⟨-, -, -, hmdr, hep, hrec, -⟩ := hreach
      exact (stream_good_iff io w).mpr ⟨hmdr, hep, hrec⟩
    have hcontent := stream_content hok
    have hclose := OutputStream.close_eq_iff io.closed (w.stream io)
    rw [hcontent, ← Nat.not_lt] at hclose
    rw [SmbiosWriter.Atomic, heq, SmbiosWriter.CloseFails]
    constructor
    · rintro ⟨-, hnew⟩ ⟨-, hlost⟩
      exact hclose.mp (Option.some_inj.mp (hnew rfl)) hlost
    · intro h
      have hsame := hclose.mpr fun hlost => h ⟨hreach, hlost⟩
      exact ⟨Or.inr (congrArg some hsame), fun _ => congrArg some hsame⟩
  · refine iff_of_true ⟨Or.inl hfile, ?_⟩ fun h => hfail h.1
    rw [hret]
    exact fun h => absurd h Bool.false_ne_true

/-- Every operation succeeds but the flush that closes the stream. -/
def diskFullAtClose : FinalizeIo := .flushing 0

/-- The old file is replaced by an empty one, and success is reported. -/
theorem not_atomic_diskFullAtClose :
    ¬(SmbiosWriter.mk [1, 4, 1, 0, 0, 0] 0 none (some [0x2a])).Atomic diskFullAtClose := by
  decide +kernel

end Chif
