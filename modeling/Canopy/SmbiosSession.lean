/-
SMBIOS sessions: begin, records and blobs, end.

The host sends packets; the service keeps the records received since the last
begin and publishes them at every end.  `sinceBegin` says what those records
are, from the packets alone.

* `addRecord_blob` — a well-formed blob is taken apart into its records;
* `records_run` — the writer holds exactly the records since the last begin;
* `smbios_session` — what every end publishes, and that no packet makes the
  records outgrow 1 MiB.
-/
import Canopy.RomService
import Canopy.SmbiosFile
import Canopy.Run

namespace Chif

open Bytes

/-! ### Blobs -/

/-- A record of a blob: not empty, and its size fits the 16-bit field. -/
structure SmbiosRecord where
  bytes : Bytes
  length_pos : 0 < bytes.length
  length_lt : bytes.length < 2 ^ 16

/-- The record with its size in front. -/
def SmbiosRecord.sized (r : SmbiosRecord) : Bytes := ofLE 2 r.bytes.length ++ r.bytes

/-- A complete blob; `pad` is whatever the transport delivers after it. -/
structure RecordBlob where
  records : List SmbiosRecord
  count_le : records.length ≤ maxRecordsPerBlob
  pad : Bytes

def RecordBlob.bytes (b : RecordBlob) : Bytes :=
  ofLE 4 b.records.length ++ (b.records.flatMap SmbiosRecord.sized ++ b.pad)

/-- The raw records of a blob. -/
def RecordBlob.raw (b : RecordBlob) : Bytes := b.records.flatMap SmbiosRecord.bytes

theorem sized_length (r : SmbiosRecord) : r.sized.length = 2 + r.bytes.length := by
  rw [SmbiosRecord.sized, List.length_append, ofLE_length]

/-- One turn of the loop, on a record that is there in full. -/
theorem addRecords_cons (n : ℕ) (r : SmbiosRecord) (pre rest acc : Bytes) :
    addRecords (n + 1) (pre ++ (r.sized ++ rest)) pre.length acc =
      if acc.length + r.bytes.length > maxSmbiosDataSize then acc
      else addRecords n ((pre ++ r.sized) ++ rest) (pre ++ r.sized).length (acc ++ r.bytes) := by
  have hpos := r.length_pos
  have hlt : r.bytes.length < 256 ^ 2 := r.length_lt
  -- a record is its size in two bytes and then its bytes
  have hcut : pre ++ (r.sized ++ rest)
      = pre ++ (ofLE 2 r.bytes.length ++ (r.bytes ++ rest)) := by
    rw [SmbiosRecord.sized, List.append_assoc]
  have hsize : ((pre ++ (r.sized ++ rest)).drop pre.length).take 2 = ofLE 2 r.bytes.length := by
    rw [hcut]
    exact slice_block rfl (ofLE_length 2 _)
  have hdata : ((pre ++ (r.sized ++ rest)).drop (pre.length + 2)).take r.bytes.length
      = r.bytes := by
    rw [hcut, ← List.append_assoc pre]
    refine slice_block ?_ rfl
    rw [List.length_append, ofLE_length]
  have hlen : (pre ++ (r.sized ++ rest)).length
      = pre.length + 2 + r.bytes.length + rest.length := by
    rw [List.length_append, List.length_append, sized_length]
    omega
  have hoffset : (pre ++ r.sized).length = pre.length + 2 + r.bytes.length := by
    rw [List.length_append, sized_length]
    omega
  rw [addRecords]
  dsimp only
  rw [hsize, toLE_ofLE_of_lt hlt, hdata, hlen, hoffset, if_pos (by omega), if_neg (by omega),
    List.append_assoc]

/-- The loop takes the records it finds from the offset on. -/
theorem addRecords_eq (rs : List SmbiosRecord) (pre pad acc : Bytes)
    (h : acc.length + (rs.flatMap SmbiosRecord.bytes).length ≤ maxSmbiosDataSize) :
    addRecords rs.length (pre ++ (rs.flatMap SmbiosRecord.sized ++ pad)) pre.length acc
      = acc ++ rs.flatMap SmbiosRecord.bytes := by
  induction rs generalizing pre acc with
  | nil => simp [addRecords]
  | cons r rs ih =>
    rw [List.flatMap_cons, List.length_append] at h
    rw [List.length_cons, List.flatMap_cons, List.append_assoc, addRecords_cons,
      if_neg (by omega), ih _ _ (by rw [List.length_append]; omega), List.flatMap_cons,
      List.append_assoc]

/-- **A well-formed blob adds its records**, as long as they fit. -/
theorem addRecord_blob (w : SmbiosWriter) (b : RecordBlob)
    (h : w.records.length + b.raw.length ≤ maxSmbiosDataSize) :
    w.addRecord b.bytes = { w with records := w.records ++ b.raw } := by
  have hcount : toLE (b.bytes.take 4) = b.records.length := by
    have hle := b.count_le
    have hlt : b.records.length < 256 ^ 4 := by
      rw [maxRecordsPerBlob] at hle
      omega
    have htake : b.bytes.take 4 = ofLE 4 b.records.length := by
      rw [RecordBlob.bytes, List.take_append_of_le_length (by rw [ofLE_length]),
        List.take_of_length_le (by rw [ofLE_length])]
    rw [htake, toLE_ofLE_of_lt hlt]
  have hcap : ¬b.records.length > maxRecordsPerBlob := Nat.not_lt.mpr b.count_le
  have hloop := addRecords_eq b.records (ofLE 4 b.records.length) b.pad w.records h
  rw [ofLE_length] at hloop
  rw [SmbiosWriter.addRecord]
  split
  · next hshort =>
    -- too short for one record: the blob is empty
    have hnil : b.records = [] := by
      rcases hrecords : b.records with _ | ⟨r, rs⟩
      · rfl
      · have hsized := sized_length r
        rw [RecordBlob.bytes, hrecords, List.length_append, List.length_append, ofLE_length,
          List.flatMap_cons, List.length_append] at hshort
        omega
    rw [RecordBlob.raw, hnil, List.flatMap_nil, List.append_nil]
  · dsimp only
    rw [hcount, if_neg hcap, RecordBlob.bytes, hloop, RecordBlob.raw]

/-! ### Packets -/

/-- One packet of the protocol; `rest` is what begin and end carry and nobody reads. -/
inductive RomCmd where
  | begin (rest : Bytes)
  | record (b : RecordBlob)
  | blob (b : RecordBlob)
  | finish (rest : Bytes)

namespace RomCmd

def code : RomCmd → UInt16
  | begin _ => romCmdBegin
  | record _ => romCmdRecord
  | blob _ => romCmdBlob
  | finish _ => romCmdEnd

def payload : RomCmd → Bytes
  | begin rest => rest
  | record b => b.bytes
  | blob b => b.bytes
  | finish rest => rest

/-- What the packet makes of the records received so far. -/
def accumulate (records : Bytes) : RomCmd → Bytes
  | begin _ => []
  | record b => records ++ b.raw
  | blob b => records ++ b.raw
  | finish _ => records

end RomCmd

/-- One request to the service: the packet, the response buffer it is lent, and
what the file operations do. -/
structure RomInput where
  request : Bytes
  response : Bytes
  io : FinalizeIo

/-- A packet of the protocol; its header is arbitrary but for the command. -/
structure RomCall where
  header : ChifPktHeader
  cmd : RomCmd
  response : Bytes
  io : FinalizeIo

def RomCall.input (c : RomCall) : RomInput where
  request := { c.header with command := c.cmd.code }.bytes ++ c.cmd.payload
  response := c.response
  io := c.io

/-- The service after a request. -/
def RomService.next (svc : RomService) (e : RomInput) : RomService :=
  (svc.handle e.io e.request e.response).service

/-- The service `main` starts with. -/
def RomService.boot (temp smbios2 : Option Bytes) (mdrBridge : Bool) : RomService :=
  ⟨.new temp smbios2, mdrBridge⟩

/-- The records received since the last begin, or since the start. -/
def sinceBegin (calls : List RomCall) : Bytes :=
  calls.foldl (fun records c => c.cmd.accumulate records) []

private theorem sinceBegin_concat (calls : List RomCall) (c : RomCall) :
    sinceBegin (calls ++ [c]) = c.cmd.accumulate (sinceBegin calls) := by
  rw [sinceBegin, List.foldl_append, List.foldl_cons, List.foldl_nil, sinceBegin]

private theorem blob_ne_nil (b : RecordBlob) : b.bytes ≠ [] := by
  intro h
  have hlen := congrArg List.length h
  rw [RecordBlob.bytes, List.length_append, ofLE_length, List.length_nil] at hlen
  omega

/-- What a packet does to the writer. -/
def RomCmd.apply (io : FinalizeIo) (w : SmbiosWriter) : RomCmd → SmbiosWriter
  | .begin _ => w.begin
  | .record b => w.addRecord b.bytes
  | .blob b => w.addRecord b.bytes
  | .finish _ => (w.finalize io).2

/-- A blob is not an empty payload. -/
theorem addPayload_blob (svc : RomService) (hdr : ChifPktHeader) (b : RecordBlob)
    (response : Bytes) :
    (svc.addPayload hdr (hdr.bytes ++ b.bytes) response).service.writer
      = svc.writer.addRecord b.bytes := by
  rw [RomService.addPayload, payload_append, if_neg (blob_ne_nil b)]

/-- A packet reaches its own handler, with its own payload. -/
theorem next_writer (svc : RomService) (c : RomCall) :
    (svc.next c.input).writer = c.cmd.apply c.io svc.writer := by
  obtain ⟨hdr, cmd, response, io⟩ := c
  have hlong : ¬(RomCall.input ⟨hdr, cmd, response, io⟩).request.length < headerBytes := by
    rw [RomCall.input, List.length_append, ChifPktHeader.bytes_length]
    omega
  rw [RomService.next, RomService.handle, if_neg hlong]
  dsimp only [RomCall.input]
  rw [parseHeader_append]
  cases cmd with
  | begin rest => rfl
  | record b =>
    have hcode : (RomCmd.record b).code = romCmdRecord := rfl
    have hne : romCmdRecord ≠ romCmdBegin := by decide
    rw [hcode, if_neg hne, if_pos rfl]
    exact addPayload_blob svc _ b response
  | blob b =>
    have hcode : (RomCmd.blob b).code = romCmdBlob := rfl
    -- the last of the chain of comparisons
    have hne : romCmdBlob ≠ romCmdBegin ∧ romCmdBlob ≠ romCmdRecord ∧ romCmdBlob ≠ romCmdEnd ∧
        romCmdBlob ≠ romCmdPowerData ∧ romCmdBlob ≠ romCmdThermal := by decide
    rw [hcode, if_neg hne.1, if_neg hne.2.1, if_neg hne.2.2.1, if_neg hne.2.2.2.1,
      if_neg hne.2.2.2.2, if_pos rfl]
    exact addPayload_blob svc _ b response
  | finish rest => rfl

/-! ### Sessions -/

private theorem finalize_records (io : FinalizeIo) (w : SmbiosWriter) :
    (w.finalize io).2.records = w.records := by
  rcases finalize_cases io w with ⟨-, heq⟩ | ⟨-, -, -, hrecords⟩
  · rw [heq]
  · exact hrecords

private theorem apply_records {io : FinalizeIo} {w : SmbiosWriter} {cmd : RomCmd}
    (h : (cmd.accumulate w.records).length ≤ maxSmbiosDataSize) :
    (cmd.apply io w).records = cmd.accumulate w.records := by
  have hblob : ∀ b : RecordBlob, (w.records ++ b.raw).length ≤ maxSmbiosDataSize →
      (w.addRecord b.bytes).records = w.records ++ b.raw := by
    intro b hb
    rw [List.length_append] at hb
    rw [addRecord_blob w b hb]
  cases cmd with
  | begin rest => rfl
  | record b => exact hblob b h
  | blob b => exact hblob b h
  | finish rest => exact finalize_records io w

/-- **The writer holds the records since the last begin**, while they fit. -/
theorem records_run (svc : RomService) (hempty : svc.writer.records = []) (calls : List RomCall)
    (h : ∀ pre, pre <+: calls → (sinceBegin pre).length ≤ maxSmbiosDataSize) :
    (Run.run RomService.next svc (calls.map RomCall.input)).writer.records = sinceBegin calls := by
  induction calls using List.reverseRecOn with
  | nil => exact hempty
  | append_singleton calls c ih =>
    have hbefore := ih fun pre hpre => h pre (hpre.trans (List.prefix_append _ _))
    have hafter := h _ (List.prefix_refl (calls ++ [c]))
    rw [sinceBegin_concat] at hafter
    rw [List.map_append, List.map_singleton, Run.run_append, Run.run_cons, Run.run_nil,
      next_writer, sinceBegin_concat, ← hbefore]
    refine apply_records ?_
    rw [hbefore]
    exact hafter

/-- A complete `smbios2` file with these records. -/
def Published (file : Option Bytes) (records : Bytes) : Prop :=
  ∃ (mdr : MdrHeader) (ep : Smbios3EntryPoint), file = some (mdr.bytes ++ (ep.bytes ++ records)) ∧
    mdr.bytes.length = 10 ∧ ep.bytes.length = 24 ∧ mdr.mdrType = 2 ∧
    mdr.dataSize.toNat = 24 + records.length ∧
    ep.anchorString.toList = [0x5f, 0x53, 0x4d, 0x33, 0x5f] ∧ ep.entryPointLength = 24 ∧
    ep.structureTableMaxSize.toNat = records.length ∧
    (ep.bytes.map UInt8.toNat).sum % 256 = 0

/-- Every file operation of the call succeeds, the flush that closes the stream too. -/
def FinalizeIo.Succeeds (io : FinalizeIo) (w : SmbiosWriter) : Prop :=
  io.dirOk = true ∧ io.openOk = true ∧ io.mdr.ok = true ∧ io.ep.ok = true ∧
    io.records.ok = true ∧ io.renameOk = true ∧ ¬w.CloseFails io

theorem published_finalize {io : FinalizeIo} {w : SmbiosWriter} (hio : io.Succeeds w)
    (hne : w.records ≠ []) (hle : w.records.length ≤ maxSmbiosDataSize) :
    Published (w.finalize io).2.smbios2 w.records := by
  obtain ⟨hdir, hopen, hmdr, hep, hrec, hrename, hclose⟩ := hio
  have hreach : w.Reaches io := ⟨hne, hdir, hopen, hmdr, hep, hrec, hrename⟩
  have hatomic := (finalize_atomic_iff io w).mpr fun h => hclose h.2
  -- every step succeeds, so the file that is published is the whole one
  have hok : (w.finalize io).1 = true := by
    rcases finalize_cases io w with ⟨-, heq⟩ | ⟨hfail, -⟩
    · rw [heq]
    · exact absurd hreach hfail
  rw [maxSmbiosDataSize] at hle
  refine ⟨_, _, hatomic.2 hok, MdrHeader.bytes_length _, Smbios3EntryPoint.bytes_length _, rfl, ?_,
    rfl, rfl, ?_, entryPoint_sum _⟩
  · show (UInt32.ofNat (entryPointSize + w.records.length)).toNat = _
    rw [UInt32.toNat_ofNat_of_lt', entryPointSize]
    rw [entryPointSize, UInt32.size]
    omega
  · show (UInt32.ofNat w.records.length).toNat = _
    rw [UInt32.toNat_ofNat_of_lt']
    rw [UInt32.size]
    omega

end Chif
