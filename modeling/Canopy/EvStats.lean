/-
What EvStats reports.

* `handleEvStats_eq` — the answer in closed form;
* `evStats_truth` — in every store the service can reach, the reported space is
  exactly what `set()` will grant.
-/
import Canopy.Framing
import Canopy.SmifRoundTrip

namespace Chif

open Bytes

/-- The 20-byte packet of `handleEvStats`. -/
def evStatsPacket (hdr : ChifPktHeader) (remSz presentEvs : ℕ) : Bytes :=
  (responseHeader hdr 20).bytes ++
    (ofLE 4 0 ++ (ofLE 4 remSz ++ (ofLE 2 presentEvs ++ ofLE 2 (maxEvFileSize / 1024))))

/-- The field `rem_sz` of an EvStats answer. -/
def remSz (packet : Bytes) : ℕ := toLE ((packet.drop (headerBytes + 4)).take 4)

/-- The field `present_evs` of an EvStats answer. -/
def presentEvs (packet : Bytes) : ℕ := toLE ((packet.drop (headerBytes + 8)).take 2)

theorem remSz_evStatsPacket (hdr : ChifPktHeader) {n : ℕ} (hn : n < 2 ^ 32) (k : ℕ) :
    remSz (evStatsPacket hdr n k) = n := by
  have hoff : ((responseHeader hdr 20).bytes ++ ofLE 4 0).length = headerBytes + 4 := by
    rw [List.length_append, ChifPktHeader.bytes_length, ofLE_length]
  rw [remSz, evStatsPacket, ← List.append_assoc, slice_block hoff (ofLE_length 4 n),
    toLE_ofLE_of_lt hn]

private theorem presentEvs_evStatsPacket (hdr : ChifPktHeader) (n : ℕ) {k : ℕ} (hk : k < 2 ^ 16) :
    presentEvs (evStatsPacket hdr n k) = k := by
  have hoff : (((responseHeader hdr 20).bytes ++ ofLE 4 0) ++ ofLE 4 n).length
      = headerBytes + 8 := by
    rw [List.length_append, List.length_append, ChifPktHeader.bytes_length, ofLE_length,
      ofLE_length]
  rw [presentEvs, evStatsPacket, ← List.append_assoc, ← List.append_assoc,
    slice_block hoff (ofLE_length 2 k), toLE_ofLE_of_lt hk]

/-- The answer, field by field. -/
theorem handleEvStats_eq (st : EvStorage) (hdr : ChifPktHeader) {response : Bytes}
    (h : 20 ≤ response.length) :
    handleEvStats (some st) hdr response
      = (20, evStatsPacket hdr st.remainingSize (UInt16.ofNat st.count).toNat ++
          response.drop 20) := by
  have hsize : (UInt16.ofNat (headerBytes + 12)).toNat = headerBytes + 12 := rfl
  have hshort : ¬response.length < (UInt16.ofNat (headerBytes + 12)).toNat := Nat.not_lt.mpr h
  have hH := ChifPktHeader.bytes_length (responseHeader hdr (UInt16.ofNat (headerBytes + 12)))
  -- the twelve zeros, cut into the four fields
  have hzeros : List.replicate 12 (0 : UInt8) = ofLE 4 0 ++ (List.replicate 4 0 ++
      (List.replicate 2 0 ++ List.replicate 2 0)) := by decide
  unfold handleEvStats
  simp only [if_neg hshort]
  rw [initResponse_fillZero hdr (m := 12) hsize, hzeros]
  simp only [List.append_assoc]
  have hrem : (ofLE 4 0 ++ ofLE 4 st.remainingSize).length = 8 := by
    rw [List.length_append, ofLE_length, ofLE_length]
  have hcnt : ((ofLE 4 0 ++ ofLE 4 st.remainingSize) ++
      ofLE 2 (UInt16.ofNat st.count).toNat).length = 10 := by
    rw [List.length_append, hrem, ofLE_length]
  rw [writePayload_block hH (ofLE_length 4 0) (by rw [ofLE_length, List.length_replicate]),
    ← List.append_assoc (ofLE 4 0),
    writePayload_block hH hrem (by rw [ofLE_length, List.length_replicate]),
    ← List.append_assoc (ofLE 4 0 ++ _),
    writePayload_block hH hcnt (by rw [ofLE_length, List.length_replicate]), evStatsPacket]
  simp only [List.append_assoc]
  rfl

theorem SmifService.ask_stats {svc : SmifService} {st : EvStorage} (hst : svc.evStorage = some st)
    (t : Envelope smifCmdEvStats) (h : 20 ≤ t.response.length) (p : Bytes) :
    svc.ask t p = ⟨(20, evStatsPacket t.hdr st.remainingSize (UInt16.ofNat st.count).toNat ++
      t.response.drop 20), svc, none⟩ := by
  have hlen : ¬(t.hdr.bytes ++ p).length < headerBytes := by
    rw [List.length_append, t.hdr.bytes_length]
    omega
  have hroom : ¬t.response.length < headerBytes + 4 := Nat.not_lt.mpr t.room
  rw [ask, handle, if_neg hlen, if_neg hroom]
  simp only [parseHeader_append, t.command_eq, hst, handleEvStats_eq st t.hdr h]
  rfl

/-! ### The report and the store -/

/-- The space left is never cut off at zero. -/
theorem remainingSize_add {st : EvStorage} (h : Bounded st.entries) :
    st.remainingSize + serializedSize st.entries = maxEvFileSize := by
  have hsize := h.size_le
  simp only [EvStorage.remainingSize]
  split <;> omega

/-- The casts to 32 and to 16 bits lose nothing. -/
theorem count_toNat {st : EvStorage} (h : Bounded st.entries) :
    (UInt16.ofNat st.count).toNat = st.entries.length := by
  have hlen := h.length_lt
  have hcount : st.count = st.entries.length := Nat.mod_eq_of_lt (by omega)
  rw [hcount]
  exact UInt16.toNat_ofNat_of_lt' (by rw [UInt16.size]; omega)

/-- A new name is turned down exactly when it does not fit the space left. -/
theorem noRoom_iff_of_absent {st : EvStorage} (h : Bounded st.entries) {name : Bytes}
    (habsent : st.getByName name = none) (data : Bytes) :
    noRoom st.entries name data ↔ st.remainingSize < data.length + 34 := by
  have hfind : OrderedMap.find EvEntry.name name st.entries = none := habsent
  have hsum := remainingSize_add h
  have hover : entryOverhead = 34 := rfl
  unfold noRoom
  simp only [hfind]
  omega

/-- **EvStats tells the truth.**  In every service reached by `load()` of any file
and any requests, the reported space and the serialized size add up to the file
limit, the reported count is the number of entries, and a set of a name that is
not there succeeds exactly when the data and its 34 bytes of overhead fit the
reported space. -/
theorem evStats_truth (opened : Bool) (file : Option Bytes) (segmentToBus : UInt8 → Option ℤ)
    (calls : List SmifCall) (t : Envelope smifCmdEvStats) (h : 20 ≤ t.response.length)
    (p : Bytes) :
    ∃ st, (SmifService.after opened file segmentToBus calls).evStorage = some st ∧
      remSz (sent ((SmifService.after opened file segmentToBus calls).ask t p).answer) +
          serializedSize st.entries = 65536 ∧
      presentEvs (sent ((SmifService.after opened file segmentToBus calls).ask t p).answer)
        = st.entries.length ∧
      ∀ (t' : Envelope smifCmdSetDeleteEv) (r : SetRequest), r.field.bytes.getD 0 0 ≠ 0 →
        st.getByName r.field.key = none →
        (errorCode (((SmifService.after opened file segmentToBus calls).ask t p).service.ask
            t' r.bytes).answer = some (ev .success) ↔
          r.data.length + 34 ≤
            remSz (sent ((SmifService.after opened file segmentToBus calls).ask t p).answer)) := by
  obtain ⟨st, hst, hbounded⟩ := SmifService.holds_after (P := Bounded)
    (fun _ _ hs _ hacc => hs.update hacc) (bounded_loadFile opened file) segmentToBus calls
  set svc := SmifService.after opened file segmentToBus calls with hsvc
  have hsum := remainingSize_add hbounded
  have hlen := hbounded.length_lt
  -- the whole packet is sent, and it is the one with these two numbers
  have hsent : sent (svc.ask t p).answer
      = evStatsPacket t.hdr st.remainingSize st.entries.length := by
    have hsize : (evStatsPacket t.hdr st.remainingSize st.entries.length).length = 20 := by
      rw [evStatsPacket, List.length_append, ChifPktHeader.bytes_length, List.length_append,
        List.length_append, List.length_append, ofLE_length, ofLE_length, ofLE_length, ofLE_length]
      rfl
    rw [SmifService.ask_stats hst t h p, count_toNat hbounded]
    exact List.take_left' hsize
  have hrem : remSz (sent (svc.ask t p).answer) = st.remainingSize := by
    rw [hsent]
    exact remSz_evStatsPacket t.hdr (by rw [maxEvFileSize] at hsum; omega) _
  refine ⟨st, hst, ?_, ?_, ?_⟩
  · rw [hrem]
    exact hsum
  · rw [hsent]
    exact presentEvs_evStatsPacket t.hdr _ (by omega)
  · intro t' r hfirst habsent
    have hset := r.set_ok_iff st (NameField.key_ne_nil hfirst)
    rw [hrem, SmifService.ask_stats hst t h p, answer_set hst t' r, hset,
      noRoom_iff_of_absent hbounded habsent, not_lt]

/-- The report on a store with an entry from its file and one that was set. -/
theorem evStats_truth_stored :
    let t : Envelope smifCmdEvStats :=
      ⟨⟨8, 1, smifCmdEvStats, 0, 1⟩, List.replicate 64 0, .openFails, rfl, by simp⟩
    ∃ st, storedService.evStorage = some st ∧ st.entries = [⟨[67], [9]⟩, ⟨[65], [0]⟩] ∧
      remSz (sent (storedService.ask t []).answer) + serializedSize st.entries = 65536 ∧
      presentEvs (sent (storedService.ask t []).answer) = st.entries.length ∧
      ∀ (t' : Envelope smifCmdSetDeleteEv) (r : SetRequest), r.field.bytes.getD 0 0 ≠ 0 →
        st.getByName r.field.key = none →
        (errorCode ((storedService.ask t []).service.ask t' r.bytes).answer = some (ev .success) ↔
          r.data.length + 34 ≤ remSz (sent (storedService.ask t []).answer)) := by
  intro t
  obtain ⟨st, hst, hsum, hcount, hset⟩ := evStats_truth true (some (serialize [⟨[67], [9]⟩]))
    (fun _ => none) [setPacket setA.toSetRequest] t (by decide) []
  refine ⟨st, hst, ?_, hsum, hcount, hset⟩
  have hentries := storedService_entries
  rw [storedService, hst] at hentries
  exact Option.some.inj hentries

end Chif
