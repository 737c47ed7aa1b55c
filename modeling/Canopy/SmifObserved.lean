/-
What the host can tell about the SMIF service.

The service remembers the entries of its store and the bus of each segment; the
file on flash is not looked at once it is loaded.  Whatever it is asked, two
services that remember the same answer the same, and any difference in what they
remember shows in some sequence of requests: an entry with an empty value and
one with four zero bytes are read back alike, but leave different space behind
when they are deleted.

* `handle_congr` — one request;
* `entries_eq_of_indistinct` — the requests that read the entries off;
* `indistinct_iff_sameMemory` — what the host can tell is what the service
  remembers.
-/
import Canopy.EvStats
import Canopy.I2cProxy
import Canopy.Observation
import Canopy.SmifRoundTrip

namespace Chif

open Bytes Observation

/-- A request with its response buffer, and what the outside does meanwhile. -/
structure HostCall where
  env : SmifEnv
  request : Bytes
  response : Bytes

namespace SmifService

def serve (svc : SmifService) (c : HostCall) : SmifService :=
  (svc.handle c.env c.request c.response).service

/-- What a request shows: the return value, the packet sent, the transfer made. -/
def shows (svc : SmifService) (c : HostCall) : List (ℤ × Bytes × Option I2cTransfer) :=
  let r := svc.handle c.env c.request c.response
  [(r.answer.1, sent r.answer, r.i2c)]

/-- The entries in memory, if there is a store. -/
def memory (svc : SmifService) : Option (List EvEntry) := svc.evStorage.map EvStorage.entries

end SmifService

/-- The two services remember the same. -/
structure SameMemory (s t : SmifService) : Prop where
  memory : s.memory = t.memory
  segmentToBus : s.segmentToBus = t.segmentToBus

/-! ### The same memory gives the same answers -/

/-- Two stores with the same entries, whatever their files hold. -/
def SameEntries (st st' : EvStorage) : Prop := st.entries = st'.entries

private theorem mutate_congr {st st' : EvStorage} (h : SameEntries st st') (io : SaveIo)
    (op : EvOp) :
    (st.mutate io op).1 = (st'.mutate io op).1 ∧
      SameEntries (st.mutate io op).2 (st'.mutate io op).2 := by
  constructor
  · rw [Bool.eq_iff_iff, EvStorage.mutate_fst, EvStorage.mutate_fst, h]
  · rw [SameEntries, EvStorage.mutate_entries, EvStorage.mutate_entries, h]

/-- Two conditionals with one condition are related if their branches are. -/
theorem ite_rel {α β : Type*} {R : α → β → Prop} {c : Prop} [Decidable c] {a a' : α} {b b' : β}
    (hpos : c → R a b) (hneg : ¬c → R a' b') : R (if c then a else a') (if c then b else b') := by
  split
  · next h => exact hpos h
  · next h => exact hneg h

/-- The same error code, and the same entries. -/
def SameOutcome (r r' : EvError × EvStorage) : Prop := r.1 = r'.1 ∧ SameEntries r.2 r'.2

private theorem setDeleteEv_congr {st st' : EvStorage} (h : SameEntries st st') (io : SaveIo)
    (reqPayload : Bytes) :
    SameOutcome (setDeleteEv io st reqPayload) (setDeleteEv io st' reqPayload) := by
  have same (e : EvError) : SameOutcome (e, st) (e, st') := ⟨rfl, h⟩
  -- one mutator call, reported with `e` or `e'`
  have called (op : EvOp) (e e' : EvError) :
      SameOutcome (if (st.mutate io op).1 then e else e', (st.mutate io op).2)
        (if (st'.mutate io op).1 then e else e', (st'.mutate io op).2) := by
    obtain ⟨hok, hentries⟩ := mutate_congr h io op
    exact ⟨by rw [hok], hentries⟩
  rw [setDeleteEv, setDeleteEv]
  dsimp only
  refine ite_rel (fun _ => called .deleteAll _ _) fun _ => ?_
  refine ite_rel (fun _ => ?_) fun _ => ?_
  · refine ite_rel (fun _ => same _) fun _ => ?_
    exact ite_rel (fun _ => same _) fun _ => called (.del _) _ _
  refine ite_rel (fun _ => ?_) fun _ => same _
  refine ite_rel (fun _ => same _) fun _ => ?_
  refine ite_rel (fun _ => same _) fun _ => ?_
  refine ite_rel (fun _ => ⟨rfl, (mutate_congr h io (.del _)).2⟩) fun _ => ?_
  exact ite_rel (fun _ => same _) fun _ => called (.set _ _) _ _

/-- The same answer and the same transfer, and the same memory afterwards. -/
structure SameResult (r r' : SmifResult) : Prop where
  answer : r.answer = r'.answer
  i2c : r.i2c = r'.i2c
  service : SameMemory r.service r'.service

/-- The handler of a request that changes the store. -/
theorem handleSetDeleteEv_congr {st st' : EvStorage} (h : SameEntries st st') (io : SaveIo)
    (hdr : ChifPktHeader) (reqPayload response : Bytes) :
    (handleSetDeleteEv io (some st) hdr reqPayload response).1 =
        (handleSetDeleteEv io (some st') hdr reqPayload response).1 ∧
      (handleSetDeleteEv io (some st) hdr reqPayload response).2.map EvStorage.entries =
        (handleSetDeleteEv io (some st') hdr reqPayload response).2.map EvStorage.entries := by
  rw [handleSetDeleteEv, handleSetDeleteEv]
  split
  · exact ⟨rfl, congrArg some h⟩
  · obtain ⟨hcode, hentries⟩ := setDeleteEv_congr h io reqPayload
    dsimp only
    rw [hcode]
    exact ⟨rfl, congrArg some hentries⟩

/-- The other handlers see the entries only. -/
theorem handlers_congr {st st' : EvStorage} (h : SameEntries st st') (hdr : ChifPktHeader)
    (reqPayload response : Bytes) :
    handleGetEvByIndex (some st) hdr reqPayload response =
        handleGetEvByIndex (some st') hdr reqPayload response ∧
      handleGetEvByName (some st) hdr reqPayload response =
        handleGetEvByName (some st') hdr reqPayload response ∧
      handleEvStats (some st) hdr response = handleEvStats (some st') hdr response := by
  obtain ⟨file, entries⟩ := st
  obtain ⟨file', entries'⟩ := st'
  obtain rfl : entries = entries' := h
  exact ⟨rfl, rfl, rfl⟩

/-- **One request.** -/
theorem handle_congr {s t : SmifService} (h : SameMemory s t) (env : SmifEnv)
    (request response : Bytes) :
    SameResult (s.handle env request response) (t.handle env request response) := by
  have same (answer : ℤ × Bytes) (i2c : Option I2cTransfer) :
      SameResult ⟨answer, s, i2c⟩ ⟨answer, t, i2c⟩ := ⟨rfl, rfl, h⟩
  obtain ⟨store, segmentToBus⟩ := s
  obtain ⟨store', segmentToBus'⟩ := t
  obtain ⟨hmemory, rfl⟩ : store.map EvStorage.entries = store'.map EvStorage.entries ∧
    segmentToBus = segmentToBus' := ⟨h.memory, h.segmentToBus⟩
  have hread (hdr : ChifPktHeader) (p : Bytes) :
      handleGetEvByIndex store hdr p response = handleGetEvByIndex store' hdr p response ∧
        handleGetEvByName store hdr p response = handleGetEvByName store' hdr p response ∧
        handleEvStats store hdr response = handleEvStats store' hdr response := by
    cases store with
    | none =>
      obtain rfl := Option.map_eq_none_iff.mp hmemory.symm
      exact ⟨rfl, rfl, rfl⟩
    | some st =>
      obtain ⟨st', rfl, hentries⟩ := Option.map_eq_some_iff.mp hmemory.symm
      exact handlers_congr hentries.symm hdr p response
  have hwrite (hdr : ChifPktHeader) (p : Bytes) :
      SameResult
        ⟨(handleSetDeleteEv env.saveIo store hdr p response).1,
          ⟨(handleSetDeleteEv env.saveIo store hdr p response).2, segmentToBus⟩, none⟩
        ⟨(handleSetDeleteEv env.saveIo store' hdr p response).1,
          ⟨(handleSetDeleteEv env.saveIo store' hdr p response).2, segmentToBus⟩, none⟩ := by
    cases store with
    | none =>
      obtain rfl := Option.map_eq_none_iff.mp hmemory.symm
      exact ⟨rfl, rfl, ⟨rfl, rfl⟩⟩
    | some st =>
      obtain ⟨st', rfl, hentries⟩ := Option.map_eq_some_iff.mp hmemory.symm
      obtain ⟨hanswer, hstore⟩ :=
        handleSetDeleteEv_congr (Eq.symm hentries) env.saveIo hdr p response
      exact ⟨hanswer, rfl, ⟨hstore, rfl⟩⟩
  obtain ⟨hindex, hname, hstats⟩ := hread (parseHeader request) (payload request)
  rw [SmifService.handle, SmifService.handle]
  dsimp only
  rw [hindex, hname, hstats]
  refine ite_rel (fun _ => same _ _) fun _ => ?_
  refine ite_rel (fun _ => same _ _) fun _ => ?_
  refine ite_rel (fun _ => same _ _) fun _ => ?_
  refine ite_rel (fun _ => hwrite _ _) fun _ => ?_
  refine ite_rel (fun _ => same _ _) fun _ => ?_
  refine ite_rel (fun _ => same _ _) fun _ => ?_
  refine ite_rel (fun _ => same _ _) fun _ => ?_
  refine ite_rel (fun _ => same _ _) fun _ => ?_
  refine ite_rel (fun _ => same _ _) fun _ => ?_
  exact ite_rel (fun _ => same _ _) fun _ => same _ _

/-- **The host cannot tell services apart that remember the same.** -/
theorem indistinct_of_sameMemory {s t : SmifService} (h : SameMemory s t) :
    Indistinct SmifService.serve SmifService.shows s t := by
  refine indistinct_of_bisim (R := SameMemory) ?_ ?_ h
  · intro s t c h
    have hsame := handle_congr h c.env c.request c.response
    rw [SmifService.shows, SmifService.shows, hsame.answer, hsame.i2c]
  · intro s t c h
    exact (handle_congr h c.env c.request c.response).service

/-! ### What an entry looks like when it is read back -/

/-- The value GetEv answers with. -/
def EvEntry.shown (e : EvEntry) : Bytes := if e.data = [] then List.replicate 4 0 else e.data

theorem EvEntry.shown_ne_nil (e : EvEntry) : e.shown ≠ [] := by
  rw [shown]
  split
  · simp
  · assumption

theorem EvEntry.shown_length_le {e : EvEntry} (h : e.data.length ≤ maxEvDataSize) :
    e.shown.length ≤ maxEvDataSize := by
  rw [shown]
  split
  · decide
  · exact h

/-- What lies behind a copy is not touched by it. -/
theorem drop_memcpyAt {buf src : Bytes} {off n : ℕ} (h : off + src.length ≤ n)
    (hn : n ≤ buf.length) : (memcpyAt buf off src).drop n = buf.drop n := by
  have hlen : (buf.take off ++ src).length = off + src.length := by
    rw [List.length_append, List.length_take, min_eq_left (by omega)]
  rw [memcpyAt, List.drop_append, List.drop_eq_nil_of_le (by omega), hlen, List.nil_append,
    List.drop_drop]
  congr 1
  omega

/-- Copying what is there already changes nothing. -/
theorem memcpyAt_self {buf : Bytes} {off n : ℕ} :
    memcpyAt buf off ((buf.drop off).take n) = buf := by
  rw [memcpyAt, List.append_assoc, List.length_take, List.length_drop]
  conv_rhs => rw [← List.take_append_drop off buf, ← List.take_append_drop n (buf.drop off)]
  rw [List.drop_drop]
  congr 2
  by_cases h : n ≤ buf.length - off
  · rw [min_eq_left h]
  · rw [min_eq_right (by omega), List.drop_eq_nil_of_le (by omega),
      List.drop_eq_nil_of_le (by omega)]

/-- The answer to an entry before its value is copied. -/
def evDataBuffer (hdr : ChifPktHeader) (response name : Bytes) (dataSize : ℕ) : Bytes :=
  let respSize := UInt16.ofNat (headerBytes + (4 + maxEvNameLen + 2 + dataSize))
  let resp := initResponse (fillZero response respSize.toNat) hdr respSize
  let resp := writePayload resp 4 (name.take (min name.length (maxEvNameLen - 1)))
  writePayload resp (4 + maxEvNameLen) (ofLE 2 (UInt16.ofNat dataSize).toNat)

/-- It holds zeros where a value of four bytes goes. -/
theorem evDataBuffer_value (hdr : ChifPktHeader) {response : Bytes} (name : Bytes)
    (hroom : maxPacketSize ≤ response.length) :
    ((evDataBuffer hdr response name 4).drop 46).take 4 = List.replicate 4 0 := by
  rw [maxPacketSize] at hroom
  have hsize : (UInt16.ofNat (headerBytes + (4 + maxEvNameLen + 2 + 4))).toNat = 50 := by decide
  have hname : (name.take (min name.length (maxEvNameLen - 1))).length ≤ 31 :=
    (List.length_take_le _ _).trans (min_le_right _ _)
  rw [evDataBuffer, hsize]
  generalize name.take (min name.length (maxEvNameLen - 1)) = key at hname ⊢
  generalize UInt16.ofNat (headerBytes + (4 + maxEvNameLen + 2 + 4)) = respSize
  -- the header, the name and the length field end at the latest where the value begins
  have hzero : (fillZero response 50).length = response.length := by
    refine memcpyAt_length ?_
    rw [List.length_replicate]
    omega
  have hinit : (initResponse (fillZero response 50) hdr respSize).length = response.length :=
    (memcpyAt_length (by rw [ChifPktHeader.bytes_length, headerBytes]; omega)).trans hzero
  have hkey : (writePayload (initResponse (fillZero response 50) hdr respSize) 4 key).length =
      response.length :=
    (memcpyAt_length (by rw [headerBytes, hinit]; omega)).trans hinit
  rw [writePayload,
    drop_memcpyAt (by rw [ofLE_length, headerBytes, maxEvNameLen]) (by rw [hkey]; omega),
    writePayload, drop_memcpyAt (by rw [headerBytes]; omega) (by rw [hinit]; omega), initResponse,
    drop_memcpyAt (by rw [ChifPktHeader.bytes_length, headerBytes]; omega) (by rw [hzero]; omega),
    fillZero, memcpyAt_zero, List.drop_append_of_le_length (by rw [List.length_replicate]; omega),
    List.drop_replicate, List.take_left' List.length_replicate]

/-- An empty value is answered as four zero bytes. -/
theorem buildEvDataResponse_shown (hdr : ChifPktHeader) {response : Bytes} (e : EvEntry)
    (hroom : maxPacketSize ≤ response.length) :
    buildEvDataResponse hdr response e = buildEvDataResponse hdr response ⟨e.name, e.shown⟩ := by
  obtain ⟨name, data⟩ := e
  by_cases hdata : data = []
  · subst hdata
    have hshown : EvEntry.shown ⟨name, []⟩ = List.replicate 4 0 := rfl
    have hfit : ¬response.length <
        (UInt16.ofNat (headerBytes + (4 + maxEvNameLen + 2 + 4))).toNat :=
      not_lt.mpr (le_trans (by decide) hroom)
    have hempty : buildEvDataResponse hdr response ⟨name, []⟩ =
        (50, evDataBuffer hdr response name 4) := by
      rw [buildEvDataResponse]
      dsimp only
      rw [if_pos rfl, if_neg hfit, if_pos rfl]
      rfl
    have hzeros : buildEvDataResponse hdr response ⟨name, List.replicate 4 0⟩ =
        (50, writePayload (evDataBuffer hdr response name 4) 38 (List.replicate 4 0)) := by
      have hne : ¬List.replicate 4 (0 : UInt8) = [] := by decide
      rw [buildEvDataResponse]
      dsimp only
      rw [if_neg hne, if_neg hne, List.length_replicate, if_neg hfit]
      rfl
    rw [hshown, hempty, hzeros, writePayload, ← evDataBuffer_value hdr name hroom]
    exact congrArg (Prod.mk 50) memcpyAt_self.symm
  · rw [EvEntry.shown, if_neg hdata]

/-- The answer to any entry. -/
theorem buildEvDataResponse_any (hdr : ChifPktHeader) {response : Bytes} {e : EvEntry}
    (hname : e.name.length < maxEvNameLen) (hdata : e.data.length ≤ maxEvDataSize)
    (hroom : maxPacketSize ≤ response.length) :
    buildEvDataResponse hdr response e = (((8 + 38 + e.shown.length : ℕ) : ℤ),
      evDataPacket hdr e.name e.shown ++ response.drop (headerBytes + 38 + e.shown.length)) := by
  have hshown := EvEntry.shown_length_le hdata
  rw [buildEvDataResponse_shown hdr e hroom]
  refine buildEvDataResponse_eq hdr hname e.shown_ne_nil hshown ?_
  rw [maxEvDataSize] at hshown
  rw [maxPacketSize] at hroom
  rw [headerBytes]
  dsimp only
  omega

/-- The packet determines the name and the value shown. -/
theorem evDataPacket_inj {hdr : ChifPktHeader} {name name' data data' : Bytes}
    (hname : name.length < maxEvNameLen) (hname' : name'.length < maxEvNameLen)
    (hnul : (0 : UInt8) ∉ name) (hnul' : (0 : UInt8) ∉ name') (hlen : data.length = data'.length)
    (h : evDataPacket hdr name data = evDataPacket hdr name' data') :
    name = name' ∧ data = data' := by
  rw [evDataPacket, evDataPacket, hlen] at h
  have hbody := List.append_cancel_left (List.append_cancel_left h)
  obtain ⟨hfield, hrest⟩ := List.append_inj hbody
    (by rw [padTo_length hname.le, padTo_length hname'.le])
  refine ⟨?_, List.append_cancel_left hrest⟩
  rw [← cstr_padTo hnul, hfield, cstr_padTo hnul']

/-! ### The requests that tell two memories apart -/

private theorem ask_index (svc : SmifService) (t : Envelope smifCmdGetEvByIndex) (p : Bytes) :
    svc.ask t p = ⟨handleGetEvByIndex svc.evStorage t.hdr p t.response, svc, none⟩ := by
  have hlen : ¬(t.hdr.bytes ++ p).length < headerBytes := by
    rw [List.length_append, t.hdr.bytes_length]
    omega
  have hroom : ¬t.response.length < headerBytes + 4 := Nat.not_lt.mpr t.room
  rw [SmifService.ask, SmifService.handle, if_neg hlen, if_neg hroom]
  simp only [parseHeader_append, payload_append, t.command_eq]
  rfl

private theorem ask_i2c (svc : SmifService) (t : Envelope smifCmdI2cTransaction) (p : Bytes) :
    svc.ask t p = ⟨(handleI2cProxy svc.segmentToBus t.i2c t.hdr p t.response).1, svc,
      (handleI2cProxy svc.segmentToBus t.i2c t.hdr p t.response).2⟩ := by
  have hlen : ¬(t.hdr.bytes ++ p).length < headerBytes := by
    rw [List.length_append, t.hdr.bytes_length]
    omega
  have hroom : ¬t.response.length < headerBytes + 4 := Nat.not_lt.mpr t.room
  rw [SmifService.ask, SmifService.handle, if_neg hlen, if_neg hroom]
  simp only [parseHeader_append, payload_append, t.command_eq]
  rfl

/-- A request in an envelope as a call. -/
def Envelope.call {command : UInt16} (t : Envelope command) (p : Bytes) : HostCall :=
  ⟨⟨.ok, t.i2c⟩, t.hdr.bytes ++ p, t.response⟩

theorem maxPacketSize_le : maxPacketSize ≤ (List.replicate maxPacketSize (0 : UInt8)).length := by
  rw [List.length_replicate]

/-- An envelope with a response buffer of its own. -/
def plainEnvelope (command : UInt16) : Envelope command where
  hdr := ⟨0, 0, command, 0, 0⟩
  response := List.replicate maxPacketSize 0
  i2c := .transferred []
  command_eq := rfl
  room := le_trans (by decide) maxPacketSize_le

section Told

variable {s t : SmifService} {command : UInt16}

/-- Services that are indistinct answer a request alike. -/
theorem answers_eq (h : Indistinct SmifService.serve SmifService.shows s t)
    (v : Envelope command) (p : Bytes) :
    (s.ask v p).answer.1 = (t.ask v p).answer.1 ∧
      sent (s.ask v p).answer = sent (t.ask v p).answer ∧ (s.ask v p).i2c = (t.ask v p).i2c := by
  have hshown := List.singleton_inj.mp (h.emits_eq (v.call p))
  exact ⟨congrArg (·.1) hshown, congrArg (·.2.1) hshown, congrArg (·.2.2) hshown⟩

/-- The space left is answered for by EvStats. -/
theorem serializedSize_eq_of_told (h : Indistinct SmifService.serve SmifService.shows s t)
    {st st' : EvStorage} (hs : s.evStorage = some st) (ht : t.evStorage = some st')
    (hb : Bounded st.entries) (hb' : Bounded st'.entries) :
    serializedSize st.entries = serializedSize st'.entries := by
  let v := plainEnvelope smifCmdEvStats
  have hroom : 20 ≤ v.response.length := le_trans (by decide) maxPacketSize_le
  have hpacket := (answers_eq h v []).2.1
  rw [SmifService.ask_stats hs v hroom, SmifService.ask_stats ht v hroom, sent, sent] at hpacket
  have hlen (n k : ℕ) : (evStatsPacket v.hdr n k).length = 20 := by
    simp [evStatsPacket, headerBytes]
  have htoNat : (20 : ℤ).toNat = 20 := rfl
  rw [htoNat, List.take_left' (hlen _ _), List.take_left' (hlen _ _)] at hpacket
  have hle := remainingSize_add hb
  have hle' := remainingSize_add hb'
  rw [maxEvFileSize] at hle hle'
  have hrem := congrArg remSz hpacket
  rw [remSz_evStatsPacket _ (by omega), remSz_evStatsPacket _ (by omega)] at hrem
  omega

/-- What GetEvByIndex says about the first entry. -/
theorem ask_first {s : SmifService} {st : EvStorage} (hs : s.evStorage = some st)
    (hb : Bounded st.entries) :
    (s.ask (plainEnvelope smifCmdGetEvByIndex) (ofLE 4 0)).answer =
      match st.entries with
      | [] => buildSimpleResponse (plainEnvelope smifCmdGetEvByIndex).hdr
          (List.replicate maxPacketSize 0) (ev .noSuchEv)
      | e :: _ => (((8 + 38 + e.shown.length : ℕ) : ℤ),
          evDataPacket (plainEnvelope smifCmdGetEvByIndex).hdr e.name e.shown ++
            (List.replicate maxPacketSize 0).drop (headerBytes + 38 + e.shown.length)) := by
  have hindex : toLE ((ofLE 4 0).take 4) = 0 := by decide
  have hlen : ¬(ofLE 4 0).length < 4 := by decide
  rw [ask_index, hs, handleGetEvByIndex]
  dsimp only
  rw [if_neg hlen, hindex]
  cases hentries : st.entries with
  | nil =>
    have hget : st.getByIndex 0 = none := by
      rw [EvStorage.getByIndex, hentries]
      rfl
    rw [hget]
    rfl
  | cons e rest =>
    have hget : st.getByIndex 0 = some e := by
      rw [EvStorage.getByIndex, hentries]
      rfl
    have hmem : e ∈ st.entries := hentries ▸ List.mem_cons_self
    rw [hget]
    exact buildEvDataResponse_any _ (hb.name_lt e hmem) (hb.data_le e hmem) maxPacketSize_le

/-- The first entries have the same name and are shown alike. -/
theorem first_of_told (h : Indistinct SmifService.serve SmifService.shows s t)
    {st st' : EvStorage} (hs : s.evStorage = some st) (ht : t.evStorage = some st')
    (hst : Storable st.entries) (hst' : Storable st'.entries) :
    (st.entries = [] ∧ st'.entries = []) ∨ ∃ e es e' es', st.entries = e :: es ∧
      st'.entries = e' :: es' ∧ e.name = e'.name ∧ e.shown = e'.shown := by
  obtain ⟨hret, hpacket, -⟩ := answers_eq h (plainEnvelope smifCmdGetEvByIndex) (ofLE 4 0)
  rw [ask_first hs hst.1, ask_first ht hst'.1] at hret hpacket
  have hsimple (hdr : ChifPktHeader) (e : EvError) : (buildSimpleResponse hdr
      (List.replicate maxPacketSize 0) (ev e)).1 = 12 := by
    rw [buildSimpleResponse_eq hdr _ (le_trans (by decide) maxPacketSize_le)]
  cases hentries : st.entries with
  | nil =>
    cases hentries' : st'.entries with
    | nil => exact Or.inl ⟨rfl, rfl⟩
    | cons e' es' =>
      rw [hentries, hentries'] at hret
      dsimp only at hret
      rw [hsimple] at hret
      omega
  | cons e es =>
    cases hentries' : st'.entries with
    | nil =>
      rw [hentries, hentries'] at hret
      dsimp only at hret
      rw [hsimple] at hret
      omega
    | cons e' es' =>
      have hmem : e ∈ st.entries := hentries ▸ List.mem_cons_self
      have hmem' : e' ∈ st'.entries := hentries' ▸ List.mem_cons_self
      have hname := hst.1.name_lt e hmem
      have hname' := hst'.1.name_lt e' hmem'
      rw [hentries, hentries'] at hret hpacket
      dsimp only at hret hpacket
      have hlen : e.shown.length = e'.shown.length := by omega
      rw [sent, sent, Int.toNat_natCast, Int.toNat_natCast,
        List.take_left' (evDataPacket_length _ _ hname),
        List.take_left' (evDataPacket_length _ _ hname')] at hpacket
      obtain ⟨hnames, hshown⟩ :=
        evDataPacket_inj hname hname' (hst.2 e hmem) (hst'.2 e' hmem') hlen hpacket
      exact Or.inr ⟨e, es, e', es', rfl, rfl, hnames, hshown⟩

private theorem delete_deletes : evFlagDelete &&& evFlagDelete ≠ 0 := by decide

private theorem delete_keepsOthers : evFlagDelete &&& evFlagDeleteAll = 0 := by decide

private theorem reservedZero_length : ([0, 0, 0] : Bytes).length = 3 := rfl

private theorem padName_length {name : Bytes} (h : name.length < maxEvNameLen) :
    (padTo maxEvNameLen name).length = maxEvNameLen :=
  padTo_length (Nat.le_of_lt h)

/-- A delete request for a name. -/
def deleteOf {name : Bytes} (h : name.length < maxEvNameLen) : DeleteRequest where
  flags := evFlagDelete
  reserved := [0, 0, 0]
  field := ⟨padTo maxEvNameLen name, padName_length h⟩
  pad := []
  delete_flag := delete_deletes
  no_deleteAll := delete_keepsOthers
  reserved_length := reservedZero_length

private theorem deleteOf_lastByte {name : Bytes} (h : name.length < maxEvNameLen) :
    (deleteOf h).field.lastByte = 0 := by
  have hlast : (padTo maxEvNameLen name).getD (maxEvNameLen - 1) 0 = 0 := by
    rw [padTo, List.getD_append_right _ _ _ _ (Nat.le_sub_one_of_lt h), List.getD_replicate]
    rw [maxEvNameLen] at h ⊢
    omega
  exact hlast

private theorem deleteOf_key {name : Bytes} (h : name.length < maxEvNameLen)
    (hnul : (0 : UInt8) ∉ name) :
    (deleteOf h).field.key = name := by
  rw [← NameField.cstr_bytes_append (deleteOf_lastByte h) [], List.append_nil]
  exact cstr_padTo hnul

/-- Deleting the first entry by its name leaves the others. -/
theorem ask_delete_first {s : SmifService} {st : EvStorage} (hs : s.evStorage = some st)
    (hst : Storable st.entries) {e : EvEntry} {es : List EvEntry} (hcons : st.entries = e :: es)
    (hname : e.name.length < maxEvNameLen) (v : Envelope smifCmdSetDeleteEv) :
    ∃ st', (s.ask v (deleteOf hname).bytes).service.evStorage = some st' ∧ st'.entries = es ∧
      Storable st'.entries := by
  have hnul : (0 : UInt8) ∉ e.name := hst.2 e (hcons ▸ List.mem_cons_self)
  have hfind : ¬refused st.entries (.del e.name) := by
    rw [refused, hcons, OrderedMap.find_cons_of_eq rfl]
    simp
  have hdel := EvStorage.mutate_entries .ok st (.del e.name)
  rw [if_neg hfind, update, hcons, OrderedMap.eraseFirst_cons_of_eq rfl] at hdel
  refine ⟨_, store_delete hs v (deleteOf_lastByte hname), ?_⟩
  rw [deleteOf_key hname hnul]
  have hop : (EvOp.del e.name).NulFree := trivial
  exact ⟨hdel, EvStorage.storable_mutate hst .ok hop⟩

theorem EvEntry.eq_of_shown {e e' : EvEntry} (hname : e.name = e'.name)
    (hshown : e.shown = e'.shown) (hlen : e.data.length = e'.data.length) : e = e' := by
  obtain ⟨name, data⟩ := e
  obtain ⟨name', data'⟩ := e'
  obtain rfl : name = name' := hname
  dsimp only at hlen
  by_cases hdata : data = []
  · subst hdata
    rw [List.eq_nil_of_length_eq_zero hlen.symm]
  · have hdata' : data' ≠ [] := by
      rintro rfl
      exact hdata (List.eq_nil_of_length_eq_zero hlen)
    rw [shown, shown, if_neg hdata, if_neg hdata'] at hshown
    exact congrArg (EvEntry.mk name) hshown

/-- **The entries can be read off**: the first one by GetEvByIndex, but for the
length of its value; that by EvStats, once the others are known; the others by
deleting the first. -/
theorem entries_eq_of_indistinct (es : List EvEntry) : ∀ {s t : SmifService} {st st' : EvStorage},
    Indistinct SmifService.serve SmifService.shows s t →
    s.evStorage = some st → t.evStorage = some st' → Storable st.entries →
    Storable st'.entries → st.entries = es → st'.entries = es := by
  induction es with
  | nil =>
    intro s t st st' h hs ht hst hst' hnil
    rcases first_of_told h hs ht hst hst' with ⟨-, hnil'⟩ | ⟨e, es, -, -, hcons, -⟩
    · exact hnil'
    · rw [hnil] at hcons
      cases hcons
  | cons e es ih =>
    intro s t st st' h hs ht hst hst' hcons
    obtain ⟨e', es', hcons', hname, hshown⟩ : ∃ e' es', st'.entries = e' :: es' ∧
        e.name = e'.name ∧ e.shown = e'.shown := by
      rcases first_of_told h hs ht hst hst' with ⟨hnil, -⟩ | ⟨a, as, e', es', ha, hcons', hrest⟩
      · rw [hcons] at hnil
        cases hnil
      · obtain ⟨rfl, -⟩ := List.cons.inj (hcons.symm.trans ha)
        exact ⟨e', es', hcons', hrest⟩
    have hlt : e.name.length < maxEvNameLen := hst.1.name_lt e (hcons ▸ List.mem_cons_self)
    have hrest : es' = es := by
      obtain ⟨v⟩ : Nonempty (Envelope smifCmdSetDeleteEv) := ⟨plainEnvelope _⟩
      have hlt' : e'.name.length < maxEvNameLen := hname ▸ hlt
      have hsame : (deleteOf hlt').bytes = (deleteOf hlt).bytes := by simp only [hname]
      obtain ⟨st₁, hs₁, hes, hst₁⟩ := ask_delete_first hs hst hcons hlt v
      obtain ⟨st₁', ht₁, hes', hst₁'⟩ := ask_delete_first ht hst' hcons' hlt' v
      rw [hsame] at ht₁
      have hnext : Indistinct SmifService.serve SmifService.shows
          (s.ask v (deleteOf hlt).bytes).service (t.ask v (deleteOf hlt).bytes).service :=
        h.next (v.call (deleteOf hlt).bytes)
      exact hes'.symm.trans (ih hnext hs₁ ht₁ hst₁ hst₁' hes)
    subst hrest
    -- what is left of the space is the size of the first value
    have hsize := serializedSize_eq_of_told h hs ht hst.1 hst'.1
    rw [hcons, hcons', serializedSize_eq, serializedSize_eq, List.map_cons, List.map_cons,
      List.sum_cons, List.sum_cons, entrySize, entrySize] at hsize
    rw [hcons', EvEntry.eq_of_shown hname hshown (by omega)]

/-- A request to read one byte from a segment. -/
def readByteOf (segment : UInt8) : Bytes := List.replicate 14 0 ++ [segment, 0, 1]

/-- The transfer it leads to goes to the bus of the segment. -/
theorem ask_readByte (u : SmifService) (segment : UInt8) (bus : ℤ) :
    (u.ask (plainEnvelope smifCmdI2cTransaction) (readByteOf segment)).i2c =
      some ⟨bus, [⟨0, true, 1, []⟩]⟩ ↔ u.segmentToBus segment = some bus := by
  obtain ⟨v, hv⟩ : ∃ v, v = plainEnvelope smifCmdI2cTransaction := ⟨_, rfl⟩
  let c : I2cCall := ⟨u.segmentToBus, v.i2c, v.hdr, readByteOf segment, v.response⟩
  have hwrite : c.writeLen = 0 := rfl
  have hread : c.readLen = 1 := rfl
  have hmsgs : c.msgs = [⟨0, true, 1, []⟩] := by
    have haddress : c.address = 0 := rfl
    rw [I2cCall.msgs, hwrite, hread, haddress]
    rfl
  have hresult : (u.ask v (readByteOf segment)).i2c = c.result.2 := by rw [ask_i2c]; rfl
  rw [← hv, hresult, I2cCall.transfer_iff]
  constructor
  · rintro ⟨bus', hbus', hsame⟩
    rw [(I2cTransfer.mk.inj hsame).1]
    exact hbus'.mapped
  · intro hbus
    refine ⟨bus, ?_, by rw [hmsgs]⟩
    exact
      { room := by
          show 57 ≤ v.response.length
          rw [hv]
          exact le_trans (by decide) maxPacketSize_le
        complete := le_refl 17
        asked := by
          rw [hread]
          exact fun h => Nat.one_ne_zero h.2
        writeLen_le := by
          rw [hwrite]
          exact Nat.zero_le 32
        readLen_le := by
          rw [hread]
          exact Nat.le_add_left 1 31
        mapped := hbus
        opened := by
          show v.i2c ≠ .openFails
          rw [hv]
          intro hfails
          cases hfails
        available := by
          rw [hwrite]
          exact fun h => absurd h (Nat.lt_irrefl 0) }

/-- The bus of a segment shows in the transfers asked for. -/
theorem segmentToBus_eq_of_indistinct (h : Indistinct SmifService.serve SmifService.shows s t) :
    s.segmentToBus = t.segmentToBus := by
  funext segment
  refine Option.ext fun bus => ?_
  rw [← ask_readByte s, ← ask_readByte t, (answers_eq h _ _).2.2]

end Told

/-! ### Any services the host can have before it -/

/-- The service after some requests, started on any file. -/
def SmifService.hosted (opened : Bool) (file : Option Bytes) (segmentToBus : UInt8 → Option ℤ)
    (calls : List HostCall) : SmifService :=
  Run.run SmifService.serve (SmifService.boot opened file segmentToBus) calls

theorem SmifService.storable_serve (svc : SmifService) (c : HostCall) (h : svc.Holds Storable) :
    (svc.serve c).Holds Storable := by
  obtain ⟨st, hst, hs⟩ := h
  rcases svc.handle_touchesOnce c.env c.request c.response hst with hsame | ⟨op, hop, hmut⟩
  · exact ⟨st, hsame, hs⟩
  · exact ⟨_, hmut, EvStorage.storable_mutate hs c.env.saveIo hop⟩

theorem SmifService.storable_boot (opened : Bool) (file : Option Bytes)
    (segmentToBus : UInt8 → Option ℤ) : (boot opened file segmentToBus).Holds Storable :=
  ⟨EvStorage.boot opened file, rfl, bounded_loadFile opened file, nulFree_loadFile opened file⟩

theorem SmifService.storable_hosted (opened : Bool) (file : Option Bytes)
    (segmentToBus : UInt8 → Option ℤ) (calls : List HostCall) :
    (hosted opened file segmentToBus calls).Holds Storable :=
  Run.run_invariant storable_serve (storable_boot opened file segmentToBus) calls

/-- **What the host can tell is what the service remembers.**  Two services,
started on any files and asked anything, are answered alike by every further
sequence of requests, whatever happens to their saves, exactly when they have the
same entries in the same order and the same buses. -/
theorem indistinct_iff_sameMemory (opened opened' : Bool) (file file' : Option Bytes)
    (segmentToBus segmentToBus' : UInt8 → Option ℤ) (calls calls' : List HostCall) :
    Indistinct SmifService.serve SmifService.shows
        (SmifService.hosted opened file segmentToBus calls)
        (SmifService.hosted opened' file' segmentToBus' calls') ↔
      SameMemory (SmifService.hosted opened file segmentToBus calls)
        (SmifService.hosted opened' file' segmentToBus' calls') := by
  obtain ⟨st, hs, hst⟩ := SmifService.storable_hosted opened file segmentToBus calls
  obtain ⟨st', ht, hst'⟩ := SmifService.storable_hosted opened' file' segmentToBus' calls'
  constructor
  · intro h
    have hentries := entries_eq_of_indistinct st.entries h hs ht hst hst' rfl
    refine ⟨?_, segmentToBus_eq_of_indistinct h⟩
    rw [SmifService.memory, SmifService.memory, hs, ht, Option.map_some, Option.map_some, hentries]
  · exact indistinct_of_sameMemory

end Chif
