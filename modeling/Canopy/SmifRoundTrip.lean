/-
Round trip of the SMIF EV commands through packets.

A set request, a get request and a delete request use three byte layouts; the
store in between is searched by C string.  `wireRoundTrip_iff` says when an
acknowledged set is read back by GetEvByName and undone by a delete, for every
service state the daemon can reach: always, unless the file it loaded at boot
repeats a name, which `load()` lets through and no command can produce.
-/
import Canopy.SmifAck
import Canopy.SmifFields

namespace Chif

open Bytes

/-! ### The answer of a lookup -/

/-- The packet that carries an entry: header, error code 0, 32-byte name,
length, data. -/
def evDataPacket (hdr : ChifPktHeader) (name data : Bytes) : Bytes :=
  (responseHeader hdr (UInt16.ofNat (headerBytes + 38 + data.length))).bytes ++
    (ofLE 4 (ev .success) ++ (padTo maxEvNameLen name ++ (ofLE 2 data.length ++ data)))

theorem evDataPacket_length (hdr : ChifPktHeader) {name : Bytes} (data : Bytes)
    (h : name.length < maxEvNameLen) :
    (evDataPacket hdr name data).length = 8 + 38 + data.length := by
  rw [evDataPacket, List.length_append, ChifPktHeader.bytes_length, List.length_append,
    ofLE_length, List.length_append, padTo_length (Nat.le_of_lt h), List.length_append,
    ofLE_length, headerBytes, maxEvNameLen]
  omega

/-- The zeroed response buffer, cut at the fields of the answer. -/
private theorem fillZero_fields (response : Bytes) {nameLen n : ℕ}
    (hname : nameLen < maxEvNameLen) :
    fillZero response (headerBytes + 38 + n) =
      List.replicate headerBytes 0 ++ (ofLE 4 0 ++ (List.replicate nameLen 0 ++
        (List.replicate (maxEvNameLen - nameLen) 0 ++ (List.replicate 2 0 ++
          (List.replicate n 0 ++ response.drop (headerBytes + 38 + n)))))) := by
  have hsum : headerBytes + 38 + n
      = headerBytes + (4 + (nameLen + ((maxEvNameLen - nameLen) + (2 + n)))) := by
    rw [maxEvNameLen] at hname ⊢
    omega
  have hfour : ofLE 4 0 = List.replicate 4 0 := by decide
  rw [fillZero, memcpyAt_zero, List.length_replicate, hfour]
  conv_lhs => rw [show List.replicate (headerBytes + 38 + n) (0 : UInt8)
    = List.replicate (headerBytes + (4 + (nameLen + ((maxEvNameLen - nameLen) + (2 + n))))) 0 from
      congrArg (fun m => List.replicate m 0) hsum]
  simp only [List.replicate_add, List.append_assoc]

/-- **The encoder**: a stored entry with data is sent as `evDataPacket`. -/
theorem buildEvDataResponse_eq (hdr : ChifPktHeader) {response : Bytes} {e : EvEntry}
    (hname : e.name.length < maxEvNameLen) (hpos : e.data ≠ [])
    (hdata : e.data.length ≤ maxEvDataSize)
    (hroom : headerBytes + 38 + e.data.length ≤ response.length) :
    buildEvDataResponse hdr response e
      = (((8 + 38 + e.data.length : ℕ) : ℤ),
        evDataPacket hdr e.name e.data ++ response.drop (headerBytes + 38 + e.data.length)) := by
  have hsize : (UInt16.ofNat (headerBytes + (4 + maxEvNameLen + 2 + e.data.length))).toNat
      = headerBytes + 38 + e.data.length := by
    rw [maxEvDataSize] at hdata
    rw [UInt16.toNat_ofNat_of_lt' (by rw [headerBytes, maxEvNameLen, UInt16.size]; omega),
      maxEvNameLen]
    omega
  have hlen : (UInt16.ofNat e.data.length).toNat = e.data.length := by
    rw [maxEvDataSize] at hdata
    exact UInt16.toNat_ofNat_of_lt' (by rw [UInt16.size]; omega)
  have hmin : min e.name.length (maxEvNameLen - 1) = e.name.length := by omega
  -- every write below replaces one block of zeros by a field
  have hzeros := fillZero_fields (n := e.data.length) response hname
  rw [buildEvDataResponse]
  simp only [if_neg hpos, hsize, hlen, hmin, List.take_length, if_neg (Nat.not_lt.mpr hroom),
    hzeros, Prod.mk.injEq]
  refine ⟨rfl, ?_⟩
  -- the four fields are written one after the other
  set H := (responseHeader hdr (UInt16.ofNat (headerBytes + (4 + maxEvNameLen + 2
    + e.data.length)))).bytes with hH
  have hHlen : H.length = headerBytes := ChifPktHeader.bytes_length _
  rw [initResponse, ← hH, memcpyAt_zero, hHlen, List.drop_left' List.length_replicate,
    writePayload_block hHlen (ofLE_length 4 0) List.length_replicate.symm]
  have hpre : (ofLE 4 0 ++ (e.name ++ List.replicate (maxEvNameLen - e.name.length) 0)).length
      = 4 + maxEvNameLen := by
    rw [List.length_append, ofLE_length, List.length_append, List.length_replicate]
    omega
  have hassoc : ∀ post : Bytes, ofLE 4 0 ++ (e.name ++
      (List.replicate (maxEvNameLen - e.name.length) 0 ++ post))
        = (ofLE 4 0 ++ (e.name ++ List.replicate (maxEvNameLen - e.name.length) 0)) ++ post := by
    intro post
    simp only [List.append_assoc]
  rw [hassoc, writePayload_block hHlen hpre (by rw [ofLE_length, List.length_replicate]),
    ← List.append_assoc _ (ofLE 2 _),
    writePayload_block hHlen (by rw [List.length_append, hpre, ofLE_length])
    List.length_replicate.symm]
  have hnum : headerBytes + (4 + maxEvNameLen + 2 + e.data.length)
      = headerBytes + 38 + e.data.length := by
    rw [maxEvNameLen]
    omega
  rw [evDataPacket, ← hnum, ← hH, padTo]
  simp only [List.append_assoc]
  rfl

/-- An entry is never answered with a 12-byte packet. -/
theorem buildEvDataResponse_fst_ne (hdr : ChifPktHeader) {response : Bytes} {e : EvEntry}
    (hdata : e.data.length ≤ maxEvDataSize) (hroom : maxPacketSize ≤ response.length) :
    (buildEvDataResponse hdr response e).1 ≠ 12 := by
  have hbound : (if e.data = [] then 4 else e.data.length) ≤ maxEvDataSize := by
    split
    · decide
    · exact hdata
  rw [buildEvDataResponse]
  generalize (if e.data = [] then 4 else e.data.length) = dataSize at hbound
  rw [maxEvDataSize] at hbound
  rw [maxPacketSize] at hroom
  have hsize : (UInt16.ofNat (headerBytes + (4 + maxEvNameLen + 2 + dataSize))).toNat
      = 46 + dataSize := by
    rw [UInt16.toNat_ofNat_of_lt' (by rw [headerBytes, maxEvNameLen, UInt16.size]; omega),
      headerBytes, maxEvNameLen]
    omega
  simp only [hsize, if_neg (show ¬response.length < 46 + dataSize by omega)]
  omega

/-! ### Names in the store -/

/-- How often a name occurs. -/
def occurrences (entries : List EvEntry) (name : Bytes) : ℕ :=
  OrderedMap.occurrences EvEntry.name name entries

private theorem occurrences_update_set (entries : List EvEntry) (name data : Bytes) :
    occurrences (update entries (.set name data)) name = max 1 (occurrences entries name) := by
  rw [occurrences, occurrences, update]
  cases hfind : OrderedMap.find EvEntry.name name entries with
  | some it =>
    have hne : OrderedMap.occurrences EvEntry.name name entries ≠ 0 := by
      rw [ne_eq, OrderedMap.occurrences_eq_zero, hfind]
      simp
    simp only [OrderedMap.occurrences_modifyFirst (EvEntry.assign_name data)]
    omega
  | none =>
    simp only [OrderedMap.occurrences_append_singleton, OrderedMap.occurrences_eq_zero.mpr hfind,
      if_true]
    rfl

/-- No mutator makes a name occur a second time. -/
theorem occurrences_update_le (entries : List EvEntry) (op : EvOp) (name : Bytes) :
    occurrences (update entries op) name ≤ max 1 (occurrences entries name) := by
  cases op with
  | set n data =>
    by_cases hn : n = name
    · rw [hn, occurrences_update_set]
    · rw [occurrences, occurrences, update]
      refine le_trans ?_ (Nat.le_max_right _ _)
      cases OrderedMap.find EvEntry.name n entries with
      | some it =>
        simp only [OrderedMap.occurrences_modifyFirst (EvEntry.assign_name data), le_refl]
      | none =>
        simp only [OrderedMap.occurrences_append_singleton, hn, if_false, le_refl, Nat.add_zero]
  | del n => exact le_trans OrderedMap.occurrences_eraseFirst_le (Nat.le_max_right _ _)
  | deleteAll => exact Nat.zero_le _

/-! ### The service -/

/-- What a packet brings besides its payload: the header, the response buffer
and the state of the I2C bus. -/
structure Envelope (command : UInt16) where
  hdr : ChifPktHeader
  response : Bytes
  i2c : I2cOutcome
  command_eq : hdr.command = command
  room : 12 ≤ response.length

/-- One request, with saves that succeed. -/
def SmifService.ask {command : UInt16} (svc : SmifService) (t : Envelope command) (p : Bytes) :
    SmifResult :=
  svc.handle ⟨.ok, t.i2c⟩ (t.hdr.bytes ++ p) t.response

theorem SmifService.ask_set (svc : SmifService) (t : Envelope smifCmdSetDeleteEv) (p : Bytes) :
    svc.ask t p = ⟨(handleSetDeleteEv .ok svc.evStorage t.hdr p t.response).1,
      { svc with evStorage := (handleSetDeleteEv .ok svc.evStorage t.hdr p t.response).2 },
      none⟩ := by
  have hlen : ¬(t.hdr.bytes ++ p).length < headerBytes := by
    rw [List.length_append, t.hdr.bytes_length]
    omega
  have hroom : ¬t.response.length < headerBytes + 4 := Nat.not_lt.mpr t.room
  rw [ask, handle, if_neg hlen, if_neg hroom]
  simp only [parseHeader_append, payload_append, t.command_eq]
  rfl

theorem SmifService.ask_get (svc : SmifService) (t : Envelope smifCmdGetEvByName) (p : Bytes) :
    svc.ask t p = ⟨handleGetEvByName svc.evStorage t.hdr p t.response, svc, none⟩ := by
  have hlen : ¬(t.hdr.bytes ++ p).length < headerBytes := by
    rw [List.length_append, t.hdr.bytes_length]
    omega
  have hroom : ¬t.response.length < headerBytes + 4 := Nat.not_lt.mpr t.room
  rw [ask, handle, if_neg hlen, if_neg hroom]
  simp only [parseHeader_append, payload_append, t.command_eq]
  rfl

/-! ### The round trip -/

/-- A set request with a terminated, non-empty name. -/
structure NamedSet extends SetRequest where
  last_nul : field.lastByte = 0
  first_ne : field.bytes.getD 0 0 ≠ 0

/-- The two services answer GetEvByName alike for every name but `k`. -/
def SameButFor (k : Bytes) (svc svc' : SmifService) : Prop :=
  ∀ (t : Envelope smifCmdGetEvByName) (g : GetRequest), g.field.key ≠ k →
    (svc'.ask t g.bytes).answer = (svc.ask t g.bytes).answer

/-- What an acknowledged set promises: `svc` is the service before it and
`svc'` the one after it. -/
structure SetTakesEffect (svc svc' : SmifService) (r : SetRequest) : Prop where
  found : ∀ (t : Envelope smifCmdGetEvByName) (g : GetRequest),
    t.response.length = maxPacketSize → g.field = r.field →
      sent (svc'.ask t g.bytes).answer = evDataPacket t.hdr r.field.key r.data ∧
        (sent (svc'.ask t g.bytes).answer).length = 8 + 38 + r.data.length
  others : SameButFor r.field.key svc svc'
  /-- a following delete undoes it -/
  deleted : ∀ (t : Envelope smifCmdSetDeleteEv) (d : DeleteRequest), d.field = r.field →
    errorCode (svc'.ask t d.bytes).answer = some (ev .success) ∧
      (∀ (t' : Envelope smifCmdGetEvByName) (g : GetRequest),
        t'.response.length = maxPacketSize → g.field = r.field →
          ((svc'.ask t d.bytes).service.ask t' g.bytes).answer
            = buildSimpleResponse t'.hdr t'.response (ev .noSuchEv)) ∧
      SameButFor r.field.key svc' (svc'.ask t d.bytes).service

/-- The set, if it is acknowledged, takes effect on the wire. -/
def WireRoundTrip (svc : SmifService) (r : SetRequest) : Prop :=
  ∀ t : Envelope smifCmdSetDeleteEv,
    errorCode (svc.ask t r.bytes).answer = some (ev .success) →
      SetTakesEffect svc (svc.ask t r.bytes).service r

section Store

variable {svc : SmifService} {st : EvStorage} (hst : svc.evStorage = some st)

private theorem getAnswer_congr {st st' : EvStorage} {k : Bytes}
    (h : st'.getByName k = st.getByName k)
    (hdr : ChifPktHeader) (response : Bytes) :
    getAnswer hdr response st' k = getAnswer hdr response st k := by
  rw [getAnswer, h, getAnswer]

include hst

theorem answer_get (t : Envelope smifCmdGetEvByName) (g : GetRequest) :
    (svc.ask t g.bytes).answer =
      if g.field.lastByte ≠ 0 then buildSimpleResponse t.hdr t.response (ev .nameTooLong)
      else getAnswer t.hdr t.response st g.field.key := by
  rw [svc.ask_get, hst]
  exact g.handle_eq st t.hdr t.response

theorem answer_set (t : Envelope smifCmdSetDeleteEv) (r : SetRequest) :
    errorCode (svc.ask t r.bytes).answer = some (ev .success) ↔
      (st.set .ok r.field.key r.data).1 = true := by
  rw [svc.ask_set, hst]
  show errorCode (handleSetDeleteEv _ _ _ _ _).1 = _ ↔ _
  rw [r.handle_eq, reported, errorCode_buildSimpleResponse _ _ t.room, Option.some_inj]
  cases (st.set .ok r.field.key r.data).1 with
  | true => simp
  | false => simp [ev]

private theorem store_set (t : Envelope smifCmdSetDeleteEv) (r : SetRequest) :
    (svc.ask t r.bytes).service.evStorage = some (st.set .ok r.field.key r.data).2 := by
  rw [svc.ask_set, hst]
  show (handleSetDeleteEv _ _ _ _ _).2 = _
  rw [r.handle_eq, reported]

private theorem answer_delete (t : Envelope smifCmdSetDeleteEv) {d : DeleteRequest}
    (hlast : d.field.lastByte = 0) :
    errorCode (svc.ask t d.bytes).answer = some (ev .success) ↔
      (st.del .ok d.field.key).1 = true := by
  rw [svc.ask_set, hst]
  show errorCode (handleSetDeleteEv _ _ _ _ _).1 = _ ↔ _
  rw [d.handle_eq, if_neg (not_not.mpr hlast), reported, errorCode_buildSimpleResponse _ _ t.room,
    Option.some_inj]
  cases (st.del .ok d.field.key).1 with
  | true => simp
  | false => simp [ev]

theorem store_delete (t : Envelope smifCmdSetDeleteEv) {d : DeleteRequest}
    (hlast : d.field.lastByte = 0) :
    (svc.ask t d.bytes).service.evStorage = some (st.del .ok d.field.key).2 := by
  rw [svc.ask_set, hst]
  show (handleSetDeleteEv _ _ _ _ _).2 = _
  rw [d.handle_eq, if_neg (not_not.mpr hlast), reported]

/-- An entry with data is answered with its packet. -/
theorem sent_get (t : Envelope smifCmdGetEvByName) {g : GetRequest} {data : Bytes}
    (hroom : t.response.length = maxPacketSize) (hlast : g.field.lastByte = 0)
    (hfind : st.getByName g.field.key = some ⟨g.field.key, data⟩) (hpos : data ≠ [])
    (hdata : data.length ≤ maxEvDataSize) :
    sent (svc.ask t g.bytes).answer = evDataPacket t.hdr g.field.key data := by
  have hfit : headerBytes + 38 + data.length ≤ t.response.length := by
    rw [maxEvDataSize] at hdata
    rw [hroom, maxPacketSize, headerBytes]
    omega
  have hlen := evDataPacket_length t.hdr data g.field.key_length_lt
  have hencode := buildEvDataResponse_eq t.hdr (e := ⟨g.field.key, data⟩)
    g.field.key_length_lt hpos hdata hfit
  rw [answer_get hst, if_neg (not_not.mpr hlast), getAnswer, hfind]
  show sent (buildEvDataResponse _ _ _) = _
  rw [hencode, sent, Int.toNat_natCast, ← hlen, List.take_left]

/-- `noSuchEv` is answered only for a name the store does not hold. -/
theorem getByName_of_noSuchEv (t : Envelope smifCmdGetEvByName) {g : GetRequest}
    (hroom : maxPacketSize ≤ t.response.length) (hlast : g.field.lastByte = 0)
    (hbound : Bounded st.entries)
    (h : (svc.ask t g.bytes).answer = buildSimpleResponse t.hdr t.response (ev .noSuchEv)) :
    st.getByName g.field.key = none := by
  rw [answer_get hst, if_neg (not_not.mpr hlast)] at h
  cases hfind : st.getByName g.field.key with
  | none => rfl
  | some e =>
    have hdata := hbound.data_le e (OrderedMap.mem_of_find hfind)
    rw [getAnswer, hfind, buildSimpleResponse_eq _ _ t.room] at h
    exact absurd (congrArg Prod.fst h) (buildEvDataResponse_fst_ne _ hdata hroom)

end Store

/-- Stores that agree on every name but `k` answer alike on every name but `k`. -/
theorem sameButFor_of_getByName {svc svc' : SmifService} {st st' : EvStorage} {k : Bytes}
    (hst : svc.evStorage = some st) (hst' : svc'.evStorage = some st')
    (h : ∀ k', k' ≠ k → st'.getByName k' = st.getByName k') : SameButFor k svc svc' := by
  intro t g hg
  rw [answer_get hst, answer_get hst', getAnswer_congr (h _ hg)]

theorem EvStorage.del_of_getByName {st : EvStorage} {k : Bytes} {e : EvEntry}
    (h : st.getByName k = some e) :
    (st.del .ok k).1 = true ∧
      (st.del .ok k).2.entries = OrderedMap.eraseFirst EvEntry.name k st.entries := by
  rw [EvStorage.del, h]
  exact ⟨rfl, rfl⟩

/-- The entries after an acknowledged set. -/
theorem EvStorage.entries_of_set {st st' : EvStorage} {k data : Bytes}
    (hset : st.set .ok k data = (true, st')) :
    ¬refused st.entries (.set k data) ∧ st'.entries = update st.entries (.set k data) := by
  have hmut : st.mutate .ok (.set k data) = (true, st') := hset
  have hacc := ((EvStorage.mutate_fst .ok st _).mp (by rw [hmut])).1
  have hent := EvStorage.mutate_entries .ok st (.set k data)
  rw [hmut, if_neg hacc] at hent
  exact ⟨hacc, hent⟩

/-- A delete after an acknowledged set undoes it when the name occurred at most once. -/
theorem EvStorage.getByName_del_of_set {st st' : EvStorage} {k data : Bytes}
    (hset : st.set .ok k data = (true, st')) :
    (st'.del .ok k).2.getByName k = none ↔ occurrences st.entries k ≤ 1 := by
  obtain ⟨-, herase⟩ := EvStorage.del_of_getByName (EvStorage.getByName_of_set hset)
  rw [EvStorage.getByName, herase, OrderedMap.find_eraseFirst_self_eq_none,
    (EvStorage.entries_of_set hset).2]
  show occurrences _ _ ≤ 1 ↔ _
  rw [occurrences_update_set]
  omega

/-- Once the set is acknowledged, only the delete can fall short, and it does
when the name occurred twice. -/
theorem setTakesEffect_iff {svc svc' : SmifService} {st st' : EvStorage} (r : NamedSet)
    (hst : svc.evStorage = some st) (hst' : svc'.evStorage = some st')
    (hset : st.set .ok r.field.key r.data = (true, st')) (hs : Storable st.entries) :
    SetTakesEffect svc svc' r.toSetRequest ↔ occurrences st.entries r.field.key ≤ 1 := by
  obtain ⟨hacc, hent⟩ := EvStorage.entries_of_set hset
  have hget := EvStorage.getByName_of_set hset
  obtain ⟨hdel, herase⟩ := EvStorage.del_of_getByName hget
  have hgone := EvStorage.getByName_del_of_set hset
  constructor
  · intro h
    let t : Envelope smifCmdSetDeleteEv :=
      ⟨⟨0, 0, smifCmdSetDeleteEv, 0, 0⟩, List.replicate 12 0, .openFails, rfl, by simp⟩
    let t' : Envelope smifCmdGetEvByName :=
      ⟨⟨0, 0, smifCmdGetEvByName, 0, 0⟩, List.replicate maxPacketSize 0, .openFails, rfl,
        by rw [List.length_replicate]; decide⟩
    let d : DeleteRequest := ⟨evFlagDelete, [0, 0, 0], r.field, [], by decide, by decide, rfl⟩
    -- ask for the name after the delete: noSuchEv means the store has lost it
    obtain ⟨-, hnone, -⟩ := h.deleted t d rfl
    have hanswer := hnone t' ⟨r.field, []⟩ List.length_replicate rfl
    have hst'' := store_delete hst' t (d := d) r.last_nul
    have hroom : maxPacketSize ≤ t'.response.length := by rw [List.length_replicate]
    have hbound : Bounded (st'.del .ok r.field.key).2.entries := by
      have hbound' : Bounded st'.entries := by
        rw [hent]
        exact hs.1.update hacc
      rw [herase]
      exact hbound'.eraseFirst hget
    exact hgone.mp (getByName_of_noSuchEv hst'' t' hroom r.last_nul hbound hanswer)
  · intro hone
    refine ⟨?_, ?_, ?_⟩
    · intro t g hroom hg
      have hlast : g.field.lastByte = 0 := by rw [hg, r.last_nul]
      have hpos : r.data ≠ [] := List.ne_nil_of_length_pos r.data_pos
      have hfind : st'.getByName g.field.key = some ⟨g.field.key, r.data⟩ := by rw [hg, hget]
      have hsent := sent_get hst' t hroom hlast hfind hpos r.data_le
      rw [hg] at hsent
      have hlen := evDataPacket_length t.hdr r.data r.field.key_length_lt
      exact ⟨hsent, by rw [hsent, hlen]⟩
    · refine sameButFor_of_getByName hst hst' ?_
      intro k' hk'
      rw [EvStorage.getByName, hent, find_update_set_of_ne _ _ hk', EvStorage.getByName]
    · intro t d hd
      have hlast : d.field.lastByte = 0 := by rw [hd, r.last_nul]
      have hst'' := store_delete hst' t hlast
      rw [hd] at hst''
      refine ⟨?_, ?_, ?_⟩
      · rw [answer_delete hst' t hlast, hd]
        exact hdel
      · intro t' g _ hg
        rw [answer_get hst'', hg, if_neg (not_not.mpr r.last_nul), getAnswer, hgone.mpr hone]
      · refine sameButFor_of_getByName hst' hst'' ?_
        intro k' hk'
        rw [EvStorage.getByName, herase, OrderedMap.find_eraseFirst_of_ne hk', EvStorage.getByName]

/-- A set with a name is turned down only for lack of space. -/
theorem SetRequest.set_ok_iff (st : EvStorage) (r : SetRequest) (hkey : r.field.key ≠ []) :
    (st.set .ok r.field.key r.data).1 = true ↔ ¬noRoom st.entries r.field.key r.data := by
  have hlen := r.field.key_length_lt
  have hmut := EvStorage.mutate_fst .ok st (.set r.field.key r.data)
  rw [and_iff_left rfl] at hmut
  refine hmut.trans ?_
  have hdata : ¬r.data.length > maxEvDataSize := Nat.not_lt.mpr r.data_le
  simp only [refused, hkey, hdata, Nat.not_le_of_lt hlen, false_or]

theorem set_ok_iff (st : EvStorage) (r : NamedSet) :
    (st.set .ok r.field.key r.data).1 = true ↔ ¬noRoom st.entries r.field.key r.data :=
  r.toSetRequest.set_ok_iff st (r.field.key_ne_nil r.first_ne)

private theorem wireRoundTrip_iff_of_store {svc : SmifService} {st : EvStorage} (r : NamedSet)
    (hst : svc.evStorage = some st) (hs : Storable st.entries) :
    WireRoundTrip svc r.toSetRequest ↔
      noRoom st.entries r.field.key r.data ∨ occurrences st.entries r.field.key ≤ 1 := by
  have hok : ∀ t : Envelope smifCmdSetDeleteEv,
      errorCode (svc.ask t r.bytes).answer = some (ev .success) ↔
        ¬noRoom st.entries r.field.key r.data := by
    intro t
    rw [answer_set hst, set_ok_iff]
  -- an acknowledged set leads to the store of `setTakesEffect_iff`
  have heff : ∀ t : Envelope smifCmdSetDeleteEv, ¬noRoom st.entries r.field.key r.data →
      (SetTakesEffect svc (svc.ask t r.bytes).service r.toSetRequest ↔
        occurrences st.entries r.field.key ≤ 1) := by
    intro t hroom
    have hset := (set_ok_iff st r).mpr hroom
    exact setTakesEffect_iff r hst (store_set hst t _) (Prod.ext hset rfl) hs
  by_cases hroom : noRoom st.entries r.field.key r.data
  · constructor
    · intro _
      exact Or.inl hroom
    · intro _ t hack
      exact absurd hroom ((hok t).mp hack)
  · rw [or_iff_right hroom]
    constructor
    · intro h
      let t : Envelope smifCmdSetDeleteEv :=
        ⟨⟨0, 0, smifCmdSetDeleteEv, 0, 0⟩, List.replicate 12 0, .openFails, rfl, by simp⟩
      exact (heff t hroom).mp (h t ((hok t).mpr hroom))
    · intro hone t _
      exact (heff t hroom).mpr hone

/-! ### Reachable services -/

/-- The service after `EvStorage::load` at start-up. -/
def SmifService.boot (opened : Bool) (file : Option Bytes) (segmentToBus : UInt8 → Option ℤ) :
    SmifService :=
  ⟨some (EvStorage.boot opened file), segmentToBus⟩

/-- Any request with its response buffer. -/
structure SmifCall where
  request : Bytes
  response : Bytes
  i2c : I2cOutcome

/-- The service after one request; saves succeed. -/
def SmifService.next (svc : SmifService) (c : SmifCall) : SmifService :=
  (svc.handle ⟨.ok, c.i2c⟩ c.request c.response).service

/-- A request leaves the store alone or makes one mutator call. -/
def TouchesOnce (io : SaveIo) (st : EvStorage) (evStorage : Option EvStorage) : Prop :=
  evStorage = some st ∨ ∃ op : EvOp, op.NulFree ∧ evStorage = some (st.mutate io op).2

private theorem handleSetDeleteEv_touchesOnce (io : SaveIo) (st : EvStorage) (hdr : ChifPktHeader)
    (p response : Bytes) :
    TouchesOnce io st (handleSetDeleteEv io (some st) hdr p response).2 := by
  rw [handleSetDeleteEv]
  split
  · exact Or.inl rfl
  · rcases setDeleteEv_cases io st p with ⟨-, heq⟩ | ⟨-, e, -, heq⟩ | ⟨-, op, e, hop, -, heq⟩
    · exact Or.inr ⟨.del (setName p), trivial, by rw [heq]⟩
    · exact Or.inl (by rw [heq])
    · exact Or.inr ⟨op, hop, by rw [heq]⟩

/-- Of the nine branches of `handle` only SetDeleteEv passes a new store on. -/
theorem SmifService.handle_service (svc : SmifService) (env : SmifEnv) (request response : Bytes) :
    (svc.handle env request response).service = svc ∨
      (svc.handle env request response).service = { svc with
        evStorage := (handleSetDeleteEv env.saveIo svc.evStorage (parseHeader request)
          (payload request) response).2 } := by
  let Q : SmifResult → Prop := fun r => r.service = svc ∨ r.service = { svc with
    evStorage := (handleSetDeleteEv env.saveIo svc.evStorage (parseHeader request)
      (payload request) response).2 }
  have same : ∀ answer i2c, Q ⟨answer, svc, i2c⟩ := fun _ _ => Or.inl rfl
  show Q (svc.handle env request response)
  rw [handle]
  refine iteInduction (fun _ => same _ _) fun _ => ?_
  refine iteInduction (fun _ => same _ _) fun _ => ?_
  refine iteInduction (fun _ => same _ _) fun _ => ?_
  refine iteInduction (fun _ => Or.inr rfl) fun _ => ?_
  refine iteInduction (fun _ => same _ _) fun _ => ?_
  refine iteInduction (fun _ => same _ _) fun _ => ?_
  refine iteInduction (fun _ => same _ _) fun _ => ?_
  refine iteInduction (fun _ => same _ _) fun _ => ?_
  refine iteInduction (fun _ => same _ _) fun _ => ?_
  exact iteInduction (fun _ => same _ _) fun _ => same _ _

theorem SmifService.handle_touchesOnce (svc : SmifService) (env : SmifEnv)
    (request response : Bytes) {st : EvStorage} (hst : svc.evStorage = some st) :
    TouchesOnce env.saveIo st (svc.handle env request response).service.evStorage := by
  rcases svc.handle_service env request response with hsame | hset
  · rw [hsame]
    exact Or.inl hst
  · rw [hset, hst]
    exact handleSetDeleteEv_touchesOnce env.saveIo st _ _ response

/-- The service has a store, and its entries satisfy `P`. -/
def SmifService.Holds (P : List EvEntry → Prop) (svc : SmifService) : Prop :=
  ∃ st, svc.evStorage = some st ∧ P st.entries

theorem SmifService.holds_next {P : List EvEntry → Prop}
    (hP : ∀ entries op, P entries → op.NulFree → ¬refused entries op → P (update entries op))
    (svc : SmifService) (c : SmifCall) (h : svc.Holds P) : (svc.next c).Holds P := by
  obtain ⟨st, hst, hs⟩ := h
  rcases svc.handle_touchesOnce ⟨.ok, c.i2c⟩ c.request c.response hst with hsame | ⟨op, hop, hmut⟩
  · exact ⟨st, hsame, hs⟩
  · refine ⟨_, hmut, ?_⟩
    rw [EvStorage.mutate_entries]
    split
    · exact hs
    · next hacc => exact hP _ _ hs hop hacc

/-- No name but the empty one occurs twice. -/
def DistinctNames (entries : List EvEntry) : Prop :=
  ∀ name, name ≠ [] → occurrences entries name ≤ 1

/-- The service after `load()` of any file and then any requests. -/
def SmifService.after (opened : Bool) (file : Option Bytes) (segmentToBus : UInt8 → Option ℤ)
    (calls : List SmifCall) : SmifService :=
  Run.run SmifService.next (SmifService.boot opened file segmentToBus) calls

theorem SmifService.holds_after {P : List EvEntry → Prop}
    (hP : ∀ entries op, P entries → op.NulFree → ¬refused entries op → P (update entries op))
    {opened : Bool} {file : Option Bytes} (h : P (loadFile opened file).2)
    (segmentToBus : UInt8 → Option ℤ) (calls : List SmifCall) :
    (SmifService.after opened file segmentToBus calls).Holds P :=
  Run.run_invariant (I := SmifService.Holds P) (fun svc c hs => svc.holds_next hP c hs)
    ⟨EvStorage.boot opened file, rfl, h⟩ calls

/-- **EV commands round-trip on the wire** in every reachable service, exactly
for the names the store holds at most once (and for sets it has no room for,
which are not acknowledged).  When the file repeats no name, that is all of them. -/
theorem wireRoundTrip_iff (opened : Bool) (file : Option Bytes)
    (segmentToBus : UInt8 → Option ℤ) (calls : List SmifCall) :
    ∃ st, (SmifService.after opened file segmentToBus calls).evStorage = some st ∧
      (∀ r : NamedSet,
        WireRoundTrip (SmifService.after opened file segmentToBus calls) r.toSetRequest ↔
          noRoom st.entries r.field.key r.data ∨ occurrences st.entries r.field.key ≤ 1) ∧
      (DistinctNames (loadFile opened file).2 → ∀ r : NamedSet,
        WireRoundTrip (SmifService.after opened file segmentToBus calls) r.toSetRequest) := by
  have hload : Storable (loadFile opened file).2 :=
    ⟨bounded_loadFile opened file, nulFree_loadFile opened file⟩
  obtain ⟨st, hst, hs⟩ := SmifService.holds_after
    (fun _ _ h hop hacc => ⟨h.1.update hacc, h.2.update hop⟩) hload segmentToBus calls
  refine ⟨st, hst, fun r => wireRoundTrip_iff_of_store r hst hs, fun hdistinct r => ?_⟩
  obtain ⟨st', hst', hs'⟩ := SmifService.holds_after
    (fun entries op h _ _ name hname =>
      le_trans (occurrences_update_le entries op name) (by have := h name hname; omega))
    hdistinct segmentToBus calls
  have heq : st' = st := Option.some_inj.mp (hst'.symm.trans hst)
  rw [heq] at hs'
  exact (wireRoundTrip_iff_of_store r hst hs).mpr
    (Or.inr (hs' r.field.key (r.field.key_ne_nil r.first_ne)))

/-- A file with two entries named `A`. -/
def repeatedFile : Bytes := serialize [⟨[65], [1]⟩, ⟨[65], [2]⟩]

/-- Setting `A` to `[0]`. -/
def setA : NamedSet where
  toSetRequest := SetRequest.ofField ⟨padTo maxEvNameLen [65], rfl⟩
  last_nul := rfl
  first_ne := by decide

/-- Started on that file, the delete of `A` leaves the second entry behind. -/
theorem not_wireRoundTrip_repeated :
    ¬WireRoundTrip (SmifService.after true (some repeatedFile) (fun _ => none) [])
      setA.toSetRequest := by
  have hload : loadFile true (some repeatedFile) = (0, [⟨[65], [1]⟩, ⟨[65], [2]⟩]) := by decide
  have hst : (SmifService.after true (some repeatedFile) (fun _ => none) []).evStorage
      = some ⟨some repeatedFile, [⟨[65], [1]⟩, ⟨[65], [2]⟩]⟩ := by
    show some (EvStorage.mk (some repeatedFile) (loadFile true (some repeatedFile)).2) = _
    rw [hload]
  rw [wireRoundTrip_iff_of_store setA hst (storable_of_reload hload)]
  decide

/-- A set request as a packet, with its response buffer. -/
def setPacket (r : SetRequest) : SmifCall :=
  ⟨(ChifPktHeader.mk (UInt16.ofNat (headerBytes + r.bytes.length)) 1 smifCmdSetDeleteEv 0 1).bytes
    ++ r.bytes, List.replicate 64 0, .openFails⟩

/-- The service that finds `C` in its file and is asked to set `A`. -/
def storedService : SmifService :=
  SmifService.after true (some (serialize [⟨[67], [9]⟩])) (fun _ => none)
    [setPacket setA.toSetRequest]

theorem storedService_entries :
    storedService.evStorage.map EvStorage.entries = some [⟨[67], [9]⟩, ⟨[65], [0]⟩] := by
  decide

end Chif
