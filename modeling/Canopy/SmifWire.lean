/-
SMIF EV commands on the wire.

The response builders are given as explicit byte strings, the requests as
structures that carry their own well-formedness, and the three hand-written
decoders of the 32-byte name field are evaluated on them.

* `setDeleteEv_cases` — everything a SetDeleteEv request can do to the store;
* `SetRequest.setDeleteEv_eq`, `DeleteRequest.setDeleteEv_eq`,
  `GetRequest.handleGetEvByName_eq` — what each decoder makes of the name field.
-/
import Canopy.SmifService
import Canopy.EvFile
import Mathlib.Data.List.GetD

namespace Chif

open Bytes

/-! ### Responses -/

/-- The 12-byte packet of `buildSimpleResponse`. -/
def simplePacket (hdr : ChifPktHeader) (errorCode : ℕ) : Bytes :=
  (responseHeader hdr 12).bytes ++ ofLE 4 errorCode

theorem buildSimpleResponse_eq (hdr : ChifPktHeader) {response : Bytes} (errorCode : ℕ)
    (h : 12 ≤ response.length) :
    buildSimpleResponse hdr response errorCode
      = (12, simplePacket hdr errorCode ++ response.drop 12) := by
  have hsize : (UInt16.ofNat (headerBytes + 4)) = 12 := rfl
  have hnat : (12 : UInt16).toNat = 12 := rfl
  have hresp : response.drop 8 = (response.drop 8).take 4 ++ response.drop 12 := by
    have hdrop : response.drop 12 = (response.drop 8).drop 4 := by rw [List.drop_drop]
    rw [hdrop, List.take_append_drop]
  have hmid : (ofLE 4 errorCode).length = ((response.drop 8).take 4).length := by
    rw [ofLE_length, List.length_take, List.length_drop]
    omega
  rw [buildSimpleResponse]
  simp only [hsize, hnat, if_neg (show ¬response.length < 12 by omega)]
  rw [initResponse, memcpyAt_zero, ChifPktHeader.bytes_length, headerBytes, hresp, writePayload,
    memcpyAt_append _ _ (by rw [ChifPktHeader.bytes_length, Nat.add_zero]) hmid, simplePacket,
    List.append_assoc]
  rfl

/-- The error code in a response packet; `none` when there is no response. -/
def errorCode (r : ℤ × Bytes) : Option ℕ :=
  if r.1 < 12 then none else some (toLE ((r.2.drop headerBytes).take 4))

theorem errorCode_buildSimpleResponse (hdr : ChifPktHeader) {response : Bytes} (e : EvError)
    (h : 12 ≤ response.length) :
    errorCode (buildSimpleResponse hdr response (ev e)) = some (ev e) := by
  have hlt : ev e < 256 ^ 4 := by
    cases e <;> decide
  rw [buildSimpleResponse_eq hdr (ev e) h, errorCode, if_neg (show ¬(12 : ℤ) < 12 by simp),
    simplePacket, List.append_assoc, slice_block (ChifPktHeader.bytes_length _) (ofLE_length 4 _),
    toLE_ofLE_of_lt hlt]

theorem ev_injective {e e' : EvError} (h : ev e = ev e') : e = e' := by
  cases e <;> cases e' <;> first | rfl | exact absurd h (by decide)

/-- Two plain answers are equal only if their error codes are. -/
theorem buildSimpleResponse_inj {hdr : ChifPktHeader} {response : Bytes} {e e' : EvError}
    (h : 12 ≤ response.length)
    (heq : buildSimpleResponse hdr response (ev e) = buildSimpleResponse hdr response (ev e')) :
    e = e' := by
  have hcode := congrArg errorCode heq
  rw [errorCode_buildSimpleResponse hdr e h, errorCode_buildSimpleResponse hdr e' h,
    Option.some_inj] at hcode
  exact ev_injective hcode

/-! ### What SetDeleteEv does to the store -/

/-- The key the set path reads from its 32-byte name buffer. -/
def setName (reqPayload : Bytes) : Bytes :=
  cstr (padTo maxEvNameLen ((reqPayload.drop 4).take (maxEvNameLen - 1)))

/-- The request is a set with `dataLen` 0, which the service treats as a delete. -/
def zeroLengthSet (reqPayload : Bytes) : Prop :=
  reqPayload.getD 0 0 &&& evFlagDeleteAll = 0 ∧ reqPayload.getD 0 0 &&& evFlagDelete = 0 ∧
    reqPayload.getD 0 0 &&& evFlagSet ≠ 0 ∧ 4 + maxEvNameLen + 2 ≤ reqPayload.length ∧
    toLE ((reqPayload.drop (4 + maxEvNameLen)).take 2) = 0

instance (reqPayload : Bytes) : Decidable (zeroLengthSet reqPayload) := by
  unfold zeroLengthSet
  infer_instance

/-- **All a SetDeleteEv request can do**: delete and answer success regardless
(a zero-length set), answer an error and leave the store alone, or make one
mutator call and report its result. -/
theorem setDeleteEv_cases (io : SaveIo) (st : EvStorage) (p : Bytes) :
    (zeroLengthSet p ∧ setDeleteEv io st p = (.success, (st.mutate io (.del (setName p))).2)) ∨
    (¬zeroLengthSet p ∧ ∃ e, e ≠ .success ∧ setDeleteEv io st p = (e, st)) ∨
    (¬zeroLengthSet p ∧ ∃ op e, op.NulFree ∧ e ≠ .success ∧ setDeleteEv io st p =
      (if (st.mutate io op).1 then .success else e, (st.mutate io op).2)) := by
  rw [setDeleteEv, zeroLengthSet]
  by_cases hall : p.getD 0 0 &&& evFlagDeleteAll = 0
  · by_cases hdel : p.getD 0 0 &&& evFlagDelete = 0
    · by_cases hset : p.getD 0 0 &&& evFlagSet = 0
      · -- no flag
        refine Or.inr (Or.inl ⟨fun h => h.2.2.1 hset, .unsupported, by simp, ?_⟩)
        simp only [hall, hdel, hset, ne_eq, not_true_eq_false, if_false]
      · -- set
        simp only [hall, hdel, hset, ne_eq, not_true_eq_false, not_false_eq_true, if_false, if_true,
          true_and]
        split
        · next hlen => exact Or.inr (Or.inl ⟨fun h => by omega, .noSuchEv, by simp, rfl⟩)
        · next hlen =>
          split
          · next hbig => exact Or.inr (Or.inl ⟨fun h => by omega, .dataTooLarge, by simp, rfl⟩)
          · split
            · next hzero => exact Or.inl ⟨⟨by omega, hzero⟩, rfl⟩
            · next hpos =>
              split
              · exact Or.inr (Or.inl ⟨fun h => hpos h.2, .noSuchEv, by simp, rfl⟩)
              · exact Or.inr (Or.inr ⟨fun h => hpos h.2, .set (setName p) _, .nameTooLong,
                  nul_notMem_cstr _, by simp, rfl⟩)
    · -- delete
      simp only [hall, hdel, ne_eq, not_true_eq_false, not_false_eq_true, if_false, if_true,
        false_and, and_false]
      split
      · exact Or.inr (Or.inl ⟨trivial, .noSuchEv, by simp, rfl⟩)
      · split
        · exact Or.inr (Or.inl ⟨trivial, .nameTooLong, by simp, rfl⟩)
        · exact Or.inr (Or.inr ⟨trivial, .del _, .deviceError, trivial, by simp, rfl⟩)
  · -- delete all
    simp only [hall, ne_eq, not_false_eq_true, if_true, false_and]
    exact Or.inr (Or.inr ⟨trivial, .deleteAll, .nameTooLong, trivial, by simp, rfl⟩)

/-! ### Well-formed requests -/

/-- The 32-byte name field of a request. -/
structure NameField where
  bytes : Bytes
  length_eq : bytes.length = maxEvNameLen

namespace NameField

/-- The key the field stands for, as the set path reads it: a C string of at
most 31 bytes. -/
def key (f : NameField) : Bytes := cstr (padTo maxEvNameLen (f.bytes.take (maxEvNameLen - 1)))

def lastByte (f : NameField) : UInt8 := f.bytes.getD (maxEvNameLen - 1) 0

theorem key_length_lt (f : NameField) : f.key.length < maxEvNameLen := by
  have htake : (f.bytes.take (maxEvNameLen - 1)).length ≤ maxEvNameLen - 1 :=
    List.length_take_le _ _
  have hnul : (padTo maxEvNameLen (f.bytes.take (maxEvNameLen - 1)))[maxEvNameLen - 1]?
      = some 0 := by
    rw [padTo, List.getElem?_append_right htake, List.getElem?_replicate, if_pos]
    rw [maxEvNameLen] at htake ⊢
    omega
  have := cstr_length_le_of_nul hnul
  rw [key]
  rw [maxEvNameLen] at *
  omega

/-- In a terminated field, the string the delete path reads is the key. -/
theorem cstr_bytes_append {f : NameField} (hlast : f.lastByte = 0) (pad : Bytes) :
    cstr (f.bytes ++ pad) = f.key := by
  have hlt : maxEvNameLen - 1 < f.bytes.length := by
    rw [f.length_eq, maxEvNameLen]
    omega
  -- 31 bytes and the terminator
  have hsplit : f.bytes = f.bytes.take (maxEvNameLen - 1) ++ [0] := by
    have hget : f.bytes[maxEvNameLen - 1] = 0 := by
      rw [lastByte, List.getD_eq_getElem _ _ hlt] at hlast
      exact hlast
    rw [← hget, List.take_append_getElem, List.take_of_length_le]
    rw [f.length_eq, maxEvNameLen]
  have hone : maxEvNameLen - (f.bytes.take (maxEvNameLen - 1)).length = 1 := by
    rw [List.length_take, f.length_eq, maxEvNameLen]
    omega
  rw [key, padTo, hone, List.replicate_one, cstr_append_nul]
  conv_lhs => rw [hsplit]
  rw [List.append_assoc, List.singleton_append, cstr_append_nul]

end NameField

/-- A SetDeleteEv payload with the set flag, a name field and some data; `pad`
is whatever the transport delivers after it. -/
structure SetRequest where
  flags : UInt8
  reserved : Bytes
  field : NameField
  data : Bytes
  pad : Bytes
  set_flag : flags &&& evFlagSet ≠ 0
  no_delete : flags &&& evFlagDelete = 0
  no_deleteAll : flags &&& evFlagDeleteAll = 0
  reserved_length : reserved.length = 3
  data_pos : 1 ≤ data.length
  data_le : data.length ≤ maxEvDataSize

def SetRequest.bytes (r : SetRequest) : Bytes :=
  (r.flags :: r.reserved) ++ (r.field.bytes ++ (ofLE 2 r.data.length ++ (r.data ++ r.pad)))

/-- A SetDeleteEv payload with the delete flag. -/
structure DeleteRequest where
  flags : UInt8
  reserved : Bytes
  field : NameField
  pad : Bytes
  delete_flag : flags &&& evFlagDelete ≠ 0
  no_deleteAll : flags &&& evFlagDeleteAll = 0
  reserved_length : reserved.length = 3

def DeleteRequest.bytes (r : DeleteRequest) : Bytes :=
  (r.flags :: r.reserved) ++ (r.field.bytes ++ r.pad)

/-- A GetEvByName payload. -/
structure GetRequest where
  field : NameField
  pad : Bytes

def GetRequest.bytes (r : GetRequest) : Bytes := r.field.bytes ++ r.pad

/-- The set path stores under the key of the field, whatever the last byte is. -/
theorem SetRequest.setDeleteEv_eq (r : SetRequest) (io : SaveIo) (st : EvStorage) :
    setDeleteEv io st r.bytes =
      (if (st.set io r.field.key r.data).1 then .success else .nameTooLong,
        (st.set io r.field.key r.data).2) := by
  have hfour : (r.flags :: r.reserved).length = 4 := by
    rw [List.length_cons, r.reserved_length]
  -- the four fields of the layout, each read back from its offset
  have hname : ((r.bytes.drop 4).take (maxEvNameLen - 1))
      = r.field.bytes.take (maxEvNameLen - 1) := by
    rw [bytes, ← hfour, List.drop_left, List.take_append_of_le_length]
    rw [r.field.length_eq]
    omega
  have hlen : (r.bytes.drop (4 + maxEvNameLen)).take 2 = ofLE 2 r.data.length := by
    rw [bytes, ← List.append_assoc]
    refine slice_block ?_ (ofLE_length 2 _)
    rw [List.length_append, hfour, r.field.length_eq]
  have hdata : (r.bytes.drop (4 + maxEvNameLen + 2)).take r.data.length = r.data := by
    rw [bytes, ← List.append_assoc, ← List.append_assoc]
    refine slice_block ?_ rfl
    rw [List.length_append, List.length_append, hfour, r.field.length_eq, ofLE_length]
  have htotal : r.bytes.length
      = 4 + maxEvNameLen + 2 + r.data.length + r.pad.length := by
    rw [bytes, List.length_append, hfour, List.length_append, r.field.length_eq, List.length_append,
      ofLE_length, List.length_append]
    omega
  have hvalue : toLE (ofLE 2 r.data.length) = r.data.length := by
    have := r.data_le
    rw [maxEvDataSize] at this
    exact toLE_ofLE_of_lt (by omega)
  have hflags : r.bytes.getD 0 0 = r.flags := rfl
  have hpos := r.data_pos
  rw [setDeleteEv]
  simp only [hflags, r.no_deleteAll, r.no_delete, r.set_flag, ne_eq, not_true_eq_false,
    not_false_eq_true, if_false, if_true, hname, hlen, hvalue,
    if_neg (show ¬r.bytes.length < 4 + maxEvNameLen + 2 by omega),
    if_neg (Nat.not_lt.mpr r.data_le), if_neg (show ¬r.data.length = 0 by omega),
    if_neg (show ¬r.bytes.length < 4 + maxEvNameLen + 2 + r.data.length by omega), hdata]
  rfl

/-- The delete path rejects an unterminated field. -/
theorem DeleteRequest.setDeleteEv_eq (r : DeleteRequest) (io : SaveIo) (st : EvStorage) :
    setDeleteEv io st r.bytes =
      if r.field.lastByte ≠ 0 then (.nameTooLong, st)
      else
        (if (st.del io r.field.key).1 then .success else .deviceError,
          (st.del io r.field.key).2) := by
  have hfour : (r.flags :: r.reserved).length = 4 := by
    rw [List.length_cons, r.reserved_length]
  have hdrop : r.bytes.drop 4 = r.field.bytes ++ r.pad := by
    rw [bytes, ← hfour, List.drop_left]
  have hregion : (r.bytes.drop 4).take maxEvNameLen = r.field.bytes := by
    rw [hdrop, ← r.field.length_eq, List.take_left]
  have hlast : r.field.bytes.getLastD 0 = r.field.lastByte := by
    rw [List.getLastD_eq_getLast?, List.getLast?_eq_getElem?, r.field.length_eq, NameField.lastByte,
      List.getD_eq_getElem?_getD]
  have hlen : ¬r.bytes.length < 4 + maxEvNameLen := by
    rw [bytes, List.length_append, hfour, List.length_append, r.field.length_eq]
    omega
  have hflags : r.bytes.getD 0 0 = r.flags := rfl
  rw [setDeleteEv]
  simp only [hflags, r.no_deleteAll, r.delete_flag, ne_eq, not_true_eq_false, not_false_eq_true,
    if_false, if_true, if_neg hlen, hregion, hlast]
  split
  · rfl
  · next h => rw [hdrop, NameField.cstr_bytes_append (not_not.mp h)]

/-- The get path rejects an unterminated field. -/
theorem GetRequest.handleGetEvByName_eq (r : GetRequest) (st : EvStorage) (hdr : ChifPktHeader)
    (response : Bytes) :
    handleGetEvByName (some st) hdr r.bytes response =
      if r.field.lastByte ≠ 0 then buildSimpleResponse hdr response (ev .nameTooLong)
      else
        match st.getByName r.field.key with
        | none => buildSimpleResponse hdr response (ev .noSuchEv)
        | some e => buildEvDataResponse hdr response e := by
  have hlt : maxEvNameLen - 1 < r.field.bytes.length := by
    rw [r.field.length_eq, maxEvNameLen]
    omega
  have hlen : ¬r.bytes.length < maxEvNameLen := by
    rw [bytes, List.length_append, r.field.length_eq]
    omega
  have hlast : r.bytes.getD (maxEvNameLen - 1) 0 = r.field.lastByte := by
    rw [bytes, NameField.lastByte, List.getD_append _ _ _ _ hlt]
  have htake : r.bytes.take (maxEvNameLen - 1) = r.field.bytes.take (maxEvNameLen - 1) := by
    rw [bytes, List.take_append_of_le_length (Nat.le_of_lt hlt)]
  rw [handleGetEvByName, if_neg hlen]
  simp only [hlast, htake]
  rfl

end Chif
