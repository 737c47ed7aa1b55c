/-
Transport padding.

The kernel delivers packets in whole 8-byte words and the daemon hands a handler
the length delivered, not the `pktSize` of the header, so a request may be
followed by bytes that are not part of it.  The handlers take their extents from
the counts and lengths the request declares.

* `smifComplete`, `romComplete` — the request is all there;
* `padding_harmless` — then nothing behind it matters.
-/
import Canopy.SmbiosSession
import Canopy.SmifService
import Mathlib.Data.List.GetD

namespace Chif

open Bytes

/-! ### Complete requests -/

/-- A SetDeleteEv payload carries all its flags call for. -/
def setDeleteComplete (p : Bytes) : Prop :=
  4 ≤ p.length ∧
    if p.getD 0 0 &&& evFlagDeleteAll ≠ 0 then True
    else if p.getD 0 0 &&& evFlagDelete ≠ 0 then 4 + maxEvNameLen ≤ p.length
    else if p.getD 0 0 &&& evFlagSet ≠ 0 then
      4 + maxEvNameLen + 2 + toLE ((p.drop (4 + maxEvNameLen)).take 2) ≤ p.length
    else True

/-- An I2C payload carries its fixed part and the bytes to write. -/
def i2cComplete (p : Bytes) : Prop :=
  17 ≤ p.length ∧ (0 < p.getD 15 0 → 17 + (p.getD 15 0).toNat ≤ p.length)

/-- The payload of a SMIF request is all there. -/
structure smifComplete (command : UInt16) (p : Bytes) : Prop where
  byIndex : command = smifCmdGetEvByIndex → 4 ≤ p.length
  byName : command = smifCmdGetEvByName → maxEvNameLen ≤ p.length
  setDelete : command = smifCmdSetDeleteEv → setDeleteComplete p
  i2c : command = smifCmdI2cTransaction → i2cComplete p

/-- The payload starts with a blob of as many non-empty records as it declares. -/
def blobComplete (p : Bytes) : Prop :=
  ∃ (rs : List SmbiosRecord) (rest : Bytes), rs.length < 2 ^ 32 ∧
    p = ofLE 4 rs.length ++ (rs.flatMap SmbiosRecord.sized ++ rest)

/-- The payload of a ROM request is all there. -/
def romComplete (command : UInt16) (p : Bytes) : Prop :=
  command = romCmdRecord ∨ command = romCmdBlob → blobComplete p

/-! ### Packets -/

/-- Padding keeps a length check satisfied. -/
theorem not_append_lt {p : Bytes} {n : ℕ} (h : n ≤ p.length) (pad : Bytes) :
    ¬(p ++ pad).length < n := by
  rw [List.length_append]
  omega

private theorem parseHeader_append_pad {request : Bytes} (h : headerBytes ≤ request.length)
    (pad : Bytes) :
    parseHeader (request ++ pad) = parseHeader request := by
  rw [← parseHeader_take (request ++ pad), List.take_append_of_le_length h, parseHeader_take]

private theorem payload_append_pad {request : Bytes} (h : headerBytes ≤ request.length)
    (pad : Bytes) :
    payload (request ++ pad) = payload request ++ pad := by
  have hdrop : ∀ bs : Bytes, payload bs = bs.drop headerBytes := by
    intro bs
    rw [payload]
    split
    · next hle => rw [List.drop_of_length_le hle]
    · rfl
  rw [hdrop, hdrop, List.drop_append_of_le_length h]

private theorem u16At_append_pad {p : Bytes} {off : ℕ} (h : off + 2 ≤ p.length) (pad : Bytes) :
    u16At (p ++ pad) off = u16At p off := by
  rw [u16At, u16At, slice_append h]

/-! ### SMIF -/

private theorem handleGetEvByIndex_pad (evStorage : Option EvStorage) (hdr : ChifPktHeader)
    {p : Bytes}
    (h : 4 ≤ p.length) (pad response : Bytes) :
    handleGetEvByIndex evStorage hdr (p ++ pad) response
      = handleGetEvByIndex evStorage hdr p response := by
  simp only [handleGetEvByIndex, if_neg (not_append_lt h pad), if_neg (Nat.not_lt.mpr h),
    List.take_append_of_le_length h]

private theorem handleGetEvByName_pad (evStorage : Option EvStorage) (hdr : ChifPktHeader)
    {p : Bytes}
    (h : maxEvNameLen ≤ p.length) (pad response : Bytes) :
    handleGetEvByName evStorage hdr (p ++ pad) response
      = handleGetEvByName evStorage hdr p response := by
  have hname : maxEvNameLen = 32 := rfl
  have hlast : (p ++ pad).getD (maxEvNameLen - 1) 0 = p.getD (maxEvNameLen - 1) 0 :=
    List.getD_append p pad 0 _ (by omega)
  have hbuf : (p ++ pad).take (maxEvNameLen - 1) = p.take (maxEvNameLen - 1) :=
    List.take_append_of_le_length (by omega)
  simp only [handleGetEvByName, if_neg (not_append_lt h pad), if_neg (Nat.not_lt.mpr h), hlast,
    hbuf]

private theorem setDeleteEv_pad (io : SaveIo) (st : EvStorage) {p : Bytes} (h : setDeleteComplete p)
    (pad : Bytes) : setDeleteEv io st (p ++ pad) = setDeleteEv io st p := by
  obtain ⟨h4, hflags⟩ := h
  have hname : maxEvNameLen = 32 := rfl
  have hflag : (p ++ pad).getD 0 0 = p.getD 0 0 := List.getD_append p pad 0 0 (by omega)
  simp only [setDeleteEv, hflag]
  refine ite_congr rfl (fun _ => rfl) fun hall => ?_
  rw [if_neg hall] at hflags
  refine ite_congr rfl (fun hdel => ?_) fun hdel => ?_
  · -- delete: the name region is inside the payload, and so is its NUL
    rw [if_pos hdel] at hflags
    have hregion : maxEvNameLen ≤ (p.drop 4).length := by
      rw [List.length_drop]
      omega
    rw [if_neg (not_append_lt hflags pad), if_neg (Nat.not_lt.mpr hflags), slice_append hflags]
    refine ite_congr rfl (fun _ => rfl) fun hlast => ?_
    have hnul := nul_mem_of_getLastD (by decide) hregion (not_not.mp hlast)
    rw [List.drop_append_of_le_length h4, cstr_append_of_nul_mem hnul]
  · rw [if_neg hdel] at hflags
    refine ite_congr rfl (fun hset => ?_) fun _ => rfl
    -- set: name, length field and data are inside the payload
    rw [if_pos hset] at hflags
    have hfixed : 4 + maxEvNameLen + 2 ≤ p.length := by omega
    have hnamebuf : ((p ++ pad).drop 4).take (maxEvNameLen - 1)
        = (p.drop 4).take (maxEvNameLen - 1) := slice_append (by omega) pad
    have hdatalen : ((p ++ pad).drop (4 + maxEvNameLen)).take 2
        = (p.drop (4 + maxEvNameLen)).take 2 := slice_append (by omega) pad
    rw [if_neg (not_append_lt hfixed pad), if_neg (Nat.not_lt.mpr hfixed), hnamebuf, hdatalen,
      slice_append hflags, if_neg (not_append_lt hflags pad), if_neg (Nat.not_lt.mpr hflags)]

private theorem handleSetDeleteEv_pad (io : SaveIo) (evStorage : Option EvStorage)
    (hdr : ChifPktHeader)
    {p : Bytes} (h : setDeleteComplete p) (pad response : Bytes) :
    handleSetDeleteEv io evStorage hdr (p ++ pad) response
      = handleSetDeleteEv io evStorage hdr p response := by
  simp only [handleSetDeleteEv, if_neg (not_append_lt h.1 pad), if_neg (Nat.not_lt.mpr h.1),
    setDeleteEv_pad io _ h]

private theorem handleI2cProxy_pad (segmentToBus : UInt8 → Option ℤ) (kernel : I2cOutcome)
    (hdr : ChifPktHeader) {p : Bytes} (h : i2cComplete p) (pad response : Bytes) :
    handleI2cProxy segmentToBus kernel hdr (p ++ pad) response
      = handleI2cProxy segmentToBus kernel hdr p response := by
  obtain ⟨h17, hwrite⟩ := h
  rw [UInt8.pos_iff_ne_zero] at hwrite
  have hlength : (p ++ pad).length = p.length + pad.length := List.length_append
  have haddr : u16At (p ++ pad) 12 = u16At p 12 := u16At_append_pad (by omega) pad
  have hbyte : ∀ i, i < 17 → (p ++ pad).getD i 0 = p.getD i 0 :=
    fun i hi => List.getD_append p pad 0 i (by omega)
  have hdata : ((p ++ pad).drop 17).take (p.getD 15 0).toNat
      = (p.drop 17).take (p.getD 15 0).toNat := by
    by_cases hzero : p.getD 15 0 = 0
    · rw [hzero]
      rfl
    · exact slice_append (hwrite hzero) pad
  have hfits : ∀ n, p.length ≤ n →
      ¬((p.getD 15 0).toNat > 0 ∧ (p.getD 15 0).toNat > n - 17) := by
    rintro n hn ⟨hpos, hgt⟩
    have hne : p.getD 15 0 ≠ 0 := by
      intro hzero
      rw [hzero] at hpos
      exact absurd hpos (by decide)
    have := hwrite hne
    omega
  have hlen : ∀ n, p.length ≤ n → ¬n < 17 := fun n hn => by omega
  have hle : p.length ≤ p.length + pad.length := Nat.le_add_right _ _
  simp only [handleI2cProxy, hbyte 14 (by omega), hbyte 15 (by omega), hbyte 16 (by omega), haddr,
    hdata, hlength, if_neg (hfits _ hle), if_neg (hfits _ le_rfl), if_neg (hlen _ hle),
    if_neg (hlen _ le_rfl)]

/-- **Padding behind a complete SMIF request changes nothing.** -/
theorem SmifService.handle_pad (svc : SmifService) (env : SmifEnv) {request : Bytes}
    (hreq : headerBytes ≤ request.length)
    (h : smifComplete (parseHeader request).command (payload request)) (pad response : Bytes) :
    svc.handle env (request ++ pad) response = svc.handle env request response := by
  simp only [handle, if_neg (not_append_lt hreq pad), if_neg (Nat.not_lt.mpr hreq),
    parseHeader_append_pad hreq, payload_append_pad hreq]
  refine ite_congr rfl (fun _ => rfl) fun _ => ?_
  refine ite_congr rfl (fun hc => ?_) fun _ => ?_
  · rw [handleGetEvByIndex_pad _ _ (h.byIndex hc)]
  refine ite_congr rfl (fun hc => ?_) fun _ => ?_
  · rw [handleSetDeleteEv_pad _ _ _ (h.setDelete hc)]
  refine ite_congr rfl (fun hc => ?_) fun _ => ?_
  · rw [handleGetEvByName_pad _ _ (h.byName hc)]
  refine ite_congr rfl (fun _ => rfl) fun _ => ?_
  refine ite_congr rfl (fun _ => rfl) fun _ => ?_
  refine ite_congr rfl (fun _ => rfl) fun _ => ?_
  refine ite_congr rfl (fun hc => ?_) fun _ => rfl
  rw [handleI2cProxy_pad _ _ _ (h.i2c hc)]

/-! ### ROM and Health -/

/-- The loop stops at the declared count, so it never looks behind the records. -/
theorem addRecords_pad (n : ℕ) : ∀ {rs : List SmbiosRecord} (pre rest rest' acc : Bytes),
    n ≤ rs.length →
      addRecords n (pre ++ (rs.flatMap SmbiosRecord.sized ++ rest)) pre.length acc
        = addRecords n (pre ++ (rs.flatMap SmbiosRecord.sized ++ rest')) pre.length acc := by
  induction n with
  | zero =>
    intro rs pre rest rest' acc _
    rfl
  | succ n ih =>
    intro rs pre rest rest' acc hn
    cases rs with
    | nil => exact absurd hn (Nat.not_succ_le_zero n)
    | cons r rs =>
      have hn : n ≤ rs.length := Nat.le_of_succ_le_succ hn
      rw [List.flatMap_cons, List.append_assoc, List.append_assoc, addRecords_cons,
        addRecords_cons, ih (pre ++ r.sized) rest rest' (acc ++ r.bytes) hn]

theorem SmbiosWriter.addRecord_pad (w : SmbiosWriter) {p : Bytes} (h : blobComplete p)
    (pad : Bytes) : w.addRecord (p ++ pad) = w.addRecord p := by
  obtain ⟨rs, rest, hcount, rfl⟩ := h
  have hlt : rs.length < 256 ^ 4 := hcount
  have htake : ∀ tail : Bytes, toLE ((ofLE 4 rs.length ++ tail).take 4) = rs.length := by
    intro tail
    rw [List.take_append_of_le_length (by rw [ofLE_length]),
      List.take_of_length_le (by rw [ofLE_length]), toLE_ofLE_of_lt hlt]
  have hcut : ofLE 4 rs.length ++ (rs.flatMap SmbiosRecord.sized ++ rest) ++ pad
      = ofLE 4 rs.length ++ (rs.flatMap SmbiosRecord.sized ++ (rest ++ pad)) := by
    rw [List.append_assoc, List.append_assoc]
  rw [hcut]
  -- an empty blob leaves the writer alone; any other is long enough for its first record
  rcases rs with _ | ⟨r, rs⟩
  · have hempty : ∀ tail : Bytes, w.addRecord (ofLE 4 ([] : List SmbiosRecord).length ++ tail)
        = w := by
      intro tail
      rw [addRecord]
      split
      · rfl
      · dsimp only
        rw [htake]
        rfl
    rw [hempty, hempty]
  · have hlong : ∀ tail : Bytes, ¬(ofLE 4 (r :: rs).length ++
        ((r :: rs).flatMap SmbiosRecord.sized ++ tail)).length < 6 := by
      intro tail
      rw [List.flatMap_cons, List.length_append, List.length_append, List.length_append,
        ofLE_length, sized_length]
      omega
    have hn : (if (r :: rs).length > maxRecordsPerBlob then maxRecordsPerBlob
        else (r :: rs).length) ≤ (r :: rs).length := by
      split <;> omega
    have hloop := addRecords_pad _ (ofLE 4 (r :: rs).length) (rest ++ pad) rest w.records hn
    rw [ofLE_length] at hloop
    rw [addRecord, addRecord, if_neg (hlong _), if_neg (hlong _)]
    dsimp only
    rw [htake, htake, hloop]

theorem RomService.addPayload_pad (svc : RomService) (hdr : ChifPktHeader) {request : Bytes}
    (hreq : headerBytes ≤ request.length) (h : blobComplete (payload request))
    (pad response : Bytes) :
    svc.addPayload hdr (request ++ pad) response = svc.addPayload hdr request response := by
  have hne : payload request ≠ [] := by
    obtain ⟨rs, rest, -, hp⟩ := h
    intro hnil
    have hlen := congrArg List.length (hp.symm.trans hnil)
    rw [List.length_append, ofLE_length, List.length_nil] at hlen
    omega
  have hne' : payload request ++ pad ≠ [] := fun hnil => hne (List.append_eq_nil_iff.mp hnil).1
  simp only [addPayload, payload_append_pad hreq, if_neg hne, if_neg hne',
    svc.writer.addRecord_pad h]

/-- **Padding behind a complete ROM request changes nothing.** -/
theorem RomService.handle_pad (svc : RomService) (io : FinalizeIo) {request : Bytes}
    (hreq : headerBytes ≤ request.length)
    (h : romComplete (parseHeader request).command (payload request)) (pad response : Bytes) :
    svc.handle io (request ++ pad) response = svc.handle io request response := by
  simp only [handle, handleRecord, handleBlob, if_neg (not_append_lt hreq pad),
    if_neg (Nat.not_lt.mpr hreq), parseHeader_append_pad hreq]
  refine ite_congr rfl (fun _ => rfl) fun _ => ?_
  refine ite_congr rfl (fun hc => ?_) fun _ => ?_
  · exact svc.addPayload_pad _ hreq (h (Or.inl hc)) pad response
  refine ite_congr rfl (fun _ => rfl) fun _ => ?_
  refine ite_congr rfl (fun _ => rfl) fun _ => ?_
  refine ite_congr rfl (fun _ => rfl) fun _ => ?_
  exact ite_congr rfl (fun hc => svc.addPayload_pad _ hreq (h (Or.inr hc)) pad response)
    fun _ => rfl

private theorem healthHandle_pad {request : Bytes} (hreq : headerBytes ≤ request.length)
    (pad response : Bytes) :
    healthHandle (request ++ pad) response = healthHandle request response := by
  simp only [healthHandle, if_neg (not_append_lt hreq pad), if_neg (Nat.not_lt.mpr hreq),
    parseHeader_append_pad hreq]

/-! ### The contract -/

/-- **Transport padding is harmless.**  In every state, bytes behind a request
that is all there change neither the answer nor the state nor what the handler
does to the outside. -/
theorem padding_harmless (request pad response : Bytes) (hreq : headerBytes ≤ request.length) :
    (∀ (svc : SmifService) (env : SmifEnv),
      smifComplete (parseHeader request).command (payload request) →
        svc.handle env (request ++ pad) response = svc.handle env request response) ∧
    (∀ (svc : RomService) (io : FinalizeIo),
      romComplete (parseHeader request).command (payload request) →
        svc.handle io (request ++ pad) response = svc.handle io request response) ∧
    healthHandle (request ++ pad) response = healthHandle request response :=
  ⟨fun svc env h => svc.handle_pad env hreq h pad response,
    fun svc io h => svc.handle_pad io hreq h pad response, healthHandle_pad hreq pad response⟩

/-- A record packet with the blob of one record, padded to whole words. -/
theorem padding_harmless_oneRecord :
    let record : Bytes := [1, 4, 0, 0]
    let request := (ChifPktHeader.mk 18 1 romCmdRecord 2 1).bytes ++
      (ofLE 4 1 ++ (ofLE 2 4 ++ record))
    let svc := RomService.boot none none true
    let io : FinalizeIo := .flushing 0
    svc.handle io (request ++ [7, 7, 7, 7, 7, 7]) (List.replicate 64 0)
      = svc.handle io request (List.replicate 64 0) := by
  have hblob : blobComplete (ofLE 4 1 ++ (ofLE 2 4 ++ [1, 4, 0, 0])) :=
    ⟨[⟨[1, 4, 0, 0], by decide, by decide⟩], [], by decide, rfl⟩
  refine (padding_harmless _ _ _ (by decide)).2.1 _ _ fun _ => ?_
  rw [payload_append]
  exact hblob

end Chif
