/-
Every handler of the three services frames its answers.

* `SmifService.handle_frames`, `RomService.handle_frames`, `healthHandle_frames`
  — one theorem a service, from one lemma a handler;
* `responses_carry_no_stale_bytes` — the daemon reuses one response buffer
  across services, and nothing of an earlier packet gets out.
-/
import Canopy.Framing
import Canopy.RomService
import Canopy.SmifFields
import Canopy.SmifRoundTrip

namespace Chif

open Bytes

/-! ### Handler states -/

/-- The states a SMIF handler can be in: without a store, or with a store that
`load()` and mutator calls have produced. -/
def SmifService.Reached (svc : SmifService) : Prop :=
  ∀ st, svc.evStorage = some st → st.Reachable

theorem EvStorage.Reachable.bounded {st : EvStorage} (h : st.Reachable) : Bounded st.entries := by
  obtain ⟨opened, file, calls, rfl⟩ := h
  exact EvStorage.bounded_after opened file calls

theorem EvStorage.Reachable.mutate {st : EvStorage} (h : st.Reachable) (io : SaveIo) (op : EvOp) :
    (st.mutate io op).2.Reachable := by
  obtain ⟨opened, file, calls, rfl⟩ := h
  exact ⟨opened, file, calls ++ [(op, io)], by
    rw [EvStorage.after, EvStorage.after, Run.run_append]; rfl⟩

theorem SmifService.reached_boot (opened : Bool) (file : Option Bytes)
    (segmentToBus : UInt8 → Option ℤ) : (SmifService.boot opened file segmentToBus).Reached := by
  intro st hst
  obtain rfl := Option.some_inj.mp hst
  exact ⟨opened, file, [], rfl⟩

/-- Handlers stay in these states, whatever they are sent. -/
theorem SmifService.Reached.handle {svc : SmifService} (h : svc.Reached) (env : SmifEnv)
    (request response : Bytes) : (svc.handle env request response).service.Reached := by
  intro st' hst'
  cases hst : svc.evStorage with
  | none =>
    rcases svc.handle_service env request response with hsame | hset
    · rw [hsame, hst] at hst'
      exact (nomatch hst')
    · rw [hset, hst] at hst'
      exact (nomatch hst')
  | some st =>
    rcases svc.handle_touchesOnce env request response hst with hsame | ⟨op, -, hmut⟩
    · obtain rfl := Option.some_inj.mp (hsame.symm.trans hst')
      exact h _ hst
    · obtain rfl := Option.some_inj.mp (hmut.symm.trans hst')
      exact (h st hst).mutate env.saveIo op

/-- What the lookups return keeps the bounds of the store. -/
theorem data_le_of_getByIndex {st : EvStorage} (h : Bounded st.entries) {index : ℕ} {e : EvEntry}
    (he : st.getByIndex index = some e) : e.data.length ≤ maxEvDataSize := by
  rw [EvStorage.getByIndex] at he
  split at he
  · exact (nomatch he)
  · exact h.data_le e (List.mem_of_getElem? he)

theorem data_le_of_getByName {st : EvStorage} (h : Bounded st.entries) {name : Bytes} {e : EvEntry}
    (he : st.getByName name = some e) : e.data.length ≤ maxEvDataSize :=
  h.data_le e (OrderedMap.mem_of_find he)

/-! ### SMIF -/

section Smif

variable {σ : Type*} (hdr : ChifPktHeader) (n : ℕ) (s : σ)

theorem frames_buildSimpleResponse (errorCode : ℕ) :
    Frames (responseHeader hdr) n fun response =>
      (buildSimpleResponse hdr response errorCode, s) := by
  by_cases hn : n < 12
  · refine ⟨none, s, fun _ hb => (nomatch hb), fun response hresp => ?_⟩
    have hlt : response.length < (UInt16.ofNat (headerBytes + 4)).toNat := lt_of_eq_of_lt hresp hn
    exact congrArg (·, s) (if_pos hlt)
  · refine ⟨some (ofLE 4 errorCode), s, fun b hb => ?_, fun response hresp => ?_⟩
    · obtain rfl := Option.some_inj.mp hb
      exact ⟨by rw [ofLE_length]; exact not_lt.mp hn, by rw [ofLE_length]; decide⟩
    · have hsize : headerBytes + (ofLE 4 errorCode).length = 12 := by rw [ofLE_length]; rfl
      have hlen : 12 ≤ response.length := by omega
      show (buildSimpleResponse hdr response errorCode, s) = _
      rw [buildSimpleResponse_eq hdr errorCode hlen, framed, hsize, simplePacket,
        List.append_assoc]
      rfl

/-- No size of a stored value is truncated by the 16-bit size field. -/
theorem evData_size {e : EvEntry} (he : e.data.length ≤ maxEvDataSize) :
    (UInt16.ofNat (headerBytes + (4 + maxEvNameLen + 2 +
      if e.data = [] then 4 else e.data.length))).toNat
      = headerBytes + (4 + maxEvNameLen + 2 + if e.data = [] then 4 else e.data.length) := by
  refine UInt16.toNat_ofNat_of_lt' ?_
  simp only [headerBytes, maxEvNameLen, maxEvDataSize, UInt16.size] at he ⊢
  split <;> omega

private theorem frames_buildEvDataResponse {e : EvEntry} (he : e.data.length ≤ maxEvDataSize) :
    Frames (responseHeader hdr) n fun response => (buildEvDataResponse hdr response e, s) := by
  have hsize := evData_size he
  set m := 4 + maxEvNameLen + 2 + if e.data = [] then 4 else e.data.length with hm
  have hH : ∀ w, (responseHeader hdr w).bytes.length = headerBytes :=
    fun w => ChifPktHeader.bytes_length _
  have hname : 4 + (e.name.take (min e.name.length (maxEvNameLen - 1))).length ≤ m := by
    rw [List.length_take, hm, maxEvNameLen]
    omega
  have hlen : 4 + maxEvNameLen + (ofLE 2 (UInt16.ofNat
      (if e.data = [] then 4 else e.data.length)).toNat).length ≤ m := by
    rw [ofLE_length, hm]
    omega
  refine Frames.short_answer (fun _ => frames_buildSimpleResponse hdr n s 3) fun hn => ?_
  have hn : headerBytes + m ≤ n := hsize.symm.trans_le hn
  refine Fills.frames ?_ hsize hn s
  have hfields := ((fills_init hdr hsize n).write (hH _) hname).write (hH _) hlen
  refine Fills.ite (fun _ => hfields) fun hdata => hfields.write (hH _) ?_
  rw [hm, if_neg hdata]

private theorem frames_handleGetEvByIndex {evStorage : Option EvStorage}
    (h : ∀ st, evStorage = some st → Bounded st.entries) (reqPayload : Bytes) :
    Frames (responseHeader hdr) n fun response =>
      (handleGetEvByIndex evStorage hdr reqPayload response, s) := by
  cases evStorage with
  | none => exact frames_buildSimpleResponse hdr n s _
  | some st =>
    by_cases hlen : reqPayload.length < 4
    · simpa only [handleGetEvByIndex, if_pos hlen] using frames_buildSimpleResponse hdr n s _
    · simp only [handleGetEvByIndex, if_neg hlen]
      cases hget : st.getByIndex (toLE (reqPayload.take 4)) with
      | none => exact frames_buildSimpleResponse hdr n s _
      | some e =>
        exact frames_buildEvDataResponse hdr n s (data_le_of_getByIndex (h st rfl) hget)

private theorem frames_handleGetEvByName {evStorage : Option EvStorage}
    (h : ∀ st, evStorage = some st → Bounded st.entries) (reqPayload : Bytes) :
    Frames (responseHeader hdr) n fun response =>
      (handleGetEvByName evStorage hdr reqPayload response, s) := by
  by_cases hlen : reqPayload.length < maxEvNameLen
  · simpa only [handleGetEvByName, if_pos hlen] using frames_buildSimpleResponse hdr n s _
  · simp only [handleGetEvByName, if_neg hlen]
    cases evStorage with
    | none => exact frames_buildSimpleResponse hdr n s _
    | some st =>
      by_cases hnul : reqPayload.getD (maxEvNameLen - 1) 0 ≠ 0
      · simpa only [if_pos hnul] using frames_buildSimpleResponse hdr n s _
      · simp only [if_neg hnul]
        cases hget : st.getByName (cstr (padTo maxEvNameLen
            (reqPayload.take (maxEvNameLen - 1)))) with
        | none => exact frames_buildSimpleResponse hdr n s _
        | some e =>
          exact frames_buildEvDataResponse hdr n s (data_le_of_getByName (h st rfl) hget)

/-- The answer is a plain one and the new store does not depend on the buffer. -/
theorem frames_handleSetDeleteEv (io : SaveIo) (evStorage : Option EvStorage)
    (reqPayload : Bytes) :
    Frames (responseHeader hdr) n fun response =>
      handleSetDeleteEv io evStorage hdr reqPayload response := by
  cases evStorage with
  | none => exact frames_buildSimpleResponse hdr n none _
  | some st =>
    simp only [handleSetDeleteEv]
    exact Frames.ite (fun _ => frames_buildSimpleResponse hdr n _ _)
      fun _ => frames_buildSimpleResponse hdr n _ _

private theorem frames_handleEvStats (evStorage : Option EvStorage) :
    Frames (responseHeader hdr) n fun response => (handleEvStats evStorage hdr response, s) := by
  refine Frames.short_answer (fun _ => frames_none s) fun hn => ?_
  refine Fills.frames (m := 12) ?_ rfl hn s
  have hH := ChifPktHeader.bytes_length (responseHeader hdr (UInt16.ofNat (headerBytes + 12)))
  refine (((fills_init hdr rfl n).write hH ?_).write hH ?_).write hH ?_
  · rw [ofLE_length]
    decide
  · rw [ofLE_length]
    decide
  · rw [ofLE_length]

private theorem frames_handleEvState :
    Frames (responseHeader hdr) n fun response => (handleEvState hdr response, s) := by
  refine Frames.short_answer (fun _ => frames_none s) fun hn => ?_
  refine Fills.frames (m := 8) ?_ rfl hn s
  exact (fills_init hdr rfl n).write (ChifPktHeader.bytes_length _) (by rw [ofLE_length])

private theorem frames_handleGetEvAuthStatus :
    Frames (responseHeader hdr) n fun response => (handleGetEvAuthStatus hdr response, s) := by
  refine Frames.short_answer (fun _ => frames_none s) fun hn => ?_
  refine Fills.frames (m := 124) ?_ rfl hn s
  have hH := ChifPktHeader.bytes_length (responseHeader hdr (UInt16.ofNat (headerBytes + 124)))
  refine ((fills_init hdr rfl n).write hH ?_).write hH ?_
  · rw [ofLE_length]
    decide
  · decide

private theorem frames_handlePlatDefDownload :
    Frames (responseHeader hdr) n fun response => (handlePlatDefDownload hdr response, s) := by
  refine Frames.short_answer (fun _ => frames_buildSimpleResponse hdr n s 1) fun hn => ?_
  refine Fills.frames (m := 4024) ?_ rfl hn s
  refine (fills_init hdr rfl n).write (ChifPktHeader.bytes_length _) ?_
  rw [ofLE_length]
  decide

/-- Every branch of the I2C proxy, before and after the transfer. -/
theorem frames_handleI2cProxy (segmentToBus : UInt8 → Option ℤ) (kernel : I2cOutcome)
    (reqPayload : Bytes) :
    Frames (responseHeader hdr) n fun response =>
      handleI2cProxy segmentToBus kernel hdr reqPayload response := by
  refine Frames.short (fun _ => frames_none none) fun hn => ?_
  have hH := ChifPktHeader.bytes_length (responseHeader hdr (UInt16.ofNat (headerBytes + 49)))
  have hsize : (UInt16.ofNat (headerBytes + 49)).toNat = headerBytes + 49 := rfl
  have hinit := fills_init hdr hsize n
  have hfail : ∀ {f} (err : ℕ) (transfer : Option I2cTransfer),
      Fills (responseHeader hdr (UInt16.ofNat (headerBytes + 49))).bytes n 49 f →
      Frames (responseHeader hdr) n fun response =>
        (((UInt16.ofNat (headerBytes + 49)).toNat, writePayload (f response) 0 (ofLE 4 err)),
          transfer) := by
    intro f err transfer hf
    refine (hf.write hH ?_).frames rfl hn transfer
    rw [ofLE_length]
    decide
  -- too short a request is refused before its address is echoed
  refine Frames.ite (fun _ => hfail _ none hinit) fun _ => ?_
  have haddr : 12 + (ofLE 2 (u16At reqPayload 12).toNat).length ≤ 49 := by
    rw [ofLE_length]
    decide
  have hsegment : 14 + [reqPayload.getD 14 0].length ≤ 49 := by simp
  have hecho := (hinit.write hH haddr).write hH hsegment
  refine Frames.ite (fun _ => hecho.frames rfl hn none) fun _ => ?_
  -- from here on every failure carries the address and the segment
  refine Frames.ite (fun _ => hfail _ none hecho) fun hlens => ?_
  cases segmentToBus (reqPayload.getD 14 0) with
  | none => exact hfail _ none hecho
  | some busNum =>
    refine Frames.ite (fun _ => hfail _ none hecho) fun _ => ?_
    refine Frames.ite (fun _ => hfail _ none hecho) fun _ => ?_
    cases kernel with
    | openFails => exact hfail _ none hecho
    | ioctlFails err => exact hfail _ _ hecho
    | transferred readBuf =>
      have hbytes : 16 + [UInt8.ofNat (reqPayload.getD 16 0).toNat].length ≤ 49 := by simp
      have hread := hecho.write hH hbytes
      refine Fills.frames (Fills.ite (fun _ => hread.write hH ?_) fun _ => hread) rfl hn _
      rw [List.length_take]
      omega

/-- What a request does besides answering. -/
def SmifResult.effects (r : SmifResult) : SmifService × Option I2cTransfer := (r.service, r.i2c)

/-- **Every SMIF request is answered by a packet**, or not at all. -/
theorem SmifService.handle_frames {svc : SmifService} (h : svc.Reached) (env : SmifEnv)
    (request : Bytes) :
    Frames (responseHeader (parseHeader request)) n fun response =>
      ((svc.handle env request response).answer, (svc.handle env request response).effects) := by
  have hbounded : ∀ st, svc.evStorage = some st → Bounded st.entries :=
    fun st hst => (h st hst).bounded
  let pair : SmifResult → (ℤ × Bytes) × (SmifService × Option I2cTransfer) :=
    fun r => (r.answer, r.effects)
  show Frames _ n fun response => pair (svc.handle env request response)
  simp only [handle, apply_ite pair]
  refine Frames.ite (fun _ => frames_none (svc, none)) fun _ => ?_
  refine Frames.short (fun _ => frames_none (svc, none)) fun _ => ?_
  refine Frames.ite (fun _ => frames_handleGetEvByIndex _ n (svc, none) hbounded _) fun _ => ?_
  refine Frames.ite (fun _ => ?_) fun _ => ?_
  · exact (frames_handleSetDeleteEv _ n env.saveIo svc.evStorage _).map
      fun evStorage => ({ svc with evStorage := evStorage }, none)
  refine Frames.ite (fun _ => frames_handleGetEvByName _ n (svc, none) hbounded _) fun _ => ?_
  refine Frames.ite (fun _ => frames_handleEvStats _ n (svc, none) svc.evStorage) fun _ => ?_
  refine Frames.ite (fun _ => frames_handleEvState _ n (svc, none)) fun _ => ?_
  refine Frames.ite (fun _ => frames_handleGetEvAuthStatus _ n (svc, none)) fun _ => ?_
  refine Frames.ite (fun _ => ?_) fun _ => ?_
  · exact (frames_handleI2cProxy _ n svc.segmentToBus env.i2c _).map fun i2c => (svc, i2c)
  refine Frames.ite (fun _ => frames_handlePlatDefDownload _ n (svc, none)) fun _ => ?_
  exact frames_buildSimpleResponse _ n (svc, none) 0

end Smif

/-! ### ROM -/

section Rom

variable (hdr : ChifPktHeader) (n : ℕ)

theorem frames_buildHeaderOnlyResponse {σ : Type*} (s : σ) :
    Frames (romResponseHeader hdr) n fun response =>
      (buildHeaderOnlyResponse hdr response, s) := by
  refine Frames.short_answer (fun _ => frames_none s) fun hn => ?_
  refine Fills.frames (m := 0) ⟨[], rfl, fun response _ => ?_⟩ rfl hn s
  rw [initRomResponse, memcpyAt_zero, ChifPktHeader.bytes_length, List.nil_append]
  rfl

def RomResult.effects (r : RomResult) : RomService × Bool := (r.service, r.synchronized)

/-- The common body of the record and blob handlers. -/
theorem frames_addPayload (svc : RomService) (request : Bytes) :
    Frames (romResponseHeader hdr) n fun response =>
      ((svc.addPayload hdr request response).answer,
        (svc.addPayload hdr request response).effects) := by
  let pair : RomResult → (ℤ × Bytes) × (RomService × Bool) := fun r => (r.answer, r.effects)
  show Frames _ n fun response => pair (svc.addPayload hdr request response)
  simp only [RomService.addPayload, apply_ite pair]
  exact Frames.ite (fun _ => frames_buildHeaderOnlyResponse hdr n (svc, false))
    fun _ => frames_buildHeaderOnlyResponse hdr n
      ({ svc with writer := svc.writer.addRecord (payload request) }, false)

/-- **Every ROM request is answered by a bare header**, or not at all. -/
theorem RomService.handle_frames (svc : RomService) (io : FinalizeIo) (request : Bytes) :
    Frames (romResponseHeader (parseHeader request)) n fun response =>
      ((svc.handle io request response).answer, (svc.handle io request response).effects) := by
  let pair : RomResult → (ℤ × Bytes) × (RomService × Bool) := fun r => (r.answer, r.effects)
  show Frames _ n fun response => pair (svc.handle io request response)
  simp only [handle, apply_ite pair]
  refine Frames.ite (fun _ => frames_none (svc, false)) fun _ => ?_
  refine Frames.ite (fun _ => ?_) fun _ => ?_
  · exact frames_buildHeaderOnlyResponse _ n ({ svc with writer := svc.writer.begin }, false)
  refine Frames.ite (fun _ => frames_addPayload _ n svc request) fun _ => ?_
  refine Frames.ite (fun _ => ?_) fun _ => ?_
  · exact frames_buildHeaderOnlyResponse _ n ({ svc with writer := (svc.writer.finalize io).2 },
      (svc.writer.finalize io).1 && svc.mdrBridge)
  refine Frames.ite (fun _ => frames_buildHeaderOnlyResponse _ n (svc, false)) fun _ => ?_
  refine Frames.ite (fun _ => frames_buildHeaderOnlyResponse _ n (svc, false)) fun _ => ?_
  exact Frames.ite (fun _ => frames_addPayload _ n svc request) fun _ => frames_none (svc, false)

end Rom

/-! ### Health -/

/-- **Every Health request is answered by a packet**, or not at all. -/
theorem healthHandle_frames (n : ℕ) (request : Bytes) :
    Frames (responseHeader (parseHeader request)) n fun response =>
      (healthHandle request response, ()) := by
  by_cases hlen : request.length < headerBytes
  · simpa only [healthHandle, if_pos hlen] using frames_none ()
  · simp only [healthHandle, if_neg hlen]
    refine Frames.short_answer (fun _ => frames_none ()) fun hn => ?_
    exact (fills_init (parseHeader request) (m := 4) rfl n).frames rfl hn ()

/-! ### Reuse of the response buffer -/

/-- Two results of one handler put the same packet on the wire. -/
def SamePacket (r r' : ℤ × Bytes) : Prop := r.1 = r'.1 ∧ sent r = sent r'

/-- **Responses carry no stale bytes.**  On two response buffers of the same size, whatever
they hold, a handler returns the same value, sends the same bytes, and leaves
the same state behind. -/
theorem responses_carry_no_stale_bytes (request response response' : Bytes)
    (hlen : response.length = response'.length) :
    (∀ (svc : SmifService) (env : SmifEnv), svc.Reached →
      SamePacket (svc.handle env request response).answer
          (svc.handle env request response').answer ∧
        (svc.handle env request response).effects = (svc.handle env request response').effects) ∧
    (∀ (svc : RomService) (io : FinalizeIo),
      SamePacket (svc.handle io request response).answer
          (svc.handle io request response').answer ∧
        (svc.handle io request response).effects = (svc.handle io request response').effects) ∧
    SamePacket (healthHandle request response) (healthHandle request response') := by
  refine ⟨fun svc env h => ?_, fun svc io => ?_, ?_⟩
  · have hframes := SmifService.handle_frames response'.length h env request
    obtain ⟨hret, hsent, heff⟩ := hframes.sameAnswer hlen rfl
    exact ⟨⟨hret, hsent⟩, heff⟩
  · have hframes := svc.handle_frames response'.length io request
    obtain ⟨hret, hsent, heff⟩ := hframes.sameAnswer hlen rfl
    exact ⟨⟨hret, hsent⟩, heff⟩
  · obtain ⟨hret, hsent, -⟩ := (healthHandle_frames response'.length request).sameAnswer hlen rfl
    exact ⟨hret, hsent⟩

/-- A request for the entry `A`. -/
def getStored : Bytes :=
  (ChifPktHeader.mk 40 1 smifCmdGetEvByName 0 1).bytes ++ setA.field.bytes

theorem storedService_reached : storedService.Reached :=
  (SmifService.reached_boot true _ _).handle _ _ _

/-- The entry is sent alike from two buffers with different contents. -/
theorem responses_carry_no_stale_bytes_stored :
    errorCode (storedService.handle ⟨.ok, .openFails⟩ getStored (List.replicate 64 0xAA)).answer
        = some (ev .success) ∧
      SamePacket
        (storedService.handle ⟨.ok, .openFails⟩ getStored (List.replicate 64 0xAA)).answer
        (storedService.handle ⟨.ok, .openFails⟩ getStored (List.replicate 64 0x55)).answer :=
  ⟨by decide, ((responses_carry_no_stale_bytes getStored _ _ (by simp)).1 _ _
    storedService_reached).1⟩

end Chif
