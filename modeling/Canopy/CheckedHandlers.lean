/-
The handlers with every access to a buffer checked.

Each definition is the handler of the same name with the accesses of the C++
code to the request, to the response and to its local arrays written as
operations of `BoundedMem`, which fail outside the buffer.  The theorems `…_eq`
say that none of them fails: the checked handler gives what the plain one does.

* `responses_well_framed` — no handler leaves its buffers, and what it returns is
  a well-framed packet.
-/
import Canopy.BoundedMem
import Canopy.HandlerFraming

namespace Chif

open Bytes BoundedMem

namespace Checked

/-! ### Packet helpers -/

/-- The header of a packet of at least 8 bytes. -/
def parseHeader (buf : Bytes) : Option ChifPktHeader :=
  (load buf 0 headerBytes).map Chif.parseHeader

/-- The bytes behind the header. -/
def payload (pkt : Bytes) : Option Bytes :=
  if pkt.length ≤ headerBytes then some [] else subspan pkt headerBytes

/-- The header of a response, with the response bit. -/
def initResponse (resp : Bytes) (reqHdr : ChifPktHeader) (respSize : UInt16) : Option Bytes :=
  store resp 0 (responseHeader reqHdr respSize).bytes

/-- The header of a response of the ROM service. -/
def initRomResponse (resp : Bytes) (reqHdr : ChifPktHeader) (respSize : UInt16) : Option Bytes :=
  store resp 0 (romResponseHeader reqHdr respSize).bytes

/-- `std::memset` of the first `n` bytes. -/
def fillZero (resp : Bytes) (n : ℕ) : Option Bytes := store resp 0 (List.replicate n 0)

/-- `std::memcpy` to an offset of the payload. -/
def writePayload (resp : Bytes) (off : ℕ) (src : Bytes) : Option Bytes :=
  store resp (headerBytes + off) src

/-! ### SMIF -/

/-- `SmifService::buildSimpleResponse`. -/
def buildSimpleResponse (hdr : ChifPktHeader) (response : Bytes) (errorCode : ℕ) :
    Option (ℤ × Bytes) :=
  let respSize := UInt16.ofNat (headerBytes + 4)
  if response.length < respSize.toNat then some (-1, response)
  else do
    let resp ← initResponse response hdr respSize
    let resp ← writePayload resp 0 (ofLE 4 errorCode)
    some (respSize.toNat, resp)

/-- The name is copied without its terminator, into a response that was zeroed. -/
def buildEvDataResponse (hdr : ChifPktHeader) (response : Bytes) (e : EvEntry) :
    Option (ℤ × Bytes) :=
  let dataSize := if e.data = [] then 4 else e.data.length
  let payloadSize := 4 + maxEvNameLen + 2 + dataSize
  let respSize := UInt16.ofNat (headerBytes + payloadSize)
  if response.length < respSize.toNat then buildSimpleResponse hdr response 3
  else do
    let resp ← fillZero response respSize.toNat
    let resp ← initResponse resp hdr respSize
    let nameLen := min e.name.length (maxEvNameLen - 1)
    let resp ← writePayload resp 4 (e.name.take nameLen)
    let resp ← writePayload resp (4 + maxEvNameLen) (ofLE 2 (UInt16.ofNat dataSize).toNat)
    let resp ← if e.data = [] then some resp
      else writePayload resp (4 + maxEvNameLen + 2) e.data
    some (respSize.toNat, resp)

/-- `SmifService::handleGetEvByIndex`; the index is read after the check of the length. -/
def handleGetEvByIndex (evStorage : Option EvStorage) (hdr : ChifPktHeader)
    (reqPayload response : Bytes) : Option (ℤ × Bytes) :=
  match evStorage with
  | none => buildSimpleResponse hdr response (ev .deviceError)
  | some st =>
    if reqPayload.length < 4 then buildSimpleResponse hdr response (ev .deviceError)
    else do
      let index ← load reqPayload 0 4
      match st.getByIndex (toLE index) with
      | none => buildSimpleResponse hdr response (ev .noSuchEv)
      | some e => buildEvDataResponse hdr response e

/-- The store part of `handleSetDeleteEv`; names go through a local buffer of 32 bytes. -/
def setDeleteEv (io : SaveIo) (st : EvStorage) (reqPayload : Bytes) :
    Option (EvError × EvStorage) := do
  let flags ← byte reqPayload 0
  if flags &&& evFlagDeleteAll ≠ 0 then
    let r := st.deleteAll io
    some (if r.1 then .success else .nameTooLong, r.2)
  else if flags &&& evFlagDelete ≠ 0 then
    if reqPayload.length < 4 + maxEvNameLen then some (.noSuchEv, st)
    else
      let nameRegion ← load reqPayload 4 maxEvNameLen
      if nameRegion.getLastD 0 ≠ 0 then some (.nameTooLong, st)
      else
        let name ← cstring reqPayload 4
        let r := st.del io name
        some (if r.1 then .success else .deviceError, r.2)
  else if flags &&& evFlagSet ≠ 0 then
    let minSetPayload := 4 + maxEvNameLen + 2
    if reqPayload.length < minSetPayload then some (.noSuchEv, st)
    else
      let name ← load reqPayload 4 (maxEvNameLen - 1)
      -- the copy into the zeroed buffer leaves room for the terminator
      let nameBuf ← store (List.replicate maxEvNameLen 0) 0 name
      let dataLen ← load reqPayload (4 + maxEvNameLen) 2
      let dataLen := toLE dataLen
      if dataLen > maxEvDataSize then some (.dataTooLarge, st)
      else if dataLen = 0 then
        let name ← cstring nameBuf 0
        some (.success, (st.del io name).2)
      else if reqPayload.length < minSetPayload + dataLen then some (.noSuchEv, st)
      else
        let data ← load reqPayload minSetPayload dataLen
        let name ← cstring nameBuf 0
        let r := st.set io name data
        some (if r.1 then .success else .nameTooLong, r.2)
  else some (.unsupported, st)

/-- `SmifService::handleSetDeleteEv`. -/
def handleSetDeleteEv (io : SaveIo) (evStorage : Option EvStorage) (hdr : ChifPktHeader)
    (reqPayload response : Bytes) : Option ((ℤ × Bytes) × Option EvStorage) :=
  match evStorage with
  | none => do some (← buildSimpleResponse hdr response (ev .noSuchEv), none)
  | some st =>
    if reqPayload.length < 4 then do
      some (← buildSimpleResponse hdr response (ev .noSuchEv), some st)
    else do
      let r ← setDeleteEv io st reqPayload
      some (← buildSimpleResponse hdr response (ev r.1), some r.2)

/-- `SmifService::handleGetEvByName`. -/
def handleGetEvByName (evStorage : Option EvStorage) (hdr : ChifPktHeader)
    (reqPayload response : Bytes) : Option (ℤ × Bytes) :=
  if reqPayload.length < maxEvNameLen then buildSimpleResponse hdr response (ev .noSuchEv)
  else
    match evStorage with
    | none => buildSimpleResponse hdr response (ev .deviceError)
    | some st => do
      let last ← byte reqPayload (maxEvNameLen - 1)
      if last ≠ 0 then buildSimpleResponse hdr response (ev .nameTooLong)
      else
        let name ← load reqPayload 0 (maxEvNameLen - 1)
        let nameBuf ← store (List.replicate maxEvNameLen 0) 0 name
        let name ← cstring nameBuf 0
        match st.getByName name with
        | none => buildSimpleResponse hdr response (ev .noSuchEv)
        | some e => buildEvDataResponse hdr response e

/-- `SmifService::handleEvStats`. -/
def handleEvStats (evStorage : Option EvStorage) (hdr : ChifPktHeader) (response : Bytes) :
    Option (ℤ × Bytes) :=
  let respSize := UInt16.ofNat (headerBytes + 12)
  if response.length < respSize.toNat then some (-1, response)
  else do
    let resp ← fillZero response respSize.toNat
    let resp ← initResponse resp hdr respSize
    let remaining := match evStorage with
      | some st => st.remainingSize
      | none => 0
    let cnt := match evStorage with
      | some st => UInt16.ofNat st.count
      | none => 0
    let maxSzKb := UInt16.ofNat (maxEvFileSize / 1024)
    let resp ← writePayload resp 4 (ofLE 4 remaining)
    let resp ← writePayload resp 8 (ofLE 2 cnt.toNat)
    let resp ← writePayload resp 10 (ofLE 2 maxSzKb.toNat)
    some (respSize.toNat, resp)

/-- `SmifService::handleEvState`. -/
def handleEvState (hdr : ChifPktHeader) (response : Bytes) : Option (ℤ × Bytes) :=
  let respSize := UInt16.ofNat (headerBytes + 8)
  if response.length < respSize.toNat then some (-1, response)
  else do
    let resp ← fillZero response respSize.toNat
    let resp ← initResponse resp hdr respSize
    let resp ← writePayload resp 4 (ofLE 4 1)
    some (respSize.toNat, resp)

/-- `SmifService::handleGetEvAuthStatus`. -/
def handleGetEvAuthStatus (hdr : ChifPktHeader) (response : Bytes) : Option (ℤ × Bytes) :=
  let respSize := UInt16.ofNat (headerBytes + 124)
  if response.length < respSize.toNat then some (-1, response)
  else do
    let resp ← fillZero response respSize.toNat
    let resp ← initResponse resp hdr respSize
    let resp ← writePayload resp 4 (ofLE 4 1)
    let resp ← writePayload resp 8 [0x01, 0x01, 0x01]
    some (respSize.toNat, resp)

/-- The `fail` exits of `handleI2cProxy`. -/
def i2cFail (respSize : UInt16) (resp : Bytes) (err : ℕ) (transfer : Option I2cTransfer) :
    Option ((ℤ × Bytes) × Option I2cTransfer) := do
  let resp ← writePayload resp 0 (ofLE 4 err)
  some ((respSize.toNat, resp), transfer)

/-- The write message of the transaction; `writeBuf` is a local array of 32 bytes. -/
def i2cWriteMsg (reqPayload : Bytes) (i2cAddr : UInt8) (writeLen : ℕ) : Option (List I2cMsg) :=
  if writeLen > 0 then do
    let data ← load reqPayload 17 writeLen
    let writeBuf ← store (List.replicate 32 0) 0 data
    let buf ← load writeBuf 0 writeLen
    some [⟨i2cAddr, false, writeLen, buf⟩]
  else some []

/-- The response after the transfer; the kernel fills the local array `readBuf`. -/
def i2cReadBack (resp : Bytes) (readLen : ℕ) (fromKernel : Bytes) : Option Bytes := do
  let resp ← writePayload resp 16 [UInt8.ofNat readLen]
  if readLen > 0 then
    let readBuf ← store (List.replicate 32 0) 0 (fromKernel.take readLen)
    let data ← load readBuf 0 readLen
    writePayload resp 17 data
  else some resp

/-- `SmifService::handleI2cProxy`; every field of the request is read at its offset. -/
def handleI2cProxy (segmentToBus : UInt8 → Option ℤ) (kernel : I2cOutcome) (hdr : ChifPktHeader)
    (reqPayload response : Bytes) : Option ((ℤ × Bytes) × Option I2cTransfer) :=
  let respSize := UInt16.ofNat (headerBytes + 49)
  if response.length < respSize.toNat then some ((-1, response), none)
  else do
    let resp ← fillZero response respSize.toNat
    let resp ← initResponse resp hdr respSize
    if reqPayload.length < 17 then i2cFail respSize resp i2cGeneralError none
    else
      let address ← load reqPayload 12 2
      let address := UInt16.ofNat (toLE address)
      let segment ← byte reqPayload 14
      let writeLen ← byte reqPayload 15
      let writeLen := writeLen.toNat
      let readLen ← byte reqPayload 16
      let readLen := readLen.toNat
      -- the echo of the address and the segment, before any check of the lengths
      let resp ← writePayload resp 12 (ofLE 2 address.toNat)
      let resp ← writePayload resp 14 [segment]
      if writeLen = 0 ∧ readLen = 0 then some ((respSize.toNat, resp), none)
      else if writeLen > 32 ∨ readLen > 32 then i2cFail respSize resp i2cGeneralError none
      else
        match segmentToBus segment with
        | none => i2cFail respSize resp i2cSegmentNotFound none
        | some busNum =>
          let i2cAddr := (address >>> 1).toUInt8
          if kernel = .openFails then i2cFail respSize resp i2cGeneralError none
          else if writeLen > 0 ∧ writeLen > reqPayload.length - 17 then
            i2cFail respSize resp i2cGeneralError none
          else
            let writeMsg ← i2cWriteMsg reqPayload i2cAddr writeLen
            let readMsg : List I2cMsg := if readLen > 0 then [⟨i2cAddr, true, readLen, []⟩] else []
            let transfer : I2cTransfer := ⟨busNum, writeMsg ++ readMsg⟩
            match kernel with
            | .openFails => i2cFail respSize resp i2cGeneralError none
            | .ioctlFails err => i2cFail respSize resp (i2cErrorFromErrno err) (some transfer)
            | .transferred readBuf =>
              let resp ← i2cReadBack resp readLen readBuf
              some ((respSize.toNat, resp), some transfer)

/-- `SmifService::handlePlatDefDownload`. -/
def handlePlatDefDownload (hdr : ChifPktHeader) (response : Bytes) : Option (ℤ × Bytes) :=
  let respSize := UInt16.ofNat (headerBytes + 4024)
  if response.length < respSize.toNat then buildSimpleResponse hdr response 1
  else do
    let resp ← fillZero response respSize.toNat
    let resp ← initResponse resp hdr respSize
    let resp ← writePayload resp 0 (ofLE 4 platDefNoMoreRecords)
    some (respSize.toNat, resp)

/-- `SmifService::handle`. -/
def smifHandle (env : SmifEnv) (svc : SmifService) (request response : Bytes) :
    Option SmifResult :=
  if request.length < headerBytes then some ⟨(-1, response), svc, none⟩
  else if response.length < headerBytes + 4 then some ⟨(-1, response), svc, none⟩
  else do
    let hdr ← parseHeader request
    let reqPayload ← payload request
    if hdr.command = smifCmdGetEvByIndex then
      some ⟨← handleGetEvByIndex svc.evStorage hdr reqPayload response, svc, none⟩
    else if hdr.command = smifCmdSetDeleteEv then
      let r ← handleSetDeleteEv env.saveIo svc.evStorage hdr reqPayload response
      some ⟨r.1, { svc with evStorage := r.2 }, none⟩
    else if hdr.command = smifCmdGetEvByName then
      some ⟨← handleGetEvByName svc.evStorage hdr reqPayload response, svc, none⟩
    else if hdr.command = smifCmdEvStats then
      some ⟨← handleEvStats svc.evStorage hdr response, svc, none⟩
    else if hdr.command = smifCmdEvState then
      some ⟨← handleEvState hdr response, svc, none⟩
    else if hdr.command = smifCmdGetEvAuthStatus then
      some ⟨← handleGetEvAuthStatus hdr response, svc, none⟩
    else if hdr.command = smifCmdI2cTransaction then
      let r ← handleI2cProxy svc.segmentToBus env.i2c hdr reqPayload response
      some ⟨r.1, svc, r.2⟩
    else if hdr.command = smifCmdPlatDefUpload then
      some ⟨← handlePlatDefDownload hdr response, svc, none⟩
    else some ⟨← buildSimpleResponse hdr response 0, svc, none⟩

/-! ### ROM -/

/-- The loop of `addRecord`; the first argument is `count - i`. -/
def addRecords : ℕ → Bytes → ℕ → Bytes → Option Bytes
  | 0, _, _, records => some records
  | n + 1, record, offset, records =>
    if offset + 2 ≤ record.length then do
      let recSize ← load record offset 2
      let recSize := toLE recSize
      let offset := offset + 2
      if recSize = 0 ∨ offset + recSize > record.length then some records
      else if records.length + recSize > maxSmbiosDataSize then some records
      else
        let bytes ← load record offset recSize
        addRecords n record (offset + recSize) (records ++ bytes)
    else some records

/-- `SmbiosWriter::addRecord`; the count is read from a record of at least 6 bytes. -/
def addRecord (w : SmbiosWriter) (record : Bytes) : Option SmbiosWriter :=
  if record.length < 6 then some w
  else do
    let count ← load record 0 4
    let count := toLE count
    let count := if count > maxRecordsPerBlob then maxRecordsPerBlob else count
    let records ← addRecords count record 4 w.records
    some { w with records := records }

/-- Header only, no response bit. -/
def buildHeaderOnlyResponse (reqHdr : ChifPktHeader) (response : Bytes) : Option (ℤ × Bytes) :=
  let respSize := UInt16.ofNat headerBytes
  if response.length < respSize.toNat then some (-1, response)
  else do
    let resp ← initRomResponse response reqHdr respSize
    some (respSize.toNat, resp)

/-- The common body of `handleRecord` and `handleBlob`. -/
def addPayload (svc : RomService) (reqHdr : ChifPktHeader) (request response : Bytes) :
    Option RomResult := do
  let data ← payload request
  if data = [] then some ⟨← buildHeaderOnlyResponse reqHdr response, svc, false⟩
  else
    let writer ← addRecord svc.writer data
    some ⟨← buildHeaderOnlyResponse reqHdr response, { svc with writer := writer }, false⟩

/-- `RomService::handleEnd`. -/
def handleEnd (io : FinalizeIo) (svc : RomService) (reqHdr : ChifPktHeader) (response : Bytes) :
    Option RomResult := do
  let r := svc.writer.finalize io
  let answer ← buildHeaderOnlyResponse reqHdr response
  some ⟨answer, { svc with writer := r.2 }, r.1 && svc.mdrBridge⟩

/-- `RomService::handle`. -/
def romHandle (io : FinalizeIo) (svc : RomService) (request response : Bytes) :
    Option RomResult :=
  if request.length < headerBytes then some ⟨(-1, response), svc, false⟩
  else do
    let hdr ← parseHeader request
    if hdr.command = romCmdBegin then
      some ⟨← buildHeaderOnlyResponse hdr response, { svc with writer := svc.writer.begin }, false⟩
    else if hdr.command = romCmdRecord then addPayload svc hdr request response
    else if hdr.command = romCmdEnd then handleEnd io svc hdr response
    else if hdr.command = romCmdPowerData then
      some ⟨← buildHeaderOnlyResponse hdr response, svc, false⟩
    else if hdr.command = romCmdThermal then
      some ⟨← buildHeaderOnlyResponse hdr response, svc, false⟩
    else if hdr.command = romCmdBlob then addPayload svc hdr request response
    else some ⟨(-1, response), svc, false⟩

/-! ### Health -/

/-- `HealthService::handle`. -/
def healthHandle (request response : Bytes) : Option (ℤ × Bytes) :=
  if request.length < headerBytes then some (-1, response)
  else
    let respSize := UInt16.ofNat (headerBytes + 4)
    if response.length < respSize.toNat then some (-1, response)
    else do
      let hdr ← parseHeader request
      let resp ← fillZero response respSize.toNat
      let resp ← initResponse resp hdr respSize
      some (respSize.toNat, resp)

/-! ### No access fails: packet helpers -/

/-- A checked step succeeds with the buffer `buf` of `n` bytes. -/
def Yields (n : ℕ) (step : Option Bytes) (buf : Bytes) : Prop := step = some buf ∧ buf.length = n

theorem Yields.bind {α : Type} {n : ℕ} {step : Option Bytes} {buf : Bytes}
    {k : Bytes → Option α} {r : Option α} (h : Yields n step buf)
    (hk : buf.length = n → k buf = r) : (step >>= k) = r := by
  rw [h.1, Option.bind_eq_bind, Option.bind_some, hk h.2]

theorem yields_store {n off : ℕ} {buf src : Bytes} (hn : buf.length = n)
    (h : off + src.length ≤ n) : Yields n (store buf off src) (memcpyAt buf off src) := by
  rw [← hn] at h
  exact ⟨store_eq h, (memcpyAt_length h).trans hn⟩

private theorem yields_fillZero {n m : ℕ} {resp : Bytes} (hn : resp.length = n) (h : m ≤ n) :
    Yields n (fillZero resp m) (Chif.fillZero resp m) :=
  yields_store hn (by rw [List.length_replicate, Nat.zero_add]; exact h)

private theorem yields_initResponse {n : ℕ} {resp : Bytes} (hdr : ChifPktHeader) (size : UInt16)
    (hn : resp.length = n) (h : headerBytes ≤ n) :
    Yields n (initResponse resp hdr size) (Chif.initResponse resp hdr size) :=
  yields_store hn (by rw [ChifPktHeader.bytes_length, Nat.zero_add]; exact h)

/-- Most answers start from a zeroed packet with its header. -/
theorem bind_zeroed {α : Type} {n m : ℕ} {resp : Bytes} {k : Bytes → Option α} {r : Option α}
    (hdr : ChifPktHeader) (size : UInt16) (hn : resp.length = n) (h : m ≤ n)
    (hheader : headerBytes ≤ n)
    (hk : (Chif.initResponse (Chif.fillZero resp m) hdr size).length = n →
      k (Chif.initResponse (Chif.fillZero resp m) hdr size) = r) :
    (fillZero resp m >>= fun resp => initResponse resp hdr size >>= k) = r := by
  refine Yields.bind (yields_fillZero hn h) ?_
  intro hfill
  exact Yields.bind (yields_initResponse hdr size hfill hheader) hk

theorem yields_writePayload {n off : ℕ} {resp src : Bytes} (hn : resp.length = n)
    (h : headerBytes + off + src.length ≤ n) :
    Yields n (writePayload resp off src) (Chif.writePayload resp off src) :=
  yields_store hn h

private theorem parseHeader_eq {buf : Bytes} (h : headerBytes ≤ buf.length) :
    parseHeader buf = some (Chif.parseHeader buf) := by
  rw [parseHeader, load_eq (by omega), Option.map_some, List.drop_zero, parseHeader_take]

private theorem payload_eq (pkt : Bytes) : payload pkt = some (Chif.payload pkt) := by
  rw [payload, Chif.payload, apply_ite some]
  refine ite_congr rfl (fun _ => rfl) fun h => ?_
  exact subspan_eq (by omega)

/-- A local array filled from its start. -/
theorem store_zeros {w : ℕ} {src : Bytes} (h : src.length ≤ w) :
    store (List.replicate w 0) 0 src = some (padTo w src) := by
  rw [store_eq (by rw [List.length_replicate, Nat.zero_add]; exact h), memcpyAt_zero,
    List.drop_replicate, padTo]

/-- A local name buffer always ends in NUL. -/
theorem cstring_padTo {w : ℕ} {src : Bytes} (h : src.length < w) :
    cstring (padTo w src) 0 = some (cstr (padTo w src)) := by
  refine cstring_eq ?_
  rw [List.drop_zero, padTo]
  exact List.mem_append_right _ (List.mem_replicate.mpr ⟨by omega, rfl⟩)

/-! ### No access fails: SMIF -/

theorem buildSimpleResponse_eq (hdr : ChifPktHeader) (response : Bytes) (errorCode : ℕ) :
    buildSimpleResponse hdr response errorCode
      = some (Chif.buildSimpleResponse hdr response errorCode) := by
  rw [buildSimpleResponse, Chif.buildSimpleResponse]
  simp only [apply_ite some]
  refine ite_congr rfl (fun _ => rfl) fun h => ?_
  have hn : 12 ≤ response.length := not_lt.mp h
  refine Yields.bind (yields_initResponse hdr _ rfl (by rw [headerBytes]; omega)) fun hinit => ?_
  have hfits : headerBytes + 0 + (ofLE 4 errorCode).length ≤ response.length := by
    rw [ofLE_length, headerBytes]
    omega
  refine Yields.bind (yields_writePayload hinit hfits) fun _ => ?_
  rfl

theorem buildEvDataResponse_eq (hdr : ChifPktHeader) (response : Bytes) {e : EvEntry}
    (he : e.data.length ≤ maxEvDataSize) :
    buildEvDataResponse hdr response e = some (Chif.buildEvDataResponse hdr response e) := by
  have hsize := evData_size he
  rw [buildEvDataResponse, Chif.buildEvDataResponse]
  simp only [apply_ite some]
  refine ite_congr rfl (fun _ => buildSimpleResponse_eq hdr response 3) fun h => ?_
  rw [hsize, not_lt] at h
  have hheader : headerBytes = 8 := rfl
  have hname : maxEvNameLen = 32 := rfl
  refine bind_zeroed hdr _ rfl (by rw [hsize]; exact h) (by omega) ?_
  intro hinit
  refine Yields.bind (yields_writePayload hinit (by rw [List.length_take]; omega)) fun hn => ?_
  refine Yields.bind (yields_writePayload hn (by rw [ofLE_length]; omega)) fun hlen => ?_
  by_cases hdata : e.data = []
  · simp only [if_pos hdata]
    rfl
  · simp only [if_neg hdata] at h hlen ⊢
    exact Yields.bind (yields_writePayload hlen (by omega)) fun _ => rfl

private theorem handleGetEvByIndex_eq {evStorage : Option EvStorage}
    (h : ∀ st, evStorage = some st → Bounded st.entries) (hdr : ChifPktHeader)
    (reqPayload response : Bytes) :
    handleGetEvByIndex evStorage hdr reqPayload response
      = some (Chif.handleGetEvByIndex evStorage hdr reqPayload response) := by
  cases evStorage with
  | none => exact buildSimpleResponse_eq hdr response _
  | some st =>
    simp only [handleGetEvByIndex, Chif.handleGetEvByIndex, apply_ite some]
    refine ite_congr rfl (fun _ => buildSimpleResponse_eq hdr response _) fun hlen => ?_
    rw [load_eq (by omega), Option.bind_eq_bind, Option.bind_some, List.drop_zero]
    cases hget : st.getByIndex (toLE (reqPayload.take 4)) with
    | none => exact buildSimpleResponse_eq hdr response _
    | some e => exact buildEvDataResponse_eq hdr response (data_le_of_getByIndex (h st rfl) hget)

theorem setDeleteEv_eq (io : SaveIo) (st : EvStorage) {p : Bytes} (hp : 4 ≤ p.length) :
    setDeleteEv io st p = some (Chif.setDeleteEv io st p) := by
  have hname : maxEvNameLen = 32 := rfl
  rw [setDeleteEv, Chif.setDeleteEv, byte_eq (by omega)]
  simp only [Option.bind_eq_bind, Option.bind_some, apply_ite some]
  refine ite_congr rfl (fun _ => rfl) fun _ => ?_
  refine ite_congr rfl (fun _ => ?_) fun _ => ?_
  · -- delete
    refine ite_congr rfl (fun _ => rfl) fun hlen => ?_
    rw [load_eq (by omega), Option.bind_some]
    refine ite_congr rfl (fun _ => rfl) fun hlast => ?_
    have hregion : maxEvNameLen ≤ (p.drop 4).length := by
      rw [List.length_drop]
      omega
    have hnul := nul_mem_of_getLastD (by decide) hregion (not_not.mp hlast)
    rw [cstring_eq hnul, Option.bind_some]
  refine ite_congr rfl (fun _ => ?_) fun _ => rfl
  · -- set
    refine ite_congr rfl (fun _ => rfl) fun hlen => ?_
    have hbuf : ((p.drop 4).take (maxEvNameLen - 1)).length < maxEvNameLen := by
      rw [List.length_take]
      omega
    rw [load_eq (by omega), Option.bind_some, store_zeros (le_of_lt hbuf), Option.bind_some,
      load_eq (by omega), Option.bind_some]
    refine ite_congr rfl (fun _ => rfl) fun _ => ?_
    refine ite_congr rfl (fun _ => ?_) fun _ => ?_
    · rw [cstring_padTo hbuf, Option.bind_some]
    · refine ite_congr rfl (fun _ => rfl) fun hdata => ?_
      rw [load_eq (not_lt.mp hdata), Option.bind_some, cstring_padTo hbuf, Option.bind_some]

private theorem handleSetDeleteEv_eq (io : SaveIo) (evStorage : Option EvStorage)
    (hdr : ChifPktHeader)
    (reqPayload response : Bytes) :
    handleSetDeleteEv io evStorage hdr reqPayload response
      = some (Chif.handleSetDeleteEv io evStorage hdr reqPayload response) := by
  cases evStorage with
  | none => simp only [handleSetDeleteEv, buildSimpleResponse_eq]; rfl
  | some st =>
    simp only [handleSetDeleteEv, Chif.handleSetDeleteEv, apply_ite some]
    refine ite_congr rfl (fun _ => ?_) fun hlen => ?_
    · rw [buildSimpleResponse_eq]
      rfl
    · rw [setDeleteEv_eq io st (not_lt.mp hlen), Option.bind_eq_bind, Option.bind_some,
        buildSimpleResponse_eq]
      rfl

theorem handleGetEvByName_eq {evStorage : Option EvStorage}
    (h : ∀ st, evStorage = some st → Bounded st.entries) (hdr : ChifPktHeader)
    (reqPayload response : Bytes) :
    handleGetEvByName evStorage hdr reqPayload response
      = some (Chif.handleGetEvByName evStorage hdr reqPayload response) := by
  have hname : maxEvNameLen = 32 := rfl
  simp only [handleGetEvByName, Chif.handleGetEvByName, apply_ite some]
  refine ite_congr rfl (fun _ => buildSimpleResponse_eq hdr response _) fun hlen => ?_
  cases evStorage with
  | none => exact buildSimpleResponse_eq hdr response _
  | some st =>
    simp only [Option.bind_eq_bind, apply_ite some]
    rw [byte_eq (by omega), Option.bind_some]
    refine ite_congr rfl (fun _ => buildSimpleResponse_eq hdr response _) fun _ => ?_
    -- one byte of the buffer stays zero, so the name is terminated
    have hbuf : (reqPayload.take (maxEvNameLen - 1)).length < maxEvNameLen := by
      rw [List.length_take]
      omega
    rw [load_eq (by omega), Option.bind_some, List.drop_zero, store_zeros (le_of_lt hbuf),
      Option.bind_some, cstring_padTo hbuf, Option.bind_some]
    cases hget : st.getByName (cstr (padTo maxEvNameLen
        (reqPayload.take (maxEvNameLen - 1)))) with
    | none => exact buildSimpleResponse_eq hdr response _
    | some e => exact buildEvDataResponse_eq hdr response (data_le_of_getByName (h st rfl) hget)

theorem handleEvStats_eq (evStorage : Option EvStorage) (hdr : ChifPktHeader) (response : Bytes) :
    handleEvStats evStorage hdr response = some (Chif.handleEvStats evStorage hdr response) := by
  unfold handleEvStats Chif.handleEvStats
  simp only [apply_ite some]
  refine ite_congr rfl (fun _ => rfl) fun h => ?_
  have hn : 20 ≤ response.length := not_lt.mp h
  have hheader : headerBytes = 8 := rfl
  refine bind_zeroed hdr _ rfl hn (by omega) ?_
  intro hinit
  refine Yields.bind (yields_writePayload hinit (by rw [ofLE_length]; omega)) fun hrem => ?_
  refine Yields.bind (yields_writePayload hrem (by rw [ofLE_length]; omega)) fun hcnt => ?_
  exact Yields.bind (yields_writePayload hcnt (by rw [ofLE_length]; omega)) fun _ => rfl

private theorem handleEvState_eq (hdr : ChifPktHeader) (response : Bytes) :
    handleEvState hdr response = some (Chif.handleEvState hdr response) := by
  rw [handleEvState, Chif.handleEvState]
  simp only [apply_ite some]
  refine ite_congr rfl (fun _ => rfl) fun h => ?_
  have hn : 16 ≤ response.length := not_lt.mp h
  have hheader : headerBytes = 8 := rfl
  refine bind_zeroed hdr _ rfl hn (by omega) ?_
  intro hinit
  exact Yields.bind (yields_writePayload hinit (by rw [ofLE_length]; omega)) fun _ => rfl

private theorem handleGetEvAuthStatus_eq (hdr : ChifPktHeader) (response : Bytes) :
    handleGetEvAuthStatus hdr response = some (Chif.handleGetEvAuthStatus hdr response) := by
  rw [handleGetEvAuthStatus, Chif.handleGetEvAuthStatus]
  simp only [apply_ite some]
  refine ite_congr rfl (fun _ => rfl) fun h => ?_
  have hn : 132 ≤ response.length := not_lt.mp h
  have hheader : headerBytes = 8 := rfl
  refine bind_zeroed hdr _ rfl hn (by omega) ?_
  intro hinit
  refine Yields.bind (yields_writePayload hinit (by rw [ofLE_length]; omega)) fun hversion => ?_
  exact Yields.bind (yields_writePayload hversion (by simp only [List.length]; omega)) fun _ => rfl

private theorem handlePlatDefDownload_eq (hdr : ChifPktHeader) (response : Bytes) :
    handlePlatDefDownload hdr response = some (Chif.handlePlatDefDownload hdr response) := by
  rw [handlePlatDefDownload, Chif.handlePlatDefDownload]
  simp only [apply_ite some]
  refine ite_congr rfl (fun _ => buildSimpleResponse_eq hdr response 1) fun h => ?_
  have hn : 4032 ≤ response.length := not_lt.mp h
  have hheader : headerBytes = 8 := rfl
  refine bind_zeroed hdr _ rfl hn (by omega) ?_
  intro hinit
  exact Yields.bind (yields_writePayload hinit (by rw [ofLE_length]; omega)) fun _ => rfl

theorem i2cFail_eq {n : ℕ} {resp : Bytes} (hlen : resp.length = n) (hn : 57 ≤ n) (size : UInt16)
    (err : ℕ) (transfer : Option I2cTransfer) :
    i2cFail size resp err transfer
      = some (((size.toNat : ℤ), Chif.writePayload resp 0 (ofLE 4 err)), transfer) := by
  have hfit : headerBytes + 0 + (ofLE 4 err).length ≤ n := by
    rw [ofLE_length, headerBytes]
    omega
  exact Yields.bind (yields_writePayload hlen hfit) fun _ => rfl

private theorem i2cWriteMsg_eq {reqPayload : Bytes} {writeLen : ℕ} (h32 : writeLen ≤ 32)
    (h : 0 < writeLen → 17 + writeLen ≤ reqPayload.length) (i2cAddr : UInt8) :
    i2cWriteMsg reqPayload i2cAddr writeLen = some (if writeLen > 0 then
      [⟨i2cAddr, false, writeLen, (reqPayload.drop 17).take writeLen⟩] else []) := by
  rw [i2cWriteMsg, apply_ite some]
  refine ite_congr rfl (fun hpos => ?_) fun _ => rfl
  have hlen : ((reqPayload.drop 17).take writeLen).length = writeLen := by
    have := h hpos
    rw [List.length_take, List.length_drop]
    omega
  have hbuf : (padTo 32 ((reqPayload.drop 17).take writeLen)).length = 32 :=
    padTo_length (by omega)
  have htake : (padTo 32 ((reqPayload.drop 17).take writeLen)).take writeLen
      = (reqPayload.drop 17).take writeLen := by
    rw [padTo]
    exact List.take_left' hlen
  simp only [Option.bind_eq_bind]
  rw [load_eq (h hpos), Option.bind_some, store_zeros (by omega), Option.bind_some,
    load_eq (by omega), Option.bind_some, List.drop_zero, htake]

private theorem i2cReadBack_eq {n : ℕ} {resp : Bytes} (hlen : resp.length = n) (hn : 57 ≤ n)
    {readLen : ℕ} (h32 : readLen ≤ 32) (fromKernel : Bytes) :
    i2cReadBack resp readLen fromKernel = some (
      if readLen > 0 then
        Chif.writePayload (Chif.writePayload resp 16 [UInt8.ofNat readLen]) 17
          ((padTo 32 (fromKernel.take readLen)).take readLen)
      else Chif.writePayload resp 16 [UInt8.ofNat readLen]) := by
  have hheader : headerBytes = 8 := rfl
  rw [i2cReadBack, apply_ite some]
  have hfit : headerBytes + 16 + [UInt8.ofNat readLen].length ≤ n := by
    rw [List.length_singleton]
    omega
  refine Yields.bind (yields_writePayload hlen hfit) fun hsize => ?_
  refine ite_congr rfl (fun _ => ?_) fun _ => rfl
  have htaken : (fromKernel.take readLen).length ≤ readLen := List.length_take_le _ _
  have hbuf : (padTo 32 (fromKernel.take readLen)).length = 32 := padTo_length (by omega)
  have hdata : ((padTo 32 (fromKernel.take readLen)).take readLen).length = readLen := by
    rw [List.length_take]
    omega
  simp only [Option.bind_eq_bind]
  rw [store_zeros (by omega), Option.bind_some, load_eq (by omega), Option.bind_some,
    List.drop_zero]
  exact (yields_writePayload hsize (by omega)).1

private theorem handleI2cProxy_eq (segmentToBus : UInt8 → Option ℤ) (kernel : I2cOutcome)
    (hdr : ChifPktHeader) (reqPayload response : Bytes) :
    handleI2cProxy segmentToBus kernel hdr reqPayload response
      = some (Chif.handleI2cProxy segmentToBus kernel hdr reqPayload response) := by
  rw [handleI2cProxy, Chif.handleI2cProxy]
  simp only [apply_ite some]
  refine ite_congr rfl (fun _ => rfl) fun h => ?_
  have hn : 57 ≤ response.length := not_lt.mp h
  have hheader : headerBytes = 8 := rfl
  refine bind_zeroed hdr _ rfl hn (by omega) ?_
  intro hinit
  refine ite_congr rfl (fun _ => i2cFail_eq hinit hn _ _ _) fun hlen => ?_
  rw [load_eq (by omega), byte_eq (by omega), byte_eq (by omega), byte_eq (by omega)]
  simp only [Option.bind_eq_bind, Option.bind_some]
  -- every later write is to a response that has been initialised
  refine Yields.bind (yields_writePayload hinit (by rw [ofLE_length]; omega)) fun haddr => ?_
  refine Yields.bind (yields_writePayload haddr (by simp only [List.length]; omega)) fun hecho => ?_
  refine ite_congr rfl (fun _ => rfl) fun _ => ?_
  refine ite_congr rfl (fun _ => i2cFail_eq hecho hn _ _ _) fun hlens => ?_
  cases segmentToBus (reqPayload.getD 14 0) with
  | none => exact i2cFail_eq hecho hn _ _ _
  | some busNum =>
    simp only [apply_ite some]
    refine ite_congr rfl (fun _ => i2cFail_eq hecho hn _ _ _) fun _ => ?_
    refine ite_congr rfl (fun _ => i2cFail_eq hecho hn _ _ _) fun hwrite => ?_
    rw [i2cWriteMsg_eq (by omega) (by omega), Option.bind_some]
    cases kernel with
    | openFails => exact i2cFail_eq hecho hn _ _ _
    | ioctlFails err => exact i2cFail_eq hecho hn _ _ _
    | transferred readBuf =>
      simp only []
      rw [i2cReadBack_eq hecho hn (by omega), Option.bind_some]
      rfl

/-- **No SMIF request makes the handler leave its buffers.** -/
theorem smifHandle_eq {svc : SmifService} (h : svc.Reached) (env : SmifEnv)
    (request response : Bytes) :
    smifHandle env svc request response = some (svc.handle env request response) := by
  have hbounded : ∀ st, svc.evStorage = some st → Bounded st.entries :=
    fun st hst => (h st hst).bounded
  rw [smifHandle, SmifService.handle]
  simp only [apply_ite some]
  refine ite_congr rfl (fun _ => rfl) fun hreq => ?_
  refine ite_congr rfl (fun _ => rfl) fun _ => ?_
  rw [parseHeader_eq (not_lt.mp hreq), payload_eq]
  simp only [Option.bind_eq_bind, Option.bind_some, handleGetEvByIndex_eq hbounded,
    handleSetDeleteEv_eq, handleGetEvByName_eq hbounded, handleEvStats_eq, handleEvState_eq,
    handleGetEvAuthStatus_eq, handleI2cProxy_eq, handlePlatDefDownload_eq,
    buildSimpleResponse_eq]

/-! ### No access fails: ROM and Health -/

/-- Every turn of the loop reads what its two guards have checked. -/
theorem addRecords_eq (n : ℕ) : ∀ (record : Bytes) (offset : ℕ) (records : Bytes),
    addRecords n record offset records = some (Chif.addRecords n record offset records) := by
  induction n with
  | zero =>
    intro record offset records
    rfl
  | succ n ih =>
    intro record offset records
    rw [addRecords, Chif.addRecords]
    simp only [apply_ite some]
    refine ite_congr rfl (fun hsize => ?_) fun _ => rfl
    rw [load_eq hsize, Option.bind_eq_bind, Option.bind_some]
    refine ite_congr rfl (fun _ => rfl) fun hrec => ?_
    refine ite_congr rfl (fun _ => rfl) fun _ => ?_
    rw [load_eq (by omega), Option.bind_some]
    exact ih record _ _

private theorem addRecord_eq (w : SmbiosWriter) (record : Bytes) :
    addRecord w record = some (w.addRecord record) := by
  rw [addRecord, SmbiosWriter.addRecord, apply_ite some]
  refine ite_congr rfl (fun _ => rfl) fun h => ?_
  rw [load_eq (by omega), Option.bind_eq_bind, Option.bind_some]
  simp only [addRecords_eq, Option.bind_some, List.drop_zero]

private theorem buildHeaderOnlyResponse_eq (hdr : ChifPktHeader) (response : Bytes) :
    buildHeaderOnlyResponse hdr response = some (Chif.buildHeaderOnlyResponse hdr response) := by
  rw [buildHeaderOnlyResponse, Chif.buildHeaderOnlyResponse]
  simp only [apply_ite some]
  refine ite_congr rfl (fun _ => rfl) fun h => ?_
  have hfit : 0 + (romResponseHeader hdr (UInt16.ofNat headerBytes)).bytes.length
      ≤ response.length := by
    rw [ChifPktHeader.bytes_length, Nat.zero_add]
    exact not_lt.mp h
  exact Yields.bind (yields_store rfl hfit) fun _ => rfl

private theorem addPayload_eq (svc : RomService) (hdr : ChifPktHeader) (request response : Bytes) :
    addPayload svc hdr request response = some (svc.addPayload hdr request response) := by
  rw [addPayload, RomService.addPayload, payload_eq, apply_ite some]
  simp only [Option.bind_eq_bind, Option.bind_some, buildHeaderOnlyResponse_eq, addRecord_eq]

/-- **No ROM request makes the handler leave its buffers.** -/
theorem romHandle_eq (io : FinalizeIo) (svc : RomService) (request response : Bytes) :
    romHandle io svc request response = some (svc.handle io request response) := by
  rw [romHandle, RomService.handle]
  simp only [apply_ite some]
  refine ite_congr rfl (fun _ => rfl) fun hreq => ?_
  rw [parseHeader_eq (not_lt.mp hreq)]
  simp only [Option.bind_eq_bind, Option.bind_some, buildHeaderOnlyResponse_eq, addPayload_eq,
    handleEnd]
  rfl

/-- **No Health request makes the handler leave its buffers.** -/
theorem healthHandle_eq (request response : Bytes) :
    healthHandle request response = some (Chif.healthHandle request response) := by
  rw [healthHandle, Chif.healthHandle]
  simp only [apply_ite some]
  refine ite_congr rfl (fun _ => rfl) fun hreq => ?_
  refine ite_congr rfl (fun _ => rfl) fun h => ?_
  have hn : 12 ≤ response.length := not_lt.mp h
  have hheader : headerBytes = 8 := rfl
  rw [parseHeader_eq (not_lt.mp hreq), Option.bind_eq_bind, Option.bind_some]
  exact bind_zeroed _ _ rfl hn (by omega) fun _ => rfl

end Checked

/-! ### The contract of the handlers -/

/-- **Every handler's response is well framed.**  Whatever the state, the request
and the size of the response buffer, no access leaves the buffers, and the
result is -1 or the size of a packet inside the response buffer with the
header that belongs to it. -/
theorem responses_well_framed (request response : Bytes) :
    (∀ (svc : SmifService) (env : SmifEnv), svc.Reached →
      Checked.smifHandle env svc request response = some (svc.handle env request response) ∧
        WellFramed (parseHeader request) ((parseHeader request).command ||| 0x8000)
          response.length (svc.handle env request response).answer) ∧
    (∀ (svc : RomService) (io : FinalizeIo),
      Checked.romHandle io svc request response = some (svc.handle io request response) ∧
        WellFramed (parseHeader request) (parseHeader request).command
          response.length (svc.handle io request response).answer) ∧
    Checked.healthHandle request response = some (healthHandle request response) ∧
      WellFramed (parseHeader request) ((parseHeader request).command ||| 0x8000)
        response.length (healthHandle request response) := by
  refine ⟨fun svc env h => ⟨?_, ?_⟩, fun svc io => ⟨?_, ?_⟩, ?_, ?_⟩
  · exact Checked.smifHandle_eq h env request response
  · exact (SmifService.handle_frames response.length h env request).wellFramed (fun _ => rfl) rfl
  · exact Checked.romHandle_eq io svc request response
  · exact (svc.handle_frames response.length io request).wellFramed (fun _ => rfl) rfl
  · exact Checked.healthHandle_eq request response
  · exact (healthHandle_frames response.length request).wellFramed (fun _ => rfl) rfl

/-- A service with two entries is asked for one of them. -/
theorem responses_well_framed_stored :
    let response := List.replicate 64 (0xAA : UInt8)
    errorCode (storedService.handle ⟨.ok, .openFails⟩ getStored response).answer
        = some (ev .success) ∧
      Checked.smifHandle ⟨.ok, .openFails⟩ storedService getStored response
        = some (storedService.handle ⟨.ok, .openFails⟩ getStored response) ∧
      WellFramed (parseHeader getStored) ((parseHeader getStored).command ||| 0x8000)
        response.length (storedService.handle ⟨.ok, .openFails⟩ getStored response).answer :=
  ⟨by decide, (responses_well_framed _ _).1 _ _ storedService_reached⟩

end Chif
