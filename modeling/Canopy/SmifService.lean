/-
The SMIF service (`smif_service.hpp`, `smif_service.cpp`): every handler of
service id 0x00.

A handler is a function of the request payload and of the response buffer the
daemon lends it; it returns the value of the C++ function and the buffer as
the handler leaves it.  Handlers that change the EV store also return the new
store; the I2C proxy also returns the transaction it hands to the kernel.
-/
import Canopy.EvStorage
import Canopy.Packet

namespace Chif

open Bytes

/-! ### Command codes and errors -/

/-- Command codes of the SMIF service. -/
def smifCmdGetEvByIndex : UInt16 := 0x012B
def smifCmdSetDeleteEv : UInt16 := 0x012C
def smifCmdGetEvAuthStatus : UInt16 := 0x012D
def smifCmdGetEvByName : UInt16 := 0x0130
def smifCmdEvStats : UInt16 := 0x0132
def smifCmdEvState : UInt16 := 0x0133
def smifCmdI2cTransaction : UInt16 := 0x0072
def smifCmdPlatDefUpload : UInt16 := 0x0200

/-- Flags of a set or delete request. -/
def evFlagSet : UInt8 := 0x01
def evFlagDelete : UInt8 := 0x02
def evFlagDeleteAll : UInt8 := 0x04

/-- Error codes of the EV commands. -/
inductive EvError where
  | success
  | deviceError
  | noSuchEv
  | nameTooLong
  | dataTooLarge
  | unsupported
  deriving DecidableEq, Repr

/-- `static_cast<uint32_t>(e)`. -/
def ev : EvError → ℕ
  | .success => 0
  | .deviceError => 1
  | .noSuchEv => 2
  | .nameTooLong => 3
  | .dataTooLarge => 4
  | .unsupported => 5

/-! ### Response helpers -/

/-- `SmifService::buildSimpleResponse`. Layout: [header 8][errorCode 4]. -/
def buildSimpleResponse (hdr : ChifPktHeader) (response : Bytes) (errorCode : ℕ) : ℤ × Bytes :=
  let respSize := UInt16.ofNat (headerBytes + 4)
  if response.length < respSize.toNat then (-1, response)
  else
    (respSize.toNat, writePayload (initResponse response hdr respSize) 0 (ofLE 4 errorCode))

/-- Layout: [header 8][errorCode 4][name 32][dataLen 2][data N]; an empty value
reads back as four zero bytes. -/
def buildEvDataResponse (hdr : ChifPktHeader) (response : Bytes) (e : EvEntry) : ℤ × Bytes :=
  let dataSize := if e.data = [] then 4 else e.data.length
  let payloadSize := 4 + maxEvNameLen + 2 + dataSize
  let respSize := UInt16.ofNat (headerBytes + payloadSize)
  if response.length < respSize.toNat then buildSimpleResponse hdr response 3
  else
    let resp := initResponse (fillZero response respSize.toNat) hdr respSize
    let nameLen := min e.name.length (maxEvNameLen - 1)
    let resp := writePayload resp 4 (e.name.take nameLen)
    let dataLen := UInt16.ofNat dataSize
    let resp := writePayload resp (4 + maxEvNameLen) (ofLE 2 dataLen.toNat)
    let resp := if e.data = [] then resp else writePayload resp (4 + maxEvNameLen + 2) e.data
    (respSize.toNat, resp)

/-! ### EV command handlers -/

/-- `SmifService::handleGetEvByIndex`. Layout of the request: [index 4]. -/
def handleGetEvByIndex (evStorage : Option EvStorage) (hdr : ChifPktHeader)
    (reqPayload response : Bytes) : ℤ × Bytes :=
  match evStorage with
  | none => buildSimpleResponse hdr response (ev .deviceError)
  | some st =>
    if reqPayload.length < 4 then buildSimpleResponse hdr response (ev .deviceError)
    else
      let index := toLE (reqPayload.take 4)
      match st.getByIndex index with
      | none => buildSimpleResponse hdr response (ev .noSuchEv)
      | some e => buildEvDataResponse hdr response e

/-- The store part of `handleSetDeleteEv`: the error code it answers with and
the store it leaves. -/
def setDeleteEv (io : SaveIo) (st : EvStorage) (reqPayload : Bytes) : EvError × EvStorage :=
  let flags := reqPayload.getD 0 0
  if flags &&& evFlagDeleteAll ≠ 0 then
    let r := st.deleteAll io
    (if r.1 then .success else .nameTooLong, r.2)
  else if flags &&& evFlagDelete ≠ 0 then
    if reqPayload.length < 4 + maxEvNameLen then (.noSuchEv, st)
    else
      let nameRegion := (reqPayload.drop 4).take maxEvNameLen
      if nameRegion.getLastD 0 ≠ 0 then (.nameTooLong, st)
      else
        -- the std::string is built from the pointer, up to the first NUL
        let r := st.del io (cstr (reqPayload.drop 4))
        (if r.1 then .success else .deviceError, r.2)
  else if flags &&& evFlagSet ≠ 0 then
    let minSetPayload := 4 + maxEvNameLen + 2
    if reqPayload.length < minSetPayload then (.noSuchEv, st)
    else
      let nameBuf := padTo maxEvNameLen ((reqPayload.drop 4).take (maxEvNameLen - 1))
      let dataLen := toLE ((reqPayload.drop (4 + maxEvNameLen)).take 2)
      if dataLen > maxEvDataSize then (.dataTooLarge, st)
      else if dataLen = 0 then
        -- set with sz_ev=0 is treated as delete; the result of del() is not looked at
        (.success, (st.del io (cstr nameBuf)).2)
      else if reqPayload.length < minSetPayload + dataLen then (.noSuchEv, st)
      else
        let data := (reqPayload.drop minSetPayload).take dataLen
        let r := st.set io (cstr nameBuf) data
        (if r.1 then .success else .nameTooLong, r.2)
  else (.unsupported, st)

/-- `SmifService::handleSetDeleteEv`: without a store, or a payload without its four
bytes of flags, nothing is touched. -/
def handleSetDeleteEv (io : SaveIo) (evStorage : Option EvStorage) (hdr : ChifPktHeader)
    (reqPayload response : Bytes) : (ℤ × Bytes) × Option EvStorage :=
  match evStorage with
  | none => (buildSimpleResponse hdr response (ev .noSuchEv), none)
  | some st =>
    if reqPayload.length < 4 then (buildSimpleResponse hdr response (ev .noSuchEv), some st)
    else
      let r := setDeleteEv io st reqPayload
      (buildSimpleResponse hdr response (ev r.1), some r.2)

/-- `SmifService::handleGetEvByName`: the 32nd byte of the name must be zero. -/
def handleGetEvByName (evStorage : Option EvStorage) (hdr : ChifPktHeader)
    (reqPayload response : Bytes) : ℤ × Bytes :=
  if reqPayload.length < maxEvNameLen then buildSimpleResponse hdr response (ev .noSuchEv)
  else
    match evStorage with
    | none => buildSimpleResponse hdr response (ev .deviceError)
    | some st =>
      if reqPayload.getD (maxEvNameLen - 1) 0 ≠ 0 then
        buildSimpleResponse hdr response (ev .nameTooLong)
      else
        let nameBuf := padTo maxEvNameLen (reqPayload.take (maxEvNameLen - 1))
        match st.getByName (cstr nameBuf) with
        | none => buildSimpleResponse hdr response (ev .noSuchEv)
        | some e => buildEvDataResponse hdr response e

/-- Layout: [errorCode u32][rem_sz u32][present_evs u16][max_sz u16]. -/
def handleEvStats (evStorage : Option EvStorage) (hdr : ChifPktHeader) (response : Bytes) :
    ℤ × Bytes :=
  let respSize := UInt16.ofNat (headerBytes + 12)
  if response.length < respSize.toNat then (-1, response)
  else
    let resp := initResponse (fillZero response respSize.toNat) hdr respSize
    let remaining := match evStorage with
      | some st => st.remainingSize
      | none => 0
    let cnt := match evStorage with
      | some st => UInt16.ofNat st.count
      | none => 0
    let maxSzKb := UInt16.ofNat (maxEvFileSize / 1024)
    let resp := writePayload resp 4 (ofLE 4 remaining)
    let resp := writePayload resp 8 (ofLE 2 cnt.toNat)
    let resp := writePayload resp 10 (ofLE 2 maxSzKb.toNat)
    (respSize.toNat, resp)

/-- Layout: [errorCode u32][vsp_connection_status u32]. -/
def handleEvState (hdr : ChifPktHeader) (response : Bytes) : ℤ × Bytes :=
  let respSize := UInt16.ofNat (headerBytes + 8)
  if response.length < respSize.toNat then (-1, response)
  else
    let resp := initResponse (fillZero response respSize.toNat) hdr respSize
    (respSize.toNat, writePayload resp 4 (ofLE 4 1))

/-- "All authenticated": AuthVersion 1, side A active, both sides authenticated. -/
def handleGetEvAuthStatus (hdr : ChifPktHeader) (response : Bytes) : ℤ × Bytes :=
  let respSize := UInt16.ofNat (headerBytes + 124)
  if response.length < respSize.toNat then (-1, response)
  else
    let resp := initResponse (fillZero response respSize.toNat) hdr respSize
    let resp := writePayload resp 4 (ofLE 4 1)
    (respSize.toNat, writePayload resp 8 [0x01, 0x01, 0x01])

/-! ### I2C proxy -/

/-- A message of an `I2C_RDWR` transaction. -/
structure I2cMsg where
  addr : UInt8
  read : Bool
  len : ℕ
  /-- the bytes to write; empty for a read -/
  buf : Bytes
  deriving DecidableEq, Repr

/-- One `I2C_RDWR` ioctl on `/dev/i2c-<bus>`. -/
structure I2cTransfer where
  bus : ℤ
  msgs : List I2cMsg
  deriving DecidableEq, Repr

/-- What the kernel does with the transaction. -/
inductive I2cOutcome where
  | openFails
  | ioctlFails (errno : ℕ)
  | transferred (readBuf : Bytes)
  deriving DecidableEq, Repr

/-- Error codes of the I2C proxy. -/
def i2cGeneralError : ℕ := 101
def i2cBusTimeout : ℕ := 105
def i2cSegmentNotFound : ℕ := 108
def i2cAddressNack : ℕ := 116

/-- `ENXIO` is 6 and `ETIMEDOUT` is 110. -/
def i2cErrorFromErrno (err : ℕ) : ℕ :=
  if err = 6 then i2cAddressNack else if err = 110 then i2cBusTimeout else i2cGeneralError

/-- Payload offsets: address 12, segment 14, writeLen 15, readLen 16, data 17;
response offsets: errcode 0, address 12, engine 14, readLen 16, data 17. -/
def handleI2cProxy (segmentToBus : UInt8 → Option ℤ) (kernel : I2cOutcome) (hdr : ChifPktHeader)
    (reqPayload response : Bytes) : (ℤ × Bytes) × Option I2cTransfer :=
  let respSize := UInt16.ofNat (headerBytes + 49)
  if response.length < respSize.toNat then ((-1, response), none)
  else
    let resp := initResponse (fillZero response respSize.toNat) hdr respSize
    let fail (resp : Bytes) (err : ℕ) : ℤ × Bytes :=
      (respSize.toNat, writePayload resp 0 (ofLE 4 err))
    if reqPayload.length < 17 then (fail resp i2cGeneralError, none)
    else
      let address := u16At reqPayload 12
      let segment := reqPayload.getD 14 0
      let writeLen := (reqPayload.getD 15 0).toNat
      let readLen := (reqPayload.getD 16 0).toNat
      -- the echo of the address and the segment, before any check of the lengths
      let resp := writePayload resp 12 (ofLE 2 address.toNat)
      let resp := writePayload resp 14 [segment]
      if writeLen = 0 ∧ readLen = 0 then ((respSize.toNat, resp), none)
      else if writeLen > 32 ∨ readLen > 32 then (fail resp i2cGeneralError, none)
      else
        match segmentToBus segment with
        | none => (fail resp i2cSegmentNotFound, none)
        | some busNum =>
          let i2cAddr := (address >>> 1).toUInt8
          if kernel = .openFails then (fail resp i2cGeneralError, none)
          else if writeLen > 0 ∧ writeLen > reqPayload.length - 17 then
            (fail resp i2cGeneralError, none)
          else
            let writeMsg : List I2cMsg :=
              if writeLen > 0 then [⟨i2cAddr, false, writeLen, (reqPayload.drop 17).take writeLen⟩]
              else []
            let readMsg : List I2cMsg := if readLen > 0 then [⟨i2cAddr, true, readLen, []⟩] else []
            let transfer : I2cTransfer := ⟨busNum, writeMsg ++ readMsg⟩
            match kernel with
            | .openFails => (fail resp i2cGeneralError, none)
            | .ioctlFails err => (fail resp (i2cErrorFromErrno err), some transfer)
            | .transferred readBuf =>
              let resp := writePayload resp 16 [UInt8.ofNat readLen]
              let resp :=
                if readLen > 0 then
                  writePayload resp 17 ((padTo 32 (readBuf.take readLen)).take readLen)
                else resp
              ((respSize.toNat, resp), some transfer)

/-! ### PlatDef v1 download -/

/-- The error code that ends a download. -/
def platDefNoMoreRecords : ℕ := 6

/-- Layout: [errorCode u32][recordCount u32][recordData 4016]. -/
def handlePlatDefDownload (hdr : ChifPktHeader) (response : Bytes) : ℤ × Bytes :=
  let respSize := UInt16.ofNat (headerBytes + 4024)
  if response.length < respSize.toNat then buildSimpleResponse hdr response 1
  else
    let resp := initResponse (fillZero response respSize.toNat) hdr respSize
    (respSize.toNat, writePayload resp 0 (ofLE 4 platDefNoMoreRecords))

/-! ### Dispatch -/

/-- The store, if there is one, and the map from segments to buses. -/
structure SmifService where
  evStorage : Option EvStorage
  segmentToBus : UInt8 → Option ℤ

/-- What the environment does during one request. -/
structure SmifEnv where
  saveIo : SaveIo
  i2c : I2cOutcome

/-- What one request leads to, with the transaction it asked the kernel for. -/
structure SmifResult where
  /-- return value and response buffer -/
  answer : ℤ × Bytes
  service : SmifService
  i2c : Option I2cTransfer

/-- `SmifService::handle`. -/
def SmifService.handle (env : SmifEnv) (svc : SmifService) (request response : Bytes) :
    SmifResult :=
  if request.length < headerBytes then ⟨(-1, response), svc, none⟩
  else if response.length < headerBytes + 4 then ⟨(-1, response), svc, none⟩
  else
    let hdr := parseHeader request
    let reqPayload := payload request
    if hdr.command = smifCmdGetEvByIndex then
      ⟨handleGetEvByIndex svc.evStorage hdr reqPayload response, svc, none⟩
    else if hdr.command = smifCmdSetDeleteEv then
      let r := handleSetDeleteEv env.saveIo svc.evStorage hdr reqPayload response
      ⟨r.1, { svc with evStorage := r.2 }, none⟩
    else if hdr.command = smifCmdGetEvByName then
      ⟨handleGetEvByName svc.evStorage hdr reqPayload response, svc, none⟩
    else if hdr.command = smifCmdEvStats then
      ⟨handleEvStats svc.evStorage hdr response, svc, none⟩
    else if hdr.command = smifCmdEvState then ⟨handleEvState hdr response, svc, none⟩
    else if hdr.command = smifCmdGetEvAuthStatus then
      ⟨handleGetEvAuthStatus hdr response, svc, none⟩
    else if hdr.command = smifCmdI2cTransaction then
      let r := handleI2cProxy svc.segmentToBus env.i2c hdr reqPayload response
      ⟨r.1, svc, r.2⟩
    else if hdr.command = smifCmdPlatDefUpload then
      ⟨handlePlatDefDownload hdr response, svc, none⟩
    else ⟨buildSimpleResponse hdr response 0, svc, none⟩

end Chif
