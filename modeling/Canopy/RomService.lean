/-
The ROM service (`rom_service.hpp`, `rom_service.cpp`) and the Health service
(`health_service.cpp`).

A ROM request changes the SMBIOS writer; an end command that has published a
file also asks smbios-mdr to read it, over D-Bus, if there is a bridge.
-/
import Canopy.Packet
import Canopy.SmbiosWriter

namespace Chif

open Bytes

/-! ### ROM -/

/-- Command codes of the ROM service. -/
def romCmdBegin : UInt16 := 0x0003
def romCmdRecord : UInt16 := 0x0004
def romCmdEnd : UInt16 := 0x0005
def romCmdPowerData : UInt16 := 0x0006
def romCmdThermal : UInt16 := 0x0007
def romCmdBlob : UInt16 := 0x000C

/-- Header only, no response bit. -/
def buildHeaderOnlyResponse (reqHdr : ChifPktHeader) (response : Bytes) : ℤ × Bytes :=
  let respSize := UInt16.ofNat headerBytes
  if response.length < respSize.toNat then (-1, response)
  else (respSize.toNat, initRomResponse response reqHdr respSize)

/-- The writer the service fills, and whether it has a bridge to the MDR service. -/
structure RomService where
  writer : SmbiosWriter
  /-- `mdrBridge_` is not null -/
  mdrBridge : Bool
  deriving DecidableEq, Repr

/-- What one request leads to. -/
structure RomResult where
  /-- return value and response buffer -/
  answer : ℤ × Bytes
  service : RomService
  /-- `mdrBridge_->synchronize()` was called -/
  synchronized : Bool

/-- `RomService::handleBegin`: start over, and acknowledge. -/
def RomService.handleBegin (svc : RomService) (reqHdr : ChifPktHeader) (response : Bytes) :
    RomResult :=
  ⟨buildHeaderOnlyResponse reqHdr response, { svc with writer := svc.writer.begin }, false⟩

/-- The common body of `handleRecord` and `handleBlob`. -/
def RomService.addPayload (svc : RomService) (reqHdr : ChifPktHeader)
    (request response : Bytes) : RomResult :=
  let data := payload request
  if data = [] then ⟨buildHeaderOnlyResponse reqHdr response, svc, false⟩
  else
    ⟨buildHeaderOnlyResponse reqHdr response, { svc with writer := svc.writer.addRecord data },
      false⟩

/-- `RomService::handleRecord`. -/
def RomService.handleRecord (svc : RomService) (reqHdr : ChifPktHeader)
    (request response : Bytes) : RomResult :=
  svc.addPayload reqHdr request response

/-- `RomService::handleEnd`: the answer does not tell whether `finalize` succeeded. -/
def RomService.handleEnd (io : FinalizeIo) (svc : RomService) (reqHdr : ChifPktHeader)
    (response : Bytes) : RomResult :=
  let r := svc.writer.finalize io
  ⟨buildHeaderOnlyResponse reqHdr response, { svc with writer := r.2 }, r.1 && svc.mdrBridge⟩

/-- `RomService::handleBlob`. -/
def RomService.handleBlob (svc : RomService) (reqHdr : ChifPktHeader)
    (request response : Bytes) : RomResult :=
  svc.addPayload reqHdr request response

/-- `RomService::handle`. -/
def RomService.handle (io : FinalizeIo) (svc : RomService) (request response : Bytes) :
    RomResult :=
  if request.length < headerBytes then ⟨(-1, response), svc, false⟩
  else
    let hdr := parseHeader request
    if hdr.command = romCmdBegin then svc.handleBegin hdr response
    else if hdr.command = romCmdRecord then svc.handleRecord hdr request response
    else if hdr.command = romCmdEnd then svc.handleEnd io hdr response
    else if hdr.command = romCmdPowerData then
      ⟨buildHeaderOnlyResponse hdr response, svc, false⟩
    else if hdr.command = romCmdThermal then
      ⟨buildHeaderOnlyResponse hdr response, svc, false⟩
    else if hdr.command = romCmdBlob then svc.handleBlob hdr request response
    else ⟨(-1, response), svc, false⟩

/-! ### Health -/

/-- `HealthService::handle`: every command is answered with error code 0. -/
def healthHandle (request response : Bytes) : ℤ × Bytes :=
  if request.length < headerBytes then (-1, response)
  else
    let respSize := UInt16.ofNat (headerBytes + 4)
    if response.length < respSize.toNat then (-1, response)
    else
      let hdr := parseHeader request
      (respSize.toNat, initResponse (fillZero response respSize.toNat) hdr respSize)

end Chif
