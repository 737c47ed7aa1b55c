/-
CHIF packets (`packet.hpp`): the 8-byte header and the helpers every service
handler builds its response with.
-/
import Canopy.Bytes

namespace Chif

open Bytes

/-- CHIF packet header, 8 bytes, little-endian, packed. -/
structure ChifPktHeader where
  pktSize : UInt16
  sequence : UInt16
  command : UInt16
  serviceId : UInt8
  version : UInt8
  deriving DecidableEq, Repr

/-- `sizeof(ChifPktHeader)`. -/
def headerBytes : ℕ := 8

/-- Maximum CHIF packet size (kernel driver limit). -/
def maxPacketSize : ℕ := 4096

/-- Responses have bit 15 set. -/
def responseBit : UInt16 := 0x8000

/-- The header as it lies in memory. -/
def ChifPktHeader.bytes (hdr : ChifPktHeader) : Bytes :=
  ofLE 2 hdr.pktSize.toNat ++ (ofLE 2 hdr.sequence.toNat ++
    (ofLE 2 hdr.command.toNat ++ [hdr.serviceId, hdr.version]))

/-- A `uint16_t` at an offset of a buffer. -/
def u16At (buf : Bytes) (off : ℕ) : UInt16 := UInt16.ofNat (toLE ((buf.drop off).take 2))

/-- `parseHeader`: the first 8 bytes. -/
def parseHeader (buf : Bytes) : ChifPktHeader where
  pktSize := u16At buf 0
  sequence := u16At buf 2
  command := u16At buf 4
  serviceId := buf.getD 6 0
  version := buf.getD 7 0

/-- The payload portion of a packet buffer. -/
def payload (pkt : Bytes) : Bytes := if pkt.length ≤ headerBytes then [] else pkt.drop headerBytes

/-- The header of the response to `reqHdr`. -/
def responseHeader (reqHdr : ChifPktHeader) (respSize : UInt16) : ChifPktHeader :=
  { reqHdr with pktSize := respSize, command := reqHdr.command ||| responseBit }

/-- `initResponse`. -/
def initResponse (resp : Bytes) (reqHdr : ChifPktHeader) (respSize : UInt16) : Bytes :=
  memcpyAt resp 0 (responseHeader reqHdr respSize).bytes

/-- The header of a ROM response: the command unchanged. -/
def romResponseHeader (reqHdr : ChifPktHeader) (respSize : UInt16) : ChifPktHeader :=
  { reqHdr with pktSize := respSize }

/-- The header of a response of the ROM service is put at its start. -/
def initRomResponse (resp : Bytes) (reqHdr : ChifPktHeader) (respSize : UInt16) : Bytes :=
  memcpyAt resp 0 (romResponseHeader reqHdr respSize).bytes

/-- `memcpy` to offset `off` of `responsePayload(resp)`. -/
def writePayload (resp : Bytes) (off : ℕ) (src : Bytes) : Bytes :=
  memcpyAt resp (headerBytes + off) src

/-- `std::fill_n(resp.data(), n, 0)`. -/
def fillZero (resp : Bytes) (n : ℕ) : Bytes := memcpyAt resp 0 (List.replicate n 0)

/-- The bytes `ChifDaemon::run` sends for a handler's return value and buffer. -/
def sent (r : ℤ × Bytes) : Bytes := r.2.take r.1.toNat

/-! ### Headers survive the wire -/

@[simp] theorem ChifPktHeader.bytes_length (hdr : ChifPktHeader) :
    hdr.bytes.length = headerBytes := by
  simp [bytes, headerBytes]

/-- Writing over a field of a response replaces exactly that field. -/
theorem writePayload_block {H pre old post src : Bytes} {off : ℕ} (hH : H.length = headerBytes)
    (hpre : pre.length = off) (h : src.length = old.length) :
    writePayload (H ++ (pre ++ (old ++ post))) off src = H ++ (pre ++ (src ++ post)) := by
  have hoff : headerBytes + off = (H ++ pre).length := by
    rw [List.length_append, hH, hpre]
  rw [writePayload, ← List.append_assoc H pre, memcpyAt_append _ _ hoff h, List.append_assoc]

private theorem u16At_append {w : UInt16} {pre post : Bytes} {off : ℕ} (h : pre.length = off) :
    u16At (pre ++ (ofLE 2 w.toNat ++ post)) off = w := by
  subst h
  have htake : (ofLE 2 w.toNat ++ post).take 2 = ofLE 2 w.toNat := by
    rw [List.take_append_of_le_length (by simp), List.take_of_length_le (by simp)]
  rw [u16At, List.drop_left, htake, toLE_ofLE_of_lt w.toNat_lt, UInt16.ofNat_toNat]

theorem parseHeader_append (hdr : ChifPktHeader) (p : Bytes) :
    parseHeader (hdr.bytes ++ p) = hdr := by
  have h0 : u16At (hdr.bytes ++ p) 0 = hdr.pktSize := by
    have hnil : ([] : Bytes).length = 0 := rfl
    rw [ChifPktHeader.bytes, List.append_assoc]
    exact u16At_append hnil
  have h2 : u16At (hdr.bytes ++ p) 2 = hdr.sequence := by
    rw [ChifPktHeader.bytes, List.append_assoc, List.append_assoc]
    exact u16At_append (ofLE_length 2 _)
  have h4 : u16At (hdr.bytes ++ p) 4 = hdr.command := by
    rw [ChifPktHeader.bytes, List.append_assoc, List.append_assoc, List.append_assoc,
      ← List.append_assoc]
    exact u16At_append (by simp)
  rw [parseHeader, h0, h2, h4]
  rfl

/-- The header is read from the first 8 bytes. -/
theorem parseHeader_take (buf : Bytes) : parseHeader (buf.take headerBytes) = parseHeader buf := by
  have hu16 : ∀ off, off + 2 ≤ headerBytes → u16At (buf.take headerBytes) off = u16At buf off := by
    intro off hoff
    have hmin : min 2 (headerBytes - off) = 2 := by omega
    rw [u16At, u16At, List.drop_take, List.take_take, hmin]
  have hbyte : ∀ i, i < headerBytes → (buf.take headerBytes).getD i 0 = buf.getD i 0 := by
    intro i hi
    rw [List.getD_eq_getElem?_getD, List.getD_eq_getElem?_getD, List.getElem?_take, if_pos hi]
  rw [parseHeader, hu16 0 (by decide), hu16 2 (by decide), hu16 4 (by decide),
    hbyte 6 (by decide), hbyte 7 (by decide), parseHeader]

theorem payload_append (hdr : ChifPktHeader) (p : Bytes) : payload (hdr.bytes ++ p) = p := by
  rw [payload]
  split
  · next h =>
    rw [List.length_append, hdr.bytes_length] at h
    exact (List.length_eq_zero_iff.mp (by omega)).symm
  · rw [← hdr.bytes_length, List.drop_left]

end Chif
