/-
What the I2C proxy passes on, and what it answers.

* `exit_of_performs`, `exit_of_not_performs` — the exits of `handleI2cProxy`, each
  with the response it leaves;
* `transparent_iff` — the bus sees what the request asks for, and the response
  says what the bus did, iff the address field of a request that gets as far as
  the bus is below 512;
* `transparent_pair_iff` — the same for two requests and the devices they reach.
-/
import Canopy.ByteField
import Canopy.Framing
import Canopy.SmifService

namespace Chif

open Bytes

/-! ### The response -/

/-- `I2cResponse`; `read` is what `data` starts with. -/
structure I2cResponse where
  errcode : ℕ
  address : UInt16
  engine : UInt8
  readLen : UInt8
  read : Bytes

namespace I2cResponse

def zero : I2cResponse := ⟨0, 0, 0, 0, []⟩

def bytes (r : I2cResponse) : Bytes :=
  ofLE 4 r.errcode ++ (List.replicate 8 0 ++ (ofLE 2 r.address.toNat ++ ([r.engine] ++
    ([0] ++ ([r.readLen] ++ padTo 32 r.read)))))

private theorem bytes_zero : zero.bytes = List.replicate 49 0 := by decide

theorem bytes_length {r : I2cResponse} (h : r.read.length ≤ 32) : r.bytes.length = 49 := by
  simp only [bytes, List.length_append, ofLE_length, List.length_replicate, padTo_length h,
    List.length_singleton]

private theorem memcpyAt_errcode (r : I2cResponse) (err : ℕ) :
    memcpyAt r.bytes 0 (ofLE 4 err) = { r with errcode := err }.bytes := by
  have hlen : (ofLE 4 err).length = (ofLE 4 r.errcode).length := by
    rw [ofLE_length, ofLE_length]
  exact memcpyAt_append [] _ rfl hlen

private theorem memcpyAt_address (r : I2cResponse) (address : UInt16) :
    memcpyAt r.bytes 12 (ofLE 2 address.toNat) = { r with address := address }.bytes := by
  have hoff : 12 = (ofLE 4 r.errcode ++ List.replicate 8 0).length := by simp
  have hlen : (ofLE 2 address.toNat).length = (ofLE 2 r.address.toNat).length := by
    rw [ofLE_length, ofLE_length]
  have hcopy := memcpyAt_append _ ([r.engine] ++ ([0] ++ ([r.readLen] ++ padTo 32 r.read))) hoff
    hlen
  simpa only [bytes, List.append_assoc] using hcopy

private theorem memcpyAt_engine (r : I2cResponse) (engine : UInt8) :
    memcpyAt r.bytes 14 [engine] = { r with engine := engine }.bytes := by
  have hoff : 14 = (ofLE 4 r.errcode ++ (List.replicate 8 0 ++ ofLE 2 r.address.toNat)).length := by
    simp
  have hcopy := memcpyAt_append _ ([0] ++ ([r.readLen] ++ padTo 32 r.read)) hoff
    (show [engine].length = [r.engine].length from rfl)
  simpa only [bytes, List.append_assoc] using hcopy

private theorem memcpyAt_readLen (r : I2cResponse) (readLen : UInt8) :
    memcpyAt r.bytes 16 [readLen] = { r with readLen := readLen }.bytes := by
  have hoff : 16 = (ofLE 4 r.errcode ++ (List.replicate 8 0 ++ (ofLE 2 r.address.toNat ++
      ([r.engine] ++ [0])))).length := by simp
  have hcopy := memcpyAt_append _ (padTo 32 r.read) hoff
    (show [readLen].length = [r.readLen].length from rfl)
  simpa only [bytes, List.append_assoc] using hcopy

/-- The bytes read, copied into a data field that is still zero. -/
theorem memcpyAt_data {r : I2cResponse} (hr : r.read = []) {read : Bytes} {n : ℕ}
    (hread : read.length ≤ n) (hn : n ≤ 32) :
    memcpyAt r.bytes 17 ((padTo 32 read).take n) = { r with read := read }.bytes := by
  have hoff : 17 = (ofLE 4 r.errcode ++ (List.replicate 8 0 ++ (ofLE 2 r.address.toNat ++
      ([r.engine] ++ ([0] ++ [r.readLen]))))).length := by simp
  have hpad : (padTo 32 read).length = 32 := padTo_length (by omega)
  have hlen : ((padTo 32 read).take n).length = (List.replicate n (0 : UInt8)).length := by
    rw [List.length_take, List.length_replicate]
    omega
  have hzero : padTo 32 ([] : Bytes) = List.replicate n 0 ++ List.replicate (32 - n) 0 := by
    rw [List.replicate_append_replicate, Nat.add_sub_of_le hn]
    rfl
  have hrest : (padTo 32 read).take n ++ List.replicate (32 - n) 0 = padTo 32 read := by
    conv_rhs => rw [← List.take_append_drop n (padTo 32 read)]
    rw [padTo, List.drop_append, List.drop_of_length_le hread, List.nil_append,
      List.drop_replicate]
    congr 2
    omega
  have hcopy := memcpyAt_append _ (List.replicate (32 - n) 0) hoff hlen
  rw [hrest] at hcopy
  rw [bytes, hr, hzero]
  simpa only [bytes, List.append_assoc] using hcopy

end I2cResponse

/-! ### The request -/

/-- A call of the handler: the service's map, what the kernel does, the request
and the buffer for the response. -/
structure I2cCall where
  segmentToBus : UInt8 → Option ℤ
  kernel : I2cOutcome
  hdr : ChifPktHeader
  reqPayload : Bytes
  response : Bytes

namespace I2cCall

variable (c : I2cCall)

def result : (ℤ × Bytes) × Option I2cTransfer :=
  handleI2cProxy c.segmentToBus c.kernel c.hdr c.reqPayload c.response

def address : UInt16 := u16At c.reqPayload 12

def segment : UInt8 := c.reqPayload.getD 14 0

def writeLen : ℕ := (c.reqPayload.getD 15 0).toNat

def readLen : ℕ := (c.reqPayload.getD 16 0).toNat

/-- A complete request for no transfer at all. -/
def Idle : Prop := 17 ≤ c.reqPayload.length ∧ c.writeLen = 0 ∧ c.readLen = 0

/-- A request that gets as far as the bus. -/
structure Performs (bus : ℤ) : Prop where
  room : 57 ≤ c.response.length
  complete : 17 ≤ c.reqPayload.length
  asked : ¬(c.writeLen = 0 ∧ c.readLen = 0)
  writeLen_le : c.writeLen ≤ 32
  readLen_le : c.readLen ≤ 32
  mapped : c.segmentToBus c.segment = some bus
  opened : c.kernel ≠ .openFails
  available : 0 < c.writeLen → c.writeLen ≤ c.reqPayload.length - 17

/-! ### The exits -/

/-- The buffer with the header and `r` in it. -/
def reply (r : I2cResponse) : Bytes :=
  (responseHeader c.hdr (UInt16.ofNat (headerBytes + 49))).bytes ++
    (r.bytes ++ c.response.drop (headerBytes + 49))

/-- The response with the address and the segment of the request echoed. -/
def echo : I2cResponse := ⟨0, c.address, c.segment, 0, []⟩

variable {c}

theorem writePayload_reply {r r' : I2cResponse} {off : ℕ} {src : Bytes}
    (hr : r.read.length ≤ 32) (hoff : off + src.length ≤ 49)
    (h : memcpyAt r.bytes off src = r'.bytes) :
    writePayload (c.reply r) off src = c.reply r' := by
  rw [reply, writePayload_body (ChifPktHeader.bytes_length _), h, reply]
  rw [I2cResponse.bytes_length hr]
  exact hoff

private theorem writePayload_errcode {r : I2cResponse} (hr : r.read.length ≤ 32) (err : ℕ) :
    writePayload (c.reply r) 0 (ofLE 4 err) = c.reply { r with errcode := err } :=
  writePayload_reply hr (by rw [ofLE_length]; decide) (r.memcpyAt_errcode err)

private theorem init_reply :
    initResponse (fillZero c.response (UInt16.ofNat (headerBytes + 49)).toNat)
    c.hdr (UInt16.ofNat (headerBytes + 49)) = c.reply .zero := by
  have hsize : (UInt16.ofNat (headerBytes + 49)).toNat = headerBytes + 49 := rfl
  rw [initResponse_fillZero c.hdr hsize, reply, I2cResponse.bytes_zero]

private theorem echo_reply :
    writePayload (writePayload (c.reply .zero) 12 (ofLE 2 c.address.toNat)) 14
    [c.segment] = c.reply c.echo := by
  rw [writePayload_reply (Nat.zero_le _) (by rw [ofLE_length]; decide)
      (I2cResponse.memcpyAt_address .zero c.address),
    writePayload_reply (Nat.zero_le _) (by rw [List.length_singleton]; decide)
      (I2cResponse.memcpyAt_engine _ c.segment)]
  rfl

/-- The messages of the transfer. -/
def msgs (c : I2cCall) : List I2cMsg :=
  (if c.writeLen > 0 then
    [⟨(c.address >>> 1).toUInt8, false, c.writeLen, (c.reqPayload.drop 17).take c.writeLen⟩]
  else []) ++
    if c.readLen > 0 then [⟨(c.address >>> 1).toUInt8, true, c.readLen, []⟩] else []

/-- The response and the transfer of a call that has room for the response. -/
def exit (c : I2cCall) : I2cResponse × Option I2cTransfer :=
  if c.reqPayload.length < 17 then ({ I2cResponse.zero with errcode := i2cGeneralError }, none)
  else if c.writeLen = 0 ∧ c.readLen = 0 then (c.echo, none)
  else if c.writeLen > 32 ∨ c.readLen > 32 then
    ({ c.echo with errcode := i2cGeneralError }, none)
  else
    match c.segmentToBus c.segment with
    | none => ({ c.echo with errcode := i2cSegmentNotFound }, none)
    | some bus =>
      -- the bus is opened before the length of the write is checked
      if c.kernel = .openFails then ({ c.echo with errcode := i2cGeneralError }, none)
      else if c.writeLen > 0 ∧ c.writeLen > c.reqPayload.length - 17 then
        ({ c.echo with errcode := i2cGeneralError }, none)
      else
        match c.kernel with
        | .openFails => ({ c.echo with errcode := i2cGeneralError }, none)
        | .ioctlFails err =>
          ({ c.echo with errcode := i2cErrorFromErrno err }, some ⟨bus, c.msgs⟩)
        | .transferred readBuf =>
          ({ c.echo with readLen := UInt8.ofNat c.readLen, read := readBuf.take c.readLen },
            some ⟨bus, c.msgs⟩)

/-- An exit as the handler returns it. -/
def returned (c : I2cCall) (e : I2cResponse × Option I2cTransfer) :
    (ℤ × Bytes) × Option I2cTransfer :=
  ((57, c.reply e.1), e.2)

theorem returned_errcode (r : I2cResponse) (hr : r.read.length ≤ 32) (err : ℕ)
    (t : Option I2cTransfer) :
    ((((UInt16.ofNat (headerBytes + 49)).toNat : ℤ), writePayload (c.reply r) 0 (ofLE 4 err)), t) =
      c.returned ({ r with errcode := err }, t) := by
  rw [writePayload_errcode hr]
  rfl

/-- What a successful transfer writes. -/
theorem returned_read (readBuf : Bytes) (h : c.readLen ≤ 32) (t : Option I2cTransfer) :
    ((((UInt16.ofNat (headerBytes + 49)).toNat : ℤ),
      if c.readLen > 0 then
        writePayload (writePayload (c.reply c.echo) 16 [UInt8.ofNat c.readLen]) 17
          ((padTo 32 (readBuf.take c.readLen)).take c.readLen)
      else writePayload (c.reply c.echo) 16 [UInt8.ofNat c.readLen]), t) =
      c.returned ({ c.echo with
        readLen := UInt8.ofNat c.readLen, read := readBuf.take c.readLen }, t) := by
  have hsize : 16 + [UInt8.ofNat c.readLen].length ≤ 49 := by
    rw [List.length_singleton]
    decide
  have hread : (readBuf.take c.readLen).length ≤ c.readLen := List.length_take_le _ _
  rw [writePayload_reply (Nat.zero_le _) hsize (I2cResponse.memcpyAt_readLen c.echo _)]
  split
  · rw [writePayload_reply (Nat.zero_le _) ?_ (I2cResponse.memcpyAt_data rfl hread h)]
    · rfl
    · rw [List.length_take]
      omega
  · next hzero =>
    -- nothing was asked for, so nothing is written behind the length
    have hnil : readBuf.take c.readLen = [] := by
      rw [Nat.eq_zero_of_not_pos hzero, List.take_zero]
    rw [hnil]
    rfl

private theorem result_of_noRoom (h : c.response.length < 57) :
    c.result = ((-1, c.response), none) :=
  if_pos h

/-- **The exits of the handler.** -/
theorem result_eq (hroom : 57 ≤ c.response.length) : c.result = c.returned c.exit := by
  have hbuf : ¬c.response.length < (UInt16.ofNat (headerBytes + 49)).toNat := not_lt.mpr hroom
  have hecho : writePayload (writePayload (c.reply .zero) 12
      (ofLE 2 (u16At c.reqPayload 12).toNat)) 14 [c.reqPayload.getD 14 0] = c.reply c.echo :=
    echo_reply
  have hnil : c.echo.read.length ≤ 32 := Nat.zero_le 32
  have hreadLen : (c.reqPayload.getD 16 0).toNat = c.readLen := rfl
  rw [result, handleI2cProxy, if_neg hbuf, init_reply, exit]
  dsimp only
  simp only [hecho, apply_ite c.returned]
  refine ite_congr rfl (fun _ => returned_errcode .zero (Nat.zero_le 32) _ _) fun _ => ?_
  refine ite_congr rfl (fun _ => rfl) fun _ => ?_
  refine ite_congr rfl (fun _ => returned_errcode _ hnil _ _) fun hlens => ?_
  -- from here on the response holds the echo, and the exits differ in what follows it
  change (match c.segmentToBus c.segment with
    | none => _
    | some busNum => _) = _
  cases c.segmentToBus c.segment with
  | none => exact returned_errcode _ hnil _ _
  | some bus =>
    simp only [apply_ite c.returned]
    refine ite_congr rfl (fun _ => returned_errcode _ hnil _ _) fun _ => ?_
    refine ite_congr rfl (fun _ => returned_errcode _ hnil _ _) fun _ => ?_
    cases c.kernel with
    | openFails => exact returned_errcode _ hnil _ _
    | ioctlFails err => exact returned_errcode _ hnil _ _
    | transferred readBuf => exact returned_read readBuf (by omega) _

/-! ### What the caller can tell -/

/-- The kernel carries the transfer out and has read these bytes. -/
def Succeeds (c : I2cCall) (read : Bytes) : Prop :=
  ∃ readBuf, c.kernel = .transferred readBuf ∧ c.result.2 ≠ none ∧ read = readBuf.take c.readLen

/-- The messages the request asks for: the kind, the device address, the length
and the bytes to write. -/
def asked (c : I2cCall) : List (Bool × ℕ × ℕ × Bytes) :=
  (if c.writeLen > 0 then
    [(false, c.address.toNat >>> 1, c.writeLen, (c.reqPayload.drop 17).take c.writeLen)]
  else []) ++
    if c.readLen > 0 then [(true, c.address.toNat >>> 1, c.readLen, [])] else []

/-- A message as the bus sees it. -/
def onBus (m : I2cMsg) : Bool × ℕ × ℕ × Bytes := (m.read, m.addr.toNat, m.len, m.buf)

/-- The bus sees what the request asks for, and the response says what the bus
did. -/
structure Transparent (c : I2cCall) : Prop where
  bus : ∀ t, c.result.2 = some t → c.segmentToBus c.segment = some t.bus
  msgs : ∀ t, c.result.2 = some t → t.msgs.map onBus = c.asked
  read : ∀ read, c.Succeeds read → uint8At c.result.1.2 (headerBytes + 16) = UInt8.ofNat c.readLen ∧
    field c.result.1.2 (headerBytes + 17) 32 = padTo 32 read
  no_read : 57 ≤ c.response.length → (∀ read, ¬c.Succeeds read) →
    uint8At c.result.1.2 (headerBytes + 16) = 0 ∧
      field c.result.1.2 (headerBytes + 17) 32 = List.replicate 32 0
  errcode : 57 ≤ c.response.length →
    (uintAt c.result.1.2 headerBytes 4 = 0 ↔ (∃ read, c.Succeeds read) ∨ c.Idle)

/-! ### Which exit is taken -/

theorem exit_of_performs {bus : ℤ} (h : c.Performs bus) :
    (∃ err, c.kernel = .ioctlFails err ∧
      c.exit = ({ c.echo with errcode := i2cErrorFromErrno err }, some ⟨bus, c.msgs⟩)) ∨
    ∃ readBuf, c.kernel = .transferred readBuf ∧
      c.exit = ({ c.echo with readLen := UInt8.ofNat c.readLen, read := readBuf.take c.readLen },
        some ⟨bus, c.msgs⟩) := by
  have hlens : ¬(c.writeLen > 32 ∨ c.readLen > 32) :=
    not_or.mpr ⟨not_lt.mpr h.writeLen_le, not_lt.mpr h.readLen_le⟩
  have havailable : ¬(c.writeLen > 0 ∧ c.writeLen > c.reqPayload.length - 17) :=
    fun hcut => absurd (h.available hcut.1) (not_le.mpr hcut.2)
  rw [exit, if_neg (not_lt.mpr h.complete), if_neg h.asked, if_neg hlens, h.mapped]
  dsimp only
  rw [if_neg h.opened, if_neg havailable]
  cases hkernel : c.kernel with
  | openFails => exact absurd hkernel h.opened
  | ioctlFails err => exact Or.inl ⟨err, rfl, rfl⟩
  | transferred readBuf => exact Or.inr ⟨readBuf, rfl, rfl⟩

/-- A response of an exit that does not get as far as the bus. -/
structure Refusal (c : I2cCall) (e : I2cResponse × Option I2cTransfer) : Prop where
  transfer : e.2 = none
  readLen : e.1.readLen = 0
  read : e.1.read = []
  errcode_lt : e.1.errcode < 256 ^ 4
  errcode : e.1.errcode = 0 ↔ c.Idle

private theorem refusal_error {r : I2cResponse} {err : ℕ} (hlen : r.readLen = 0)
    (hread : r.read = [])
    (herr : 0 < err) (hlt : err < 256 ^ 4) (h : ¬c.Idle) :
    c.Refusal ({ r with errcode := err }, none) :=
  ⟨rfl, hlen, hread, hlt, iff_of_false (Nat.pos_iff_ne_zero.mp herr) h⟩

theorem exit_of_not_performs (hroom : 57 ≤ c.response.length) (h : ∀ bus, ¬c.Performs bus) :
    c.Refusal c.exit := by
  have hgeneral : 0 < i2cGeneralError ∧ i2cGeneralError < 256 ^ 4 := by decide
  have hnotFound : 0 < i2cSegmentNotFound ∧ i2cSegmentNotFound < 256 ^ 4 := by decide
  have herror := fun hidle : ¬c.Idle =>
    refusal_error (r := c.echo) rfl rfl hgeneral.1 hgeneral.2 hidle
  rw [exit]
  split
  · next hshort =>
    refine refusal_error (r := .zero) rfl rfl hgeneral.1 hgeneral.2 fun hidle => ?_
    exact absurd hidle.1 (not_le.mpr hshort)
  next hcomplete =>
  split
  · next hnone =>
    exact ⟨rfl, rfl, rfl, Nat.pos_of_ne_zero (by decide),
      iff_of_true rfl ⟨not_lt.mp hcomplete, hnone⟩⟩
  next hasked =>
  have hidle : ¬c.Idle := fun hidle => hasked hidle.2
  split
  · exact herror hidle
  next hlens =>
  obtain ⟨hwriteLen, hreadLen⟩ := not_or.mp hlens
  cases hbus : c.segmentToBus c.segment with
  | none => exact refusal_error (r := c.echo) rfl rfl hnotFound.1 hnotFound.2 hidle
  | some bus =>
    dsimp only
    split
    · exact herror hidle
    next hopen =>
    split
    · exact herror hidle
    next havailable =>
    -- every check is passed, so the transfer is made
    refine absurd ⟨hroom, not_lt.mp hcomplete, hasked, not_lt.mp hwriteLen, not_lt.mp hreadLen,
      hbus, hopen, fun hpos => ?_⟩ (h bus)
    exact not_lt.mp fun hcut => havailable ⟨hpos, hcut⟩

/-! ### Reading the response -/

private theorem field_reply {r : I2cResponse} (hr : r.read.length ≤ 32) {off len : ℕ}
    (h : off + len ≤ 49) : field (c.reply r) (headerBytes + off) len = field r.bytes off len := by
  rw [reply, field_append_right (ChifPktHeader.bytes_length _), field_append_left]
  rw [I2cResponse.bytes_length hr]
  exact h

private theorem errcode_reply {r : I2cResponse} (hr : r.read.length ≤ 32)
    (h : r.errcode < 256 ^ 4) :
    uintAt (c.reply r) headerBytes 4 = r.errcode := by
  have hfield : field r.bytes 0 4 = ofLE 4 r.errcode := by
    rw [I2cResponse.bytes]
    exact List.take_left' (ofLE_length 4 _)
  rw [uintAt, ← Nat.add_zero headerBytes, field_reply hr (by decide), hfield, toLE_ofLE_of_lt h]

private theorem read_reply {r : I2cResponse} (hr : r.read.length ≤ 32) :
    field (c.reply r) (headerBytes + 17) 32 = padTo 32 r.read := by
  have hpre : (ofLE 4 r.errcode ++ (List.replicate 8 0 ++ (ofLE 2 r.address.toNat ++
      ([r.engine] ++ ([0] ++ [r.readLen]))))).length = 17 := by simp
  have hblock : field (_ ++ (padTo 32 r.read ++ [])) 17 32 = padTo 32 r.read :=
    field_block hpre (padTo_length hr)
  rw [field_reply hr (by decide), I2cResponse.bytes]
  simpa only [List.append_assoc, List.append_nil] using hblock

private theorem readLen_reply {r : I2cResponse} (hr : r.read.length ≤ 32) :
    uint8At (c.reply r) (headerBytes + 16) = r.readLen := by
  have hpre : (ofLE 4 r.errcode ++ (List.replicate 8 0 ++ (ofLE 2 r.address.toNat ++
      ([r.engine] ++ [0])))).length = 16 := by simp
  have hbyte : uint8At (_ ++ ([r.readLen] ++ padTo 32 r.read)) (16 + 0) = _ :=
    uint8At_append_right hpre
  have hfield : field (c.reply r) (headerBytes + 16) 1 = _ := field_reply hr (by decide)
  have hread :
      uint8At (field (c.reply r) (headerBytes + 16) 1) 0 = uint8At (field r.bytes 16 1) 0 :=
    congrArg (uint8At · 0) hfield
  rw [uint8At_field (by decide), uint8At_field (by decide), I2cResponse.bytes] at hread
  rw [Nat.add_zero] at hread
  have hhead : uint8At ([r.readLen] ++ padTo 32 r.read) 0 = r.readLen := rfl
  refine hread.trans (Eq.trans ?_ hhead)
  simpa only [List.append_assoc] using hbyte

/-! ### What reaches the bus -/

/-- **A transfer is made exactly by the calls that get as far as the bus**, and
on the bus of the segment. -/
theorem transfer_iff {t : I2cTransfer} :
    c.result.2 = some t ↔ ∃ bus, c.Performs bus ∧ t = ⟨bus, c.msgs⟩ := by
  by_cases hroom : 57 ≤ c.response.length
  · rw [result_eq hroom, returned]
    by_cases hperforms : ∃ bus, c.Performs bus
    · obtain ⟨bus, hbus⟩ := hperforms
      have hexit : c.exit.2 = some ⟨bus, c.msgs⟩ := by
        rcases exit_of_performs hbus with ⟨err, -, heq⟩ | ⟨readBuf, -, heq⟩
        · rw [heq]
        · rw [heq]
      rw [hexit]
      constructor
      · intro h
        exact ⟨bus, hbus, (Option.some.inj h).symm⟩
      · rintro ⟨bus', hbus', rfl⟩
        rw [Option.some.inj (hbus.mapped.symm.trans hbus'.mapped)]
    · have hrefusal := exit_of_not_performs hroom (not_exists.mp hperforms)
      rw [hrefusal.transfer]
      constructor
      · intro h
        cases h
      · rintro ⟨bus, hbus, -⟩
        exact absurd ⟨bus, hbus⟩ hperforms
  · rw [result_of_noRoom (not_le.mp hroom)]
    constructor
    · intro h
      cases h
    · rintro ⟨bus, hbus, -⟩
      exact absurd hbus.room hroom

private theorem transfer_ne_none : c.result.2 ≠ none ↔ ∃ bus, c.Performs bus := by
  rw [Option.ne_none_iff_exists']
  constructor
  · rintro ⟨t, ht⟩
    obtain ⟨bus, hbus, -⟩ := transfer_iff.mp ht
    exact ⟨bus, hbus⟩
  · rintro ⟨bus, hbus⟩
    exact ⟨⟨bus, c.msgs⟩, transfer_iff.mpr ⟨bus, hbus, rfl⟩⟩

/-- The response to a transfer that succeeded. -/
theorem result_of_succeeds {read : Bytes} (h : c.Succeeds read) :
    read.length ≤ 32 ∧ ∃ bus, c.result =
      c.returned ({ c.echo with readLen := UInt8.ofNat c.readLen, read := read },
        some ⟨bus, c.msgs⟩) := by
  obtain ⟨readBuf, hkernel, hmade, rfl⟩ := h
  obtain ⟨bus, hbus⟩ := transfer_ne_none.mp hmade
  refine ⟨(List.length_take_le _ _).trans hbus.readLen_le, bus, ?_⟩
  rw [result_eq hbus.room]
  rcases exit_of_performs hbus with ⟨err, herr, -⟩ | ⟨readBuf', hread, heq⟩
  · rw [hkernel] at herr
    cases herr
  · obtain rfl := I2cOutcome.transferred.inj (hkernel.symm.trans hread)
    rw [heq]

private theorem i2cErrorFromErrno_pos (err : ℕ) :
    0 < i2cErrorFromErrno err ∧ i2cErrorFromErrno err < 256 ^ 4 := by
  rw [i2cErrorFromErrno]
  split
  · decide
  · split
    · decide
    · decide

/-- The response to everything else. -/
theorem result_of_not_succeeds (hroom : 57 ≤ c.response.length)
    (h : ∀ read, ¬c.Succeeds read) : ∃ r t, c.result = c.returned (r, t) ∧ r.readLen = 0 ∧
      r.read = [] ∧ r.errcode < 256 ^ 4 ∧ (r.errcode = 0 ↔ c.Idle) := by
  rw [result_eq hroom]
  by_cases hperforms : ∃ bus, c.Performs bus
  · obtain ⟨bus, hbus⟩ := hperforms
    rcases exit_of_performs hbus with ⟨err, -, heq⟩ | ⟨readBuf, hkernel, -⟩
    · obtain ⟨hpos, hlt⟩ := i2cErrorFromErrno_pos err
      rw [heq]
      refine ⟨_, _, rfl, rfl, rfl, hlt, iff_of_false (Nat.pos_iff_ne_zero.mp hpos) ?_⟩
      exact fun hidle => hbus.asked hidle.2
    · exact absurd ⟨readBuf, hkernel, transfer_ne_none.mpr ⟨bus, hbus⟩, rfl⟩ (h _)
  · have hrefusal := exit_of_not_performs hroom (not_exists.mp hperforms)
    exact ⟨_, _, rfl, hrefusal.readLen, hrefusal.read, hrefusal.errcode_lt, hrefusal.errcode⟩

/-! ### The address -/

/-- A request that gets as far as the bus has an address that fits a byte once
it is shifted. -/
def AddressFits (c : I2cCall) : Prop := (∃ bus, c.Performs bus) → c.address.toNat < 512

private theorem addr_toNat (c : I2cCall) :
    ((c.address >>> 1).toUInt8).toNat = (c.address.toNat >>> 1) % 256 := by
  rw [UInt16.toNat_toUInt8, UInt16.toNat_shiftRight]
  rfl

/-- The cast to a byte keeps the address exactly when it was below 512. -/
theorem addr_toNat_eq_iff (c : I2cCall) :
    ((c.address >>> 1).toUInt8).toNat = c.address.toNat >>> 1 ↔ c.address.toNat < 512 := by
  rw [addr_toNat, Nat.shiftRight_eq_div_pow]
  omega

/-- The bus sees the messages asked for exactly when the address fits. -/
theorem msgs_onBus_iff {bus : ℤ} (h : c.Performs bus) :
    c.msgs.map onBus = c.asked ↔ c.address.toNat < 512 := by
  rw [← addr_toNat_eq_iff, msgs, asked]
  constructor
  · intro heq
    by_cases hwrite : c.writeLen > 0
    · rw [if_pos hwrite, if_pos hwrite] at heq
      exact congrArg (fun m => m.2.1) (List.cons.inj heq).1
    · -- a read only: its message comes first
      have hread : c.readLen > 0 := by
        have := h.asked
        omega
      rw [if_neg hwrite, if_neg hwrite, if_pos hread, if_pos hread] at heq
      exact congrArg (fun m => m.2.1) (List.cons.inj heq).1
  · intro haddr
    rw [List.map_append, apply_ite (List.map onBus), apply_ite (List.map onBus), List.map_singleton,
      List.map_singleton, List.map_nil, onBus, onBus, haddr]

/-- **The proxy is transparent iff the address of a request that gets as far as
the bus is below 512.** -/
theorem transparent_iff (c : I2cCall) : c.Transparent ↔ c.AddressFits := by
  constructor
  · rintro h ⟨bus, hbus⟩
    exact (msgs_onBus_iff hbus).mp (h.msgs _ (transfer_iff.mpr ⟨bus, hbus, rfl⟩))
  · intro hfits
    refine ⟨fun t ht => ?_, fun t ht => ?_, fun read hread => ?_, fun hroom hnone => ?_,
      fun hroom => ?_⟩
    · obtain ⟨bus, hbus, rfl⟩ := transfer_iff.mp ht
      exact hbus.mapped
    · obtain ⟨bus, hbus, rfl⟩ := transfer_iff.mp ht
      exact (msgs_onBus_iff hbus).mpr (hfits ⟨bus, hbus⟩)
    · obtain ⟨hlen, bus, hresult⟩ := result_of_succeeds hread
      rw [hresult]
      exact ⟨readLen_reply hlen, read_reply hlen⟩
    · obtain ⟨r, t, hresult, hreadLen, hread, -⟩ := result_of_not_succeeds hroom hnone
      have hlen : r.read.length ≤ 32 := by
        rw [hread]
        exact Nat.zero_le 32
      rw [hresult, returned, readLen_reply hlen, read_reply hlen, hreadLen, hread]
      exact ⟨rfl, rfl⟩
    · by_cases hsucceeds : ∃ read, c.Succeeds read
      · obtain ⟨read, hread⟩ := hsucceeds
        obtain ⟨hlen, bus, hresult⟩ := result_of_succeeds hread
        rw [hresult, returned, errcode_reply hlen (Nat.pos_of_ne_zero (by decide))]
        exact iff_of_true rfl (Or.inl ⟨read, hread⟩)
      · obtain ⟨r, t, hresult, -, hread, hlt, herr⟩ :=
          result_of_not_succeeds hroom (not_exists.mp hsucceeds)
        have hlen : r.read.length ≤ 32 := by
          rw [hread]
          exact Nat.zero_le 32
        rw [hresult, returned, errcode_reply hlen hlt, herr, or_iff_right hsucceeds]

/-- Requests whose shifted address fields differ reach different devices. -/
def Distinct (c c' : I2cCall) : Prop :=
  c.address.toNat >>> 1 ≠ c'.address.toNat >>> 1 →
    ∀ t t', c.result.2 = some t → c'.result.2 = some t' → t.bus = t'.bus →
      ∀ m ∈ t.msgs, ∀ m' ∈ t'.msgs, m.addr ≠ m'.addr

private theorem addr_of_mem_msgs {m : I2cMsg} (h : m ∈ c.msgs) :
    m.addr = (c.address >>> 1).toUInt8 := by
  rw [msgs, List.mem_append] at h
  rcases h with h | h
  · split at h
    · rw [List.mem_singleton.mp h]
    · cases h
  · split at h
    · rw [List.mem_singleton.mp h]
    · cases h

/-- **I2C proxy transparency**, for any two requests. -/
theorem transparent_pair_iff (c c' : I2cCall) :
    (c.Transparent ∧ c'.Transparent ∧ c.Distinct c') ↔ (c.AddressFits ∧ c'.AddressFits) := by
  rw [transparent_iff, transparent_iff, ← and_assoc]
  refine and_iff_left_of_imp ?_
  rintro ⟨hfits, hfits'⟩ hne t t' ht ht' - m hm m' hm' heq
  obtain ⟨bus, hbus, rfl⟩ := transfer_iff.mp ht
  obtain ⟨bus', hbus', rfl⟩ := transfer_iff.mp ht'
  rw [addr_of_mem_msgs hm, addr_of_mem_msgs hm'] at heq
  have hvalue := congrArg UInt8.toNat heq
  rw [c.addr_toNat_eq_iff.mpr (hfits ⟨bus, hbus⟩),
    c'.addr_toNat_eq_iff.mpr (hfits' ⟨bus', hbus'⟩)] at hvalue
  exact hne hvalue

/-- A read of one byte from the device of this address field, on segment 1. -/
def readOneByte (low high : UInt8) : I2cCall where
  segmentToBus := fun _ => some 5
  kernel := .transferred [0x2a]
  hdr := ⟨25, 1, 0x72, 0, 1⟩
  reqPayload := List.replicate 12 0 ++ [low, high, 1, 0, 1]
  response := List.replicate 57 0

/-- The address fields 0x00A0 and 0x02A0 reach the same device. -/
theorem not_transparent_readOneByte :
    ¬((readOneByte 0xA0 0x02).Transparent ∧ (readOneByte 0xA0 0x00).Transparent ∧
      (readOneByte 0xA0 0x02).Distinct (readOneByte 0xA0 0x00)) := by
  rintro ⟨-, -, hdistinct⟩
  exact hdistinct (by decide) ⟨5, (readOneByte 0xA0 0x02).msgs⟩ ⟨5, (readOneByte 0xA0 0x00).msgs⟩
    (by decide +kernel) (by decide +kernel) rfl ⟨0x50, true, 1, []⟩ (by decide)
    ⟨0x50, true, 1, []⟩ (by decide) rfl

end I2cCall

end Chif
