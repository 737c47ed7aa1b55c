/-
Framing of responses.

A handler answers by writing a header and a payload at the start of the buffer
it is lent.  `framed` is that answer in closed form, and `Frames` says that a
handler gives it with a payload, and with effects, that do not depend on what
the buffer held.

* `Frames.ite`, `Frames.short` — the branches of a handler;
* `fills_init`, `Fills.write`, `Fills.frames` — zero fill, header and the fields
  written after them;
* `Frames.wellFramed` — the return value is `pktSize` and fits the buffer;
* `Frames.sameAnswer` — two buffers of one size get the same packet.
-/
import Canopy.Packet

namespace Chif

open Bytes

/-! ### Answers in closed form -/

/-- The answer with `body` behind the header `hdr size` at the start of the
buffer; `none` is the answer "no response". -/
def framed (hdr : UInt16 → ChifPktHeader) (response : Bytes) : Option Bytes → ℤ × Bytes
  | none => (-1, response)
  | some body =>
    ((headerBytes + body.length : ℕ),
      (hdr (UInt16.ofNat (headerBytes + body.length))).bytes ++
        (body ++ response.drop (headerBytes + body.length)))

/-- A packet with this payload fits a buffer of `n` bytes, and its size fits the
16-bit field of the header. -/
structure Fits (n : ℕ) (body : Bytes) : Prop where
  room : headerBytes + body.length ≤ n
  size_lt : headerBytes + body.length < 2 ^ 16

/-- On buffers of `n` bytes the handler gives a framed answer; the payload and
the effects `s` do not depend on the buffer. -/
def Frames {σ : Type*} (hdr : UInt16 → ChifPktHeader) (n : ℕ) (f : Bytes → (ℤ × Bytes) × σ) :
    Prop :=
  ∃ (body : Option Bytes) (s : σ), (∀ b, body = some b → Fits n b) ∧
    ∀ response : Bytes, response.length = n → f response = (framed hdr response body, s)

/-- On a buffer of `n` bytes, `r` is "no response" or the size of a packet inside
the buffer, whose header has this size, the given command, and the rest of the
request's header. -/
def WellFramed (reqHdr : ChifPktHeader) (command : UInt16) (n : ℕ) (r : ℤ × Bytes) : Prop :=
  r.1 = -1 ∨ ∃ size : ℕ, r.1 = size ∧ headerBytes ≤ size ∧ size ≤ n ∧
    (parseHeader r.2).pktSize.toNat = size ∧
    (parseHeader r.2).sequence = reqHdr.sequence ∧
    (parseHeader r.2).serviceId = reqHdr.serviceId ∧
    (parseHeader r.2).version = reqHdr.version ∧
    (parseHeader r.2).command = command

section Frames

variable {σ : Type*} {hdr : UInt16 → ChifPktHeader} {n : ℕ} {f g : Bytes → (ℤ × Bytes) × σ}

theorem frames_none (s : σ) : Frames hdr n fun response => ((-1, response), s) :=
  ⟨none, s, fun _ hb => (nomatch hb), fun _ _ => rfl⟩

/-- What the effects are turned into does not matter. -/
theorem Frames.map {τ : Type*} (h : Frames hdr n f) (t : σ → τ) :
    Frames hdr n fun response => ((f response).1, t (f response).2) := by
  obtain ⟨body, s, hfits, hbody⟩ := h
  exact ⟨body, t s, hfits, fun response hn => by simp only [hbody response hn]⟩

theorem Frames.ite {p : Prop} [Decidable p] (hf : p → Frames hdr n f) (hg : ¬p → Frames hdr n g) :
    Frames hdr n fun response => if p then f response else g response := by
  by_cases hp : p
  · simpa only [if_pos hp] using hf hp
  · simpa only [if_neg hp] using hg hp

/-- The check of the buffer size that opens every builder. -/
theorem Frames.short {k : ℕ} (hf : n < k → Frames hdr n f) (hg : k ≤ n → Frames hdr n g) :
    Frames hdr n fun response => if response.length < k then f response else g response := by
  by_cases hk : n < k
  · obtain ⟨body, s, hfits, hbody⟩ := hf hk
    refine ⟨body, s, hfits, fun response hn => ?_⟩
    have hlt : response.length < k := by omega
    simp only [if_pos hlt, hbody response hn]
  · obtain ⟨body, s, hfits, hbody⟩ := hg (not_lt.mp hk)
    refine ⟨body, s, hfits, fun response hn => ?_⟩
    have hlt : ¬response.length < k := by omega
    simp only [if_neg hlt, hbody response hn]

/-- The same for a builder without effects of its own. -/
theorem Frames.short_answer {k : ℕ} {s : σ} {f g : Bytes → ℤ × Bytes}
    (hf : n < k → Frames hdr n fun response => (f response, s))
    (hg : k ≤ n → Frames hdr n fun response => (g response, s)) :
    Frames hdr n fun response => (if response.length < k then f response else g response, s) := by
  have h := Frames.short hf hg
  simpa only [apply_ite (fun answer : ℤ × Bytes => (answer, s))] using h

theorem Frames.wellFramed {reqHdr : ChifPktHeader} {command : UInt16} (h : Frames hdr n f)
    (hhdr : ∀ size, hdr size = { reqHdr with pktSize := size, command := command })
    {response : Bytes} (hn : response.length = n) : WellFramed reqHdr command n (f response).1 := by
  obtain ⟨body, s, hfits, hbody⟩ := h
  rw [hbody response hn]
  cases hb : body with
  | none => exact Or.inl rfl
  | some b =>
    obtain ⟨hroom, hlt⟩ := hfits b hb
    have hparse : ∀ size tail, parseHeader ((hdr size).bytes ++ tail)
        = { reqHdr with pktSize := size, command := command } := by
      intro size tail
      rw [parseHeader_append, hhdr]
    refine Or.inr ⟨headerBytes + b.length, rfl, Nat.le_add_right _ _, hroom, ?_⟩
    simp only [framed, hparse, and_true]
    exact UInt16.toNat_ofNat_of_lt' hlt

/-- The answer keeps the size of the buffer. -/
theorem Frames.length_eq (h : Frames hdr n f) {response : Bytes} (hn : response.length = n) :
    (f response).1.2.length = n := by
  obtain ⟨body, s, hfits, hbody⟩ := h
  rw [hbody response hn]
  cases hb : body with
  | none => exact hn
  | some b =>
    obtain ⟨hroom, -⟩ := hfits b hb
    simp only [framed, List.length_append, ChifPktHeader.bytes_length, List.length_drop]
    omega

/-- The packet is inside the buffer. -/
theorem Frames.size_le (h : Frames hdr n f) {response : Bytes} (hn : response.length = n) :
    (f response).1.1 ≤ n := by
  obtain ⟨body, s, hfits, hbody⟩ := h
  rw [hbody response hn]
  cases hb : body with
  | none =>
    show (-1 : ℤ) ≤ n
    omega
  | some b => exact Int.ofNat_le.mpr (hfits b hb).room

/-- **Two buffers of one size get the same packet and the same effects.** -/
theorem Frames.sameAnswer (h : Frames hdr n f) {response response' : Bytes}
    (hn : response.length = n) (hn' : response'.length = n) :
    (f response).1.1 = (f response').1.1 ∧ sent (f response).1 = sent (f response').1 ∧
      (f response).2 = (f response').2 := by
  obtain ⟨body, s, -, hbody⟩ := h
  rw [hbody response hn, hbody response' hn']
  cases body with
  | none => exact ⟨rfl, rfl, rfl⟩
  | some b =>
    refine ⟨rfl, ?_, rfl⟩
    have hsent : ∀ tail : Bytes,
        List.take (headerBytes + b.length)
          ((hdr (UInt16.ofNat (headerBytes + b.length))).bytes ++ (b ++ tail))
          = (hdr (UInt16.ofNat (headerBytes + b.length))).bytes ++ b := by
      intro tail
      rw [take_block (ChifPktHeader.bytes_length _), List.take_left]
    exact (hsent _).trans (hsent _).symm

end Frames

/-! ### Filling in a response

The builders zero the packet, write the header and then the fields that are not
zero. -/

/-- On buffers of `n` bytes, `f` leaves the header `H`, `m` bytes of payload that
do not depend on the buffer, and then what the buffer held. -/
def Fills (H : Bytes) (n m : ℕ) (f : Bytes → Bytes) : Prop :=
  ∃ body : Bytes, body.length = m ∧
    ∀ response : Bytes, response.length = n →
      f response = H ++ (body ++ response.drop (headerBytes + m))

/-- A field written inside the payload. -/
theorem writePayload_body {H body rest src : Bytes} {off : ℕ} (hH : H.length = headerBytes)
    (h : off + src.length ≤ body.length) :
    writePayload (H ++ (body ++ rest)) off src = H ++ (memcpyAt body off src ++ rest) := by
  have hbody : body = body.take off ++ ((body.drop off).take src.length ++
      body.drop (off + src.length)) := by
    rw [← List.drop_drop, List.take_append_drop, List.take_append_drop]
  have hpre : (body.take off).length = off := by
    rw [List.length_take]
    omega
  have hold : src.length = ((body.drop off).take src.length).length := by
    rw [List.length_take, List.length_drop]
    omega
  conv_lhs => rw [hbody, List.append_assoc, List.append_assoc, writePayload_block hH hpre hold]
  rw [memcpyAt]
  simp only [List.append_assoc]

section Fills

variable {H : Bytes} {n m : ℕ} {f g : Bytes → Bytes}

/-- Zero fill and header. -/
theorem initResponse_fillZero (hdr : ChifPktHeader) {m : ℕ} {size : UInt16}
    (hsize : size.toNat = headerBytes + m) (response : Bytes) :
    initResponse (fillZero response size.toNat) hdr size =
      (responseHeader hdr size).bytes ++
        (List.replicate m 0 ++ response.drop (headerBytes + m)) := by
  have hzero : List.replicate (headerBytes + m) (0 : UInt8)
      = List.replicate headerBytes 0 ++ List.replicate m 0 :=
    List.replicate_append_replicate.symm
  rw [initResponse, hsize, fillZero, memcpyAt_zero, memcpyAt_zero, ChifPktHeader.bytes_length,
    List.length_replicate, hzero, List.append_assoc]
  exact congrArg _ (List.drop_left' List.length_replicate)

theorem fills_init (hdr : ChifPktHeader) {size : UInt16} (hsize : size.toNat = headerBytes + m)
    (n : ℕ) :
    Fills (responseHeader hdr size).bytes n m fun response =>
      initResponse (fillZero response size.toNat) hdr size :=
  ⟨List.replicate m 0, List.length_replicate,
    fun response _ => initResponse_fillZero hdr hsize response⟩

theorem Fills.write (h : Fills H n m f) (hH : H.length = headerBytes) {off : ℕ} {src : Bytes}
    (hoff : off + src.length ≤ m) :
    Fills H n m fun response => writePayload (f response) off src := by
  obtain ⟨body, hlen, hbody⟩ := h
  have hfit : off + src.length ≤ body.length := by omega
  refine ⟨memcpyAt body off src, (memcpyAt_length hfit).trans hlen, fun response hn => ?_⟩
  show writePayload (f response) off src = _
  rw [hbody response hn, writePayload_body hH hfit]

theorem Fills.ite {p : Prop} [Decidable p] (hf : p → Fills H n m f) (hg : ¬p → Fills H n m g) :
    Fills H n m fun response => if p then f response else g response := by
  by_cases hp : p
  · simpa only [if_pos hp] using hf hp
  · simpa only [if_neg hp] using hg hp

/-- A filled-in packet is returned with its size. -/
theorem Fills.frames {σ : Type*} {hdr : UInt16 → ChifPktHeader} {size : UInt16}
    (h : Fills (hdr size).bytes n m f) (hsize : size.toNat = headerBytes + m)
    (hn : headerBytes + m ≤ n) (s : σ) :
    Frames hdr n fun response => (((size.toNat : ℤ), f response), s) := by
  obtain ⟨body, hlen, hbody⟩ := h
  have hlt : headerBytes + body.length < 2 ^ 16 := by
    rw [hlen, ← hsize]
    exact size.toNat_lt
  refine ⟨some body, s, fun b hb => ?_, fun response hresp => ?_⟩
  · obtain rfl := Option.some_inj.mp hb
    exact ⟨by omega, hlt⟩
  · have hword : UInt16.ofNat (headerBytes + body.length) = size := by
      rw [hlen, ← hsize, UInt16.ofNat_toNat]
    show ((_, f response), s) = _
    rw [hbody response hresp, framed, hword, hlen, hsize]

end Fills

end Chif
