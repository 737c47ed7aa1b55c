/-
What `decompressPlatDef` hands to zlib.

The one bound on the compressed data is `compOffset + compSize > raw.size()`,
a `size_t` sum that wraps on a 32-bit target.

* `uncompressCall_eq_ok` — when zlib is called, and with which slices;
* `handsOwnBytes_iff` — on a 32-bit target both slices lie inside their
  vectors iff `compressedSize` is below `2^32 - 32`;
* `handsOwnBytes_of_wide` — with a wider `size_t` they always do.
-/
import Canopy.PlatDef

open Bytes

namespace PlatDef

/-- A blob that gets as far as the zlib flag, and has it. -/
structure ZlibBundle (raw : Bytes) : Prop where
  length_ge : bundleHeaderSize + tableDataSize ≤ raw.length
  signature : raw.take platdefBundleSignature.length = platdefBundleSignature
  zlib : (tableHdr raw).flags &&& tableDataFlagZLib ≠ 0

/-- The call of zlib for a blob. -/
def callFor (raw : Bytes) : UncompressCall where
  dest := field raw bundleHeaderSize tableDataSize ++
    List.replicate (decompSize (tableHdr raw).totalSize) 0
  destOffset := tableDataSize
  destLen := decompSize (tableHdr raw).totalSize
  source := raw
  sourceOffset := bundleHeaderSize + tableDataSize
  sourceLen := (tableHdr raw).compressedSize - tableDataSize

/-- When zlib is called, and how. -/
theorem uncompressCall_eq_ok {w : ℕ} {raw : Bytes} {call : UncompressCall} :
    uncompressCall w raw = .ok call ↔
      ZlibBundle raw ∧ tableDataSize ≤ (tableHdr raw).compressedSize ∧
        (bundleHeaderSize + tableDataSize + ((tableHdr raw).compressedSize - tableDataSize)) % 2 ^ w
          ≤ raw.length ∧ call = callFor raw := by
  constructor
  · intro h
    simp only [uncompressCall] at h
    split at h
    · cases h
    split at h
    · cases h
    next hsig =>
    split at h
    · cases h
    next hlen =>
    split at h
    · cases h
    next hflag =>
    split at h
    · cases h
    next hmin =>
    split at h
    · cases h
    next hfit =>
    rw [Except.ok.injEq] at h
    exact ⟨⟨not_lt.mp hlen, not_not.mp hsig, hflag⟩, not_lt.mp hmin, not_lt.mp hfit, h.symm⟩
  · rintro ⟨⟨hlen, hsig, hflag⟩, hmin, hfit, rfl⟩
    -- the first check asks for less than the third
    have hheader : bundleHeaderSize ≤ raw.length := (Nat.le_add_right _ _).trans hlen
    rw [uncompressCall, if_neg (not_lt.mpr hheader), if_neg (not_not.mpr hsig)]
    simp only
    rw [if_neg (not_lt.mpr hlen), if_neg hflag, if_neg (not_lt.mpr hmin),
      if_neg (not_lt.mpr hfit)]
    rfl

/-- The result vector is exactly the header and the slice given to zlib. -/
theorem callFor_dest_inside {raw : Bytes} (h : ZlibBundle raw) :
    (callFor raw).destOffset + (callFor raw).destLen ≤ (callFor raw).dest.length := by
  have hlength : (field raw bundleHeaderSize tableDataSize).length = tableDataSize :=
    field_length h.length_ge
  rw [callFor, List.length_append, List.length_replicate, hlength]

private theorem compressedSize_lt (raw : Bytes) : (tableHdr raw).compressedSize < 2 ^ 32 :=
  uintAt_lt _ _ 4

/-- Both slices of every call of zlib lie inside the vectors they point into. -/
def HandsOwnBytes {w : ℕ} (raw : ByteVector w) : Prop :=
  ∀ call, uncompressCall w raw.bytes = .ok call →
    call.sourceOffset + call.sourceLen ≤ raw.bytes.length ∧
      call.destOffset + call.destLen ≤ call.dest.length

/-- A sum that does not wrap is checked against the blob. -/
theorem handsOwnBytes_of_lt {w : ℕ} {raw : ByteVector w}
    (h : ZlibBundle raw.bytes → (tableHdr raw.bytes).compressedSize + bundleHeaderSize < 2 ^ w) :
    HandsOwnBytes raw := by
  intro call hcall
  obtain ⟨hbundle, hmin, hfit, rfl⟩ := uncompressCall_eq_ok.mp hcall
  have hsum : bundleHeaderSize + tableDataSize +
      ((tableHdr raw.bytes).compressedSize - tableDataSize) < 2 ^ w := by
    have := h hbundle
    omega
  rw [Nat.mod_eq_of_lt hsum] at hfit
  exact ⟨hfit, callFor_dest_inside hbundle⟩

/-- A sum that wraps lands below the smallest blob there is, and passes. -/
theorem not_handsOwnBytes_of_le {raw : ByteVector 32} (hbundle : ZlibBundle raw.bytes)
    (h : 2 ^ 32 ≤ (tableHdr raw.bytes).compressedSize + bundleHeaderSize) :
    ¬HandsOwnBytes raw := by
  intro hinside
  have hlt := compressedSize_lt raw.bytes
  have hlen := hbundle.length_ge
  have hsize : raw.bytes.length < 2 ^ 32 := raw.size_lt
  have hheader : bundleHeaderSize = 32 := rfl
  have htable : tableDataSize = 112 := rfl
  have hwrap : (bundleHeaderSize + tableDataSize +
      ((tableHdr raw.bytes).compressedSize - tableDataSize)) % 2 ^ 32 ≤ raw.bytes.length := by
    omega
  obtain ⟨hsource, -⟩ := hinside (callFor raw.bytes)
    (uncompressCall_eq_ok.mpr ⟨hbundle, by omega, hwrap, rfl⟩)
  simp only [callFor] at hsource
  omega

/-- **With 32-bit sizes, zlib is handed only bytes there are iff a compressed
bundle states a `compressedSize` below `2^32 - 32`.** -/
theorem handsOwnBytes_iff (raw : ByteVector 32) :
    HandsOwnBytes raw ↔
      (ZlibBundle raw.bytes → (tableHdr raw.bytes).compressedSize < 2 ^ 32 - 32) := by
  have hheader : bundleHeaderSize = 32 := rfl
  constructor
  · intro hinside hbundle
    by_contra hle
    exact not_handsOwnBytes_of_le hbundle (by omega) hinside
  · intro h
    refine handsOwnBytes_of_lt fun hbundle => ?_
    have := h hbundle
    omega

/-- A bundle of two headers whose `compressedSize` is `0xFFFFFFFF`. -/
def wrappingBlob : Bytes :=
  platdefBundleSignature ++ List.replicate 80 0 ++ [0x10, 0] ++ List.replicate 30 0 ++
    [0xFF, 0xFF, 0xFF, 0xFF] ++ List.replicate 12 0

theorem not_forall_handsOwnBytes : ¬∀ raw : ByteVector 32, HandsOwnBytes raw := by
  intro h
  have hbundle : ZlibBundle wrappingBlob :=
    ⟨by decide +kernel, by decide +kernel, by decide +kernel⟩
  have hsize : wrappingBlob.length < 2 ^ 32 := by decide +kernel
  have hwrap : 2 ^ 32 ≤ (tableHdr wrappingBlob).compressedSize + bundleHeaderSize := by
    decide +kernel
  let raw : ByteVector 32 := ⟨wrappingBlob, hsize⟩
  exact not_handsOwnBytes_of_le (show ZlibBundle raw.bytes from hbundle) hwrap (h raw)

/-- With more than 32 bits the sum never wraps. -/
theorem handsOwnBytes_of_wide {w : ℕ} (hw : 32 < w) (raw : ByteVector w) : HandsOwnBytes raw := by
  refine handsOwnBytes_of_lt fun _ => ?_
  have hlt := compressedSize_lt raw.bytes
  have hpow : 2 ^ 33 ≤ 2 ^ w := Nat.pow_le_pow_right (by norm_num) hw
  have hheader : bundleHeaderSize = 32 := rfl
  omega

end PlatDef
