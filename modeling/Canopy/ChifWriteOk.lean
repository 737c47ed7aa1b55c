/-
A `chif_write` that succeeds, as the host sees it.

* `queue_chifWrite` — a write leaves `chif24_queue` alone;
* `chifWrite_found` — if it returns no error, the descriptor of the host's receive
  entry holds the response, padded to the whole qwords the entry counts.
-/
import Canopy.ChifWriteFail

namespace Chif

open Bytes WrapMem ChifDrvdata

instance (m : Shmem) : Decidable (RecvLayout m) :=
  decidable_of_iff (ccbTableSize ≤ recvFifo m ∧ recvFifo m + 4 ≤ addressSpace ∧
    ccbTableSize ≤ recvDesc m ∧ recvDesc m + sharedMemChifDescriptorSize ≤ addressSpace ∧
    (recvDesc m + sharedMemChifDescriptorSize ≤ recvFifo m ∨ recvFifo m + 4 ≤ recvDesc m))
    ⟨fun ⟨h₁, h₂, h₃, h₄, h₅⟩ => ⟨h₁, h₂, h₃, h₄, h₅⟩,
      fun h => ⟨h.fifo_ge, h.fifo_le, h.desc_ge, h.desc_le, h.apart⟩⟩

private theorem queue_waitOccupied (host : ℕ → Shmem → Shmem) (fifo t : ℕ) : ∀ d : ChifDrvdata,
    (waitOccupied host fifo t d).2.chif24Queue = d.chif24Queue := by
  induction t with
  | zero =>
    intro d
    rfl
  | succ t ih =>
    intro d
    rw [waitOccupied_succ]
    split
    · rfl
    · exact ih _

private theorem queue_deliver (d : ChifDrvdata) (channel fifo desc : ℕ) (buf : Bytes)
    (fault : Option ℕ) : (deliver d channel fifo desc buf fault).2.chif24Queue = d.chif24Queue := by
  have hfill : (fillDesc d fifo desc buf fault).2.chif24Queue = d.chif24Queue := by
    cases fault with
    | none => simp only [fillDesc, setConsumed, setFifo, touch]
    | some n => simp only [fillDesc, touch]
  have hring (d : ChifDrvdata) : (ringHost d channel).chif24Queue = d.chif24Queue := by
    rw [ringHost]
    split
    · simp only [getCcb, touch]
    · simp only [getCcb, touch]
  rw [deliver]
  split
  · exact hfill
  · rw [hring]
    exact hfill

private theorem queue_awaitOccupied (host : ℕ → Shmem → Shmem) (fifo : ℕ) (d : ChifDrvdata) :
    (awaitOccupied host fifo d).2.chif24Queue = d.chif24Queue := by
  have hread : (d.getFifo fifo).2.chif24Queue = d.chif24Queue := rfl
  rw [awaitOccupied_eq]
  by_cases hocc : (fifoEntry d.shmem fifo).occupied = true
  · rw [if_pos hocc]
    exact hread
  · rw [if_neg hocc, queue_waitOccupied]
    exact hread

private theorem queue_sendPacket (d : ChifDrvdata) (channel fifo desc : ℕ) (buf : Bytes)
    (fault : Option ℕ) (host : ℕ → Shmem → Shmem) :
    (sendPacket d channel fifo desc buf fault host).2.chif24Queue = d.chif24Queue := by
  have hpost : (postQwords d fifo buf.length).chif24Queue = d.chif24Queue := by
    simp only [postQwords, getFifo, setFifo, touch]
  have hwait := (queue_awaitOccupied host fifo (postQwords d fifo buf.length)).trans hpost
  obtain ⟨w, hw⟩ : ∃ w, awaitOccupied host fifo (postQwords d fifo buf.length) = w := ⟨_, rfl⟩
  rw [hw] at hwait
  rw [sendPacket, hw]
  by_cases htimeout : w.1 = 0
  · rw [if_pos htimeout]
    exact hwait
  by_cases hlong : buf.length > sharedMemChifDescriptorSize
  · rw [if_neg htimeout, if_pos hlong]
    exact hwait
  rw [if_neg htimeout, if_neg hlong]
  cases hbusy : (w.2.getFifo fifo).1.consumed with
  | true =>
    rw [if_pos rfl]
    exact hwait
  | false =>
    rw [if_neg Bool.false_ne_true, queue_deliver]
    exact hwait

/-- A write leaves `chif24_queue` alone. -/
theorem queue_chifWrite (d : ChifDrvdata) (buf : Bytes) (fault : Option ℕ)
    (host : ℕ → Shmem → Shmem) :
    (chifWrite d channelSharemem buf fault host).2.chif24Queue = d.chif24Queue := by
  have hready : (rqReady d).chif24Queue = d.chif24Queue := by
    rw [rqReady, setRqActive]
    split <;> rfl
  rw [chifWrite_eq]
  split
  · rfl
  · rw [queue_sendPacket, hready]

/-- What the host finds in its descriptor, by the length in its FIFO entry. -/
def foundResponse (m m' : Shmem) : Bytes :=
  read addressSpace m' (recvDesc m) (fifoEntry m' (recvFifo m)).descLen

/-- A response as the host sees it: in whole qwords. -/
def padded (packet : Bytes) : Bytes := padTo (roundLen packet.length) packet

private theorem padded_length (packet : Bytes) : (padded packet).length = roundLen packet.length :=
  padTo_length (le_roundLen _)

/-- The length in the entry is that of the padded response. -/
theorem postedQwords_descLen {count : ℕ} (h : count ≤ sharedMemChifDescriptorSize)
    {e : FifoEntry} (he : e.qwords = postedQwords count) : e.descLen = roundLen count := by
  have hle := roundLen_le h
  have hmod : roundLen count % 8 = 0 := by
    rw [roundLen]
    split <;> omega
  rw [sharedMemChifDescriptorSize] at hle
  have hq : (postedQwords count).val = roundLen count / 8 := by
    show roundLen count / 8 % 1024 = _
    omega
  rw [FifoEntry.descLen, he, hq]
  omega

/-- The memory after a copy that does not fault. -/
theorem shmem_deliver (d : ChifDrvdata) (fifo desc : ℕ) (buf : Bytes) :
    (deliver d channelSharemem fifo desc buf none).2.shmem =
      setFifoEntry (write addressSpace d.shmem desc (padded buf)) fifo
        { fifoEntry (write addressSpace d.shmem desc (padded buf)) fifo with
          consumed := true } := by
  have hnonneg : ¬((buf.length : ℕ) : ℤ) < 0 := by omega
  have hring (d : ChifDrvdata) : (ringHost d channelSharemem).shmem = d.shmem := by
    rw [ringHost]
    split
    · simp only [getCcb, touch]
    · simp only [getCcb, touch]
  have hfill : (fillDesc d fifo desc buf none).1 = buf.length := rfl
  have hwrites : write addressSpace (write addressSpace d.shmem desc
      (List.replicate (roundLen buf.length) 0)) desc buf =
        write addressSpace d.shmem desc (padded buf) := by
    rw [write_write, List.drop_replicate]
    rfl
  rw [deliver, hfill, if_neg hnonneg]
  show (ringHost (fillDesc d fifo desc buf none).2 channelSharemem).shmem = _
  rw [hring, ← hwrites]
  simp only [fillDesc, setConsumed, setFifo, touch]

/-- **The host finds what was delivered.** -/
theorem LengthPosted.delivered {m : Shmem} (hm : RecvLayout m) {buf : Bytes} {d : ChifDrvdata}
    (h : LengthPosted m (postedQwords buf.length) d.shmem)
    (hlen : buf.length ≤ sharedMemChifDescriptorSize) :
    foundResponse m
      (deliver d channelSharemem (recvFifo m) (recvDesc m) buf none).2.shmem = padded buf := by
  have hfits : (padded buf).length ≤ sharedMemChifDescriptorSize := by
    rw [padded_length]
    exact roundLen_le hlen
  have hend := hm.desc_le
  have hapart := hm.apart
  -- the copy does not reach the entry, nor the entry the descriptor
  have hentry : fifoEntry (write addressSpace d.shmem (recvDesc m) (padded buf)) (recvFifo m) =
      fifoEntry d.shmem (recvFifo m) := by
    rw [fifoEntry, read_write_disjoint d.shmem (by omega) hm.fifo_le (by omega), fifoEntry]
  obtain ⟨occupied, hposted⟩ := h.entry
  have hqwords : (fifoEntry d.shmem (recvFifo m)).qwords = postedQwords buf.length := by
    rw [hposted]
  have hdesc : FifoEntry.descLen { fifoEntry d.shmem (recvFifo m) with consumed := true } =
      roundLen buf.length := postedQwords_descLen hlen hqwords
  rw [foundResponse, shmem_deliver, fifoEntry_set_self, hentry, hdesc, Chif.setFifoEntry]
  rw [read_write_disjoint, ← padded_length, read_write_self _ _ (by omega)]
  · rw [ofLE_length]
    exact hm.fifo_le
  · have := roundLen_le hlen
    omega
  · rw [ofLE_length]
    have := roundLen_le hlen
    omega

/-- **A response that was written is the one the host finds.** -/
theorem chifWrite_found {d : ChifDrvdata} (hm : RecvLayout d.shmem) (occ : ℕ → Bool) (buf : Bytes)
    (fault : Option ℕ)
    (hok : 0 ≤ (chifWrite d channelSharemem buf fault (hostOccupies (recvFifo d.shmem) occ)).1) :
    foundResponse d.shmem (chifWrite d channelSharemem buf fault
      (hostOccupies (recvFifo d.shmem) occ)).2.shmem = padded buf := by
  have herr : ¬(0 : ℤ) ≤ -eio := by decide
  rw [chifWrite_eq] at hok ⊢
  by_cases hgo : ccbField d.shmem channelSharemem ccbRqCtrl &&& ccbCtrlGoMask = 0
  · rw [if_pos hgo] at hok
    exact absurd hok herr
  rw [if_neg hgo] at hok ⊢
  obtain ⟨hentry, hready⟩ := lengthPosted_rqReady hm
  obtain ⟨d', hposted, hcopies, hrefuses⟩ := sendPacket_exits hm hentry hready occ buf fault
  rw [← recvFifo] at hok ⊢
  by_cases hreach : ReachesCopy d.shmem occ buf
  · rw [hcopies hreach] at hok ⊢
    cases fault with
    | none => exact hposted.delivered hm hreach.2.1
    | some n => exact absurd hok (not_le.mpr (deliver_faults _ _ _ _ _).1)
  · rw [hrefuses hreach] at hok
    exact absurd hok herr

end Chif
