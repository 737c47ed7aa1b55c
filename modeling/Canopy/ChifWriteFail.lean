/-
What a failed `chif_write` leaves behind in the shared memory.

The length of the response goes into the receive FIFO entry before the driver
has looked at any of its reasons to refuse, and the descriptor is cleared before
the response is known to be readable.

* `LengthPosted` — the memory from `qwords = round_len >> 3` on;
* `sendPacket_exits`, `deliver_faults` — what the error exits leave;
* `viewKept_iff` — when a failed write leaves the host's view as it was.
-/
import Canopy.ChifWindow
import Canopy.ChifPosted

namespace Chif

open Bytes WrapMem ChifDrvdata

/-! ### The receive side of channel 24 -/

/-- The address of the receive FIFO entry. -/
def recvFifo (m : Shmem) : ℕ := ccbField m channelSharemem ccbRqFifo

def recvEntry (m : Shmem) : FifoEntry := fifoEntry m (recvFifo m)

/-- The address of its descriptor. -/
def recvDesc (m : Shmem) : ℕ :=
  descAddr (ccbField m channelSharemem ccbRqDesc) (recvEntry m).descriptorNum

def recvData (m : Shmem) : Bytes :=
  read addressSpace m (recvDesc m) sharedMemChifDescriptorSize

/-- The control blocks, the entry and the descriptor are three things. -/
structure RecvLayout (m : Shmem) : Prop where
  fifo_ge : ccbTableSize ≤ recvFifo m
  fifo_le : recvFifo m + 4 ≤ addressSpace
  desc_ge : ccbTableSize ≤ recvDesc m
  desc_le : recvDesc m + sharedMemChifDescriptorSize ≤ addressSpace
  apart : recvDesc m + sharedMemChifDescriptorSize ≤ recvFifo m ∨ recvFifo m + 4 ≤ recvDesc m

/-- The host sets or clears `occupied` of the entry during a poll. -/
def hostOccupies (fifo : ℕ) (occ : ℕ → Bool) (t : ℕ) (m : Shmem) : Shmem :=
  setFifoEntry m fifo { fifoEntry m fifo with occupied := occ t }

/-- The entry and the descriptor of `m` are still there in `m'`; `occupied` is the
host's. -/
structure Intact (m m' : Shmem) : Prop where
  entry : ∃ occupied, fifoEntry m' (recvFifo m) = { recvEntry m with occupied := occupied }
  data : read addressSpace m' (recvDesc m) sharedMemChifDescriptorSize = recvData m

/-- The write of `buf` while the host sets `occupied` to `occ t` during the poll
that leaves the timeout at `t`. -/
def writeResponse (d : ChifDrvdata) (occ : ℕ → Bool) (buf : Bytes)
    (fault : Option (Fin buf.length)) : ℤ × ChifDrvdata :=
  chifWrite d channelSharemem buf (fault.map Fin.val) (hostOccupies (recvFifo d.shmem) occ)

/-- If the write fails, the host finds what it had. -/
def ViewKept (d : ChifDrvdata) (occ : ℕ → Bool) (buf : Bytes) (fault : Option (Fin buf.length)) :
    Prop :=
  (writeResponse d occ buf fault).1 < 0 → Intact d.shmem (writeResponse d occ buf fault).2.shmem

/-- The write gets as far as the copy. -/
def ReachesCopy (m : Shmem) (occ : ℕ → Bool) (buf : Bytes) : Prop :=
  ((recvEntry m).occupied = true ∨ ∃ t, 0 < t ∧ t < 100 ∧ occ t = true) ∧
    buf.length ≤ sharedMemChifDescriptorSize ∧ (recvEntry m).consumed = false

/-- The length a write of `count` bytes puts into the entry. -/
def postedQwords (count : ℕ) : Fin 1024 := (FifoEntry.ofNat (roundLen count / 8)).qwords

/-! ### The memory up to the copy -/

/-- The entry has the length `q`; everything else of `m` but `occupied` is still
there. -/
structure LengthPosted (m : Shmem) (q : Fin 1024) (m' : Shmem) : Prop where
  entry : ∃ occupied,
    fifoEntry m' (recvFifo m) = { recvEntry m with qwords := q, occupied := occupied }
  data : read addressSpace m' (recvDesc m) sharedMemChifDescriptorSize = recvData m

section Steps

variable {m m' : Shmem} {q : Fin 1024}

theorem LengthPosted.intact_iff (h : LengthPosted m q m') :
    Intact m m' ↔ (recvEntry m).qwords = q := by
  constructor
  · intro hintact
    obtain ⟨o, ho⟩ := hintact.entry
    obtain ⟨o', ho'⟩ := h.entry
    have hentry := ho.symm.trans ho'
    rw [FifoEntry.mk.injEq] at hentry
    exact hentry.1
  · rintro rfl
    exact ⟨h.entry, h.data⟩

/-- Writing the entry. -/
theorem LengthPosted.setFifoEntry (hm : RecvLayout m) (h : LengthPosted m q m') {q' : Fin 1024}
    {e : FifoEntry} {o : Bool} (he : e = { recvEntry m with qwords := q', occupied := o }) :
    LengthPosted m q' (setFifoEntry m' (recvFifo m) e) := by
  refine ⟨⟨o, ?_⟩, ?_⟩
  · rw [fifoEntry_set_self]
    exact he
  · rw [Chif.setFifoEntry, read_write_disjoint m' ?_ hm.desc_le ?_, h.data]
    · rw [ofLE_length]
      exact hm.fifo_le
    · rw [ofLE_length]
      exact hm.apart

/-- Writing a control block. -/
theorem lengthPosted_setCcb (hm : RecvLayout m) {field : ℕ} (hfield : field + 8 ≤ ccbSize)
    (value : ℕ) :
    fifoEntry (write addressSpace m (ccbSize * channelSharemem + field) (ofLE 8 value))
        (recvFifo m) = recvEntry m ∧
      LengthPosted m (recvEntry m).qwords
        (write addressSpace m (ccbSize * channelSharemem + field) (ofLE 8 value)) := by
  have htable : ccbSize * channelSharemem + field + (ofLE 8 value).length ≤ ccbTableSize := by
    rw [ofLE_length, ccbTableSize, ccbSize, channelSharemem, maxChannels]
    rw [ccbSize] at hfield
    omega
  have hspace : ccbTableSize ≤ addressSpace := by decide
  have hentry : fifoEntry (write addressSpace m (ccbSize * channelSharemem + field)
      (ofLE 8 value)) (recvFifo m) = recvEntry m := by
    rw [fifoEntry, read_write_disjoint m (htable.trans hspace) hm.fifo_le
      (Or.inr (htable.trans hm.fifo_ge)), recvEntry, fifoEntry]
  refine ⟨hentry, ?_, ?_⟩
  · exact ⟨(recvEntry m).occupied, hentry⟩
  · exact read_write_disjoint m (htable.trans hspace) hm.desc_le
      (Or.inr (htable.trans hm.desc_ge))

/-- **The polls**: the host moves `occupied` only, and the wait ends in time iff
one but the last poll finds it set. -/
theorem LengthPosted.waitOccupied (hm : RecvLayout m) (occ : ℕ → Bool) (t : ℕ) :
    ∀ {d : ChifDrvdata}, LengthPosted m q d.shmem →
      LengthPosted m q
          (waitOccupied (hostOccupies (recvFifo m) occ) (recvFifo m) t d).2.shmem ∧
        ((waitOccupied (hostOccupies (recvFifo m) occ) (recvFifo m) t d).1 ≠ 0 ↔
          ∃ s, 0 < s ∧ s < t ∧ occ s = true) := by
  induction t with
  | zero =>
    intro d h
    refine ⟨h, iff_of_false (fun hne => hne rfl) ?_⟩
    rintro ⟨s, -, hs, -⟩
    exact absurd hs (Nat.not_lt_zero s)
  | succ t ih =>
    intro d h
    obtain ⟨o, ho⟩ := h.entry
    -- the host may move `occupied` before this poll
    have hpoll : LengthPosted m q (hostOccupies (recvFifo m) occ t d.shmem) := by
      rw [hostOccupies, ho]
      exact h.setFifoEntry hm rfl
    have hocc : (fifoEntry (hostOccupies (recvFifo m) occ t d.shmem) (recvFifo m)).occupied
        = occ t := by
      rw [hostOccupies, fifoEntry_set_self]
    rw [waitOccupied_succ, hocc]
    generalize hostOccupies (recvFifo m) occ t d.shmem = m1 at hpoll
    cases hset : occ t with
    | true =>
      rw [if_pos rfl]
      -- seen at the last poll, it comes too late
      refine ⟨hpoll, fun hne => ⟨t, Nat.pos_of_ne_zero hne, Nat.lt_succ_self t, hset⟩, ?_⟩
      rintro ⟨s, hpos, hs, -⟩
      show t ≠ 0
      omega
    | false =>
      rw [if_neg Bool.false_ne_true]
      obtain ⟨hrest, htime⟩ := ih
        (d := (ChifDrvdata.getFifo { d with shmem := m1 } (recvFifo m)).2) hpoll
      refine ⟨hrest, htime.trans ⟨?_, ?_⟩⟩
      · rintro ⟨s, hpos, hs, hsocc⟩
        exact ⟨s, hpos, Nat.lt_succ_of_lt hs, hsocc⟩
      · rintro ⟨s, hpos, hs, hsocc⟩
        have hne : s ≠ t := by
          rintro rfl
          rw [hset] at hsocc
          exact Bool.false_ne_true hsocc
        exact ⟨s, hpos, by omega, hsocc⟩

theorem LengthPosted.awaitOccupied (hm : RecvLayout m) (occ : ℕ → Bool) {d : ChifDrvdata}
    (h : LengthPosted m q d.shmem) :
    LengthPosted m q
        (awaitOccupied (hostOccupies (recvFifo m) occ) (recvFifo m) d).2.shmem ∧
      ((awaitOccupied (hostOccupies (recvFifo m) occ) (recvFifo m) d).1 ≠ 0 ↔
        (fifoEntry d.shmem (recvFifo m)).occupied = true ∨
          ∃ t, 0 < t ∧ t < 100 ∧ occ t = true) := by
  have hread : LengthPosted m q (d.getFifo (recvFifo m)).2.shmem := h
  have hpolls := hread.waitOccupied hm occ 100
  rw [awaitOccupied_eq]
  cases hocc : (fifoEntry d.shmem (recvFifo m)).occupied with
  | true =>
    rw [if_pos rfl]
    exact ⟨h, iff_of_true Nat.one_ne_zero (Or.inl rfl)⟩
  | false =>
    rw [if_neg Bool.false_ne_true]
    refine ⟨hpolls.1, hpolls.2.trans ?_⟩
    simp only [Bool.false_eq_true, false_or]

private theorem shmem_postQwords (d : ChifDrvdata) (fifo count : ℕ) :
    (postQwords d fifo count).shmem
      = Chif.setFifoEntry d.shmem fifo ((fifoEntry d.shmem fifo).setQwords (roundLen count / 8)) :=
  rfl

/-- Posting the length of the response. -/
theorem lengthPosted_postQwords (hm : RecvLayout m) {d : ChifDrvdata}
    (hentry : fifoEntry d.shmem (recvFifo m) = recvEntry m) (h : LengthPosted m q d.shmem)
    (count : ℕ) :
    LengthPosted m (postedQwords count) (postQwords d (recvFifo m) count).shmem ∧
      (fifoEntry (postQwords d (recvFifo m) count).shmem (recvFifo m)).occupied
        = (recvEntry m).occupied := by
  rw [shmem_postQwords, fifoEntry_set_self, hentry]
  exact ⟨h.setFifoEntry hm rfl, rfl⟩

end Steps

/-! ### The error exits -/

section Exits

variable {m : Shmem} {d : ChifDrvdata}

/-- The branches after the wait. -/
theorem sendPacket_afterWait (d : ChifDrvdata) (fifo desc : ℕ) (buf : Bytes) (fault : Option ℕ)
    (host : ℕ → Shmem → Shmem) {w : ℕ × ChifDrvdata}
    (hw : awaitOccupied host fifo (postQwords d fifo buf.length) = w) :
    ∃ d', d'.shmem = w.2.shmem ∧
      sendPacket d channelSharemem fifo desc buf fault host =
        if w.1 ≠ 0 ∧ buf.length ≤ sharedMemChifDescriptorSize ∧
            (fifoEntry w.2.shmem fifo).consumed = false then
          deliver d' channelSharemem fifo
            (descAddr desc (fifoEntry d.shmem fifo).descriptorNum) buf fault
        else (-eio, d') := by
  have hentry : (w.2.getFifo fifo).1 = fifoEntry w.2.shmem fifo := rfl
  rw [sendPacket, hw, hentry]
  by_cases htimeout : w.1 = 0
  · refine ⟨w.2, rfl, ?_⟩
    rw [if_pos htimeout, if_neg fun h => h.1 htimeout]
  by_cases hlong : buf.length > sharedMemChifDescriptorSize
  · refine ⟨w.2, rfl, ?_⟩
    rw [if_neg htimeout, if_pos hlong, if_neg fun h => not_le.mpr hlong h.2.1]
  refine ⟨(w.2.getFifo fifo).2, rfl, ?_⟩
  rw [if_neg htimeout, if_neg hlong]
  cases hbusy : (fifoEntry w.2.shmem fifo).consumed with
  | true => rw [if_pos rfl, if_neg fun h => absurd h.2.2 (by decide)]
  | false =>
    rw [if_neg Bool.false_ne_true, if_pos ⟨htimeout, not_lt.mp hlong, rfl⟩]
    rfl

/-- **From the length on**: the write is refused with nothing changed but the
length, or gets to the copy. -/
theorem sendPacket_exits (hm : RecvLayout m)
    (hentry : fifoEntry d.shmem (recvFifo m) = recvEntry m)
    (h : LengthPosted m (recvEntry m).qwords d.shmem) (occ : ℕ → Bool) (buf : Bytes)
    (fault : Option ℕ) :
    ∃ d', LengthPosted m (postedQwords buf.length) d'.shmem ∧
      (ReachesCopy m occ buf →
        sendPacket d channelSharemem (recvFifo m) (ccbField m channelSharemem ccbRqDesc) buf fault
            (hostOccupies (recvFifo m) occ)
          = deliver d' channelSharemem (recvFifo m) (recvDesc m) buf fault) ∧
      (¬ReachesCopy m occ buf →
        sendPacket d channelSharemem (recvFifo m) (ccbField m channelSharemem ccbRqDesc) buf fault
          (hostOccupies (recvFifo m) occ) = (-eio, d')) := by
  obtain ⟨hposted, hocc⟩ := lengthPosted_postQwords hm hentry h buf.length
  obtain ⟨hwait, htime⟩ := hposted.awaitOccupied hm occ
  rw [hocc] at htime
  generalize hw : awaitOccupied (hostOccupies (recvFifo m) occ) (recvFifo m)
    (postQwords d (recvFifo m) buf.length) = w at hwait htime
  obtain ⟨d', hd', hsend⟩ := sendPacket_afterWait d (recvFifo m)
    (ccbField m channelSharemem ccbRqDesc) buf fault (hostOccupies (recvFifo m) occ) hw
  have hconsumed : (fifoEntry w.2.shmem (recvFifo m)).consumed = (recvEntry m).consumed := by
    obtain ⟨o, ho⟩ := hwait.entry
    rw [ho]
  rw [hconsumed, hentry, ← recvDesc] at hsend
  rw [ReachesCopy, ← htime]
  refine ⟨d', ?_, fun hreach => ?_, fun hreach => ?_⟩
  · rw [hd']
    exact hwait
  · rw [hsend, if_pos hreach]
  · rw [hsend, if_neg hreach]

/-- A copy that does not fault is not an error. -/
theorem deliver_ok (d : ChifDrvdata) (fifo desc : ℕ) (buf : Bytes) :
    0 ≤ (deliver d channelSharemem fifo desc buf none).1 := by
  have hrc : (fillDesc d fifo desc buf none).1 = buf.length := rfl
  have hnonneg : ¬((buf.length : ℕ) : ℤ) < 0 := by omega
  rw [deliver, hrc, if_neg hnonneg]
  exact Int.natCast_nonneg _

/-- What is left in a descriptor whose copy faults after `n` bytes. -/
def leftovers (buf : Bytes) (n : ℕ) : Bytes := padTo (roundLen buf.length) (buf.take n)

private theorem leftovers_length (buf : Bytes) (n : ℕ) :
    (leftovers buf n).length = roundLen buf.length := by
  refine padTo_length ?_
  rw [List.length_take]
  exact (Nat.min_le_right _ _).trans (le_roundLen _)

/-- A copy that faults. -/
theorem deliver_faults (d : ChifDrvdata) (fifo desc : ℕ) (buf : Bytes) (n : ℕ) :
    (deliver d channelSharemem fifo desc buf (some n)).1 < 0 ∧
      (deliver d channelSharemem fifo desc buf (some n)).2.shmem
        = write addressSpace d.shmem desc (leftovers buf n) := by
  have hneg : -eio < 0 := by decide
  have hmem : (fillDesc d fifo desc buf (some n)).2.shmem = write addressSpace
      (write addressSpace d.shmem desc (List.replicate (roundLen buf.length) 0)) desc
      (padTo buf.length (buf.take n)) := rfl
  have hrc : (fillDesc d fifo desc buf (some n)).1 = -eio := rfl
  have hdeliver : deliver d channelSharemem fifo desc buf (some n)
      = fillDesc d fifo desc buf (some n) := by
    rw [deliver, hrc, if_pos hneg]
  rw [hdeliver, hrc, hmem, write_write]
  refine ⟨hneg, ?_⟩
  have hlen : (buf.take n).length ≤ buf.length := by
    rw [List.length_take]
    exact Nat.min_le_right _ _
  -- behind the bytes copied the descriptor stays cleared
  have hround := le_roundLen buf.length
  rw [padTo_length hlen, List.drop_replicate, padTo, List.append_assoc,
    List.replicate_append_replicate, leftovers, padTo]
  congr 3
  omega

/-- Such a copy changes nothing where its leftovers were there before. -/
theorem LengthPosted.faulted (hm : RecvLayout m) {q : Fin 1024} {m' : Shmem}
    (h : LengthPosted m q m') {buf : Bytes} (hlen : buf.length ≤ sharedMemChifDescriptorSize)
    (n : ℕ) :
    Intact m (write addressSpace m' (recvDesc m) (leftovers buf n)) ↔
      (recvEntry m).qwords = q ∧ (recvData m).take (roundLen buf.length) = leftovers buf n := by
  have hfits : (leftovers buf n).length ≤ sharedMemChifDescriptorSize := by
    rw [leftovers_length]
    exact roundLen_le hlen
  -- the copy does not reach the entry, so the two conditions are separate
  have hentry : fifoEntry (write addressSpace m' (recvDesc m) (leftovers buf n)) (recvFifo m)
      = fifoEntry m' (recvFifo m) := by
    have hend := hm.desc_le
    have hapart := hm.apart
    rw [fifoEntry, read_write_disjoint m' (by omega) hm.fifo_le (by omega), fifoEntry]
  have hdata := read_write_prefix m' hm.desc_le hfits
  rw [h.data, leftovers_length] at hdata
  have hsame : leftovers buf n ++ (recvData m).drop (roundLen buf.length) = recvData m ↔
      (recvData m).take (roundLen buf.length) = leftovers buf n := by
    have hsplit := List.take_append_drop (roundLen buf.length) (recvData m)
    constructor
    · intro hpre
      exact (List.append_cancel_right (hpre.trans hsplit.symm)).symm
    · intro htake
      rwa [← htake]
  rw [← h.intact_iff, ← hsame, ← hdata]
  constructor
  · intro hintact
    refine ⟨⟨?_, h.data⟩, hintact.data⟩
    rw [← hentry]
    exact hintact.entry
  · rintro ⟨hbefore, hafter⟩
    refine ⟨?_, hafter⟩
    rw [hentry]
    exact hbefore.entry

end Exits

/-! ### The whole write -/

theorem shmem_getCcb (d : ChifDrvdata) (channel field : ℕ) :
    (d.getCcb channel field).2.shmem = d.shmem := rfl

private theorem shmem_setCcb (d : ChifDrvdata) (channel field value : ℕ) :
    (d.setCcb channel field value).shmem
      = write addressSpace d.shmem (ccbSize * channel + field) (ofLE 8 value) := rfl

theorem lengthPosted_rqReady {d : ChifDrvdata} (hm : RecvLayout d.shmem) :
    fifoEntry (rqReady d).shmem (recvFifo d.shmem) = recvEntry d.shmem ∧
      LengthPosted d.shmem (recvEntry d.shmem).qwords (rqReady d).shmem := by
  rw [rqReady, setRqActive]
  split
  · rw [shmem_setCcb, shmem_getCcb, shmem_getCcb, shmem_getCcb]
    exact lengthPosted_setCcb hm (by decide) _
  · exact ⟨rfl, ⟨(recvEntry d.shmem).occupied, rfl⟩, rfl⟩

/-- A failure that changes nothing: the entry has the length of the response
already, and the descriptor what a faulting copy leaves in it. -/
structure HarmlessFailure (m : Shmem) (occ : ℕ → Bool) (buf : Bytes)
    (fault : Option (Fin buf.length)) : Prop where
  qwords : (recvEntry m).qwords = postedQwords buf.length
  data : ReachesCopy m occ buf → ∀ n, fault = some n →
    (recvData m).take (roundLen buf.length) = leftovers buf n

/-- **A failed write leaves the host's view iff** the go bit is clear, or the
write does not fail, or what it writes is there already. -/
theorem viewKept_iff {d : ChifDrvdata} (hm : RecvLayout d.shmem) (occ : ℕ → Bool) (buf : Bytes)
    (fault : Option (Fin buf.length)) :
    ViewKept d occ buf fault ↔
      ccbField d.shmem channelSharemem ccbRqCtrl &&& ccbCtrlGoMask = 0 ∨
        (ReachesCopy d.shmem occ buf ∧ fault = none) ∨ HarmlessFailure d.shmem occ buf fault := by
  rw [ViewKept, writeResponse, chifWrite_eq]
  by_cases hgo : ccbField d.shmem channelSharemem ccbRqCtrl &&& ccbCtrlGoMask = 0
  · -- `rq_ready` is all that changes
    rw [if_pos hgo]
    refine iff_of_true (fun _ => ?_) (Or.inl hgo)
    rw [shmem_setCcb, shmem_getCcb, shmem_getCcb, shmem_getCcb]
    exact (lengthPosted_setCcb hm (by decide) _).2.intact_iff.mpr rfl
  rw [if_neg hgo, or_iff_right hgo]
  obtain ⟨hentry, hready⟩ := lengthPosted_rqReady hm
  obtain ⟨d', hposted, hcopies, hrefuses⟩ := sendPacket_exits hm hentry hready occ buf
    (fault.map Fin.val)
  by_cases hreach : ReachesCopy d.shmem occ buf
  · rw [← recvFifo, hcopies hreach, and_iff_right hreach]
    cases fault with
    | none =>
      refine iff_of_true (fun herr => ?_) (Or.inl rfl)
      exact absurd herr (not_lt.mpr (deliver_ok _ _ _ _))
    | some n =>
      obtain ⟨herr, hmem⟩ := deliver_faults d' (recvFifo d.shmem) (recvDesc d.shmem) buf n
      rw [Option.map_some, imp_iff_right herr, hmem, hposted.faulted hm hreach.2.1,
        or_iff_right (by exact nofun)]
      constructor
      · rintro ⟨hq, hdata⟩
        refine ⟨hq, fun _ n' hn' => ?_⟩
        cases hn'
        exact hdata
      · intro hharmless
        exact ⟨hharmless.qwords, hharmless.data hreach n rfl⟩
  · -- refused, but the length has been posted
    have herr : -eio < 0 := by decide
    rw [← recvFifo, hrefuses hreach, imp_iff_right herr, hposted.intact_iff,
      or_iff_right fun h => hreach h.1]
    exact ⟨fun hq => ⟨hq, fun hr => absurd hr hreach⟩, HarmlessFailure.qwords⟩

/-- A host that has not dequeued a response of 8 bytes on channel 24, its receive
FIFO at offset 4096 and its descriptors at 8192. -/
def responseWaiting : ChifDrvdata where
  touched := []
  shmem := fun x =>
    if x = ccbSize * channelSharemem + ccbRqFifo + 1 then 0x10
    else if x = ccbSize * channelSharemem + ccbRqDesc + 1 then 0x20
    else if x = ccbSize * channelSharemem + ccbRqCtrl + 3 then 0x80
    else if x = 0x1000 then 1
    else if x = 0x1002 then 0xc0
    else 0
  chif24Queue := .init
  waiting := fun _ => false
  woken := []
  outdoor := []

/-- A response of 16 bytes is refused, and the one that waits is 16 bytes long. -/
theorem not_viewKept_responseWaiting :
    ¬ViewKept responseWaiting (fun _ => false) (List.replicate 16 0) none := by
  intro h
  have herr :
      (writeResponse responseWaiting (fun _ => false) (List.replicate 16 0) none).1 < 0 := by
    decide +kernel
  have hlength : (fifoEntry (writeResponse responseWaiting (fun _ => false) (List.replicate 16 0)
      none).2.shmem (recvFifo responseWaiting.shmem)).qwords = 2 := by
    decide +kernel
  have hbefore : (recvEntry responseWaiting.shmem).qwords = 1 := by decide +kernel
  obtain ⟨o, ho⟩ := (h herr).entry
  rw [ho] at hlength
  exact absurd (hbefore.symm.trans hlength) (by decide)

/-- Another response of 8 bytes is refused and changes nothing. -/
theorem viewKept_responseWaiting :
    ViewKept responseWaiting (fun _ => false) (List.replicate 8 0) none :=
  (viewKept_iff ⟨by decide +kernel, by decide +kernel, by decide +kernel, by decide +kernel,
    by decide +kernel⟩ _ _ _).mpr (Or.inr (Or.inr
      ⟨by decide +kernel, fun hreach => absurd hreach.2.2 (by decide +kernel)⟩))

end Chif
