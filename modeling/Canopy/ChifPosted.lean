/-
The doorbell interrupt in the memory of a host that plays by the rules.

`Posted` says how a host that posts packets on channel 24 only leaves the shared
memory; `ackedBy` compares the FIFO of channel 24 before and after an interrupt
and lists the packets whose entries became consumed.

* `CcbFrame`, `ccbFrame_activeCcb` — what `active_ccb` changes;
* `Marked`, `takeLoop_marked` — what the second loop of `consume_packet` changes;
* `posted_irq` — an interrupt acknowledges exactly the packets it takes.
-/
import Canopy.ChifTrace

namespace Chif

open Bytes WrapMem ChifDrvdata

/-! ### The control blocks -/

/-- `ccb_table` ends here. -/
def ccbTableSize : ℕ := ccbSize * maxChannels

/-- `m'` is `m` but for the active bits of the channels. -/
structure CcbFrame (m m' : Shmem) : Prop where
  beyond : ∀ a len, ccbTableSize ≤ a → a + len ≤ addressSpace →
    read addressSpace m' a len = read addressSpace m a len
  fifo : ∀ c < maxChannels, ccbField m' c ccbSqFifo = ccbField m c ccbSqFifo
  desc : ∀ c < maxChannels, ccbField m' c ccbSqDesc = ccbField m c ccbSqDesc
  go : ∀ c < maxChannels,
    ccbField m' c ccbSqCtrl &&& ccbCtrlGoMask = ccbField m c ccbSqCtrl &&& ccbCtrlGoMask

theorem CcbFrame.refl (m : Shmem) : CcbFrame m m where
  beyond := fun _ _ _ _ => rfl
  fifo := fun _ _ => rfl
  desc := fun _ _ => rfl
  go := fun _ _ => rfl

theorem CcbFrame.trans {m m' m'' : Shmem} (h : CcbFrame m m') (h' : CcbFrame m' m'') :
    CcbFrame m m'' where
  beyond := fun a len ha hlen => (h'.beyond a len ha hlen).trans (h.beyond a len ha hlen)
  fifo := fun c hc => (h'.fifo c hc).trans (h.fifo c hc)
  desc := fun c hc => (h'.desc c hc).trans (h.desc c hc)
  go := fun c hc => (h'.go c hc).trans (h.go c hc)

/-- Writing `sq_ctrl` of a channel without touching its go bit. -/
theorem ccbFrame_write (m : Shmem) {i value : ℕ} (hi : i < maxChannels) (hlt : value < 2 ^ 64)
    (hgo : value &&& ccbCtrlGoMask = ccbField m i ccbSqCtrl &&& ccbCtrlGoMask) :
    CcbFrame m (write addressSpace m (ccbSize * i + ccbSqCtrl) (ofLE 8 value)) := by
  have hspace : addressSpace = 2 ^ 32 := rfl
  have hin : ccbSize * i + ccbSqCtrl + (ofLE 8 value).length ≤ addressSpace := by
    rw [ofLE_length, hspace, ccbSize, ccbSqCtrl]
    rw [maxChannels] at hi
    omega
  -- a field that does not overlap the one written
  have hfield : ∀ c < maxChannels, ∀ field, field + 8 ≤ ccbSize →
      (c = i → field + 8 ≤ ccbSqCtrl ∨ ccbSqCtrl + 8 ≤ field) →
      ccbField (write addressSpace m (ccbSize * i + ccbSqCtrl) (ofLE 8 value)) c field
        = ccbField m c field := by
    intro c hc field hsize happart
    rw [ccbField, ccbField, read_write_disjoint m hin]
    · rw [hspace, ccbSize]
      rw [maxChannels] at hc
      rw [ccbSize] at hsize
      omega
    · rw [ofLE_length, ccbSize, ccbSqCtrl]
      rw [ccbSize] at hsize
      rw [ccbSqCtrl] at happart
      rcases Nat.lt_trichotomy c i with hlt | heq | hgt
      · omega
      · have := happart heq
        omega
      · omega
  refine ⟨?_, ?_, ?_, ?_⟩
  · intro a len ha hlen
    refine read_write_disjoint m hin hlen (Or.inr ?_)
    rw [ofLE_length, ccbSize, ccbSqCtrl]
    rw [ccbTableSize, ccbSize] at ha
    rw [maxChannels] at ha hi
    omega
  · exact fun c hc => hfield c hc ccbSqFifo (by decide) fun _ => Or.inl (by decide)
  · exact fun c hc => hfield c hc ccbSqDesc (by decide) fun _ => Or.inl (by decide)
  · intro c hc
    by_cases heq : c = i
    · subst heq
      have hfits : (ofLE 8 value).length ≤ addressSpace := by
        rw [ofLE_length, hspace]
        omega
      have hread := read_write_self m (ccbSize * c + ccbSqCtrl) hfits
      rw [ofLE_length] at hread
      rw [ccbField, hread, toLE_ofLE_of_lt hlt, hgo]
    · rw [hfield c hc ccbSqCtrl (by decide) fun h => absurd h heq]

private theorem ccbField_lt (m : Shmem) (c field : ℕ) : ccbField m c field < 2 ^ 64 := by
  have hlt := toLE_lt (read addressSpace m (ccbSize * c + field) 8)
  rw [read_length] at hlt
  exact hlt

theorem ccbFrame_activeCcb (d : ChifDrvdata) {i : ℕ} (hi : i < maxChannels) :
    CcbFrame d.shmem (activeCcb d i).2.shmem := by
  have hlt := ccbField_lt d.shmem i ccbSqCtrl
  have hgoActive : (2 ^ 64 - 1 - ccbCtrlActiveMask) &&& ccbCtrlGoMask = ccbCtrlGoMask := by decide
  have hactiveGo : ccbCtrlActiveMask &&& ccbCtrlGoMask = 0 := by decide
  rw [activeCcb]
  dsimp only [getCcb]
  split
  · refine ccbFrame_write d.shmem hi (lt_of_le_of_lt Nat.and_le_left hlt) ?_
    rw [Nat.and_assoc, hgoActive]
  · split
    · refine ccbFrame_write d.shmem hi (Nat.or_lt_two_pow hlt (by decide)) ?_
      rw [Nat.and_or_distrib_right, hactiveGo, Nat.or_zero]
    · exact CcbFrame.refl _

/-! ### The entries taken -/

/-- What becomes of an entry: taken if it is eligible. -/
def afterTake (e : FifoEntry) : FifoEntry := if e.eligible then { e with consumed := true } else e

theorem afterTake_of_eligible {e : FifoEntry} (h : e.eligible = true) :
    afterTake e = { e with consumed := true } := if_pos h

theorem afterTake_of_not_eligible {e : FifoEntry} (h : e.eligible = false) : afterTake e = e :=
  if_neg (Bool.eq_false_iff.mp h)

/-- The memory after the second loop of `consume_packet`. -/
structure Marked (fifo : ℕ) (m m' : Shmem) : Prop where
  entry_zero : fifoEntry m' (fifoAddr fifo 0) = afterTake (fifoEntry m (fifoAddr fifo 0))
  entry_one : fifoEntry m' (fifoAddr fifo 1) = afterTake (fifoEntry m (fifoAddr fifo 1))
  apart : ∀ a len, a + len ≤ addressSpace → (a + len ≤ fifo ∨ fifo + 16 ≤ a) →
    read addressSpace m' a len = read addressSpace m a len

theorem shmem_scan (fifo : ℕ) (d : ChifDrvdata) : (getOccupiedEntry fifo d).2.shmem = d.shmem := by
  rw [getOccupiedEntry_eq]
  rfl

private theorem shmem_takeEntry (fifo desc : ℕ) (d : ChifDrvdata) (i : ℕ) :
    (takeEntry fifo desc d i).shmem
      = setFifoEntry d.shmem (fifoAddr fifo i) { d.entry fifo i with consumed := true } := by
  have hpush : (pushedEntry fifo desc d i).shmem = d.shmem := (pushDesc_frame _ _ _).1
  rw [takeEntry_eq, entry, ← hpush]
  rfl

/-- Writing an entry leaves everything outside the FIFO alone. -/
theorem apart_setFifoEntry {fifo : ℕ} (m : Shmem) {i : ℕ} (hi : i < 2) (e : FifoEntry)
    (hfifo : fifo + 16 ≤ addressSpace) {a len : ℕ} (ha : a + len ≤ addressSpace)
    (hapart : a + len ≤ fifo ∨ fifo + 16 ≤ a) :
    read addressSpace (setFifoEntry m (fifoAddr fifo i) e) a len = read addressSpace m a len := by
  rw [setFifoEntry, read_write_disjoint _ ?_ ha ?_]
  · rw [ofLE_length, fifoAddr, fifoEntrySize]
    omega
  · rw [ofLE_length, fifoAddr, fifoEntrySize]
    omega

private theorem apart_takeEntry {fifo : ℕ} (desc : ℕ) (d : ChifDrvdata) {i : ℕ} (hi : i < 2)
    (hfifo : fifo + 16 ≤ addressSpace) {a len : ℕ} (ha : a + len ≤ addressSpace)
    (hapart : a + len ≤ fifo ∨ fifo + 16 ≤ a) :
    read addressSpace (takeEntry fifo desc (getOccupiedEntry fifo d).2 i).shmem a len
      = read addressSpace d.shmem a len := by
  rw [shmem_takeEntry, apart_setFifoEntry _ hi _ hfifo ha hapart, shmem_scan]

private theorem takenLoop_none {channel fifo desc n : ℕ} {d : ChifDrvdata}
    (h0 : (d.entry fifo 0).eligible = false) (h1 : (d.entry fifo 1).eligible = false) :
    takenLoop channel fifo desc (n + 1) d = [] := by
  rw [takenLoop, getOccupiedEntry_eq, h0, h1]
  rfl

private theorem takenLoop_one {channel fifo desc n : ℕ} {d : ChifDrvdata}
    (h1 : (d.entry fifo 1).eligible = true) :
    takenLoop channel fifo desc (n + 1) d
      = takenEntry channel fifo desc (getOccupiedEntry fifo d).2 1
        :: takenLoop channel fifo desc n (takeEntry fifo desc (getOccupiedEntry fifo d).2 1) := by
  rw [takenLoop, getOccupiedEntry_eq, h1]
  rfl

private theorem takenLoop_zero {channel fifo desc n : ℕ} {d : ChifDrvdata}
    (h0 : (d.entry fifo 0).eligible = true) (h1 : (d.entry fifo 1).eligible = false) :
    takenLoop channel fifo desc (n + 1) d
      = takenEntry channel fifo desc (getOccupiedEntry fifo d).2 0
        :: takenLoop channel fifo desc n (takeEntry fifo desc (getOccupiedEntry fifo d).2 0) := by
  rw [takenLoop, getOccupiedEntry_eq, h0, h1]
  rfl

private theorem takenEntry_packet (channel fifo desc : ℕ) (d : ChifDrvdata) (i : ℕ) :
    (takenEntry channel fifo desc (getOccupiedEntry fifo d).2 i).packet
      = descPacket d.shmem desc (d.entry fifo i) := by
  show descPacket (getOccupiedEntry fifo d).2.shmem desc
    ((getOccupiedEntry fifo d).2.entry fifo i) = _
  rw [entry_scan, shmem_scan]

/-- The packets of the entries that satisfy `p`, in the order they are taken. -/
def packetsWhere (m : Shmem) (fifo desc : ℕ) (p : ℕ → Bool) : List Bytes :=
  ([1, 0].filter p).map fun i => descPacket m desc (fifoEntry m (fifoAddr fifo i))

theorem packetsWhere_eq (m : Shmem) (fifo desc : ℕ) (p : ℕ → Bool) :
    packetsWhere m fifo desc p =
      (if p 1 then [descPacket m desc (fifoEntry m (fifoAddr fifo 1))] else []) ++
        (if p 0 then [descPacket m desc (fifoEntry m (fifoAddr fifo 0))] else []) := by
  rw [packetsWhere]
  cases h1 : p 1 with
  | false => cases h0 : p 0 <;> simp [h1, h0]
  | true => cases h0 : p 0 <;> simp [h1, h0]

private theorem packetsWhere_congr {m : Shmem} {fifo desc : ℕ} {p q : ℕ → Bool}
    (h : ∀ i < 2, p i = q i) : packetsWhere m fifo desc p = packetsWhere m fifo desc q := by
  rw [packetsWhere_eq, packetsWhere_eq, h 0 Nat.zero_lt_two, h 1 Nat.one_lt_two]

private theorem takeLoop_marked_zero (channel : ℕ) {fifo : ℕ} (desc n : ℕ) {d : ChifDrvdata}
    (hfifo : fifo + 16 ≤ addressSpace) (h1 : (d.entry fifo 1).eligible = false) :
    Marked fifo d.shmem (takeLoop fifo desc (n + 2) d).shmem ∧
      (takenLoop channel fifo desc (n + 2) d).map Taken.packet
        = packetsWhere d.shmem fifo desc fun i => (d.entry fifo i).eligible := by
  have hone := afterTake_of_not_eligible h1
  rw [packetsWhere_eq, h1]
  cases h0 : (d.entry fifo 0).eligible with
  | false =>
    have hzero := afterTake_of_not_eligible h0
    rw [takeLoop_none h0 h1, takenLoop_none h0 h1, shmem_scan]
    exact ⟨⟨hzero.symm, hone.symm, fun _ _ _ _ => rfl⟩, rfl⟩
  | true =>
    have hzero := afterTake_of_eligible h0
    have hpacket := takenEntry_packet channel fifo desc d 0
    have hapart : ∀ a len, a + len ≤ addressSpace → (a + len ≤ fifo ∨ fifo + 16 ≤ a) →
        read addressSpace (takeEntry fifo desc (getOccupiedEntry fifo d).2 0).shmem a len
          = read addressSpace d.shmem a len :=
      fun a len ha hd => apart_takeEntry desc d Nat.zero_lt_two hfifo ha hd
    obtain ⟨he0, he1⟩ := entry_take_zero fifo desc (getOccupiedEntry fifo d).2
    rw [entry_scan] at he0 he1
    rw [takeLoop_zero h0 h1, takenLoop_zero h0 h1, List.map_cons, hpacket]
    generalize takeEntry fifo desc (getOccupiedEntry fifo d).2 0 = d' at he0 he1 hapart
    have hd0 : (d'.entry fifo 0).eligible = false := by rw [he0, not_eligible_of_consumed]
    have hd1 : (d'.entry fifo 1).eligible = false := by rw [he1, h1]
    rw [takeLoop_none hd0 hd1, takenLoop_none hd0 hd1, shmem_scan]
    exact ⟨⟨he0.trans hzero.symm, he1.trans hone.symm, hapart⟩, rfl⟩

/-- **The second loop** takes the eligible entries, each with the packet it had,
if the descriptor of entry 0 does not reach into the FIFO. -/
theorem takeLoop_marked (channel : ℕ) {fifo desc : ℕ} {d : ChifDrvdata}
    (hfifo : fifo + 16 ≤ addressSpace)
    (hdesc : (d.entry fifo 0).eligible = true →
      descAddr desc (d.entry fifo 0).descriptorNum + (d.entry fifo 0).descLen ≤ addressSpace ∧
      (descAddr desc (d.entry fifo 0).descriptorNum + (d.entry fifo 0).descLen ≤ fifo ∨
        fifo + 16 ≤ descAddr desc (d.entry fifo 0).descriptorNum)) :
    Marked fifo d.shmem (takeLoop fifo desc takeRounds d).shmem ∧
      (takenLoop channel fifo desc takeRounds d).map Taken.packet
        = packetsWhere d.shmem fifo desc fun i => (d.entry fifo i).eligible := by
  have hrounds : takeRounds = 2 + 1 := rfl
  cases h1 : (d.entry fifo 1).eligible with
  | false => exact takeLoop_marked_zero channel desc 1 hfifo h1
  | true =>
    have hone := afterTake_of_eligible h1
    have hpacket := takenEntry_packet channel fifo desc d 1
    have hapart : ∀ a len, a + len ≤ addressSpace → (a + len ≤ fifo ∨ fifo + 16 ≤ a) →
        read addressSpace (takeEntry fifo desc (getOccupiedEntry fifo d).2 1).shmem a len
          = read addressSpace d.shmem a len :=
      fun a len ha hd => apart_takeEntry desc d Nat.one_lt_two hfifo ha hd
    obtain ⟨he1, he0⟩ := entry_take_one fifo desc (getOccupiedEntry fifo d).2
    rw [entry_scan] at he1 he0
    rw [hrounds, takeLoop_one h1, takenLoop_one h1, List.map_cons, hpacket]
    generalize takeEntry fifo desc (getOccupiedEntry fifo d).2 1 = d' at he1 he0 hapart
    have hd1 : (d'.entry fifo 1).eligible = false := by rw [he1, not_eligible_of_consumed]
    -- entry 0 is as it was, and so is its descriptor
    obtain ⟨hmarked, htaken⟩ := takeLoop_marked_zero channel desc 0 (d := d') hfifo hd1
    refine ⟨⟨?_, ?_, ?_⟩, ?_⟩
    · exact hmarked.entry_zero.trans (congrArg afterTake he0)
    · have hstay := afterTake_of_not_eligible hd1
      exact (hmarked.entry_one.trans hstay).trans (he1.trans hone.symm)
    · intro a len ha hd
      rw [hmarked.apart a len ha hd, hapart a len ha hd]
    · rw [htaken, packetsWhere_eq, packetsWhere_eq, hd1, h1, he0]
      cases h0 : (d.entry fifo 0).eligible with
      | false => rfl
      | true =>
        obtain ⟨hlen, hclear⟩ := hdesc h0
        have hsame : descPacket d'.shmem desc (d'.entry fifo 0)
            = descPacket d.shmem desc (d.entry fifo 0) := by
          rw [he0, descPacket, descPacket, hapart _ _ hlen hclear]
        show [_, descPacket d'.shmem desc (d'.entry fifo 0)] = _
        rw [hsame]
        rfl

/-! ### A host on channel 24 -/

def fifoOf (m : Shmem) : ℕ := ccbField m channelSharemem ccbSqFifo

def descOf (m : Shmem) : ℕ := ccbField m channelSharemem ccbSqDesc

/-- Entry `i` of the send FIFO of channel 24. -/
def entryOf (m : Shmem) (i : ℕ) : FifoEntry := fifoEntry m (fifoAddr (fifoOf m) i)

/-- The address of its descriptor. -/
def descOfEntry (m : Shmem) (i : ℕ) : ℕ := descAddr (descOf m) (entryOf m i).descriptorNum

/-- A posted packet: non-empty, at most 4096 bytes, sequence number 0, in a
descriptor of its own inside the window. -/
def PostedEntry (m : Shmem) (i : ℕ) : Prop :=
  (entryOf m i).qwords.val ≠ 0 ∧ (entryOf m i).sequenceNum.val = 0 ∧
    (entryOf m i).descLen ≤ sharedMemChifDescriptorSize ∧
    ccbTableSize ≤ descOfEntry m i ∧ descOfEntry m i + (entryOf m i).descLen ≤ sharedMemSize ∧
    (descOfEntry m i + (entryOf m i).descLen ≤ fifoOf m ∨ fifoOf m + 16 ≤ descOfEntry m i)

/-- The memory of a host that posts on channel 24 only. -/
def Posted (m : Shmem) : Prop :=
  ccbTableSize ≤ fifoOf m ∧ fifoOf m + 16 ≤ sharedMemSize ∧
    (∀ c < maxChannels, c ≠ channelSharemem → ccbField m c ccbSqCtrl &&& ccbCtrlGoMask = 0) ∧
    ∀ i < sharedMemChifDescriptorNum, (entryOf m i).pending = true → PostedEntry m i

instance : DecidablePred Posted := fun m => by
  unfold Posted PostedEntry
  infer_instance

/-- The packets of channel 24 whose entries `m'` has consumed and `m` had not. -/
def ackedBy (m m' : Shmem) : List Bytes :=
  packetsWhere m (fifoOf m) (descOf m) fun i => (entryOf m i).pending && (entryOf m' i).consumed

private theorem fifoAddr_block {m : Shmem} (h : Posted m) {i : ℕ} (hi : i < 2) :
    ccbTableSize ≤ fifoAddr (fifoOf m) i ∧ fifoAddr (fifoOf m) i + 4 ≤ addressSpace := by
  obtain ⟨hge, hle, -, -⟩ := h
  have hspace : addressSpace = 2 ^ 32 := rfl
  rw [fifoAddr, fifoEntrySize, hspace]
  rw [sharedMemSize] at hle
  omega

theorem CcbFrame.fifoOf {m m' : Shmem} (h : CcbFrame m m') : fifoOf m' = fifoOf m :=
  h.fifo _ channelSharemem_lt

theorem CcbFrame.descOf {m m' : Shmem} (h : CcbFrame m m') : descOf m' = descOf m :=
  h.desc _ channelSharemem_lt

theorem CcbFrame.entryOf {m m' : Shmem} (h : CcbFrame m m') (hm : Posted m) {i : ℕ} (hi : i < 2) :
    entryOf m' i = entryOf m i := by
  obtain ⟨hge, hle⟩ := fifoAddr_block hm hi
  rw [Chif.entryOf, h.fifoOf, fifoEntry, h.beyond _ _ hge hle, Chif.entryOf, fifoEntry]

theorem CcbFrame.posted {m m' : Shmem} (h : CcbFrame m m') (hm : Posted m) : Posted m' := by
  obtain ⟨hge, hle, hidle, hentries⟩ := hm
  refine ⟨by rw [h.fifoOf]; exact hge, by rw [h.fifoOf]; exact hle, ?_, ?_⟩
  · intro c hc hne
    rw [h.go c hc]
    exact hidle c hc hne
  · intro i hi hpending
    have hentry := h.entryOf ⟨hge, hle, hidle, hentries⟩ hi
    rw [hentry] at hpending
    have hposted := hentries i hi hpending
    rw [PostedEntry, descOfEntry, hentry, h.fifoOf, h.descOf]
    exact hposted

/-- The packet of a posted entry. -/
theorem CcbFrame.packet {m m' : Shmem} (h : CcbFrame m m') (hm : Posted m) {i : ℕ} (hi : i < 2)
    (hpending : (Chif.entryOf m i).pending = true) :
    descPacket m' (Chif.descOf m') (Chif.entryOf m' i)
      = descPacket m (Chif.descOf m) (Chif.entryOf m i) := by
  obtain ⟨-, -, -, hge, hle, -⟩ := hm.2.2.2 i hi hpending
  have hspace : sharedMemSize ≤ addressSpace := by decide
  rw [h.descOf, h.entryOf hm hi, descPacket, descPacket]
  exact h.beyond _ _ hge (hle.trans hspace)

/-- The control blocks do not matter. -/
theorem ackedBy_frame {m m1 m2 m3 : Shmem} (h : CcbFrame m m1) (h' : CcbFrame m2 m3)
    (hm : Posted m) (hm2 : Posted m2) : ackedBy m m3 = ackedBy m1 m2 := by
  -- writes to the control blocks change neither the entries nor the packets
  have hentry : ∀ i ∈ [1, 0], entryOf m1 i = entryOf m i ∧ entryOf m3 i = entryOf m2 i := by
    intro i hi
    have hlt : i < 2 := by
      simp only [List.mem_cons, List.not_mem_nil, or_false] at hi
      omega
    exact ⟨h.entryOf hm hlt, h'.entryOf hm2 hlt⟩
  have hfilter : [1, 0].filter (fun i => (entryOf m i).pending && (entryOf m3 i).consumed)
      = [1, 0].filter fun i => (entryOf m1 i).pending && (entryOf m2 i).consumed := by
    refine List.filter_congr fun i hi => ?_
    rw [(hentry i hi).1, (hentry i hi).2]
  rw [ackedBy, ackedBy, packetsWhere, packetsWhere, hfilter]
  refine List.map_congr_left fun i hi => ?_
  obtain ⟨hmem, hp⟩ := List.mem_filter.mp hi
  rw [(hentry i hmem).1, Bool.and_eq_true] at hp
  have hlt : i < 2 := by
    simp only [List.mem_cons, List.not_mem_nil, or_false] at hmem
    omega
  exact (h.packet hm hlt hp.1).symm

private theorem ackedBy_self (m : Shmem) : ackedBy m m = [] := by
  have hnone : [1, 0].filter (fun i => (entryOf m i).pending && (entryOf m i).consumed) = [] := by
    refine List.filter_eq_nil_iff.mpr fun i _ => ?_
    simp [FifoEntry.pending]
  rw [ackedBy, packetsWhere, hnone]
  rfl

/-! ### One interrupt -/

/-- Channels whose go bit is clear. -/
theorem irq_idle (doorbell : ℕ) (is : List ℕ) (d : ChifDrvdata)
    (h : ∀ i ∈ is, i < maxChannels ∧ ccbField d.shmem i ccbSqCtrl &&& ccbCtrlGoMask = 0) :
    CcbFrame d.shmem (Run.run (irqStep doorbell) d is).shmem ∧ callsFor doorbell d is = [] := by
  induction is generalizing d with
  | nil => exact ⟨CcbFrame.refl _, rfl⟩
  | cons i is ih =>
    obtain ⟨⟨hi, hgo⟩, his⟩ := List.forall_mem_cons.mp h
    have hidle : ¬Serviced doorbell d i := fun hs => hs.2 hgo
    have hstep : CcbFrame d.shmem (irqStep doorbell d i).shmem := by
      rcases irqStep_of_not_serviced hi hidle with heq | heq
      · rw [heq]
        exact CcbFrame.refl _
      · rw [heq]
        exact ccbFrame_activeCcb d hi
    obtain ⟨hrest, hcalls⟩ := ih (irqStep doorbell d i) fun j hj => by
      obtain ⟨hjlt, hjgo⟩ := his j hj
      exact ⟨hjlt, (hstep.go j hjlt).trans hjgo⟩
    rw [Run.run_cons, callsFor, Run.visits, List.flatMap_cons, callOf, if_neg hidle,
      List.nil_append]
    exact ⟨hstep.trans hrest, hcalls⟩

/-- A round of the first loop finds no empty packet to consume. -/
theorem shmem_emptyStep {fifo : ℕ} {n : ℕ} {d : ChifDrvdata} {i : ℕ}
    (h : (d.entry fifo i).pending = true → (d.entry fifo i).qwords.val ≠ 0) :
    (emptyStep fifo (n, d) i).2.shmem = d.shmem := by
  show (if (d.entry fifo i).pending then
      if (d.entry fifo i).qwords.val = 0 then
        (n, (d.touch (fifoAddr fifo i) 4).setConsumed (fifoAddr fifo i))
      else (n + 1, d.touch (fifoAddr fifo i) 4)
    else (n, d.touch (fifoAddr fifo i) 4)).2.shmem = d.shmem
  split
  · next hpending =>
    rw [if_neg (h hpending)]
    rfl
  · rfl

private theorem shmem_emptyLoop {fifo : ℕ} {d : ChifDrvdata}
    (h : ∀ i < 2, (d.entry fifo i).pending = true → (d.entry fifo i).qwords.val ≠ 0) :
    ((List.range sharedMemChifDescriptorNum).foldl (emptyStep fifo) (0, d)).2.shmem = d.shmem := by
  have h0 := shmem_emptyStep (n := 0) (h 0 Nat.zero_lt_two)
  rw [range_descriptorNum, List.foldl_cons, List.foldl_cons, List.foldl_nil]
  generalize emptyStep fifo (0, d) 0 = s at h0
  obtain ⟨n, d'⟩ := s
  dsimp only at h0
  have h1 : (emptyStep fifo (n, d') 1).2.shmem = d'.shmem := by
    refine shmem_emptyStep fun hpending => ?_
    rw [entry_congr h0] at hpending ⊢
    exact h 1 Nat.one_lt_two hpending
  rw [h1, h0]

/-- In posted memory every pending entry is eligible. -/
theorem eligible_eq_pending {m : Shmem} (hm : Posted m) {i : ℕ} (hi : i < 2) :
    (entryOf m i).eligible = (entryOf m i).pending := by
  rw [FifoEntry.eligible]
  cases hpending : (entryOf m i).pending with
  | false => rfl
  | true =>
    obtain ⟨-, hseq, -⟩ := hm.2.2.2 i hi hpending
    simp [hseq]

/-- On channel 24 the first loop writes nothing and counts the pending entries. -/
theorem scan_posted {d : ChifDrvdata} (hm : Posted d.shmem) :
    ∃ s : ℕ × ChifDrvdata, s.2.shmem = d.shmem ∧
      (s.1 = 0 → ∀ i < 2, (entryOf d.shmem i).pending = false) ∧
      consumePacket d channelSharemem = (if s.1 > 0 then
          (s.1, takeLoop (fifoOf d.shmem) (descOf d.shmem) takeRounds s.2) else (s.1, s.2)) ∧
      consumeTaken d channelSharemem = (if s.1 > 0 then
          takenLoop channelSharemem (fifoOf d.shmem) (descOf d.shmem) takeRounds s.2 else []) := by
  obtain ⟨-, -, -, hentries⟩ := hm
  set d0 := d.pointersRead channelSharemem with hd0
  have hqwords : ∀ i < 2, (d0.entry (fifoOf d.shmem) i).pending = true →
      (d0.entry (fifoOf d.shmem) i).qwords.val ≠ 0 :=
    fun i hi hpending => (hentries i hi hpending).1
  have hcount : (d.emptied channelSharemem).1 = (d0.entry (fifoOf d.shmem) 0).nonEmpty.toNat
      + (d0.entry (fifoOf d.shmem) 1).nonEmpty.toNat := (emptied_scanned d channelSharemem).count
  refine ⟨d.emptied channelSharemem, shmem_emptyLoop hqwords, ?_, consumePacket_eq _ _,
    consumeTaken_eq _ _⟩
  intro hzero i hi
  by_contra hne
  have hpending := Bool.eq_true_of_not_eq_false hne
  have hone : (d0.entry (fifoOf d.shmem) i).nonEmpty.toNat = 1 := by
    show (entryOf d.shmem i).nonEmpty.toNat = 1
    simp [FifoEntry.nonEmpty, hpending, (hentries i hi hpending).1]
  obtain rfl | rfl : i = 0 ∨ i = 1 := by omega
  · omega
  · omega

/-- With nothing pending there is nothing to mark. -/
theorem marked_refl {m : Shmem} (hm : Posted m)
    (hnone : ∀ i < 2, (entryOf m i).pending = false) : Marked (fifoOf m) m m := by
  have hstay : ∀ i < 2, afterTake (entryOf m i) = entryOf m i := by
    intro i hi
    refine afterTake_of_not_eligible ?_
    rw [eligible_eq_pending hm hi, hnone i hi]
  exact ⟨(hstay 0 Nat.zero_lt_two).symm, (hstay 1 Nat.one_lt_two).symm, fun _ _ _ _ => rfl⟩

/-- **`consume_packet` on channel 24** takes the pending entries. -/
theorem consume_marked {d : ChifDrvdata} (hm : Posted d.shmem) :
    Marked (fifoOf d.shmem) d.shmem (consumePacket d channelSharemem).2.shmem ∧
      (consumeTaken d channelSharemem).map Taken.packet
        = packetsWhere d.shmem (fifoOf d.shmem) (descOf d.shmem)
          fun i => (entryOf d.shmem i).pending := by
  obtain ⟨⟨n, d1⟩, hshmem, hzero, hcall, htaken⟩ := scan_posted hm
  dsimp only at hshmem hzero hcall htaken
  rw [hcall, htaken]
  split
  · -- the first loop has changed no entry
    have hentry : ∀ i, d1.entry (fifoOf d.shmem) i = entryOf d.shmem i :=
      fun i => entry_congr hshmem (fifoOf d.shmem) i
    have helig : ∀ i < 2, (d1.entry (fifoOf d.shmem) i).eligible
        = (entryOf d.shmem i).pending := by
      intro i hi
      rw [hentry i]
      exact eligible_eq_pending hm hi
    have hspace : addressSpace = 2 ^ 32 := rfl
    have hwindow : sharedMemSize = 2 ^ 20 := rfl
    obtain ⟨hge, hle, -, hentries⟩ := hm
    have hfits : fifoOf d.shmem + 16 ≤ addressSpace := by omega
    -- reading the packet of entry 0 does not touch the entries
    have happart : (d1.entry (fifoOf d.shmem) 0).eligible = true →
        descAddr (descOf d.shmem) (d1.entry (fifoOf d.shmem) 0).descriptorNum
            + (d1.entry (fifoOf d.shmem) 0).descLen ≤ addressSpace ∧
          (descAddr (descOf d.shmem) (d1.entry (fifoOf d.shmem) 0).descriptorNum
              + (d1.entry (fifoOf d.shmem) 0).descLen ≤ fifoOf d.shmem ∨
            fifoOf d.shmem + 16
              ≤ descAddr (descOf d.shmem) (d1.entry (fifoOf d.shmem) 0).descriptorNum) := by
      intro h0
      rw [helig 0 Nat.zero_lt_two] at h0
      obtain ⟨-, -, -, -, hend, hclear⟩ := hentries 0 Nat.zero_lt_two h0
      rw [descOfEntry] at hend hclear
      rw [hentry 0]
      exact ⟨by omega, hclear⟩
    obtain ⟨hmarked, hpackets⟩ := takeLoop_marked channelSharemem hfits happart
    rw [hshmem] at hmarked hpackets
    exact ⟨hmarked, hpackets.trans (packetsWhere_congr helig)⟩
  · -- nothing pending: the loop does not run
    have hnone := hzero (by omega)
    rw [packetsWhere_eq, hnone 0 Nat.zero_lt_two, hnone 1 Nat.one_lt_two]
    constructor
    · show Marked (fifoOf d.shmem) d.shmem d1.shmem
      rw [hshmem]
      exact marked_refl hm hnone
    · rfl

/-- The second loop writes to no control block. -/
theorem Marked.ccbField {m m' : Shmem} (h : Marked (fifoOf m) m m') (hm : Posted m) {c field : ℕ}
    (hc : c < maxChannels) (hfield : field + 8 ≤ ccbSize) :
    Chif.ccbField m' c field = Chif.ccbField m c field := by
  obtain ⟨hge, hle, -, -⟩ := hm
  have hspace : addressSpace = 2 ^ 32 := rfl
  rw [ccbTableSize, ccbSize] at hge
  rw [ccbSize] at hfield
  rw [maxChannels] at hge hc
  rw [Chif.ccbField, Chif.ccbField, h.apart _ _ (by rw [hspace, ccbSize]; omega)]
  left
  rw [ccbSize]
  omega

theorem Marked.fifoOf_eq {m m' : Shmem} (h : Marked (fifoOf m) m m') (hm : Posted m) :
    fifoOf m' = fifoOf m :=
  h.ccbField hm channelSharemem_lt (by decide)

theorem Marked.entryOf {m m' : Shmem} (h : Marked (fifoOf m) m m') (hm : Posted m) {i : ℕ}
    (hi : i < 2) : entryOf m' i = afterTake (entryOf m i) := by
  rw [Chif.entryOf, h.fifoOf_eq hm]
  obtain rfl | rfl : i = 0 ∨ i = 1 := by omega
  · exact h.entry_zero
  · exact h.entry_one

private theorem pending_afterTake {e : FifoEntry} (h : e.eligible = e.pending) :
    (afterTake e).pending = false ∧ (e.pending && (afterTake e).consumed) = e.pending := by
  rw [afterTake, h]
  cases hpending : e.pending with
  | false => simp [hpending]
  | true => simp [FifoEntry.pending]

theorem Marked.posted {m m' : Shmem} (h : Marked (fifoOf m) m m') (hm : Posted m) : Posted m' := by
  have hfifo := h.fifoOf_eq hm
  refine ⟨by rw [hfifo]; exact hm.1, by rw [hfifo]; exact hm.2.1, ?_, ?_⟩
  · intro c hc hne
    rw [h.ccbField hm hc (by decide)]
    exact hm.2.2.1 c hc hne
  · intro i hi hpending
    rw [h.entryOf hm hi, (pending_afterTake (eligible_eq_pending hm hi)).1] at hpending
    exact absurd hpending Bool.false_ne_true

theorem Marked.ackedBy {m m' : Shmem} (h : Marked (fifoOf m) m m') (hm : Posted m) :
    ackedBy m m'
      = packetsWhere m (fifoOf m) (descOf m) fun i => (Chif.entryOf m i).pending := by
  refine packetsWhere_congr ?_
  intro i hi
  rw [h.entryOf hm hi, (pending_afterTake (eligible_eq_pending hm hi)).2]

/-- The channels the handler looks at before channel 24, and after it. -/
theorem irqChannels_split : ∃ before after, irqChannels = before ++ channelSharemem :: after ∧
    ∀ i ∈ before ++ after, i < maxChannels ∧ i ≠ channelSharemem := by
  refine ⟨[31, 30, 29, 28, 27, 26, 25], (List.range 24).reverse, by decide, by decide⟩

private theorem callsFor_append (doorbell : ℕ) (d : ChifDrvdata) (is js : List ℕ) :
    callsFor doorbell d (is ++ js)
      = callsFor doorbell d is ++ callsFor doorbell (Run.run (irqStep doorbell) d is) js := by
  rw [callsFor, Run.visits_append, List.flatMap_append, callsFor, callsFor]

/-- The handler's step for channel 24 acknowledges the packets it takes. -/
theorem posted_irqStep {d : ChifDrvdata} (hm : Posted d.shmem) (doorbell : ℕ) :
    Posted (irqStep doorbell d channelSharemem).shmem ∧
      ((callOf doorbell (d, channelSharemem)).flatMap fun c => consumeTaken c.1 c.2).map
        Taken.packet = ackedBy d.shmem (irqStep doorbell d channelSharemem).shmem := by
  have hactive := ccbFrame_activeCcb d channelSharemem_lt
  rw [callOf]
  by_cases hs : Serviced doorbell d channelSharemem
  · have hm' := hactive.posted hm
    obtain ⟨hmarked, htaken⟩ := consume_marked hm'
    have hshmem : (irqStep doorbell d channelSharemem).shmem
        = (consumePacket (activeCcb d channelSharemem).2 channelSharemem).2.shmem := by
      rw [irqStep_of_serviced channelSharemem_lt hs]
      split <;> rfl
    have hm2 := hmarked.posted hm'
    have hacked := hmarked.ackedBy hm'
    rw [if_pos hs, List.flatMap_singleton, htaken, hshmem, ← hacked]
    exact ⟨hm2, (ackedBy_frame hactive (CcbFrame.refl _) hm hm2).symm⟩
  · have hstep : CcbFrame d.shmem (irqStep doorbell d channelSharemem).shmem := by
      rcases irqStep_of_not_serviced channelSharemem_lt hs with heq | heq
      · rw [heq]
        exact CcbFrame.refl _
      · rw [heq]
        exact hactive
    rw [if_neg hs, ackedBy_frame (CcbFrame.refl _) hstep hm hm, ackedBy_self]
    exact ⟨hstep.posted hm, rfl⟩

/-- **An interrupt acknowledges exactly the packets it takes**, and leaves the
memory posted. -/
theorem posted_irq {d : ChifDrvdata} (hm : Posted d.shmem) (doorbell : ℕ) :
    Posted (chifIrqHandle d doorbell).shmem ∧
      (irqTaken d doorbell).map Taken.packet
        = ackedBy d.shmem (chifIrqHandle d doorbell).shmem := by
  obtain ⟨before, after, hsplit, hothers⟩ := irqChannels_split
  have hrest : ∀ m : Shmem, Posted m → ∀ i ∈ before ++ after,
      i < maxChannels ∧ ccbField m i ccbSqCtrl &&& ccbCtrlGoMask = 0 := by
    intro m hposted i hi
    obtain ⟨hlt, hne⟩ := hothers i hi
    exact ⟨hlt, hposted.2.2.1 i hlt hne⟩
  -- the three stages: other channels, channel 24, other channels
  obtain ⟨hframe, hcalls⟩ := irq_idle doorbell before d fun i hi =>
    hrest d.shmem hm i (List.mem_append_left _ hi)
  obtain ⟨hm2, hacked⟩ := posted_irqStep (hframe.posted hm) doorbell
  set d1 := Run.run (irqStep doorbell) d before with hd1
  set d2 := irqStep doorbell d1 channelSharemem with hd2
  obtain ⟨hframe', hcalls'⟩ := irq_idle doorbell after d2 fun i hi =>
    hrest d2.shmem hm2 i (List.mem_append_right _ hi)
  have hend : chifIrqHandle d doorbell = Run.run (irqStep doorbell) d2 after := by
    show Run.run (irqStep doorbell) d irqChannels = _
    rw [hsplit, Run.run_append, Run.run_cons]
  have htaken : irqTaken d doorbell
      = (callOf doorbell (d1, channelSharemem)).flatMap fun c => consumeTaken c.1 c.2 := by
    rw [irqTaken, consumeCalls, hsplit, callsFor_append, hcalls, List.nil_append, callsFor,
      Run.visits, List.flatMap_cons, ← callsFor, hcalls', List.append_nil]
  rw [hend, htaken]
  exact ⟨hframe'.posted hm2, hacked.trans (ackedBy_frame hframe hframe' hm hm2).symm⟩

end Chif
