/-
Where the CHIF driver reads and writes.

The driver adds host-supplied offsets to `shmem` and checks none of them.
`staysInWindow_iff` gives the layouts for which an interrupt and a write stay in
the 1 MiB window; `not_staysInWindow_fifo` is one for which they do not.
-/
import Canopy.ChifIrq

namespace Chif

open Bytes WrapMem ChifDrvdata

/-! ### Parts of `chif_write` -/

/-- One poll. -/
theorem waitOccupied_succ (host : ℕ → Shmem → Shmem) (recvFifo t : ℕ) (d : ChifDrvdata) :
    waitOccupied host recvFifo (t + 1) d =
      if (fifoEntry (host t d.shmem) recvFifo).occupied then
        (t, (ChifDrvdata.getFifo { d with shmem := host t d.shmem } recvFifo).2)
      else waitOccupied host recvFifo t
        (ChifDrvdata.getFifo { d with shmem := host t d.shmem } recvFifo).2 := rfl

theorem awaitOccupied_eq (host : ℕ → Shmem → Shmem) (recvFifo : ℕ) (d : ChifDrvdata) :
    awaitOccupied host recvFifo d =
      if (fifoEntry d.shmem recvFifo).occupied then (1, (d.getFifo recvFifo).2)
      else waitOccupied host recvFifo 100 (d.getFifo recvFifo).2 := rfl

private theorem inside_waitOccupied (host : ℕ → Shmem → Shmem) (recvFifo t : ℕ) (d : ChifDrvdata) :
    ((waitOccupied host recvFifo t d).2.Inside → d.Inside) ∧
      (InWindow (recvFifo, 4) → d.Inside → (waitOccupied host recvFifo t d).2.Inside) := by
  induction t generalizing d with
  | zero => exact ⟨id, fun _ => id⟩
  | succ t ih =>
    -- what the host writes between two polls is not an access of the driver
    have hpoll : ({ d with shmem := host t d.shmem } : ChifDrvdata).Inside ↔ d.Inside :=
      inside_congr rfl
    have hread := inside_getFifo { d with shmem := host t d.shmem } recvFifo
    obtain ⟨hlog, hkeep⟩ := ih (ChifDrvdata.getFifo { d with shmem := host t d.shmem } recvFifo).2
    rw [waitOccupied_succ]
    split
    · constructor
      · intro hin
        exact hpoll.mp (hread.mp hin).1
      · intro hw hin
        exact hread.mpr ⟨hpoll.mpr hin, hw⟩
    · constructor
      · intro hin
        exact hpoll.mp (hread.mp (hlog hin)).1
      · intro hw hin
        exact hkeep hw (hread.mpr ⟨hpoll.mpr hin, hw⟩)

/-- Posting the length and waiting touch the FIFO word and nothing else. -/
theorem inside_awaitOccupied (host : ℕ → Shmem → Shmem) (recvFifo count : ℕ) (d : ChifDrvdata) :
    (awaitOccupied host recvFifo (postQwords d recvFifo count)).2.Inside ↔
      d.Inside ∧ InWindow (recvFifo, 4) := by
  -- posting the length touches the same word as the polls
  have hpost : (postQwords d recvFifo count).Inside ↔ d.Inside ∧ InWindow (recvFifo, 4) := by
    rw [postQwords, inside_setFifo, inside_getFifo, and_assoc, and_self]
  generalize postQwords d recvFifo count = d1 at hpost
  have hread := inside_getFifo d1 recvFifo
  obtain ⟨hlog, hkeep⟩ := inside_waitOccupied host recvFifo 100 (d1.getFifo recvFifo).2
  rw [awaitOccupied_eq, ← hpost]
  split
  · constructor
    · intro hin
      exact (hread.mp hin).1
    · intro hin
      exact hread.mpr ⟨hin, (hpost.mp hin).2⟩
  · constructor
    · intro hin
      exact (hread.mp (hlog hin)).1
    · intro hin
      have hw := (hpost.mp hin).2
      exact hkeep hw (hread.mpr ⟨hin, hw⟩)

theorem le_roundLen (count : ℕ) : count ≤ roundLen count := by
  rw [roundLen]
  split <;> omega

theorem roundLen_le {count : ℕ} (h : count ≤ sharedMemChifDescriptorSize) :
    roundLen count ≤ sharedMemChifDescriptorSize := by
  rw [sharedMemChifDescriptorSize] at h ⊢
  rw [roundLen]
  split <;> omega

/-- The descriptor a write of `count` bytes clears and fills lies in the window. -/
def DescInRange (desc count : ℕ) : Prop :=
  count = 0 ∨ desc % addressSpace + roundLen count ≤ sharedMemSize

private theorem inWindow_desc {desc count : ℕ} (h : count ≤ sharedMemChifDescriptorSize) :
    (InWindow (desc, roundLen count) ∧ InWindow (desc, count)) ↔ DescInRange desc count := by
  have hle := le_roundLen count
  have hmax := roundLen_le h
  rw [sharedMemChifDescriptorSize] at hmax
  rw [DescInRange]
  rcases Nat.eq_zero_or_pos count with rfl | hpos
  · exact iff_of_true ⟨fun i hi => absurd hi (by simp [roundLen]),
      fun i hi => absurd hi (Nat.not_lt_zero i)⟩ (Or.inl rfl)
  · rw [inWindow_iff (by omega) (by omega), inWindow_iff hpos (by omega)]
    omega

private theorem touched_fillDesc (d : ChifDrvdata) (recvFifo desc : ℕ) (buf : Bytes)
    (fault : Option ℕ) :
    (fillDesc d recvFifo desc buf fault).2.touched =
      d.touched ++ [(desc, roundLen buf.length)] ++ [(desc, buf.length)]
        ++ if fault = none then [(recvFifo, 4)] else [] := by
  cases fault with
  | some n => exact (List.append_nil _).symm
  | none => rfl

/-- Filling touches the descriptor, and the FIFO word again. -/
theorem inside_fillDesc {d : ChifDrvdata} {recvFifo desc : ℕ} {buf : Bytes} (fault : Option ℕ)
    (hlen : buf.length ≤ sharedMemChifDescriptorSize) (hw : InWindow (recvFifo, 4)) :
    (fillDesc d recvFifo desc buf fault).2.Inside ↔ d.Inside ∧ DescInRange desc buf.length := by
  have hlast : ∀ r ∈ (if fault = none then [(recvFifo, 4)] else []), InWindow r := by
    intro r hr
    split at hr
    · rw [List.mem_singleton.mp hr]
      exact hw
    · exact absurd hr List.not_mem_nil
  rw [Inside, touched_fillDesc, List.forall_mem_append, List.forall_mem_append,
    List.forall_mem_append, List.forall_mem_singleton, List.forall_mem_singleton,
    and_iff_left hlast, and_assoc, inWindow_desc hlen, Inside]

private theorem inside_ringHost (d : ChifDrvdata) :
    (ringHost d channelSharemem).Inside ↔ d.Inside := by
  have hblock : InWindow (ccbSize * channelSharemem + ccbDoorbellBase, 8) :=
    inWindow_ccb (by decide) (by decide)
  have hread : (d.getCcb channelSharemem ccbDoorbellBase).2.Inside ↔ d.Inside := by
    rw [inside_getCcb, and_iff_left hblock]
  rw [← hread, ringHost]
  generalize d.getCcb channelSharemem ccbDoorbellBase = r
  split
  · simp only [Inside]
  · exact Iff.rfl

private theorem inside_deliver {d : ChifDrvdata} {recvFifo desc : ℕ} {buf : Bytes}
    (fault : Option ℕ)
    (hlen : buf.length ≤ sharedMemChifDescriptorSize) (hw : InWindow (recvFifo, 4)) :
    (deliver d channelSharemem recvFifo desc buf fault).2.Inside ↔
      d.Inside ∧ DescInRange desc buf.length := by
  rw [← inside_fillDesc fault hlen hw, deliver]
  generalize fillDesc d recvFifo desc buf fault = r
  split
  · exact Iff.rfl
  · dsimp only
    rw [inside_ringHost]

/-- The log only grows. -/
theorem inside_of_deliver {d : ChifDrvdata} {recvFifo desc : ℕ} {buf : Bytes} {fault : Option ℕ}
    (h : (deliver d channelSharemem recvFifo desc buf fault).2.Inside) : d.Inside := by
  have hfill : (fillDesc d recvFifo desc buf fault).2.Inside := by
    rw [deliver] at h
    generalize fillDesc d recvFifo desc buf fault = r at h
    split at h
    · exact h
    · dsimp only at h
      rw [inside_ringHost] at h
      exact h
  rw [Inside, touched_fillDesc, List.forall_mem_append, List.forall_mem_append,
    List.forall_mem_append] at hfill
  obtain ⟨⟨⟨hd, -⟩, -⟩, -⟩ := hfill
  exact hd

/-! ### The whole write -/

/-- The write gets as far as the descriptor: the host posts a buffer in time, the
packet is not too long, and the host has not left the entry marked consumed. -/
def ReachesDesc (d : ChifDrvdata) (recvFifo count : ℕ) (host : ℕ → Shmem → Shmem) : Prop :=
  (awaitOccupied host recvFifo (postQwords d recvFifo count)).1 ≠ 0 ∧
    count ≤ sharedMemChifDescriptorSize ∧
    ((awaitOccupied host recvFifo (postQwords d recvFifo count)).2.getFifo
      recvFifo).1.consumed = false

/-- The branches after the wait; `w` is what the wait returned and `r` the FIFO
word read after it. -/
private theorem inside_afterWait {d : ChifDrvdata} {recvFifo desc : ℕ} {buf : Bytes}
    (fault : Option ℕ) {w : ℕ × ChifDrvdata} {r : FifoEntry × ChifDrvdata}
    (hwait : w.2.Inside ↔ d.Inside ∧ InWindow (recvFifo, 4))
    (hread : r.2.Inside ↔ w.2.Inside ∧ InWindow (recvFifo, 4)) :
    (if w.1 = 0 then (-eio, w.2)
      else if buf.length > sharedMemChifDescriptorSize then (-eio, w.2)
      else if r.1.consumed = true then (-eio, r.2)
      else deliver r.2 channelSharemem recvFifo desc buf fault).2.Inside ↔
    w.2.Inside ∧ (w.1 ≠ 0 ∧ buf.length ≤ sharedMemChifDescriptorSize ∧ r.1.consumed = false →
      DescInRange desc buf.length) := by
  -- the read after the wait is of the word the wait has read
  have hboth : w.2.Inside ↔ r.2.Inside := by
    rw [hread]
    constructor
    · intro h
      exact ⟨h, (hwait.mp h).2⟩
    · intro h
      exact h.1
  by_cases htime : w.1 = 0
  · rw [if_pos htime]
    simp [htime]
  · rw [if_neg htime]
    by_cases hlen : buf.length ≤ sharedMemChifDescriptorSize
    · rw [if_neg (Nat.not_lt.mpr hlen)]
      cases hcons : r.1.consumed with
      | true =>
        rw [if_pos rfl, hboth]
        simp
      | false =>
        rw [if_neg (by simp), hboth]
        simp only [ne_eq, htime, not_false_eq_true, hlen, and_self, true_imp_iff]
        constructor
        · intro hin
          have hr := inside_of_deliver hin
          exact (inside_deliver fault hlen (hwait.mp (hboth.mpr hr)).2).mp hin
        · rintro ⟨hin, hdesc⟩
          exact (inside_deliver fault hlen (hwait.mp (hboth.mpr hin)).2).mpr ⟨hin, hdesc⟩
    · rw [if_pos (Nat.lt_of_not_le hlen)]
      simp [hlen]

private theorem inside_sendPacket {d : ChifDrvdata} {recvFifo recvDesc : ℕ} {buf : Bytes}
    (fault : Option ℕ) (host : ℕ → Shmem → Shmem) :
    (sendPacket d channelSharemem recvFifo recvDesc buf fault host).2.Inside ↔
      d.Inside ∧ InWindow (recvFifo, 4) ∧ (ReachesDesc d recvFifo buf.length host →
        DescInRange (descAddr recvDesc (d.getFifo recvFifo).1.descriptorNum) buf.length) := by
  have hwait := inside_awaitOccupied host recvFifo buf.length d
  have hread := inside_getFifo
    (awaitOccupied host recvFifo (postQwords d recvFifo buf.length)).2 recvFifo
  rw [sendPacket, ReachesDesc, ← and_assoc, ← hwait]
  exact inside_afterWait fault hwait hread

/-- The driver when `chif_write` has dealt with the control block of channel 24. -/
def rqReady (d : ChifDrvdata) : ChifDrvdata :=
  setRqActive (((d.getCcb channelSharemem ccbRqFifo).2.getCcb channelSharemem ccbRqDesc).2.getCcb
    channelSharemem ccbRqCtrl).2 channelSharemem (ccbField d.shmem channelSharemem ccbRqCtrl)

/-- The go bit of channel 24 decides. -/
theorem chifWrite_eq (d : ChifDrvdata) (buf : Bytes) (fault : Option ℕ)
    (host : ℕ → Shmem → Shmem) :
    chifWrite d channelSharemem buf fault host =
      if ccbField d.shmem channelSharemem ccbRqCtrl &&& ccbCtrlGoMask = 0 then
        (-eio, ChifDrvdata.setCcb (((d.getCcb channelSharemem ccbRqFifo).2.getCcb channelSharemem
          ccbRqDesc).2.getCcb channelSharemem ccbRqCtrl).2 channelSharemem ccbRqCtrl
          (ccbField d.shmem channelSharemem ccbRqCtrl &&& (2 ^ 64 - 1 - ccbCtrlActiveMask)))
      else
        sendPacket (rqReady d) channelSharemem (ccbField d.shmem channelSharemem ccbRqFifo)
          (ccbField d.shmem channelSharemem ccbRqDesc) buf fault host := by
  rw [chifWrite, if_neg (not_not.mpr rfl)]
  rfl

/-- The layouts for which a write of `count` bytes stays in the window. -/
def WriteInRange (d : ChifDrvdata) (count : ℕ) (host : ℕ → Shmem → Shmem) : Prop :=
  let recvFifo := ccbField d.shmem channelSharemem ccbRqFifo
  let recvDesc := ccbField d.shmem channelSharemem ccbRqDesc
  ccbField d.shmem channelSharemem ccbRqCtrl &&& ccbCtrlGoMask ≠ 0 →
    recvFifo % addressSpace + 4 ≤ sharedMemSize ∧
      (ReachesDesc (rqReady d) recvFifo count host →
        DescInRange (descAddr recvDesc (fifoEntry (rqReady d).shmem recvFifo).descriptorNum) count)

private theorem inside_chifWrite (d : ChifDrvdata) (buf : Bytes) (fault : Option ℕ)
    (host : ℕ → Shmem → Shmem) :
    (chifWrite d channelSharemem buf fault host).2.Inside ↔
      d.Inside ∧ WriteInRange d buf.length host := by
  have hblock : ∀ field, field + 8 ≤ ccbSize → InWindow (ccbSize * channelSharemem + field, 8) :=
    fun field h => inWindow_ccb (by decide) h
  have hread : (((d.getCcb channelSharemem ccbRqFifo).2.getCcb channelSharemem ccbRqDesc).2.getCcb
      channelSharemem ccbRqCtrl).2.Inside ↔ d.Inside := by
    rw [inside_getCcb, inside_getCcb, inside_getCcb, and_iff_left (hblock _ (by decide)),
      and_iff_left (hblock _ (by decide)), and_iff_left (hblock _ (by decide))]
  have hready : (rqReady d).Inside ↔ d.Inside := by
    rw [rqReady, setRqActive]
    split
    · rw [inside_setCcb, and_iff_left (hblock _ (by decide)), hread]
    · exact hread
  rw [chifWrite_eq]
  -- without the go bit only the control block is touched
  by_cases hgo : ccbField d.shmem channelSharemem ccbRqCtrl &&& ccbCtrlGoMask = 0
  · rw [if_pos hgo, inside_setCcb, and_iff_left (hblock _ (by decide)), hread, WriteInRange]
    exact (and_iff_left fun h => absurd hgo h).symm
  · rw [if_neg hgo, inside_sendPacket, hready, WriteInRange,
      inWindow_iff (by decide) (by decide), getFifo]
    exact and_congr_right fun _ => (imp_iff_right hgo).symm

/-! ### Interrupts and writes -/

/-- The driver with an empty log. -/
def ChifDrvdata.fresh (d : ChifDrvdata) : ChifDrvdata := { d with touched := [] }

private theorem inside_fresh (d : ChifDrvdata) :
    d.fresh.Inside := fun _ hr => absurd hr List.not_mem_nil

/-- **Where the driver reads and writes**, for every content of the shared
memory: an interrupt stays in the window exactly when each channel it serves
has its FIFO words and the descriptors it copies inside, a write exactly when
the receive FIFO word and the descriptor it fills are. -/
theorem staysInWindow_iff (d : ChifDrvdata) :
    (∀ doorbell, (chifIrqHandle d.fresh doorbell).Inside ↔
      ∀ c ∈ consumeCalls d.fresh doorbell, ConsumeInRange c.1 c.2) ∧
    ∀ (channel : ℕ) (buf : Bytes) (fault : Option ℕ) (host : ℕ → Shmem → Shmem),
      (chifWrite d.fresh channel buf fault host).2.Inside ↔
        (channel = channelSharemem → WriteInRange d.fresh buf.length host) := by
  constructor
  · intro doorbell
    rw [(handled_irq d.fresh doorbell).inside]
    exact and_iff_right (inside_fresh d)
  · intro channel buf fault host
    by_cases hc : channel = channelSharemem
    · rw [hc, inside_chifWrite, imp_iff_right rfl]
      exact and_iff_right (inside_fresh d)
    · rw [chifWrite, if_pos hc]
      exact iff_of_true (inside_fresh d) fun h => absurd h hc

instance (d : ChifDrvdata) : Decidable d.Inside := by
  unfold Inside
  infer_instance

/-- A host that sets the go bit of channel 24 and puts its send FIFO right after
the window. -/
def fifoPastEnd : ChifDrvdata where
  touched := []
  shmem := fun x =>
    if x = ccbSize * channelSharemem + ccbSqFifo + 2 then 0x10
    else if x = ccbSize * channelSharemem + ccbSqCtrl + 3 then 0x80
    else 0
  chif24Queue := .init
  waiting := fun _ => false
  woken := []
  outdoor := []

/-- On that host's doorbell the driver reads behind the window. -/
theorem not_staysInWindow_fifo : ¬(chifIrqHandle fifoPastEnd (2 ^ channelSharemem)).Inside := by
  decide +kernel

end Chif
