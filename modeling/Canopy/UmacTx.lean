/-
Flow control of the UMAC transmit ring.

`umac_start_xmit` fills the descriptor at `tx_cur`, hands it to the hardware and
stops the queue if the next one is still owned; `umac_poll` reclaims finished
descriptors and wakes the queue.  Hardware completions fall between any two
accesses to the ring, and so may the steps of the two functions.

* `Umac.step` — the driver and the hardware;
* `InFlight.owned_cur_iff` — the next descriptor is owned exactly when the ring
  is full;
* `touchesUnowned_of_wakesFree` — no descriptor the hardware owns is overwritten
  in a run that wakes the queue only on a free descriptor;
* `not_forall_touchesUnowned` — a run that wakes it on a full ring.
-/
import Canopy.BitMask
import Canopy.RingIndex
import Canopy.Run
import Mathlib.Logic.Function.Basic

namespace GxpUmac

open RingIndex

def maxTxDescEntries : ℕ := 256

/-- `UMAC_MAX_FRAME_SIZE` -/
def maxFrameSize : ℕ := 1514

def ethZlen : ℕ := 60

/-- `UMAC_RING_ENTRY_HW_OWN` -/
def hwOwn : BitVec 16 := 0x8000

structure TxDescEntry where
  status : BitVec 16
  count : ℕ
  cksumoffset : ℕ
  deriving DecidableEq

/-- Where a call of `umac_start_xmit` is. -/
inductive Xmit where
  | idle
  /-- before the check of the next descriptor -/
  | filled
  /-- before `netif_stop_queue` -/
  | stopping
  deriving DecidableEq

/-- Where `umac_poll` is. -/
inductive Poll where
  | idle
  /-- in the loop of `umac_tx_done` -/
  | reaping (txptr : ℕ)
  /-- before it looks at the queue -/
  | waking
  deriving DecidableEq

structure Umac where
  entrylist : ℕ → TxDescEntry
  framelist : ℕ → ℕ → UInt8
  txCur : ℕ
  txDone : ℕ
  /-- the transmit part of `UMAC_RING_PTR` -/
  txptr : ℕ
  stopped : Bool
  xmit : Xmit
  poll : Poll
  txPackets : ℕ
  txBytes : ℕ

inductive Event where
  | xmit (data : List UInt8)
  | checkNext
  | stopQueue
  /-- the hardware has sent a frame; it may leave other bits of the status set -/
  | complete (status : BitVec 16)
  | poll
  | reap
  | wake
  deriving DecidableEq

namespace Umac

/-- After `umac_init_ring_descriptors`. -/
def boot : Umac where
  entrylist := fun _ => ⟨0, 0, 0⟩
  framelist := fun _ _ => 0
  txCur := 0
  txDone := 0
  txptr := 0
  stopped := false
  xmit := .idle
  poll := .idle
  txPackets := 0
  txBytes := 0

/-- The hardware owns descriptor `i`. -/
def Owned (s : Umac) (i : ℕ) : Prop := (s.entrylist i).status &&& hwOwn ≠ 0

instance (s : Umac) (i : ℕ) : Decidable (s.Owned i) := inferInstanceAs (Decidable (_ ≠ _))

/-- `umac_start_xmit` up to the new `tx_cur`. -/
def fill (s : Umac) (data : List UInt8) : Umac :=
  let length := if data.length > 1514 then 1514 else data.length
  let count := if length < ethZlen then ethZlen else length
  { s with
    framelist := Function.update s.framelist s.txCur fun j =>
      if j < length then data.getD j 0
      else if j < maxFrameSize then 0
      else s.framelist s.txCur j
    entrylist := Function.update s.entrylist s.txCur ⟨hwOwn, count, 0⟩
    txCur := next maxTxDescEntries s.txCur
    xmit := .filled }

/-- The hardware has sent the oldest frame. -/
def send (s : Umac) (status : BitVec 16) : Umac :=
  { s with
    entrylist := Function.update s.entrylist s.txptr
      { s.entrylist s.txptr with status := status &&& ~~~hwOwn }
    txptr := next maxTxDescEntries s.txptr }

/-- One turn of the loop of `umac_tx_done`. -/
def reap (s : Umac) (txptr : ℕ) : Umac :=
  if s.Owned s.txDone ∨ s.txDone = txptr then { s with poll := .waking }
  else
    { s with
      txPackets := s.txPackets + 1
      txBytes := s.txBytes + (s.entrylist s.txDone).count
      txDone := next maxTxDescEntries s.txDone }

/-- One step; an event that cannot happen changes nothing.  The stack makes one
call of `umac_start_xmit` at a time, and only while the queue is running; a
receive interrupt can start `umac_poll` at any time. -/
def step (s : Umac) : Event → Umac
  | .xmit data => if s.xmit = .idle ∧ s.stopped = false then s.fill data else s
  | .checkNext =>
    if s.xmit = .filled then { s with xmit := if s.Owned s.txCur then .stopping else .idle } else s
  | .stopQueue =>
    if s.xmit = .stopping then { s with stopped := true, xmit := .idle } else s
  | .complete status => if s.Owned s.txptr then s.send status else s
  | .poll => if s.poll = .idle then { s with poll := .reaping s.txptr } else s
  | .reap =>
    match s.poll with
    | .reaping txptr => s.reap txptr
    | _ => s
  | .wake =>
    if s.poll = .waking then
      { s with stopped := if s.stopped then false else s.stopped, poll := .idle }
    else s

/-- A call of `umac_start_xmit` overwrites a descriptor that is free. -/
def TouchesUnowned (s : Umac) : Event → Prop
  | .xmit _ => s.xmit = .idle → s.stopped = false → ¬s.Owned s.txCur
  | _ => True

/-- Every call of the run overwrites a descriptor that is free. -/
def TouchesOnlyUnowned (events : List Event) : Prop :=
  ∀ p ∈ Run.visits step boot events, p.1.TouchesUnowned p.2

/-- The queue is woken only if the next descriptor is free. -/
def WakesFree (s : Umac) : Event → Prop
  | .wake => s.poll = .waking → s.stopped = true → ¬s.Owned s.txCur
  | _ => True

instance (s : Umac) (e : Event) : Decidable (s.WakesFree e) := by
  cases e <;> unfold WakesFree <;> infer_instance

/-! ### The frames in flight -/

/-- The hardware owns `n` descriptors, the ones before `tx_cur`. -/
structure InFlight (s : Umac) (n : ℕ) : Prop where
  txptr_lt : s.txptr < maxTxDescEntries
  le : n ≤ maxTxDescEntries
  cur : s.txCur = slot maxTxDescEntries s.txptr n
  owned : ∀ i < maxTxDescEntries, s.Owned i ↔ ∃ k < n, i = slot maxTxDescEntries s.txptr k

variable {s : Umac} {n : ℕ}

theorem maxTxDescEntries_pos : 0 < maxTxDescEntries := by
  rw [maxTxDescEntries]
  omega

theorem not_owned_of_cleared (status : BitVec 16) : ¬status &&& ~~~hwOwn &&& hwOwn ≠ 0 :=
  not_not_intro (BitMask.and_not_self_right status hwOwn)

theorem InFlight.cur_lt (h : InFlight s n) : s.txCur < maxTxDescEntries := by
  rw [h.cur]
  exact slot_lt maxTxDescEntries_pos _ _

/-- **The next descriptor is owned exactly when the ring is full.** -/
theorem InFlight.owned_cur_iff (h : InFlight s n) :
    s.Owned s.txCur ↔ n = maxTxDescEntries := by
  rw [h.owned _ h.cur_lt, h.cur]
  constructor
  · rintro ⟨k, hk, hslot⟩
    by_contra hne
    have hlt : n < maxTxDescEntries := Nat.lt_of_le_of_ne h.le hne
    have := slot_inj hlt (hk.trans hlt) hslot
    omega
  · rintro rfl
    refine ⟨0, maxTxDescEntries_pos, ?_⟩
    rw [slot_self, slot_zero h.txptr_lt, Nat.mod_eq_of_lt h.txptr_lt]

theorem not_owned_boot (i : ℕ) : ¬boot.Owned i := by
  intro howned
  exact howned BitVec.zero_and

private theorem inFlight_boot : InFlight boot 0 where
  txptr_lt := maxTxDescEntries_pos
  le := Nat.zero_le _
  cur := rfl
  owned := by
    intro i _
    constructor
    · intro howned
      exact absurd howned (not_owned_boot i)
    · rintro ⟨k, hk, -⟩
      exact absurd hk (Nat.not_lt_zero k)

/-- Filling a free descriptor. -/
theorem InFlight.fill (h : InFlight s n) (hfree : ¬s.Owned s.txCur) (data : List UInt8) :
    InFlight (s.fill data) (n + 1) := by
  have hlt : n < maxTxDescEntries := by
    refine Nat.lt_of_le_of_ne h.le fun hn => ?_
    exact hfree (h.owned_cur_iff.mpr hn)
  refine ⟨h.txptr_lt, hlt, ?_, ?_⟩
  · show next maxTxDescEntries s.txCur = _
    rw [h.cur]
    exact next_slot maxTxDescEntries_pos _ _
  · intro i hi
    by_cases hcur : i = s.txCur
    · subst hcur
      constructor
      · intro _
        exact ⟨n, Nat.lt_succ_self n, h.cur⟩
      · intro _
        rw [Owned, Umac.fill]
        simp [hwOwn]
    · have hsame : (s.fill data).Owned i ↔ s.Owned i := by
        rw [Owned, Owned, Umac.fill]
        simp only [Function.update_of_ne hcur]
      rw [hsame, h.owned i hi]
      constructor
      · rintro ⟨k, hk, hslot⟩
        exact ⟨k, Nat.lt_succ_of_lt hk, hslot⟩
      · rintro ⟨k, hk, hslot⟩
        refine ⟨k, Nat.lt_of_le_of_ne (Nat.le_of_lt_succ hk) ?_, hslot⟩
        -- the slot behind the last one in flight is `tx_cur` itself
        rintro rfl
        exact hcur (hslot.trans h.cur.symm)

/-- The oldest frame has been sent. -/
theorem InFlight.send (h : InFlight s n) (howned : s.Owned s.txptr) (status : BitVec 16) :
    InFlight (s.send status) (n - 1) := by
  obtain ⟨k, hk, -⟩ := (h.owned _ h.txptr_lt).mp howned
  obtain ⟨m, rfl⟩ : ∃ m, n = m + 1 := ⟨n - 1, by omega⟩
  rw [Nat.add_sub_cancel]
  have hslot (j : ℕ) : slot maxTxDescEntries (s.send status).txptr j =
      slot maxTxDescEntries s.txptr (j + 1) :=
    slot_next h.txptr_lt j
  refine ⟨next_lt h.txptr_lt, Nat.le_of_succ_le h.le, ?_, ?_⟩
  · rw [hslot]
    exact h.cur
  · intro i hi
    simp only [hslot]
    by_cases hptr : i = s.txptr
    · subst hptr
      constructor
      · intro hstill
        rw [Owned, Umac.send] at hstill
        simp only [Function.update_self] at hstill
        exact absurd hstill (not_owned_of_cleared status)
      · rintro ⟨j, hj, hji⟩
        -- only the oldest frame lies in this slot
        have hzero : slot maxTxDescEntries s.txptr 0 = slot maxTxDescEntries s.txptr (j + 1) := by
          rw [slot_zero h.txptr_lt]
          exact hji
        have := slot_inj maxTxDescEntries_pos ((Nat.succ_lt_succ hj).trans_le h.le) hzero
        omega
    · have hsame : (s.send status).Owned i ↔ s.Owned i := by
        rw [Owned, Owned, Umac.send]
        simp only [Function.update_of_ne hptr]
      rw [hsame, h.owned i hi]
      constructor
      · rintro ⟨j, hj, rfl⟩
        obtain _ | j := j
        · exact absurd (slot_zero h.txptr_lt) hptr
        · exact ⟨j, Nat.lt_of_succ_lt_succ hj, rfl⟩
      · rintro ⟨j, hj, rfl⟩
        exact ⟨j + 1, Nat.succ_lt_succ hj, rfl⟩

/-- Only the ring matters. -/
theorem InFlight.congr {s' : Umac} (h : InFlight s n) (hentries : s'.entrylist = s.entrylist)
    (hcur : s'.txCur = s.txCur) (hptr : s'.txptr = s.txptr) : InFlight s' n where
  txptr_lt := hptr ▸ h.txptr_lt
  le := h.le
  cur := by
    rw [hcur, hptr]
    exact h.cur
  owned := by
    intro i hi
    rw [Owned, hentries, hptr]
    exact h.owned i hi

/-- Waking the queue on a free descriptor is waking it on a ring with room. -/
theorem InFlight.wakesFree_iff (h : InFlight s n) :
    s.WakesFree .wake ↔ (s.poll = .waking → s.stopped = true → n < maxTxDescEntries) := by
  have hfree : ¬s.Owned s.txCur ↔ n < maxTxDescEntries := by
    rw [h.owned_cur_iff]
    exact (Nat.lt_iff_le_and_ne.trans (and_iff_right h.le)).symm
  rw [WakesFree, hfree]

/-! ### Flow control -/

/-- While the queue is running, the next descriptor is free. -/
structure Inv (s : Umac) : Prop where
  ring : ∃ n, InFlight s n
  running : s.xmit = .idle → s.stopped = false → ¬s.Owned s.txCur

theorem inv_boot : Inv boot where
  ring := ⟨0, inFlight_boot⟩
  running := fun _ _ => not_owned_boot 0

/-- The hardware takes no descriptor back. -/
theorem owned_of_send {status : BitVec 16} {i : ℕ} (h : (s.send status).Owned i) : s.Owned i := by
  by_cases hptr : i = s.txptr
  · subst hptr
    rw [Owned, Umac.send] at h
    simp only [Function.update_self] at h
    exact absurd h (not_owned_of_cleared status)
  · rw [Owned, Umac.send] at h
    simp only [Function.update_of_ne hptr] at h
    exact h

/-- **A step that wakes the queue only on a free descriptor keeps the
invariant.** -/
theorem Inv.step (s : Umac) (e : Event) (h : Inv s) (hwake : s.WakesFree e) : Inv (s.step e) := by
  obtain ⟨n, hring⟩ := h.ring
  cases e with
  | xmit data =>
    rw [Umac.step]
    split
    · next hidle =>
      have hfree := h.running hidle.1 hidle.2
      exact ⟨⟨n + 1, hring.fill hfree data⟩, fun hfilled => Xmit.noConfusion hfilled⟩
    · exact h
  | checkNext =>
    rw [Umac.step]
    split
    · refine ⟨⟨n, hring.congr rfl rfl rfl⟩, ?_⟩
      intro hidle _ howned
      -- with the next descriptor owned the call goes on to stop the queue
      have hcur : s.Owned s.txCur := howned
      simp only [if_pos hcur] at hidle
      exact Xmit.noConfusion hidle
    · exact h
  | stopQueue =>
    rw [Umac.step]
    split
    · refine ⟨⟨n, hring.congr rfl rfl rfl⟩, ?_⟩
      intro _ hrunning
      exact Bool.noConfusion hrunning
    · exact h
  | complete status =>
    rw [Umac.step]
    split
    · next howned =>
      refine ⟨⟨n - 1, hring.send howned status⟩, ?_⟩
      intro hidle hrunning hstill
      exact h.running hidle hrunning (owned_of_send hstill)
    · exact h
  | poll =>
    rw [Umac.step]
    split
    · exact ⟨⟨n, hring.congr rfl rfl rfl⟩, h.running⟩
    · exact h
  | reap =>
    rw [Umac.step]
    split
    · rw [Umac.reap]
      split
      · exact ⟨⟨n, hring.congr rfl rfl rfl⟩, h.running⟩
      · exact ⟨⟨n, hring.congr rfl rfl rfl⟩, h.running⟩
    · exact h
  | wake =>
    rw [Umac.step]
    split
    · next hpoll =>
      refine ⟨⟨n, hring.congr rfl rfl rfl⟩, ?_⟩
      intro hidle _
      -- only here can the queue start to run
      cases hstopped : s.stopped with
      | true => exact hwake hpoll hstopped
      | false => exact h.running hidle hstopped
    · exact h

/-- **No descriptor the hardware owns is overwritten in a run that wakes the
queue only on a free descriptor.** -/
theorem touchesUnowned_of_wakesFree (events : List Event)
    (h : ∀ p ∈ Run.visits step boot events, p.1.WakesFree p.2) : TouchesOnlyUnowned events := by
  intro p hp
  have hinv := Run.invariant_of_mem_visits Inv.step inv_boot h p hp
  cases hevent : p.2 with
  | xmit data => exact hinv.running
  | _ => trivial

/-- Without a wake the rule is kept. -/
theorem wakesFree_of_no_wake {events : List Event} (h : Event.wake ∉ events) :
    ∀ p ∈ Run.visits step s events, p.1.WakesFree p.2 := by
  intro p hp
  have hmem := Run.event_mem_of_mem_visits hp
  cases hevent : p.2 with
  | wake =>
    rw [hevent] at hmem
    exact absurd hmem h
  | _ => trivial

/-- The next call after a wake that breaks the rule overwrites an owned descriptor. -/
theorem not_touchesUnowned_of_wake (hidle : s.xmit = .idle) (h : ¬s.WakesFree .wake)
    (data : List UInt8) : ¬(s.step .wake).TouchesUnowned (.xmit data) := by
  simp only [WakesFree, not_forall, not_not] at h
  obtain ⟨hpoll, hstopped, howned⟩ := h
  rw [Umac.step, if_pos hpoll, hstopped]
  intro hfree
  exact hfree hidle rfl howned

/-! ### A run that fills the ring -/

private theorem step_xmit (hidle : s.xmit = .idle) (hrunning : s.stopped = false)
    (data : List UInt8) :
    s.step (.xmit data) = s.fill data := by
  rw [Umac.step, if_pos ⟨hidle, hrunning⟩]

private theorem step_checkNext (data : List UInt8) :
    (s.fill data).step .checkNext =
      { s.fill data with
        xmit := if (s.fill data).Owned (s.fill data).txCur then .stopping else .idle } := by
  rw [Umac.step]
  exact if_pos rfl

/-- The queue is running, nothing is in progress and nothing was sent or reclaimed. -/
structure Running (s : Umac) (n : ℕ) : Prop extends InFlight s n where
  xmit : s.xmit = .idle
  running : s.stopped = false
  poll : s.poll = .idle
  txptr : s.txptr = 0
  txDone : s.txDone = 0

/-- A frame for which another descriptor follows. -/
theorem Running.transmit (h : Running s n) (hn : n + 1 < maxTxDescEntries) :
    Running (Run.run step s [.xmit [], .checkNext]) (n + 1) := by
  have hfree : ¬s.Owned s.txCur := by
    rw [h.owned_cur_iff]
    omega
  have hfill := h.toInFlight.fill hfree []
  have hnext : ¬(s.fill []).Owned (s.fill []).txCur := by
    rw [hfill.owned_cur_iff]
    omega
  have hrun : Run.run step s [.xmit [], .checkNext] = { s.fill [] with xmit := .idle } := by
    rw [Run.run_cons, Run.run_cons, Run.run_nil, step_xmit h.xmit h.running, step_checkNext,
      if_neg hnext]
  rw [hrun]
  exact ⟨hfill.congr rfl rfl rfl, rfl, h.running, h.poll, h.txptr, h.txDone⟩

/-- Frames that the hardware does not get to send. -/
def burst (n : ℕ) : List Event := (List.replicate n [Event.xmit [], .checkNext]).flatten

private theorem wake_notMem_burst (n : ℕ) : Event.wake ∉ burst n := by
  intro hmem
  obtain ⟨pair, hpair, hwake⟩ := List.mem_flatten.mp hmem
  rw [List.eq_of_mem_replicate hpair] at hwake
  revert hwake
  decide

private theorem running_burst : ∀ n < maxTxDescEntries, Running (Run.run step boot (burst n)) n
  | 0, _ => ⟨inFlight_boot, rfl, rfl, rfl, rfl, rfl⟩
  | n + 1, hn => by
    have hburst : burst (n + 1) = burst n ++ [.xmit [], .checkNext] := by
      rw [burst, burst, List.replicate_succ', List.flatten_append, List.flatten_singleton]
    rw [hburst, Run.run_append]
    exact (running_burst n (Nat.lt_of_succ_lt hn)).transmit hn

/-- The frame that fills the ring stops the queue. -/
def fillLast : List Event := [.xmit [], .checkNext, .stopQueue]

theorem Running.fillLast (h : Running s n) (hn : n + 1 = maxTxDescEntries) :
    InFlight (s.fill []) (n + 1) ∧ Run.run step s fillLast =
      { s.fill [] with stopped := true, xmit := .idle } := by
  have hfree : ¬s.Owned s.txCur := by
    rw [h.owned_cur_iff]
    omega
  have hfill := h.toInFlight.fill hfree []
  have hnext : (s.fill []).Owned (s.fill []).txCur := hfill.owned_cur_iff.mpr hn
  refine ⟨hfill, ?_⟩
  rw [Umac.fillLast, Run.run_cons, Run.run_cons, step_xmit h.xmit h.running, step_checkNext,
    if_pos hnext, Run.run_cons, Run.run_nil]
  rfl

/-- One frame is sent and reclaimed. -/
def sendOne : List Event := [.complete 0, .poll, .reap, .reap]

private theorem run_sendOne (howned : s.Owned s.txptr) (hpoll : s.poll = .idle)
    (hptr : s.txptr < maxTxDescEntries) (hdone : s.txDone = s.txptr) :
    (Run.run step s sendOne).stopped = s.stopped ∧ (Run.run step s sendOne).poll = .waking ∧
      (Run.run step s sendOne).entrylist = (s.send 0).entrylist ∧
      (Run.run step s sendOne).txCur = s.txCur ∧
      (Run.run step s sendOne).txptr = (s.send 0).txptr := by
  have hcleared : ¬(s.send 0).Owned (s.send 0).txDone := by
    show ¬(s.send 0).Owned s.txDone
    rw [hdone, Owned, Umac.send]
    simp only [Function.update_self]
    exact not_owned_of_cleared 0
  have hne : s.txDone ≠ (s.send 0).txptr := by
    show s.txDone ≠ next maxTxDescEntries s.txptr
    rw [hdone, next_eq hptr, maxTxDescEntries]
    omega
  have hcomplete : s.step (.complete 0) = s.send 0 := if_pos howned
  have hreaping : (s.send 0).step .poll =
      { s.send 0 with poll := .reaping (s.send 0).txptr } := if_pos hpoll
  rw [sendOne, Run.run_cons, hcomplete, Run.run_cons, hreaping, Run.run_cons, Run.run_cons,
    Run.run_nil]
  -- the first turn reclaims the frame, the second comes to the ring pointer
  have hfirst : ({ s.send 0 with poll := .reaping (s.send 0).txptr } : Umac).step .reap =
      { s.send 0 with
        poll := .reaping (s.send 0).txptr
        txPackets := s.txPackets + 1
        txBytes := s.txBytes + ((s.send 0).entrylist s.txDone).count
        txDone := next maxTxDescEntries s.txDone } := by
    show Umac.reap _ _ = _
    exact if_neg (not_or.mpr ⟨hcleared, hne⟩)
  have hlast : next maxTxDescEntries s.txDone = (s.send 0).txptr := by
    rw [hdone]
    rfl
  have hsecond : ∀ t : Umac, t.poll = .reaping t.txptr → t.txDone = t.txptr →
      t.step .reap = { t with poll := .waking } := by
    intro t htPoll htDone
    rw [Umac.step, htPoll]
    exact if_pos (Or.inr htDone)
  rw [hfirst, hsecond _ rfl hlast]
  exact ⟨rfl, rfl, rfl, rfl, rfl⟩

/-- A full ring, of which one frame is sent and reclaimed. -/
def sentOne : List Event := burst 255 ++ (fillLast ++ sendOne)

/-- The queue is then stopped, about to be woken, and has a free descriptor. -/
theorem Running.sentOne (h : Running s n) (hn : n + 1 = maxTxDescEntries) :
    (Run.run step s (Umac.fillLast ++ sendOne)).stopped = true ∧
      (Run.run step s (Umac.fillLast ++ sendOne)).poll = .waking ∧
      (Run.run step s (Umac.fillLast ++ sendOne)).WakesFree .wake := by
  obtain ⟨hfill, hstop⟩ := h.fillLast hn
  rw [Run.run_append, hstop]
  have howned : (s.fill []).Owned (s.fill []).txptr := by
    rw [hfill.owned _ hfill.txptr_lt, hn]
    exact exists_slot hfill.txptr_lt hfill.txptr_lt
  obtain ⟨hstopped, hpoll, hentries, hcur, hptr⟩ :=
    run_sendOne (s := { s.fill [] with stopped := true, xmit := .idle }) howned h.poll
      hfill.txptr_lt (h.txDone.trans h.txptr.symm)
  have hsent := hfill.send howned 0
  refine ⟨hstopped, hpoll, ((hsent.congr hentries hcur hptr).wakesFree_iff).mpr fun _ _ => ?_⟩
  omega

/-- The frame after the wake has a descriptor. -/
theorem touchesUnowned_sentOne :
    (Run.run step boot sentOne).stopped = true ∧ (Run.run step boot sentOne).poll = .waking ∧
      TouchesOnlyUnowned (sentOne ++ [.wake, .xmit [7], .checkNext]) := by
  have hlt : 255 < maxTxDescEntries := Nat.lt_succ_self 255
  have hsent := (running_burst 255 hlt).sentOne rfl
  rw [← Run.run_append, ← sentOne] at hsent
  refine ⟨hsent.1, hsent.2.1, touchesUnowned_of_wakesFree _ ?_⟩
  have hnone : Event.wake ∉ sentOne := by
    rw [sentOne, List.mem_append, not_or]
    exact ⟨wake_notMem_burst 255, by decide⟩
  rw [Run.visits_append, List.forall_mem_append]
  refine ⟨wakesFree_of_no_wake hnone, ?_⟩
  generalize Run.run step boot sentOne = s at hsent ⊢
  rw [Run.visits, List.forall_mem_cons]
  exact ⟨hsent.2.2, wakesFree_of_no_wake (by decide)⟩

/-- A full ring, then a receive interrupt. -/
def wokenFull : List Event := burst 255 ++ (fillLast ++ [.poll, .reap])

/-- `umac_poll` finds nothing to reclaim then. -/
theorem Running.wokenFull (h : Running s n) (hn : n + 1 = maxTxDescEntries) :
    (Run.run step s (Umac.fillLast ++ [.poll, .reap])).xmit = .idle ∧
      ¬(Run.run step s (Umac.fillLast ++ [.poll, .reap])).WakesFree .wake := by
  obtain ⟨hfill, hstop⟩ := h.fillLast hn
  -- the ring is full, so the oldest descriptor is owned too and nothing is reaped
  have hdone : (s.fill []).Owned (s.fill []).txDone := by
    have hlt : (s.fill []).txDone < maxTxDescEntries := by
      rw [show (s.fill []).txDone = 0 from h.txDone]
      exact maxTxDescEntries_pos
    rw [hfill.owned _ hlt, hn]
    exact exists_slot hfill.txptr_lt hlt
  have hrun : Run.run step s (Umac.fillLast ++ [.poll, .reap]) =
      { s.fill [] with stopped := true, xmit := .idle, poll := .waking } := by
    rw [Run.run_append, hstop, Run.run_cons, Run.run_cons, Run.run_nil, Umac.step, Umac.step]
    simp only [show (s.fill []).poll = .idle from h.poll, if_true, Umac.reap]
    exact if_pos (Or.inl hdone)
  rw [hrun]
  refine ⟨rfl, fun hwake => ?_⟩
  exact hwake rfl rfl (hfill.owned_cur_iff.mpr hn)

theorem not_forall_touchesUnowned : ¬∀ events : List Event, TouchesOnlyUnowned events := by
  intro hall
  have hlt : 255 < maxTxDescEntries := Nat.lt_succ_self 255
  obtain ⟨hidle, hwake⟩ := (running_burst 255 hlt).wokenFull rfl
  rw [← Run.run_append, ← wokenFull] at hidle hwake
  have hmem : ((Run.run step boot wokenFull).step .wake, Event.xmit []) ∈
      Run.visits step boot (wokenFull ++ [.wake, .xmit []]) := by
    rw [Run.visits_append, List.mem_append]
    right
    generalize Run.run step boot wokenFull = s
    exact List.mem_cons_of_mem _ List.mem_cons_self
  have htouch := hall (wokenFull ++ [.wake, .xmit []]) _ hmem
  generalize Run.run step boot wokenFull = s at hidle hwake htouch
  exact not_touchesUnowned_of_wake hidle hwake [] htouch

end Umac

end GxpUmac
