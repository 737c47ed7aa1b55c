/-
The transmit ring of the U-Boot UMAC driver.

`gxp_umac_send` hands the descriptor at `tx_index` to the hardware, prompts it
and polls, and moves `tx_index` on only if the descriptor comes back in time.
The hardware moves its own pointer on whenever it sends a frame, also one whose
`gxp_umac_send` has given up.  What the driver does between one access to the
ring or the registers and the next is part of the step of the first.

* `Umac.step` — the driver and the hardware;
* `inStep_iff` — the two cursors stay in step exactly in the runs where the
  hardware sends no frame after its `gxp_umac_send` has returned;
* `dead_of_late` — once it has, no later `gxp_umac_send` returns 0;
* `not_forall_inStep` — a run where it does.
-/
import Canopy.BitMask
import Canopy.Run
import Mathlib.Data.Int.Notation
import Mathlib.Logic.Function.Basic
import Mathlib.Tactic.Common

namespace GxpUbootUmac

open Run

/-- `UMAC_MAX_RING_ENTRIES` -/
def maxRingEntries : ℕ := 8

/-- `UMAC_RING_ENTRY_HW_OWN` -/
def hwOwn : BitVec 16 := 0x8000

/-- `UMAC_INT_TX` -/
def intTx : BitVec 32 := 1

/-- `UMAC_MIN_FRAME_SIZE` -/
def minFrameSize : ℤ := 60

/-- `GXP_UMAC_TX_TIMEOUT_MS` -/
def txTimeoutMs : ℤ := 1000

def ebusy : ℤ := 16

def etimedout : ℤ := 110

/-- `struct gxp_umac_tx_desc` -/
structure TxDesc where
  dmaAddress : BitVec 32
  status : BitVec 16
  count : BitVec 16
  cksumOffset : BitVec 32
  reserved : BitVec 32
  deriving DecidableEq

/-- Where a call of `gxp_umac_send` is. -/
inductive Send where
  | idle
  /-- before the descriptor is set up -/
  | filling (packet : BitVec 32) (length : ℤ)
  /-- before the write of `ring_prompt` -/
  | prompting
  /-- in the wait for the interrupt -/
  | pollInterrupt (timeout : ℤ)
  /-- before the interrupt is cleared -/
  | clearInterrupt
  /-- in the wait for the descriptor -/
  | pollStatus (timeout : ℤ)
  deriving DecidableEq

/-- The call has handed its descriptor over. -/
def Send.Handed : Send → Prop
  | .idle | .filling .. => False
  | _ => True

structure Umac where
  txdes : ℕ → TxDesc
  txIndex : ℕ
  /-- the `interrupt` register -/
  interrupt : BitVec 32
  /-- `ring_prompt` was written -/
  prompted : Bool
  /-- the hardware's pointer into the transmit ring -/
  ringPtr : ℕ
  send : Send
  returns : List ℤ

inductive Event where
  /-- a call of `gxp_umac_send` -/
  | send (packet : BitVec 32) (length : ℤ)
  /-- the next step of `gxp_umac_send` -/
  | proceed
  /-- the hardware sends a frame; it may leave other bits of the status set -/
  | transmit (status : BitVec 16)
  /-- the interrupt register changes -/
  | interrupt (val : BitVec 32)
  deriving DecidableEq

namespace Umac

/-- The hardware owns descriptor `i`. -/
def Owned (s : Umac) (i : ℕ) : Prop := (s.txdes i).status &&& hwOwn ≠ 0

instance (s : Umac) (i : ℕ) : Decidable (s.Owned i) := inferInstanceAs (Decidable (_ ≠ _))

/-- `gxp_umac_init_rings`, the transmit ring. -/
def initRings (s : Umac) : Umac :=
  { s with
    txdes := fun i => if i < maxRingEntries then ⟨0, 0, 0, 0, 0⟩ else s.txdes i
    txIndex := 0 }

/-- `gxp_umac_init_hw` resets the ring pointers. -/
def initHw (s : Umac) : Umac := { s with ringPtr := 0 }

/-- `gxp_umac_set_channel_enable` prompts the hardware when it enables it. -/
def setChannelEnable (s : Umac) (enable : Bool) : Umac :=
  if enable then { s with prompted := true } else s

/-- A `gxp_umac_start` that returns 0. -/
def start (s : Umac) : Umac :=
  { (s.initRings.initHw.setChannelEnable false).setChannelEnable true with send := .idle }

/-- `gxp_umac_send` returns. -/
def leave (s : Umac) (ret : ℤ) : Umac := { s with send := .idle, returns := ret :: s.returns }

/-- `gxp_umac_send` sets the descriptor up and flushes it. -/
def fill (s : Umac) (packet : BitVec 32) (length : ℤ) : Umac :=
  let length := if length < minFrameSize then minFrameSize else length
  { s with
    txdes := Function.update s.txdes s.txIndex
      { s.txdes s.txIndex with
        dmaAddress := packet
        count := BitVec.ofInt 16 length
        cksumOffset := 0
        status := hwOwn }
    send := .prompting }

/-- `gxp_umac_send` after its last loop. -/
def finish (s : Umac) (timeout : ℤ) : Umac :=
  if timeout ≤ 0 then s.leave (-etimedout)
  else { s with txIndex := (s.txIndex + 1) % maxRingEntries }.leave 0

/-- The next step of `gxp_umac_send`. -/
def proceed (s : Umac) : Umac :=
  match s.send with
  | .idle => s
  | .filling packet length => s.fill packet length
  | .prompting => { s with prompted := true, send := .pollInterrupt (txTimeoutMs * 1000) }
  | .pollInterrupt timeout =>
    if s.interrupt &&& intTx ≠ 0 then { s with send := .clearInterrupt }
    else if timeout - 1 > 0 then { s with send := .pollInterrupt (timeout - 1) }
    else { s with send := .clearInterrupt }
  | .clearInterrupt =>
    { s with
      interrupt := s.interrupt &&& ~~~intTx
      send := .pollStatus (txTimeoutMs * 1000) }
  | .pollStatus timeout =>
    if ¬s.Owned s.txIndex then s.finish timeout
    else if timeout - 1 > 0 then { s with send := .pollStatus (timeout - 1) }
    else s.finish (timeout - 1)

/-- The hardware has sent the frame at its pointer. -/
def transmit (s : Umac) (status : BitVec 16) : Umac :=
  { s with
    txdes := Function.update s.txdes s.ringPtr
      { s.txdes s.ringPtr with status := status &&& ~~~hwOwn }
    ringPtr := (s.ringPtr + 1) % maxRingEntries }

/-- One step; an event that cannot happen changes nothing.  U-Boot makes one
call of the driver at a time. -/
def step (s : Umac) : Event → Umac
  | .send packet length =>
    if s.send = .idle then
      if s.Owned s.txIndex then s.leave (-ebusy) else { s with send := .filling packet length }
    else s
  | .proceed => s.proceed
  | .transmit status => if s.prompted ∧ s.Owned s.ringPtr then s.transmit status else s
  | .interrupt val => { s with interrupt := val }

/-- Whenever no send is in progress and the hardware owns no descriptor, the
driver and the hardware look at the same one. -/
def InStep (s : Umac) : Prop :=
  s.send = .idle → (∀ i < maxRingEntries, ¬s.Owned i) → s.txIndex = s.ringPtr

/-- The hardware sends a frame after its `gxp_umac_send` has returned. -/
def Late (s : Umac) : Event → Prop
  | .transmit _ => s.send = .idle ∧ s.prompted ∧ s.Owned s.ringPtr
  | _ => False

instance (s : Umac) (e : Event) : Decidable (s.Late e) := by
  cases e <;> unfold Late <;> infer_instance

/-! ### Where the two cursors can be -/

/-- Nothing is handed over. -/
structure Level (s : Umac) : Prop where
  ptr : s.ringPtr = s.txIndex
  free : ∀ i < maxRingEntries, ¬s.Owned i

/-- The descriptor at `tx_index` is handed over, and the hardware is at it. -/
structure Waiting (s : Umac) : Prop where
  ptr : s.ringPtr = s.txIndex
  owned : s.Owned s.txIndex
  only : ∀ i < maxRingEntries, s.Owned i → i = s.txIndex

/-- The descriptor at `tx_index` was handed over, and the hardware has sent it. -/
structure Sent (s : Umac) : Prop where
  ptr : s.ringPtr = (s.txIndex + 1) % maxRingEntries
  free : ∀ i < maxRingEntries, ¬s.Owned i

/-- What holds at each place of `gxp_umac_send`. -/
def At (s : Umac) : Send → Prop
  | .idle => s.Level ∨ s.Waiting
  | .filling .. => s.Level
  | .pollStatus timeout => 0 < timeout ∧ (s.Waiting ∨ s.Sent)
  | _ => s.Waiting ∨ s.Sent

structure Inv (s : Umac) : Prop where
  lt : s.txIndex < maxRingEntries
  cursors : s.At s.send

variable {s : Umac}

theorem not_owned_of_cleared (status : BitVec 16) : ¬status &&& ~~~hwOwn &&& hwOwn ≠ 0 :=
  not_not_intro (BitMask.and_not_self_right status hwOwn)

theorem next_lt (i : ℕ) : (i + 1) % maxRingEntries < maxRingEntries := by
  rw [maxRingEntries]
  omega

private theorem next_ne {i : ℕ} (h : i < maxRingEntries) : (i + 1) % maxRingEntries ≠ i := by
  have hi : i < 8 := h
  rw [maxRingEntries]
  omega

theorem owned_fill (s : Umac) (packet : BitVec 32) (length : ℤ) (i : ℕ) :
    (s.fill packet length).Owned i ↔ i = s.txIndex ∨ s.Owned i := by
  by_cases hi : i = s.txIndex
  · subst hi
    simp [Owned, fill, hwOwn]
  · simp [Owned, fill, hi]

private theorem owned_transmit (s : Umac) (status : BitVec 16) (i : ℕ) :
    (s.transmit status).Owned i ↔ i ≠ s.ringPtr ∧ s.Owned i := by
  by_cases hi : i = s.ringPtr
  · subst hi
    rw [Owned, transmit]
    simp only [Function.update_self, not_owned_of_cleared, ne_eq, not_true_eq_false, false_and]
  · simp [Owned, transmit, hi]

/-- Setting a descriptor up hands it over. -/
theorem Level.fill (h : s.Level) (packet : BitVec 32) (length : ℤ) :
    (s.fill packet length).Waiting where
  ptr := h.ptr
  owned := (owned_fill s packet length _).mpr (Or.inl rfl)
  only := by
    intro i hi howned
    rcases (owned_fill s packet length i).mp howned with heq | hold
    · exact heq
    · exact absurd hold (h.free i hi)

/-- The hardware sends the descriptor that was handed over. -/
theorem Waiting.transmit (h : s.Waiting) (status : BitVec 16) : (s.transmit status).Sent where
  ptr := by
    show (s.ringPtr + 1) % maxRingEntries = (s.txIndex + 1) % maxRingEntries
    rw [h.ptr]
  free := by
    intro i hi howned
    obtain ⟨hne, hold⟩ := (owned_transmit s status i).mp howned
    exact hne ((h.only i hi hold).trans h.ptr.symm)

/-- The hardware owns nothing to send. -/
theorem not_owned_ringPtr (h : s.Level ∨ s.Sent) (hlt : s.txIndex < maxRingEntries) :
    ¬s.Owned s.ringPtr := by
  rcases h with h | h
  · rw [h.ptr]
    exact h.free _ hlt
  · rw [h.ptr]
    exact h.free _ (next_lt _)

/-- Once sent, the descriptor is taken back and the cursors are level again. -/
theorem Sent.level (h : s.Sent) (ret : ℤ) :
    ({ s with txIndex := (s.txIndex + 1) % maxRingEntries }.leave ret).Level :=
  ⟨h.ptr, h.free⟩

theorem Waiting.leave (h : s.Waiting) (ret : ℤ) : (s.leave ret).Waiting :=
  ⟨h.ptr, h.owned, h.only⟩

/-! ### The steps -/

private theorem level_start (s : Umac) : (start s).Level where
  ptr := rfl
  free := by
    intro i hi howned
    have hzero : (start s).txdes i = ⟨0, 0, 0, 0, 0⟩ := if_pos hi
    rw [Owned, hzero] at howned
    exact howned BitVec.zero_and

private theorem inv_start (s : Umac) : Inv (start s) := ⟨Nat.zero_lt_succ _, Or.inl (level_start s)⟩

/-- A call takes the descriptor at `tx_index` only if nothing is handed over. -/
theorem inv_send (h : Inv s) (packet : BitVec 32) (length : ℤ) :
    Inv (s.step (.send packet length)) := by
  rw [step]
  by_cases hidle : s.send = .idle
  · rw [if_pos hidle]
    have hcursors := h.cursors
    rw [hidle] at hcursors
    split
    · next howned =>
      refine ⟨h.lt, Or.inr ?_⟩
      rcases hcursors with hlevel | hwaiting
      · exact absurd howned (hlevel.free _ h.lt)
      · exact hwaiting.leave _
    · next hfree =>
      refine ⟨h.lt, ?_⟩
      rcases hcursors with hlevel | hwaiting
      · exact ⟨hlevel.ptr, hlevel.free⟩
      · exact absurd hwaiting.owned hfree
  · rw [if_neg hidle]
    exact h

/-- Neither the place of `gxp_umac_send` nor the registers matter for the ring. -/
theorem moved (h : s.Waiting ∨ s.Sent) (send : Send) (interrupt : BitVec 32) (prompted : Bool) :
    Waiting { s with send, interrupt, prompted } ∨ Sent { s with send, interrupt, prompted } := by
  rcases h with hwaiting | hsent
  · exact Or.inl ⟨hwaiting.ptr, hwaiting.owned, hwaiting.only⟩
  · exact Or.inr ⟨hsent.ptr, hsent.free⟩

/-- A step of `gxp_umac_send`: `tx_index` moves on only past a descriptor that was sent. -/
theorem inv_proceed (h : Inv s) : Inv s.proceed := by
  obtain ⟨hlt, hcursors⟩ := h
  rw [proceed]
  cases hsend : s.send with
  | idle => exact ⟨hlt, hcursors⟩
  | filling packet length =>
    rw [hsend] at hcursors
    exact ⟨hlt, Or.inl (Level.fill hcursors packet length)⟩
  | prompting =>
    rw [hsend] at hcursors
    exact ⟨hlt, moved hcursors _ _ _⟩
  | pollInterrupt timeout =>
    rw [hsend] at hcursors
    dsimp only
    split
    · exact ⟨hlt, moved hcursors _ _ _⟩
    · split
      · exact ⟨hlt, moved hcursors _ _ _⟩
      · exact ⟨hlt, moved hcursors _ _ _⟩
  | clearInterrupt =>
    rw [hsend] at hcursors
    exact ⟨hlt, by decide, moved hcursors _ _ _⟩
  | pollStatus timeout =>
    rw [hsend] at hcursors
    obtain ⟨hpos, hring⟩ := hcursors
    dsimp only
    split
    · next hfree =>
      rw [finish, if_neg (Int.not_le.mpr hpos)]
      rcases hring with hwaiting | hsent
      · exact absurd hwaiting.owned hfree
      · exact ⟨next_lt _, Or.inl (hsent.level 0)⟩
    · next howned =>
      split
      · next hmore => exact ⟨hlt, hmore, moved hring _ _ _⟩
      · next hlast =>
        -- the loop has run out with the descriptor still handed over
        rw [finish, if_pos (Int.not_lt.mp hlast)]
        rcases hring with hwaiting | hsent
        · exact ⟨hlt, Or.inr (hwaiting.leave _)⟩
        · exact absurd (hsent.free _ hlt) howned

/-- The hardware sends what was handed over, unless its `gxp_umac_send` has returned. -/
theorem inv_transmit (h : Inv s) (status : BitVec 16) (hlate : ¬s.Late (.transmit status)) :
    Inv (s.step (.transmit status)) := by
  rw [step]
  split
  · next hready =>
    obtain ⟨hprompted, howned⟩ := hready
    have hbusy : s.send ≠ .idle := fun hidle => hlate ⟨hidle, hprompted, howned⟩
    have hafter (hring : s.Waiting ∨ s.Sent) : (s.transmit status).Sent := by
      rcases hring with hwaiting | hsent
      · exact hwaiting.transmit status
      · exact absurd howned (not_owned_ringPtr (Or.inr hsent) h.lt)
    -- only a call that polls has handed a descriptor over
    refine ⟨h.lt, ?_⟩
    have hcursors := h.cursors
    show (s.transmit status).At s.send
    cases hsend : s.send with
    | idle => exact absurd hsend hbusy
    | filling packet length =>
      rw [hsend] at hcursors
      exact absurd howned (not_owned_ringPtr (Or.inl hcursors) h.lt)
    | pollStatus timeout =>
      rw [hsend] at hcursors
      exact ⟨hcursors.1, Or.inr (hafter hcursors.2)⟩
    | prompting | pollInterrupt _ | clearInterrupt =>
      rw [hsend] at hcursors
      exact Or.inr (hafter hcursors)
  · exact h

private theorem inv_interrupt (h : Inv s) (val : BitVec 32) : Inv (s.step (.interrupt val)) := by
  refine ⟨h.lt, ?_⟩
  have hcursors := h.cursors
  show At { s with interrupt := val } s.send
  cases hsend : s.send with
  | idle =>
    rw [hsend] at hcursors
    rcases hcursors with hlevel | hwaiting
    · exact Or.inl ⟨hlevel.ptr, hlevel.free⟩
    · exact Or.inr ⟨hwaiting.ptr, hwaiting.owned, hwaiting.only⟩
  | filling packet length =>
    rw [hsend] at hcursors
    exact ⟨hcursors.ptr, hcursors.free⟩
  | pollStatus timeout =>
    rw [hsend] at hcursors
    exact ⟨hcursors.1, moved hcursors.2 _ _ _⟩
  | prompting | pollInterrupt _ | clearInterrupt =>
    rw [hsend] at hcursors
    exact moved hcursors _ _ _

theorem inv_step (h : Inv s) (e : Event) (hlate : ¬s.Late e) : Inv (s.step e) := by
  cases e with
  | send packet length => exact inv_send h packet length
  | proceed => exact inv_proceed h
  | transmit status => exact inv_transmit h status hlate
  | interrupt val => exact inv_interrupt h val

/-! ### In step -/

/-- The cursors differ only while a frame is on its way. -/
theorem Inv.inStep (h : Inv s) : s.InStep := by
  intro hidle hfree
  have hcursors := h.cursors
  rw [hidle] at hcursors
  rcases hcursors with hlevel | hwaiting
  · exact hlevel.ptr.symm
  · exact absurd hwaiting.owned (hfree _ h.lt)

/-- A frame sent late is one nobody waits for: nothing moves `tx_index` past it. -/
theorem sent_of_late (h : Inv s) {status : BitVec 16} (hlate : s.Late (.transmit status)) :
    (s.step (.transmit status)).Sent := by
  obtain ⟨hidle, hready⟩ := hlate
  rw [step, if_pos hready]
  have hcursors := h.cursors
  rw [hidle] at hcursors
  rcases hcursors with hlevel | hwaiting
  · exact absurd hready.2 (not_owned_ringPtr (Or.inl hlevel) h.lt)
  · exact hwaiting.transmit status

/-- **A step leaves the cursors in step exactly when it is not late.** -/
theorem inStep_step_iff (h : Inv s) (e : Event) : (s.step e).InStep ↔ ¬s.Late e := by
  constructor
  · intro hstep hlate
    cases e with
    | transmit status =>
      have hsent := sent_of_late h hlate
      have hsame : (s.step (.transmit status)).txIndex = s.txIndex := by
        rw [step]
        split <;> rfl
      have hidle : (s.step (.transmit status)).send = .idle := by
        rw [step, if_pos hlate.2]
        exact hlate.1
      have heq := hstep hidle hsent.free
      rw [hsent.ptr, hsame] at heq
      exact next_ne h.lt heq.symm
    | send packet length => exact hlate
    | proceed => exact hlate
    | interrupt val => exact hlate
  · intro hlate
    exact (inv_step h e hlate).inStep

/-- **After a `gxp_umac_start` the two cursors stay in step, whatever the calls
and whenever the hardware sends, exactly when no frame is sent after its
`gxp_umac_send` has returned.** -/
theorem inStep_iff (s : Umac) (events : List Event) :
    (∀ es, es <+: events → (run step (start s) es).InStep) ↔
      ∀ p ∈ visits step (start s) events, ¬p.1.Late p.2 := by
  rw [forall_prefix_run_iff, and_iff_right (inv_start s).inStep]
  refine forall_visits_iff (I := Inv) (P := fun t e => (t.step e).InStep)
    (Q := fun t e => ¬t.Late e) ?_ ?_ (inv_start s)
  · intro t e ht hstep
    exact inv_step ht e ((inStep_step_iff ht e).mp hstep)
  · intro t e ht
    exact inStep_step_iff ht e

/-! ### Out of step -/

/-- The hardware is at a descriptor that nobody hands over. -/
structure Dead (s : Umac) : Prop where
  lt : s.ringPtr < maxRingEntries
  ptr : s.ringPtr ≠ s.txIndex
  only : ∀ i < maxRingEntries, s.Owned i → i = s.txIndex
  handed : s.send.Handed → s.Owned s.txIndex

/-- No later `gxp_umac_send` of `t` has returned 0, and the hardware has not moved. -/
structure DeadSince (s t : Umac) : Prop where
  dead : Dead t
  ptr : t.ringPtr = s.ringPtr
  returns : ∃ rets, t.returns = rets ++ s.returns ∧ ∀ ret ∈ rets, ret ≠ 0

theorem Dead.since (h : Dead s) : DeadSince s s := ⟨h, rfl, [], rfl, by simp⟩

theorem DeadSince.leave {t : Umac} (h : DeadSince s t) {ret : ℤ} (hret : ret ≠ 0) :
    DeadSince s (t.leave ret) := by
  obtain ⟨rets, hrets, hall⟩ := h.returns
  refine ⟨⟨h.dead.lt, h.dead.ptr, h.dead.only, False.elim⟩, h.ptr, ret :: rets, ?_, ?_⟩
  · show ret :: t.returns = _
    rw [hrets, List.cons_append]
  · simpa using ⟨hret, hall⟩

theorem DeadSince.moved {t : Umac} (h : DeadSince s t) {send : Send}
    (hsend : send.Handed → t.Owned t.txIndex) (interrupt : BitVec 32) (prompted : Bool) :
    DeadSince s { t with send, interrupt, prompted } :=
  ⟨⟨h.dead.lt, h.dead.ptr, h.dead.only, hsend⟩, h.ptr, h.returns⟩

theorem DeadSince.fill {t : Umac} (h : DeadSince s t) (packet : BitVec 32) (length : ℤ) :
    DeadSince s (t.fill packet length) := by
  refine ⟨⟨h.dead.lt, h.dead.ptr, ?_, fun _ => ?_⟩, h.ptr, h.returns⟩
  · intro i hi howned
    rcases (owned_fill t packet length i).mp howned with heq | hold
    · exact heq
    · exact h.dead.only i hi hold
  · exact (owned_fill t packet length _).mpr (Or.inl rfl)

theorem DeadSince.proceed {t : Umac} (h : DeadSince s t) : DeadSince s t.proceed := by
  have hhanded := h.dead.handed
  rw [Umac.proceed]
  cases hsend : t.send with
  | idle => exact h
  | filling packet length => exact h.fill packet length
  | prompting =>
    rw [hsend] at hhanded
    exact h.moved (fun _ => hhanded trivial) _ _
  | pollInterrupt timeout =>
    rw [hsend] at hhanded
    dsimp only
    split
    · exact h.moved (fun _ => hhanded trivial) _ _
    · split
      · exact h.moved (fun _ => hhanded trivial) _ _
      · exact h.moved (fun _ => hhanded trivial) _ _
  | clearInterrupt =>
    rw [hsend] at hhanded
    exact h.moved (fun _ => hhanded trivial) _ _
  | pollStatus timeout =>
    rw [hsend] at hhanded
    -- the descriptor is never released, so the loop runs out
    have howned := hhanded trivial
    dsimp only
    rw [if_neg (not_not_intro howned)]
    split
    · exact h.moved (fun _ => hhanded trivial) _ _
    · next hlast =>
      rw [finish, if_pos (Int.not_lt.mp hlast)]
      exact h.leave (by decide)

theorem DeadSince.step {t : Umac} (h : DeadSince s t) (e : Event) : DeadSince s (t.step e) := by
  cases e with
  | send packet length =>
    rw [Umac.step]
    split
    · split
      · exact h.leave (by decide)
      · exact h.moved False.elim _ _
    · exact h
  | proceed => exact h.proceed
  | transmit status =>
    have hfree : ¬t.Owned t.ringPtr := fun howned =>
      h.dead.ptr (h.dead.only _ h.dead.lt howned)
    rw [Umac.step, if_neg fun hready => hfree hready.2]
    exact h
  | interrupt val => exact h.moved h.dead.handed _ _

/-- Sent late, a frame leaves the hardware one descriptor ahead for good: until the
next `gxp_umac_start` it sends nothing and no call returns 0. -/
theorem dead_of_late (h : Inv s) {status : BitVec 16} (hlate : s.Late (.transmit status))
    (events : List Event) :
    DeadSince (s.step (.transmit status)) (run step (s.step (.transmit status)) events) := by
  have hsent := sent_of_late h hlate
  have hstep : s.step (.transmit status) = s.transmit status := if_pos hlate.2
  have hidle : (s.step (.transmit status)).send = .idle := by
    rw [hstep]
    exact hlate.1
  have hdead : Dead (s.step (.transmit status)) := by
    refine ⟨?_, ?_, fun i hi howned => absurd howned (hsent.free i hi), ?_⟩
    · rw [hsent.ptr]
      exact next_lt _
    · rw [hsent.ptr, hstep]
      exact next_ne h.lt
    · rw [hidle]
      exact False.elim
  exact run_invariant (fun _ e ht => ht.step e) hdead.since events

/-! ### A frame that is sent late -/

/-- Without the interrupt the first loop runs out. -/
theorem run_pollInterrupt (n : ℕ) {s : Umac} (hsend : s.send = .pollInterrupt (n + 1))
    (hquiet : s.interrupt &&& intTx = 0) :
    run step s (List.replicate (n + 1) .proceed) = { s with send := .clearInterrupt } := by
  induction n generalizing s with
  | zero =>
    show s.proceed = _
    rw [proceed, hsend]
    simp [hquiet]
  | succ n ih =>
    rw [List.replicate_succ, run_cons]
    have hstep : s.step .proceed = { s with send := .pollInterrupt (n + 1) } := by
      show s.proceed = _
      rw [proceed, hsend]
      have hmore : ((n + 1 : ℕ) : ℤ) + 1 - 1 > 0 := by omega
      simp only [hquiet, ne_eq, not_true_eq_false, if_false, if_pos hmore]
      congr 2
      omega
    have hrest := ih (s := { s with send := .pollInterrupt (n + 1) }) rfl hquiet
    rw [hstep, hrest]

/-- While the descriptor stays with the hardware the second loop runs out. -/
theorem run_pollStatus (n : ℕ) {s : Umac} (hsend : s.send = .pollStatus (n + 1))
    (howned : s.Owned s.txIndex) :
    run step s (List.replicate (n + 1) .proceed) = s.leave (-etimedout) := by
  induction n generalizing s with
  | zero =>
    show s.proceed = _
    rw [proceed, hsend]
    simp [howned, finish]
  | succ n ih =>
    rw [List.replicate_succ, run_cons]
    have hstep : s.step .proceed = { s with send := .pollStatus (n + 1) } := by
      show s.proceed = _
      rw [proceed, hsend]
      have hmore : ((n + 1 : ℕ) : ℤ) + 1 - 1 > 0 := by omega
      simp only [howned, not_true_eq_false, if_false, if_pos hmore]
      congr 2
      omega
    have hrest := ih (s := { s with send := .pollStatus (n + 1) }) rfl howned
    rw [hstep, hrest]
    rfl

/-- A call hands its descriptor over and prompts the hardware. -/
theorem run_handOver {s : Umac} (hidle : s.send = .idle) (hfree : ¬s.Owned s.txIndex)
    (packet : BitVec 32) (length : ℤ) :
    run step s [.send packet length, .proceed, .proceed] =
      { s.fill packet length with
        prompted := true, send := .pollInterrupt (txTimeoutMs * 1000) } := by
  have hsend : s.step (.send packet length) = { s with send := .filling packet length } := by
    rw [step, if_pos hidle, if_neg hfree]
  rw [run_cons, hsend]
  rfl

/-- The steps of the loops, when both run out. -/
def timeOut : List Event :=
  List.replicate (999999 + 1) .proceed ++ [.proceed] ++ List.replicate (999999 + 1) .proceed

private theorem run_timeOut {s : Umac} (hsend : s.send = .pollInterrupt (999999 + 1))
    (hquiet : s.interrupt &&& intTx = 0) (howned : s.Owned s.txIndex) :
    run step s timeOut = { s with interrupt := s.interrupt &&& ~~~intTx }.leave (-etimedout) := by
  have hclear : run step { s with send := .clearInterrupt } [.proceed] =
      { s with interrupt := s.interrupt &&& ~~~intTx, send := .pollStatus (999999 + 1) } := rfl
  rw [timeOut, run_append, run_append, run_pollInterrupt 999999 hsend hquiet, hclear]
  exact run_pollStatus 999999
    (s := { s with interrupt := s.interrupt &&& ~~~intTx, send := .pollStatus (999999 + 1) })
    rfl howned

/-- A call that times out leaves its descriptor with the hardware, which may send it later. -/
theorem late_of_timeOut (s : Umac) (hquiet : s.interrupt &&& intTx = 0) (packet : BitVec 32)
    (length : ℤ) (status : BitVec 16) :
    ∃ t, run step (start s) ([.send packet length, .proceed, .proceed] ++ timeOut) = t ∧ Inv t ∧
      t.Late (.transmit status) := by
  have hlt := (inv_start s).lt
  have hwaiting := (level_start s).fill packet length
  have htimeOut := run_timeOut
    (s := { (start s).fill packet length with
      prompted := true, send := .pollInterrupt (txTimeoutMs * 1000) }) rfl hquiet hwaiting.owned
  rw [run_append, run_handOver rfl ((level_start s).free _ hlt), htimeOut]
  refine ⟨_, rfl, ⟨hlt, Or.inr ?_⟩, rfl, rfl, hwaiting.owned⟩
  exact ⟨hwaiting.ptr, hwaiting.owned, hwaiting.only⟩

/-- Before the first `gxp_umac_start`. -/
def boot : Umac where
  txdes := fun _ => ⟨0, 0, 0, 0, 0⟩
  txIndex := 0
  interrupt := 0
  prompted := false
  ringPtr := 0
  send := .idle
  returns := []

/-- The frame of such a call, sent after it has returned, puts the cursors out of step. -/
theorem not_forall_inStep :
    ¬∀ (s : Umac) (events es : List Event), es <+: events → (run step (start s) es).InStep := by
  intro h
  obtain ⟨t, ht, hinv, hlate⟩ := late_of_timeOut boot rfl 0 60 0
  have hstep := h boot _ ([.send 0 60, .proceed, .proceed] ++ timeOut ++ [.transmit 0])
    List.prefix_rfl
  rw [run_append, ht] at hstep
  exact (inStep_step_iff hinv (.transmit 0)).mp hstep hlate

end Umac

end GxpUbootUmac
