/-
The FN2 interrupt handler (`gxp_fn2_irq_handle` of gxp-fn2).

The handler decides from one read of SEVSTAT which lines to dispatch.  Each
dispatch acknowledges first, and the acknowledge clears all sixteen flags, also
those latched since the read.  Hardware latches flags between any two accesses.

* `actionsOfRun_eq` — the actions a run still invokes, from where it stands;
* `keepsFlags_iff` — one step, when it clears a flag whose action does not follow;
* `every_cleared_flag_handled_iff` — whole schedules.
-/
import Canopy.Run
import Mathlib.Tactic.IntervalCases

namespace GxpFn2

open Run

/-! ### The handler, access by access -/

inductive Line where
  | pgood
  | perst
  deriving DecidableEq

/-- The flag of a line in SEVSTAT. -/
def Line.bit : Line → ℕ
  | pgood => 0
  | perst => 1

/-- The next access of the handler; `val` is what it read from SEVSTAT first, `orig`
what `regmap_update_bits` read. -/
inductive Pc where
  | idle
  | ackRead (line : Line) (val : BitVec 8)
  | ackWrite (line : Line) (val : BitVec 8) (orig : BitVec 32)
  | action (line : Line) (val : BitVec 8)
  deriving DecidableEq

/-- Bits 0 to 15 of SEVSTAT are latched flags. -/
structure Fn2 where
  sevstat : BitVec 32
  pc : Pc

/-- A write clears the flags written as ones; the rest is read-only. -/
def writeSevstat (r v : BitVec 32) : BitVec 32 := (r &&& ~~~0xffff) ||| (r &&& ~~~v &&& 0xffff)

/-- `if (val & FN2_SEVSTAT_PERST)`. -/
def Pc.afterPgood (val : BitVec 8) : Pc :=
  if val.getLsbD Line.perst.bit then .ackRead .perst val else .idle

/-- `if (val & FN2_SEVSTAT_PGOOD)`. -/
def Pc.afterRead (val : BitVec 8) : Pc :=
  if val.getLsbD Line.pgood.bit then .ackRead .pgood val else .afterPgood val

def Pc.next (line : Line) (val : BitVec 8) : Pc :=
  match line with
  | .pgood => .afterPgood val
  | .perst => .idle

section Handler

-- whether `irq_find_mapping` finds a child interrupt
variable (mapped : Line → Bool)

/-- A mapped line was acknowledged by its flow handler, which then calls the action;
for another the handler itself clears the flags. -/
def Pc.acked (line : Line) (val : BitVec 8) : Pc :=
  if mapped line then .action line val else .next line val

/-- One access, or the action of a child. -/
def irqHandle (s : Fn2) : Fn2 :=
  match s.pc with
  | .idle => { s with pc := .afterRead (s.sevstat.setWidth 8) }
  | .ackRead line val =>
    -- `regmap_update_bits` writes only what changes the value read
    if s.sevstat ||| 0xffff ≠ s.sevstat then { s with pc := .ackWrite line val s.sevstat }
    else { s with pc := .acked mapped line val }
  | .ackWrite line val orig =>
    ⟨writeSevstat s.sevstat (orig ||| 0xffff), .acked mapped line val⟩
  | .action line val => { s with pc := .next line val }

/-- Hardware latches a flag, or the handler goes on (or is entered). -/
inductive Event where
  | latch (line : Line)
  | handle
  deriving DecidableEq

def step (s : Fn2) : Event → Fn2
  | .latch line => { s with sevstat := s.sevstat ||| BitVec.twoPow 32 line.bit }
  | .handle => irqHandle mapped s

end Handler

def Fn2.latched (s : Fn2) (line : Line) : Bool := s.sevstat.getLsbD line.bit

/-- The action a step invokes. -/
def invoked (s : Fn2) : Event → Option Line
  | .latch _ => none
  | .handle =>
    match s.pc with
    | .action line _ => some line
    | _ => none

/-- The actions invoked until the handler returns. -/
def actionsOfRun (mapped : Line → Bool) : Fn2 → List Event → List Line
  | _, [] => []
  | s, e :: es =>
    if s.pc = .idle then []
    else (invoked s e).toList ++ actionsOfRun mapped (step mapped s e) es

/-- The step clears a latched flag. -/
def Clears (mapped : Line → Bool) (s : Fn2) (e : Event) (line : Line) : Prop :=
  s.latched line = true ∧ (step mapped s e).latched line = false

/-- Whenever a step of the schedule clears a latched flag, the same run of the handler
invokes the action of that line afterwards. -/
def EveryClearedHandled (mapped : Line → Bool) (s : Fn2) (es : List Event) : Prop :=
  ∀ before e after, es = before ++ e :: after → ∀ line,
    Clears mapped (run (step mapped) s before) e line →
      line ∈ actionsOfRun mapped (step mapped (run (step mapped) s before) e) after

/-- The acknowledge of PGOOD is written with PERST latched but not read by the run, or
the acknowledge of PERST with PGOOD latched. -/
def Overruns (s : Fn2) : Event → Prop
  | .latch _ => False
  | .handle =>
    match s.pc with
    | .ackWrite .pgood val _ => s.latched .perst = true ∧ val.getLsbD Line.perst.bit = false
    | .ackWrite .perst _ _ => s.latched .pgood = true
    | _ => False

/-! ### The flags -/

theorem writeSevstat_flag (r orig : BitVec 32) {i : ℕ} (hi : i < 16) :
    (writeSevstat r (orig ||| 0xffff)).getLsbD i = false := by
  rw [writeSevstat]
  interval_cases i <;> simp

theorem bit_lt (line : Line) : line.bit < 16 := by
  cases line <;> decide

section Steps

/-- Both lines have a child interrupt. -/
def bothMapped : Line → Bool := fun _ => true

variable {s : Fn2} {line : Line} {val : BitVec 8} {orig : BitVec 32}

/-- Only an acknowledging write clears flags, and it clears all of them. -/
theorem clears_iff (s : Fn2) (e : Event) (line : Line) : Clears bothMapped s e line ↔
    s.latched line = true ∧ e = .handle ∧ ∃ l val orig, s.pc = .ackWrite l val orig := by
  refine and_congr_right fun hlatched => ?_
  constructor
  · intro hclear
    cases e with
    | latch l =>
      rw [Fn2.latched, step, BitVec.getLsbD_or] at hclear
      rw [Fn2.latched] at hlatched
      rw [hlatched] at hclear
      exact absurd hclear (by simp)
    | handle =>
      refine ⟨rfl, ?_⟩
      rw [Fn2.latched, step, irqHandle] at hclear
      cases hpc : s.pc with
      | ackWrite l val orig => exact ⟨l, val, orig, rfl⟩
      | idle =>
        rw [hpc] at hclear
        -- reading and dispatching leave the register alone
        exact absurd (hlatched.symm.trans hclear) (by decide)
      | action l val =>
        rw [hpc] at hclear
        exact absurd (hlatched.symm.trans hclear) (by decide)
      | ackRead l val =>
        simp only [hpc] at hclear
        split at hclear
        · exact absurd (hlatched.symm.trans hclear) (by decide)
        · exact absurd (hlatched.symm.trans hclear) (by decide)
  · rintro ⟨rfl, l, val, orig, hpc⟩
    rw [Fn2.latched, step, irqHandle, hpc]
    exact writeSevstat_flag s.sevstat orig (bit_lt line)

/-! ### What a run still does -/

/-- The lines the snapshot dispatches after this one. -/
def restOf (line : Line) (val : BitVec 8) : List Line :=
  match line with
  | .pgood => if val.getLsbD Line.perst.bit then [.perst] else []
  | .perst => []

/-- The actions the run still invokes. -/
def Pc.remaining : Pc → List Line
  | idle => []
  | ackRead line val => line :: restOf line val
  | ackWrite line val _ => line :: restOf line val
  | action line val => line :: restOf line val

private theorem remaining_next (line : Line) (val : BitVec 8) :
    (Pc.next line val).remaining = restOf line val := by
  cases line with
  | perst => rfl
  | pgood =>
    rw [Pc.next, Pc.afterPgood, restOf]
    split <;> rfl

/-- A step of a run in progress. -/
theorem remaining_step (hbusy : s.pc ≠ .idle) (e : Event) :
    s.pc.remaining = (invoked s e).toList ++ (step bothMapped s e).pc.remaining := by
  cases e with
  | latch l => rfl
  | handle =>
    rw [invoked, step, irqHandle]
    cases hpc : s.pc with
    | idle => exact absurd hpc hbusy
    | ackWrite l val orig => rfl
    | action l val =>
      show l :: restOf l val = [l] ++ (Pc.next l val).remaining
      rw [remaining_next]
      rfl
    | ackRead l val =>
      show l :: restOf l val = _
      dsimp only
      split <;> rfl

/-- **The actions of a run** that comes to its end. -/
theorem actionsOfRun_eq {es : List Event} (hidle : (run (step bothMapped) s es).pc = .idle) :
    actionsOfRun bothMapped s es = s.pc.remaining := by
  induction es generalizing s with
  | nil =>
    rw [run_nil] at hidle
    rw [hidle]
    rfl
  | cons e es ih =>
    rw [actionsOfRun]
    split
    · next hdone =>
      rw [hdone]
      rfl
    · next hbusy => rw [ih hidle, ← remaining_step hbusy]

/-- What a step clears is still to be handled, unless the step overruns a flag. -/
theorem keepsFlags_iff (s : Fn2) (e : Event) :
    (∀ line, Clears bothMapped s e line → line ∈ (step bothMapped s e).pc.remaining) ↔
      ¬Overruns s e := by
  simp only [clears_iff]
  cases e with
  | latch l => simp [Overruns]
  | handle =>
    cases hpc : s.pc with
    | idle => simp [Overruns, hpc]
    | ackRead l val => simp [Overruns, hpc]
    | action l val => simp [Overruns, hpc]
    | ackWrite l val orig =>
      -- the write clears both flags; what is still to come was decided by the read
      have hstep : (step bothMapped s .handle).pc.remaining = l :: restOf l val := by
        rw [step, irqHandle, hpc]
        rfl
      rw [hstep, Overruns, hpc]
      cases l with
      | pgood =>
        constructor
        · rintro h ⟨hlatched, hval⟩
          have hmem := h .perst ⟨hlatched, rfl, .pgood, val, orig, rfl⟩
          simp [restOf, hval] at hmem
        · rintro h line ⟨hlatched, -⟩
          cases line with
          | pgood => exact .head _
          | perst =>
            cases hval : val.getLsbD Line.perst.bit with
            | false => exact absurd ⟨hlatched, hval⟩ h
            | true =>
              rw [restOf, hval]
              exact .tail _ (.head _)
      | perst =>
        constructor
        · intro h hlatched
          have hmem := h .pgood ⟨hlatched, rfl, .perst, val, orig, rfl⟩
          simp [restOf] at hmem
        · rintro h line ⟨hlatched, -⟩
          cases line with
          | pgood => exact absurd hlatched h
          | perst => exact .head _

end Steps

/-- **Power events and the handler**: in a schedule at whose end the handler has
returned, every cleared flag is handled by the run that clears it iff no acknowledge
overruns a flag that came after the run's read of SEVSTAT. -/
theorem every_cleared_flag_handled_iff (sevstat : BitVec 32) (es : List Event)
    (hidle : (run (step bothMapped) ⟨sevstat, .idle⟩ es).pc = .idle) :
    EveryClearedHandled bothMapped ⟨sevstat, .idle⟩ es ↔
      ∀ before e after, es = before ++ e :: after →
        ¬Overruns (run (step bothMapped) ⟨sevstat, .idle⟩ before) e := by
  refine forall_congr' fun before => forall_congr' fun e => forall_congr' fun after =>
    forall_congr' fun hes => ?_
  rw [hes, run_append, run_cons] at hidle
  rw [actionsOfRun_eq hidle]
  exact keepsFlags_iff _ e

/-- PERST is latched between the read that finds PGOOD alone and the acknowledge. -/
def perstDuringPgood : List Event :=
  [.latch .pgood, .handle, .latch .perst, .handle, .handle, .handle]

theorem every_cleared_flag_handled_iff_perstDuringPgood :
    EveryClearedHandled bothMapped ⟨0, .idle⟩ perstDuringPgood ↔
      ∀ before e after, perstDuringPgood = before ++ e :: after →
        ¬Overruns (run (step bothMapped) ⟨0, .idle⟩ before) e :=
  every_cleared_flag_handled_iff 0 perstDuringPgood (by decide)

theorem not_everyClearedHandled_perstDuringPgood :
    ¬EveryClearedHandled bothMapped ⟨0, .idle⟩ perstDuringPgood := by
  intro h
  have hmem := h (perstDuringPgood.take 4) .handle [.handle] rfl .perst ⟨by decide, by decide⟩
  exact absurd hmem (by decide)

end GxpFn2
