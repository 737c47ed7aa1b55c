/-
Transfers of the PECI controller driver.

`gxp_peci_xfer` starts a command, waits and copies the response; the interrupt
handler records the status and completes the wait.  Neither the completion nor
the status word says which command they are about.  A section under the lock is
a single step unless the controller can interfere with it: it touches neither
what a start writes nor what the check of the status reads.

* `Peci.step` — the driver, the interrupt handler and the controller;
* `matched_of_ownFinish` — a transfer that returns 0 returns the response to
  its own command, in every run where no earlier command finishes during a
  later transfer;
* `not_matched_of_lateFinish` — one that does is taken for the transfer's own;
* `not_forall_matched` — such a run.
-/
import Canopy.Run
import Mathlib.Algebra.Order.Group.Nat
import Mathlib.Data.Int.Notation
import Mathlib.Logic.Function.Basic

namespace GxpPeci

/-! ### Registers -/

def cmdStart : BitVec 32 := 1

def statDone : BitVec 32 := 1

def eio : ℤ := 5

def etimedout : ℤ := 110

def erestartsys : ℤ := 512

/-- A byte at bit `shift` of a register. -/
def fieldPrep (shift : ℕ) (v : UInt8) : BitVec 32 := v.toBitVec.setWidth 32 <<< shift

/-- `GXP_PECI_CMD_RD_LEN_MASK` -/
def rdLen (cmd : BitVec 32) : ℕ := (cmd >>> 24).toNat

/-- Whether `GXP_PECI_STAT_DONE` is set. -/
def isDone (status : BitVec 32) : Bool := status.getLsbD 0

structure Request where
  tx : List UInt8
  rxLen : UInt8
  deriving DecidableEq

/-- The command word for a request. -/
def cmdWord (addr : UInt8) (req : Request) : BitVec 32 :=
  fieldPrep 8 addr ||| fieldPrep 16 (UInt8.ofNat req.tx.length) ||| fieldPrep 24 req.rxLen |||
    cmdStart

/-- The controller reads as many bytes as the request has room for. -/
theorem rdLen_cmdWord (addr : UInt8) (req : Request) :
    rdLen (cmdWord addr req) = req.rxLen.toNat := by
  have hword : cmdWord addr req >>> 24 = req.rxLen.toBitVec.setWidth 32 := by
    ext i hi
    have haddr : addr.toBitVec.getLsbD (24 + i - 8) = false :=
      BitVec.getLsbD_of_ge _ _ (by omega)
    have hlen : (UInt8.ofNat req.tx.length).toBitVec.getLsbD (24 + i - 16) = false :=
      BitVec.getLsbD_of_ge _ _ (by omega)
    by_cases hbyte : i < 8
    · have hshift : 24 + i < 32 := by omega
      simp [cmdWord, fieldPrep, cmdStart, haddr, hlen, hshift]
    · have hhigh : req.rxLen.toBitVec.getLsbD i = false :=
        BitVec.getLsbD_of_ge _ _ (Nat.le_of_not_lt hbyte)
      simp [cmdWord, fieldPrep, cmdStart, haddr, hlen, hhigh]
  rw [rdLen, hword]
  simp

/-! ### The driver and the controller -/

/-- A command that was started. -/
structure Command where
  id : ℕ
  cmd : BitVec 32
  deriving DecidableEq

/-- Where the caller of `gxp_peci_xfer` is; `len` is `req->rx.len`. -/
inductive Phase where
  | idle
  | waiting (id len : ℕ)
  | woken (id len : ℕ)
  /-- under the lock, with what is in `req->rx.buf` so far -/
  | copying (id len : ℕ) (rx : List UInt8)
  deriving DecidableEq

/-- What a transfer returned, with the command it started. -/
structure Return where
  command : Option ℕ
  ret : ℤ
  rx : List UInt8
  deriving DecidableEq

structure Peci where
  /-- `GXP_PECI_STAT` -/
  stat : BitVec 32
  dataOut : ℕ → UInt8
  dataIn : ℕ → UInt8
  /-- the commands the controller has not finished -/
  unfinished : List Command
  /-- the responses of those it has -/
  answers : ℕ → Option (List UInt8)
  /-- `priv->status` -/
  status : BitVec 32
  /-- the count of `priv->xfer_complete` -/
  xferComplete : ℕ
  phase : Phase
  /-- the status the interrupt handler has read, while it runs -/
  irq : Option (BitVec 32)
  started : ℕ
  returns : List Return

inductive Event where
  /-- a call of `gxp_peci_xfer`, with whether the supply is enabled -/
  | xfer (powered : Bool) (addr : UInt8) (req : Request)
  | wake
  | timeout
  | signal
  | checkStatus
  | readb
  /-- the controller finishes a command -/
  | finish (id : ℕ) (status : BitVec 32) (response : List UInt8)
  | irqEnter
  | irqExit
  deriving DecidableEq

namespace Phase

/-- The command of the transfer that is under way and the length of its response. -/
def current : Phase → Option (ℕ × ℕ)
  | idle => none
  | waiting id len | woken id len | copying id len _ => some (id, len)

def holdsLock : Phase → Bool
  | copying .. => true
  | _ => false

end Phase

namespace Peci

def boot : Peci where
  stat := 0
  dataOut := fun _ => 0
  dataIn := fun _ => 0
  unfinished := []
  answers := fun _ => none
  status := 0
  xferComplete := 0
  phase := .idle
  irq := none
  started := 0
  returns := []

def LockFree (s : Peci) : Prop := s.irq = none ∧ s.phase.holdsLock = false

instance (s : Peci) : Decidable s.LockFree := by
  unfold LockFree
  infer_instance

/-- The first section under the lock of `gxp_peci_xfer`. -/
def start (s : Peci) (addr : UInt8) (req : Request) : Peci :=
  { s with
    xferComplete := 0
    dataOut := fun i => if i < req.tx.length then req.tx.getD i 0 else s.dataOut i
    status := 0
    unfinished := ⟨s.started, cmdWord addr req⟩ :: s.unfinished
    started := s.started + 1
    phase := .waiting s.started req.rxLen.toNat }

/-- `gxp_peci_xfer` returns. -/
def leave (s : Peci) (r : Return) : Peci :=
  { s with phase := .idle, returns := r :: s.returns }

/-- The controller finishes `c`. -/
def answer (s : Peci) (c : Command) (status : BitVec 32) (response : List UInt8) : Peci :=
  let response := (List.range (rdLen c.cmd)).map fun i => response.getD i 0
  { s with
    stat := s.stat ||| status
    dataIn := fun i => if i < rdLen c.cmd then response.getD i 0 else s.dataIn i
    unfinished := s.unfinished.filter fun d => d.id ≠ c.id
    answers := Function.update s.answers c.id (some response) }

/-- The rest of `gxp_peci_irq_handler`, once it has read `status`. -/
def handle (s : Peci) (status : BitVec 32) : Peci :=
  { s with
    stat := s.stat &&& ~~~status
    status := status
    xferComplete := if isDone status then s.xferComplete + 1 else s.xferComplete
    irq := none }

/-- One step; an event that cannot happen changes nothing. -/
def step (s : Peci) : Event → Peci
  | .xfer powered addr req =>
    if s.phase = .idle then
      if powered = false then s.leave ⟨none, -eio, []⟩
      else if s.LockFree then s.start addr req
      else s
    else s
  | .wake =>
    match s.phase with
    | .waiting id len =>
      if 0 < s.xferComplete then
        { s with xferComplete := s.xferComplete - 1, phase := .woken id len }
      else s
    | _ => s
  | .timeout =>
    match s.phase with
    | .waiting id _ => if s.xferComplete = 0 then s.leave ⟨some id, -etimedout, []⟩ else s
    | _ => s
  | .signal =>
    match s.phase with
    | .waiting id _ => if s.xferComplete = 0 then s.leave ⟨some id, -erestartsys, []⟩ else s
    | _ => s
  | .checkStatus =>
    match s.phase with
    | .woken id len =>
      if s.LockFree then
        if s.status ≠ statDone then s.leave ⟨some id, -eio, []⟩
        else { s with phase := .copying id len [] }
      else s
    | _ => s
  | .readb =>
    match s.phase with
    | .copying id len rx =>
      if rx.length < len then
        { s with phase := .copying id len (rx ++ [s.dataIn rx.length]) }
      else s.leave ⟨some id, 0, rx⟩
    | _ => s
  | .finish id status response =>
    match s.unfinished.find? fun c => c.id = id with
    | none => s
    | some c => s.answer c status response
  | .irqEnter => if s.LockFree then { s with irq := some s.stat } else s
  | .irqExit =>
    match s.irq with
    | none => s
    | some status => s.handle status

/-- Every transfer that returned 0 returned the response to its own command. -/
def Matched (s : Peci) : Prop :=
  ∀ r ∈ s.returns, r.ret = 0 → ∃ id, r.command = some id ∧ s.answers id = some r.rx

/-- No earlier command finishes while a transfer is under way, and none has left
`GXP_PECI_STAT_DONE` behind where one starts. -/
def OwnFinish (s : Peci) : Event → Prop
  | .xfer powered _ _ => powered = true → isDone s.stat = false
  | .finish id _ _ => ∀ c ∈ s.phase.current, c.1 = id
  | _ => True

instance (s : Peci) (e : Event) : Decidable (s.OwnFinish e) := by
  cases e <;> unfold OwnFinish <;> infer_instance

/-! ### What holds when only own commands finish -/

/-- A completion is set, or on its way. -/
def Signalled (s : Peci) : Prop :=
  isDone s.stat = true ∨ (∃ status ∈ s.irq, isDone status = true) ∨ 0 < s.xferComplete

structure Inv (s : Peci) : Prop where
  unfinished : ∀ c ∈ s.unfinished, s.answers c.id = none ∧ c.id < s.started
  future : ∀ id, s.started ≤ id → s.answers id = none
  reads : ∀ p ∈ s.phase.current, ∀ c ∈ s.unfinished, c.id = p.1 → rdLen c.cmd = p.2
  data : ∀ p ∈ s.phase.current, ∀ response ∈ s.answers p.1,
    response = (List.range p.2).map s.dataIn
  signalled : ∀ id len, s.phase = .waiting id len → s.Signalled → s.answers id ≠ none
  woken : ∀ id len, s.phase = .woken id len → s.answers id ≠ none
  copied : ∀ id len rx, s.phase = .copying id len rx →
    s.answers id ≠ none ∧ rx.length ≤ len ∧ rx = (List.range rx.length).map s.dataIn
  matched : s.Matched

variable {s : Peci}

/-- Returning keeps the invariant if the response is right. -/
theorem Inv.leave (h : Inv s) (r : Return)
    (hr : r.ret = 0 → ∃ id, r.command = some id ∧ s.answers id = some r.rx) :
    Inv (s.leave r) where
  unfinished := h.unfinished
  future := h.future
  reads := fun _ hp => absurd hp (Option.not_mem_none _)
  data := fun _ hp => absurd hp (Option.not_mem_none _)
  signalled := fun _ _ hphase => Phase.noConfusion hphase
  woken := fun _ _ hphase => Phase.noConfusion hphase
  copied := fun _ _ _ hphase => Phase.noConfusion hphase
  matched := by
    intro r' hr'
    rcases List.mem_cons.mp hr' with rfl | hold
    · exact hr
    · exact h.matched r' hold

/-- A transfer starts with nothing on its way. -/
theorem Inv.start (h : Inv s) (addr : UInt8) (req : Request) (hfree : s.irq = none)
    (hdone : isDone s.stat = false) : Inv (s.start addr req) where
  unfinished := by
    intro c hc
    rcases List.mem_cons.mp hc with rfl | hold
    · exact ⟨h.future _ le_rfl, Nat.lt_succ_self _⟩
    · obtain ⟨hnone, hlt⟩ := h.unfinished c hold
      exact ⟨hnone, Nat.lt_succ_of_lt hlt⟩
  future := fun id hid => h.future id (Nat.le_of_succ_le hid)
  reads := by
    intro p hp c hc hid
    obtain rfl := Option.some.inj hp
    rcases List.mem_cons.mp hc with rfl | hold
    · exact rdLen_cmdWord addr req
    · exact absurd hid (h.unfinished c hold).2.ne
  data := by
    intro p hp response hresponse
    obtain rfl := Option.some.inj hp
    rw [show (s.start addr req).answers s.started = none from h.future _ le_rfl] at hresponse
    exact absurd hresponse (Option.not_mem_none _)
  signalled := by
    intro id len hphase hsignalled
    rcases hsignalled with hstat | ⟨status, hirq, -⟩ | hcount
    · exact absurd (hdone.symm.trans hstat) Bool.false_ne_true
    · rw [show (s.start addr req).irq = none from hfree] at hirq
      exact absurd hirq (Option.not_mem_none _)
    · exact absurd hcount (lt_irrefl 0)
  woken := fun _ _ hphase => Phase.noConfusion hphase
  copied := fun _ _ _ hphase => Phase.noConfusion hphase
  matched := h.matched

/-- The current command, or one of an abandoned transfer, finishes. -/
theorem Inv.answer (h : Inv s) {c : Command} (hc : c ∈ s.unfinished) (status : BitVec 32)
    (response : List UInt8) (hown : ∀ p ∈ s.phase.current, p.1 = c.id) :
    Inv (s.answer c status response) := by
  have hsome : (s.answer c status response).answers c.id ≠ none := by
    rw [Peci.answer]
    simp
  have hother {id : ℕ} (hid : id ≠ c.id) :
      (s.answer c status response).answers id = s.answers id :=
    Function.update_of_ne hid _ _
  have hkept {id : ℕ} (hid : s.answers id ≠ none) : id ≠ c.id := by
    rintro rfl
    exact hid (h.unfinished c hc).1
  refine ⟨?_, ?_, ?_, ?_, ?_, ?_, ?_, ?_⟩
  · intro d hd
    obtain ⟨hmem, hid⟩ := List.mem_filter.mp hd
    rw [hother (of_decide_eq_true hid)]
    exact h.unfinished d hmem
  · intro id hid
    rw [hother ((h.unfinished c hc).2.trans_le hid).ne']
    exact h.future id hid
  · intro p hp d hd
    exact h.reads p hp d (List.mem_filter.mp hd).1
  · intro p hp answer hanswer
    rw [hown p hp] at hanswer
    have hlen := h.reads p hp c hc (hown p hp).symm
    rw [Peci.answer] at hanswer ⊢
    simp only [Function.update_self, Option.mem_some_iff] at hanswer
    subst hanswer
    rw [hlen]
    refine List.map_congr_left fun i hi => ?_
    simp [List.mem_range.mp hi]
  · intro id len hphase _
    rw [← hown (id, len) (by rw [show s.phase = _ from hphase]; rfl)] at hsome
    exact hsome
  · intro id len hphase
    rw [← hown (id, len) (by rw [show s.phase = _ from hphase]; rfl)] at hsome
    exact hsome
  · intro id len rx hphase
    -- what is being copied is the response of a command that has finished
    have hid : id = c.id := hown (id, len) (by rw [show s.phase = _ from hphase]; rfl)
    exact absurd hid (hkept (h.copied id len rx hphase).1)
  · intro r hr hret
    obtain ⟨id, hcommand, hanswer⟩ := h.matched r hr hret
    refine ⟨id, hcommand, ?_⟩
    rw [hother (hkept (by rw [hanswer]; exact Option.some_ne_none _))]
    exact hanswer

/-- The driver moves on within a transfer. -/
theorem Inv.proceed (h : Inv s) {phase : Phase} {id len : ℕ}
    (hold : s.phase.current = some (id, len)) (hnew : phase.current = some (id, len))
    (hanswered : s.answers id ≠ none) (n : ℕ)
    (hcopied : ∀ rx, phase = .copying id len rx →
      rx.length ≤ len ∧ rx = (List.range rx.length).map s.dataIn) :
    Inv { s with phase := phase, xferComplete := n } := by
  have hsame {id' len' : ℕ} (hcurrent : phase.current = some (id', len')) :
      id' = id ∧ len' = len := by
    rw [hnew, Option.some.injEq, Prod.mk.injEq] at hcurrent
    exact ⟨hcurrent.1.symm, hcurrent.2.symm⟩
  refine ⟨h.unfinished, h.future, ?_, ?_, ?_, ?_, ?_, h.matched⟩
  · show ∀ p ∈ phase.current, _
    rw [hnew, ← hold]
    exact h.reads
  · show ∀ p ∈ phase.current, _
    rw [hnew, ← hold]
    exact h.data
  · rintro id' len' rfl -
    obtain ⟨rfl, -⟩ := hsame rfl
    exact hanswered
  · rintro id' len' rfl
    obtain ⟨rfl, -⟩ := hsame rfl
    exact hanswered
  · rintro id' len' rx rfl
    obtain ⟨rfl, rfl⟩ := hsame rfl
    exact ⟨hanswered, hcopied rx rfl⟩

/-- The handler passes a completion on, it does not make one. -/
theorem Inv.handle (h : Inv s) {status : BitVec 32} (hirq : s.irq = some status) :
    Inv (s.handle status) where
  unfinished := h.unfinished
  future := h.future
  reads := h.reads
  data := h.data
  signalled := by
    intro id len hphase hsignalled
    refine h.signalled id len hphase ?_
    rcases hsignalled with hstat | ⟨_, hnone, -⟩ | hcount
    · refine Or.inl ?_
      -- a completion still in the register was there before
      simp only [Peci.handle, isDone, BitVec.getLsbD_and, Bool.and_eq_true] at hstat
      exact hstat.1
    · exact absurd hnone (Option.not_mem_none _)
    · rw [Peci.handle] at hcount
      simp only at hcount
      split at hcount
      · next hdone => exact Or.inr (Or.inl ⟨status, hirq, hdone⟩)
      · exact Or.inr (Or.inr hcount)
  woken := h.woken
  copied := h.copied
  matched := h.matched

theorem Inv.irqEnter (h : Inv s) : Inv { s with irq := some s.stat } where
  unfinished := h.unfinished
  future := h.future
  reads := h.reads
  data := h.data
  signalled := by
    intro id len hphase hsignalled
    refine h.signalled id len hphase ?_
    rcases hsignalled with hstat | ⟨status, hirq, hdone⟩ | hcount
    · exact Or.inl hstat
    · obtain rfl := Option.some.inj hirq
      exact Or.inl hdone
    · exact Or.inr (Or.inr hcount)
  woken := h.woken
  copied := h.copied
  matched := h.matched

theorem Inv.step_xfer (h : Inv s) (powered : Bool) (addr : UInt8) (req : Request)
    (hdone : powered = true → isDone s.stat = false) : Inv (s.step (.xfer powered addr req)) := by
  rw [Peci.step]
  split
  · split
    · exact h.leave _ fun hret => absurd hret (by simp [eio])
    next hpowered =>
    split
    · next hfree => exact h.start addr req hfree.1 (hdone (by simpa using hpowered))
    · exact h
  · exact h

/-- The wait ends by a completion, and only a finished command has set one. -/
theorem Inv.step_wake (h : Inv s) : Inv (s.step .wake) := by
  rw [Peci.step]
  split
  · next id len hphase =>
    split
    · next hcount =>
      have hanswered := h.signalled id len hphase (Or.inr (Or.inr hcount))
      refine h.proceed ?_ rfl hanswered _ fun rx hrx => Phase.noConfusion hrx
      rw [hphase]
      rfl
    · exact h
  · exact h

theorem Inv.step_timeout (h : Inv s) : Inv (s.step .timeout) := by
  rw [Peci.step]
  split
  · split
    · exact h.leave _ fun hret => absurd hret (by simp [etimedout])
    · exact h
  · exact h

theorem Inv.step_signal (h : Inv s) : Inv (s.step .signal) := by
  rw [Peci.step]
  split
  · split
    · exact h.leave _ fun hret => absurd hret (by simp [erestartsys])
    · exact h
  · exact h

/-- Past the check of the status the copy starts from an empty buffer. -/
theorem Inv.step_checkStatus (h : Inv s) : Inv (s.step .checkStatus) := by
  rw [Peci.step]
  split
  · next id len hphase =>
    split
    · split
      · exact h.leave _ fun hret => absurd hret (by simp [eio])
      · refine h.proceed (n := s.xferComplete) ?_ rfl (h.woken id len hphase) ?_
        · rw [hphase]
          rfl
        · rintro rx hrx
          obtain ⟨-, -, rfl⟩ := Phase.copying.inj hrx
          exact ⟨Nat.zero_le _, rfl⟩
    · exact h
  · exact h

/-- The copy goes on by one byte, or the buffer is full and holds the response. -/
theorem Inv.step_readb (h : Inv s) : Inv (s.step .readb) := by
  rw [Peci.step]
  split
  · next id len rx hphase =>
    obtain ⟨hanswered, hlen, hrx⟩ := h.copied id len rx hphase
    have hcurrent : s.phase.current = some (id, len) := by
      rw [hphase]
      rfl
    split
    · next hlt =>
      refine h.proceed (n := s.xferComplete) hcurrent rfl hanswered ?_
      intro rx' hrx'
      obtain ⟨-, -, rfl⟩ := Phase.copying.inj hrx'
      rw [List.length_append, List.length_singleton, List.range_succ, List.map_append, ← hrx]
      exact ⟨hlt, rfl⟩
    · next hge =>
      obtain rfl : rx.length = len := le_antisymm hlen (Nat.le_of_not_lt hge)
      refine h.leave _ fun _ => ⟨id, rfl, ?_⟩
      -- what the data window holds is the response of the finished command
      obtain ⟨response, hresponse⟩ := Option.ne_none_iff_exists'.mp hanswered
      have hdata := h.data _ hcurrent response hresponse
      rw [hresponse, hdata]
      exact congrArg some hrx.symm
  · exact h

theorem Inv.step_finish (h : Inv s) (id : ℕ) (status : BitVec 32) (response : List UInt8)
    (hown : ∀ c ∈ s.phase.current, c.1 = id) : Inv (s.step (.finish id status response)) := by
  rw [Peci.step]
  split
  · exact h
  · next c hfind =>
    have hid : c.id = id := of_decide_eq_true (List.find?_some hfind :)
    refine h.answer (List.mem_of_find?_eq_some hfind) status response ?_
    intro p hp
    rw [hid]
    exact hown p hp

/-- **A step in which no earlier command gets in the way keeps the invariant.** -/
theorem Inv.step (s : Peci) (e : Event) (h : Inv s) (hown : s.OwnFinish e) : Inv (s.step e) := by
  cases e with
  | xfer powered addr req => exact h.step_xfer powered addr req hown
  | wake => exact h.step_wake
  | timeout => exact h.step_timeout
  | signal => exact h.step_signal
  | checkStatus => exact h.step_checkStatus
  | readb => exact h.step_readb
  | finish id status response => exact h.step_finish id status response hown
  | irqEnter =>
    rw [Peci.step]
    split
    · exact h.irqEnter
    · exact h
  | irqExit =>
    rw [Peci.step]
    split
    · exact h
    · next status hirq => exact h.handle hirq

theorem inv_boot : Inv boot where
  unfinished := fun _ hc => absurd hc List.not_mem_nil
  future := fun _ _ => rfl
  reads := fun _ hp => absurd hp (Option.not_mem_none _)
  data := fun _ hp => absurd hp (Option.not_mem_none _)
  signalled := fun _ _ hphase => Phase.noConfusion hphase
  woken := fun _ _ hphase => Phase.noConfusion hphase
  copied := fun _ _ _ hphase => Phase.noConfusion hphase
  matched := fun _ hr => absurd hr List.not_mem_nil

/-- **In a run where no earlier command finishes during a transfer, every
transfer that returns 0 returns the response to its own command.** -/
theorem matched_of_ownFinish (events : List Event)
    (h : ∀ p ∈ Run.visits step boot events, p.1.OwnFinish p.2) :
    (Run.run step boot events).Matched :=
  (Run.run_invariant_of_visits Inv.step inv_boot h).matched

/-! ### A late finish -/

/-- The rest of the copy loop. -/
theorem run_readb {id len : ℕ} : ∀ (m : ℕ) {s : Peci} {rx : List UInt8},
    s.phase = .copying id len rx → rx.length + m = len →
      (∃ rx', ⟨some id, 0, rx'⟩ ∈ (Run.run step s (List.replicate (m + 1) .readb)).returns) ∧
        (Run.run step s (List.replicate (m + 1) .readb)).answers = s.answers
  | 0, s, rx, hphase, hlen => by
    have hfull : ¬rx.length < len := by omega
    have hstep : s.step .readb = s.leave ⟨some id, 0, rx⟩ := by
      rw [Peci.step, hphase]
      exact if_neg hfull
    rw [List.replicate_succ, List.replicate_zero, Run.run_cons, Run.run_nil, hstep]
    exact ⟨⟨rx, List.mem_cons_self⟩, rfl⟩
  | m + 1, s, rx, hphase, hlen => by
    have hroom : rx.length < len := by omega
    have hstep : s.step .readb =
        { s with phase := .copying id len (rx ++ [s.dataIn rx.length]) } := by
      rw [Peci.step, hphase]
      exact if_pos hroom
    rw [List.replicate_succ, Run.run_cons, hstep]
    refine run_readb m (s := { s with phase := .copying id len (rx ++ [s.dataIn rx.length]) })
      rfl ?_
    rw [List.length_append, List.length_singleton]
    omega

/-- The interrupt, and what a transfer of `len` bytes does once it is completed. -/
def served (len : ℕ) : List Event :=
  [.irqEnter, .irqExit, .wake, .checkStatus] ++ List.replicate (len + 1) .readb

/-- The interrupt of a command that is done brings a waiting transfer to its copy loop. -/
theorem run_interrupt {id len : ℕ} (hphase : s.phase = .waiting id len) (hirq : s.irq = none)
    (hstat : s.stat = statDone) :
    (Run.run step s [.irqEnter, .irqExit, .wake, .checkStatus]).phase = .copying id len [] ∧
      (Run.run step s [.irqEnter, .irqExit, .wake, .checkStatus]).answers = s.answers := by
  have hfree : s.LockFree := by
    rw [LockFree, hphase]
    exact ⟨hirq, rfl⟩
  have henter : s.step .irqEnter = { s with irq := some statDone } := by
    rw [Peci.step, if_pos hfree, hstat]
  have hexit : Peci.step { s with irq := some statDone } .irqExit =
      { s with
        stat := s.stat &&& ~~~statDone
        status := statDone
        xferComplete := s.xferComplete + 1
        irq := none } := rfl
  rw [Run.run_cons, henter, Run.run_cons, hexit]
  simp [Peci.step, hphase, LockFree, Phase.holdsLock]

/-- A transfer that waits takes the finish of any other command for that of its own. -/
theorem not_matched_of_lateFinish {id len k : ℕ} {c : Command}
    (hphase : s.phase = .waiting id len) (hirq : s.irq = none) (hstat : s.stat = 0)
    (hopen : s.answers id = none) (hk : s.unfinished.find? (fun c => c.id = k) = some c)
    (hother : k ≠ id) (response : List UInt8) :
    ¬(Run.run step s (.finish k statDone response :: served len)).Matched := by
  have hid : c.id = k := by
    have htrue := List.find?_some hk
    exact of_decide_eq_true htrue
  have hfinish : s.step (.finish k statDone response) = s.answer c statDone response := by
    rw [Peci.step, hk]
  have hdone : (s.answer c statDone response).stat = statDone := by
    show s.stat ||| statDone = statDone
    rw [hstat]
    rfl
  have hkept : (s.answer c statDone response).answers id = none := by
    rw [← hopen]
    exact Function.update_of_ne (hid.symm ▸ hother.symm) _ _
  -- the interrupt takes the other completion for this transfer's
  obtain ⟨hcopying, hsame⟩ := run_interrupt (s := s.answer c statDone response) hphase hirq hdone
  obtain ⟨⟨rx, hreturn⟩, hanswers⟩ := run_readb len hcopying (Nat.zero_add len)
  rw [Run.run_cons, hfinish, served, Run.run_append]
  intro hmatched
  obtain ⟨id', hcommand, hanswer⟩ := hmatched _ hreturn rfl
  obtain rfl := Option.some.inj hcommand
  rw [hanswers, hsame, hkept] at hanswer
  exact Option.some_ne_none _ hanswer.symm

/-- A transfer for one byte. -/
def readByte : Event := .xfer true 0x30 ⟨[0x01], 1⟩

/-- The command of a transfer that timed out finishes before the next transfer. -/
theorem matched_lateFinish :
    (Run.run step boot
      ([readByte, .timeout, .finish 0 statDone [0x11], .irqEnter, .irqExit, readByte,
        .finish 1 statDone [0x22]] ++ served 1)).Matched :=
  matched_of_ownFinish _ (by decide)

/-- It finishes during the next transfer. -/
def overtaken : List Event :=
  [readByte, .timeout, readByte] ++ .finish 0 statDone [0x11] :: served 1

theorem not_forall_matched : ¬∀ events : List Event, (Run.run step boot events).Matched := by
  intro h
  have hmatched := h overtaken
  rw [overtaken, Run.run_append] at hmatched
  have hphase : (Run.run step boot [readByte, .timeout, readByte]).phase = .waiting 1 1 := rfl
  exact not_matched_of_lateFinish hphase rfl rfl rfl rfl (by decide) [0x11] hmatched

end Peci

end GxpPeci
