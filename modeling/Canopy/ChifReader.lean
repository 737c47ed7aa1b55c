/-
`chif_read` of the CHIF driver, step by step, against doorbell interrupts.

A read is cut into the steps between which an interrupt can land: the first
`chif_queue_pop`, `add_wait_queue`, `waiting = true`, `set_current_state`,
`schedule`, the signal check, the second pop, and the copy to userspace in any
number of pieces.  An interrupt runs `chif_irq_handle` on whatever the shared
memory holds at that moment.

Design notes: there is one reader, the daemon, which calls `read` again and
again.  `wake_up_interruptible` and a signal make a sleeping reader runnable by
clearing `interruptible`; a reader in `schedule()` stays there while it is set.
-/
import Canopy.ChifIrq

namespace Chif

open Bytes

def eagain : ℤ := 11
def efault : ℤ := 14
def einval : ℤ := 22
def erestartsys : ℤ := 512

/-- The arguments of one `read`. -/
structure ReadCall where
  channel : ℕ
  count : ℕ
  nonblock : Bool

/-- How a waiting read goes on once it has left the wait queue. -/
inductive Exit where
  | interrupted
  | delivered
  deriving DecidableEq

/-- Where the reader is; each step but `idle` and `asleep` names what it does next. -/
inductive Pc where
  | idle
  | start
  | addWait
  | setWaiting
  | setState
  | schedule
  | asleep
  | checkSignal
  | repop
  | setRunning (exit : Exit)
  | removeWait (exit : Exit)
  | clearWaiting (exit : Exit)
  | copying
  deriving DecidableEq

/-- The driver's queue and its reader. -/
structure ReaderSys where
  queue : PacketQueue
  pc : Pc
  call : ReadCall
  /-- the reader's task state is `TASK_INTERRUPTIBLE` -/
  interruptible : Bool
  onWaitQueue : Bool
  /-- `drvdata->waiting[24]` -/
  waiting : Bool
  signalPending : Bool
  /-- the slot `pkt_buf` points to -/
  slot : ℕ
  pktLen : ℕ
  /-- the packet the last successful pop removed from the queue -/
  popped : Bytes
  /-- what the current read has copied so far -/
  userBuf : Bytes
  /-- the value the last read returned -/
  ret : ℤ

namespace ReaderSys

/-- After `chif_probe`: an empty queue and no read in progress. -/
def probe : ReaderSys where
  queue := .init
  pc := .idle
  call := ⟨channelSharemem, sharedMemChifDescriptorSize, false⟩
  interruptible := false
  onWaitQueue := false
  waiting := false
  signalPending := false
  slot := 0
  pktLen := 0
  popped := []
  userBuf := []
  ret := 0

/-! ### Steps of the reader -/

def finish (s : ReaderSys) (ret : ℤ) : ReaderSys := { s with pc := .idle, ret := ret }

/-- A pop that came back with a packet. -/
def take (s : ReaderSys) (next : Pc) : ReaderSys :=
  let r := s.queue.pop s.call.count
  { s with
    queue := r.2.2
    slot := r.2.1.getD s.slot
    pktLen := r.1.toNat
    popped := s.queue.1.packets.headD []
    pc := next }

/-- `chif_queue_pop` fails. -/
def popFails (s : ReaderSys) : Prop := (s.queue.pop s.call.count).1 < 0

instance (s : ReaderSys) : Decidable s.popFails := by
  unfold popFails
  infer_instance

/-- The bytes the next `n` bytes of `copy_to_user` find in the slot. -/
def chunk (s : ReaderSys) (n : ℕ) : Bytes :=
  (List.range (min n (s.pktLen - s.userBuf.length))).map
    fun i => s.queue.1.pkt s.slot (s.userBuf.length + i)

/-- `copy_to_user` copies `n` more bytes. -/
def copyMore (s : ReaderSys) (n : ℕ) : ReaderSys :=
  let s' := { s with userBuf := s.userBuf ++ s.chunk n }
  if s'.userBuf.length = s.pktLen then s'.finish s.pktLen else s'

/-- The reader's next step.  `copy` matters only in `copy_to_user`: how many
bytes it copies next, or `none` if it faults. -/
def readerStep (s : ReaderSys) (copy : Option ℕ) : ReaderSys :=
  match s.pc with
  | .idle => s
  | .start =>
    if s.call.channel ≠ channelSharemem then s.finish (-eio)
    else if s.call.count < sharedMemChifDescriptorSize then s.finish (-einval)
    else if s.popFails then
      if s.call.nonblock then s.finish (-eagain) else { s with pc := .addWait }
    else s.take .copying
  | .addWait => { s with onWaitQueue := true, pc := .setWaiting }
  | .setWaiting => { s with waiting := true, pc := .setState }
  | .setState => { s with interruptible := true, pc := .schedule }
  | .schedule =>
    -- with a signal pending, `schedule()` does not put the task to sleep
    if s.interruptible = true ∧ s.signalPending = false then { s with pc := .asleep }
    else { s with interruptible := false, pc := .checkSignal }
  | .asleep => if s.interruptible then s else { s with pc := .checkSignal }
  | .checkSignal =>
    if s.signalPending then { s with pc := .setRunning .interrupted } else { s with pc := .repop }
  | .repop => if s.popFails then { s with pc := .setState } else s.take (.setRunning .delivered)
  | .setRunning e => { s with interruptible := false, pc := .removeWait e }
  | .removeWait e => { s with onWaitQueue := false, pc := .clearWaiting e }
  | .clearWaiting .interrupted => { s with waiting := false }.finish (-erestartsys)
  | .clearWaiting .delivered => { s with waiting := false, pc := .copying }
  | .copying =>
    if s.pktLen = 0 then s.finish 0
    else
      match copy with
      | none => s.finish (-efault)
      | some n => s.copyMore n

/-! ### Interrupts and the rest of the world -/

/-- The driver an interrupt finds, with the shared memory as the host left it. -/
def drvdata (s : ReaderSys) (shmem : Shmem) : ChifDrvdata where
  touched := []
  shmem := shmem
  chif24Queue := s.queue
  waiting := fun i => decide (i = channelSharemem) && s.waiting
  woken := []
  outdoor := []

/-- `wake_up_interruptible` on the wait queue of channel 24. -/
def wake (s : ReaderSys) : ReaderSys :=
  if s.onWaitQueue = true ∧ s.interruptible = true then { s with interruptible := false } else s

def irq (s : ReaderSys) (shmem : Shmem) (doorbell : ℕ) : ReaderSys :=
  let d := chifIrqHandle (s.drvdata shmem) doorbell
  let s' := { s with queue := d.chif24Queue }
  if channelSharemem ∈ d.woken then s'.wake else s'

/-- An interrupt changes the queue and may wake the reader. -/
theorem irq_eq (s : ReaderSys) (shmem : Shmem) (doorbell : ℕ) :
    s.irq shmem doorbell = { s with
      queue := (chifIrqHandle (s.drvdata shmem) doorbell).chif24Queue
      interruptible := (s.irq shmem doorbell).interruptible } := by
  rw [irq]
  generalize chifIrqHandle (s.drvdata shmem) doorbell = d
  split
  · rw [wake]
    split <;> rfl
  · rfl

/-- An interrupt puts nobody to sleep. -/
theorem interruptible_of_irq {s : ReaderSys} {shmem : Shmem} {doorbell : ℕ}
    (h : (s.irq shmem doorbell).interruptible = true) : s.interruptible = true := by
  rw [irq] at h
  generalize chifIrqHandle (s.drvdata shmem) doorbell = d at h
  split at h
  · rw [wake] at h
    split at h
    · exact Bool.noConfusion h
    · exact h
  · exact h

inductive Event where
  /-- a doorbell interrupt -/
  | irq (shmem : Shmem) (doorbell : ℕ)
  /-- userspace calls `read`; signals were delivered on its way there -/
  | call (c : ReadCall)
  | reader (copy : Option ℕ)
  /-- a signal is sent to the reader -/
  | signal

def step (s : ReaderSys) : Event → ReaderSys
  | .irq shmem doorbell => s.irq shmem doorbell
  | .call c =>
    if s.pc = .idle then
      { s with pc := .start, call := c, signalPending := false, popped := [], userBuf := [] }
    else s
  | .reader copy => s.readerStep copy
  | .signal => { s with signalPending := true, interruptible := false }

end ReaderSys

end Chif
