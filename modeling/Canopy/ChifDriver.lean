/-
The CHIF driver (gxp-chif): the doorbell interrupt handler and `chif_write`.

Everything the driver reads or writes in shared memory is logged in `touched`,
so that statements about its accesses are statements about that list.  The
content of the memory is arbitrary: the host owns it.

Design notes: the interrupt handler runs without the host's memory changing
under it; between two polls of `chif_write` the memory changes as the parameter
`host` says.
-/
import Canopy.SharedMem

namespace Chif

open Bytes WrapMem

/-- `struct chif_drvdata`, with a log of what was done. -/
structure ChifDrvdata where
  /-- the blocks of shared memory read or written: offset and length -/
  touched : List (ℕ × ℕ)
  shmem : Shmem
  chif24Queue : PacketQueue
  waiting : ℕ → Bool
  /-- the channels `wake_up_interruptible` was called for -/
  woken : List ℕ
  /-- the values written to `REG_OUTDOOR` -/
  outdoor : List ℕ

namespace ChifDrvdata

/-! ### Access to shared memory -/

/-- The driver accesses `len` bytes at `a`. -/
def touch (d : ChifDrvdata) (a len : ℕ) : ChifDrvdata :=
  { d with touched := d.touched ++ [(a, len)] }

/-- A field of the control block of `channel` is read. -/
def getCcb (d : ChifDrvdata) (channel field : ℕ) : ℕ × ChifDrvdata :=
  (ccbField d.shmem channel field, d.touch (ccbSize * channel + field) 8)

/-- A field of the control block of `channel` is written. -/
def setCcb (d : ChifDrvdata) (channel field value : ℕ) : ChifDrvdata :=
  { d.touch (ccbSize * channel + field) 8 with
    shmem := write addressSpace d.shmem (ccbSize * channel + field) (ofLE 8 value) }

/-- A FIFO entry is read. -/
def getFifo (d : ChifDrvdata) (a : ℕ) : FifoEntry × ChifDrvdata :=
  (fifoEntry d.shmem a, d.touch a 4)

/-- A FIFO entry is written. -/
def setFifo (d : ChifDrvdata) (a : ℕ) (e : FifoEntry) : ChifDrvdata :=
  { d.touch a 4 with shmem := setFifoEntry d.shmem a e }

/-- `fifo[i].consumed = 1`. -/
def setConsumed (d : ChifDrvdata) (a : ℕ) : ChifDrvdata :=
  d.setFifo a { fifoEntry d.shmem a with consumed := true }

end ChifDrvdata

/-- The address of `fifo[i]`. -/
def fifoAddr (fifo i : ℕ) : ℕ := fifo + fifoEntrySize * i

/-- The address of `desc[i]`. -/
def descAddr (desc i : ℕ) : ℕ := desc + sharedMemChifDescriptorSize * i

/-! ### Receiving -/

/-- `compare_seq`: a plain comparison, that knows no wrap. -/
def compareSeq (a b : ℕ) : ℤ := if a > b then 1 else if a < b then -1 else 0

/-- `active_ccb`: the go bit decides, the active bit is made to follow it. -/
def activeCcb (d : ChifDrvdata) (channel : ℕ) : ℤ × ChifDrvdata :=
  let (sqCtrl, d) := d.getCcb channel ccbSqCtrl
  if sqCtrl &&& ccbCtrlGoMask = 0 then
    (-1, d.setCcb channel ccbSqCtrl (sqCtrl &&& (2 ^ 64 - 1 - ccbCtrlActiveMask)))
  else if sqCtrl &&& ccbCtrlActiveMask = 0 then
    (1, d.setCcb channel ccbSqCtrl (sqCtrl ||| ccbCtrlActiveMask))
  else (1, d)

/-- One round of the loop of `get_occupied_entry`; the state is `fifo_idx` and
`fifo_seq`. -/
def occupiedStep (fifo : ℕ) (s : (Option ℕ × ℕ) × ChifDrvdata) (i : ℕ) :
    (Option ℕ × ℕ) × ChifDrvdata :=
  let (e, d) := s.2.getFifo (fifoAddr fifo i)
  if e.pending = true ∧ compareSeq e.sequenceNum s.1.2 ≤ 0 then ((some i, e.sequenceNum), d)
  else (s.1, d)

/-- `get_occupied_entry`: the running minimum of the sequence numbers starts at 0. -/
def getOccupiedEntry (fifo : ℕ) (d : ChifDrvdata) : Option ℕ × ChifDrvdata :=
  let s := (List.range sharedMemChifDescriptorNum).foldl (occupiedStep fifo) ((none, 0), d)
  (s.1.1, s.2)

/-- One round of the first loop of `consume_packet`, with `non_empty_packets`. -/
def emptyStep (sendFifo : ℕ) (s : ℕ × ChifDrvdata) (i : ℕ) : ℕ × ChifDrvdata :=
  let (e, d) := s.2.getFifo (fifoAddr sendFifo i)
  if e.pending then
    if e.qwords.val = 0 then (s.1, d.setConsumed (fifoAddr sendFifo i)) else (s.1 + 1, d)
  else (s.1, d)

/-- `chif_queue_push` of a descriptor; the descriptor is read only when the
packet is accepted. -/
def pushDesc (d : ChifDrvdata) (a len : ℕ) : ChifDrvdata :=
  let r := d.chif24Queue.push (fun i => d.shmem ((a + i) % addressSpace)) len
  { (if r.1 = 0 then d.touch a len else d) with chif24Queue := r.2 }

/-- The body of the second loop of `consume_packet`: whatever the push says, the
entry is consumed. -/
def takeEntry (sendFifo sendDesc : ℕ) (d : ChifDrvdata) (i : ℕ) : ChifDrvdata :=
  let (e, d) := d.getFifo (fifoAddr sendFifo i)
  (pushDesc d (descAddr sendDesc e.descriptorNum) e.descLen).setConsumed (fifoAddr sendFifo i)

/-- The second loop of `consume_packet`; the first argument bounds its rounds. -/
def takeLoop (sendFifo sendDesc : ℕ) : ℕ → ChifDrvdata → ChifDrvdata
  | 0, d => d
  | fuel + 1, d =>
    match getOccupiedEntry sendFifo d with
    | (none, d) => d
    | (some i, d) => takeLoop sendFifo sendDesc fuel (takeEntry sendFifo sendDesc d i)

/-- Each round consumes one of the two entries, so the third finds none. -/
def takeRounds : ℕ := sharedMemChifDescriptorNum + 1

/-- `consume_packet`: how many entries were not empty, and the driver afterwards. -/
def consumePacket (d : ChifDrvdata) (channel : ℕ) : ℕ × ChifDrvdata :=
  let (sendFifo, d) := d.getCcb channel ccbSqFifo
  let (sendDesc, d) := d.getCcb channel ccbSqDesc
  let (nonEmptyPackets, d) :=
    (List.range sharedMemChifDescriptorNum).foldl (emptyStep sendFifo) (0, d)
  if nonEmptyPackets > 0 then
    (nonEmptyPackets, takeLoop sendFifo sendDesc takeRounds d)
  else (nonEmptyPackets, d)

/-- `wake_up_interruptible` on the wait queue of `channel`. -/
def wakeUpInterruptible (d : ChifDrvdata) (channel : ℕ) : ChifDrvdata :=
  { d with woken := d.woken ++ [channel] }

/-- The loop body of `chif_irq_handle`. -/
def irqStep (doorbell : ℕ) (d : ChifDrvdata) (i : ℕ) : ChifDrvdata :=
  if doorbell.testBit i then
    let (active, d) := activeCcb d i
    if active < 0 then d
    else
      let (n, d) := consumePacket d i
      if n > 0 ∧ d.waiting i = true then wakeUpInterruptible d i else d
  else d

/-- The order in which the handler looks at the channels. -/
def irqChannels : List ℕ := (List.range maxChannels).reverse

/-- `chif_irq_handle`. -/
def chifIrqHandle (d : ChifDrvdata) (doorbell : ℕ) : ChifDrvdata :=
  irqChannels.foldl (irqStep doorbell) d

/-! ### Sending -/

/-- `EIO`. -/
def eio : ℤ := 5

/-- The wait for the host to post a receive buffer; returns the `timeout` left.
`host t` is what the host does to the memory during the `msleep` that leaves
`timeout` at `t`. -/
def waitOccupied (host : ℕ → Shmem → Shmem) (recvFifo : ℕ) : ℕ → ChifDrvdata → ℕ × ChifDrvdata
  | 0, d => (0, d)
  | t + 1, d =>
    let d := { d with shmem := host t d.shmem }
    let (e, d) := d.getFifo recvFifo
    if e.occupied then (t, d) else waitOccupied host recvFifo t d

/-- The first look at `occupied`, and the wait if it is clear; 0 means timed out. -/
def awaitOccupied (host : ℕ → Shmem → Shmem) (recvFifo : ℕ) (d : ChifDrvdata) : ℕ × ChifDrvdata :=
  let (e, d) := d.getFifo recvFifo
  if e.occupied then (1, d) else waitOccupied host recvFifo 100 d

/-- `count` rounded up to whole qwords. -/
def roundLen (count : ℕ) : ℕ := if count % 8 ≠ 0 then count + 8 - count % 8 else count

/-- `recv_fifo[0].qwords = round_len >> 3`. -/
def postQwords (d : ChifDrvdata) (recvFifo count : ℕ) : ChifDrvdata :=
  let (e, d) := d.getFifo recvFifo
  d.setFifo recvFifo (e.setQwords (roundLen count / 8))

/-- `memset(&recv_desc[desc_idx], 0, round_len)`, `copy_from_user` of `buf`
and `consumed = 1`.  A faulting copy delivers `n` bytes and leaves zeros. -/
def fillDesc (d : ChifDrvdata) (recvFifo desc : ℕ) (buf : Bytes) (fault : Option ℕ) :
    ℤ × ChifDrvdata :=
  let d := { d.touch desc (roundLen buf.length) with
    shmem := write addressSpace d.shmem desc (List.replicate (roundLen buf.length) 0) }
  let delivered := match fault with
    | none => buf
    | some n => padTo buf.length (buf.take n)
  let d := { d.touch desc buf.length with shmem := write addressSpace d.shmem desc delivered }
  match fault with
  | some _ => (-eio, d)
  | none => (buf.length, d.setConsumed recvFifo)

/-- The end of `chif_write`: tell the host, if it wants to be told. -/
def ringHost (d : ChifDrvdata) (channel : ℕ) : ChifDrvdata :=
  let r := d.getCcb channel ccbDoorbellBase
  if r.1 ≠ 0 then { r.2 with outdoor := r.2.outdoor ++ [2 ^ channel] } else r.2

/-- `chif_write` once the receive entry is free: fill it and ring. -/
def deliver (d : ChifDrvdata) (channel recvFifo desc : ℕ) (buf : Bytes) (fault : Option ℕ) :
    ℤ × ChifDrvdata :=
  let r := fillDesc d recvFifo desc buf fault
  if r.1 < 0 then r else (r.1, ringHost r.2 channel)

/-- `chif_write` from `fifo_idx = 0` on. -/
def sendPacket (d : ChifDrvdata) (channel recvFifo recvDesc : ℕ) (buf : Bytes)
    (fault : Option ℕ) (host : ℕ → Shmem → Shmem) : ℤ × ChifDrvdata :=
  let descIdx := (d.getFifo recvFifo).1.descriptorNum
  let w := awaitOccupied host recvFifo (postQwords d recvFifo buf.length)
  if w.1 = 0 then (-eio, w.2)
  else if buf.length > sharedMemChifDescriptorSize then (-eio, w.2)
  else if (w.2.getFifo recvFifo).1.consumed then (-eio, (w.2.getFifo recvFifo).2)
  else deliver (w.2.getFifo recvFifo).2 channel recvFifo (descAddr recvDesc descIdx) buf fault

/-- `p_ccb->rq_ctrl |= CCB_CTRL_ACTIVE_MASK`, if it is not set. -/
def setRqActive (d : ChifDrvdata) (channel rqCtrl : ℕ) : ChifDrvdata :=
  if rqCtrl &&& ccbCtrlActiveMask = 0 then
    d.setCcb channel ccbRqCtrl (rqCtrl ||| ccbCtrlActiveMask)
  else d

/-- `chif_write` of the bytes `buf`. -/
def chifWrite (d : ChifDrvdata) (channel : ℕ) (buf : Bytes) (fault : Option ℕ)
    (host : ℕ → Shmem → Shmem) : ℤ × ChifDrvdata :=
  if channel ≠ channelSharemem then (-eio, d)
  else
    let recvFifo := d.getCcb channel ccbRqFifo
    let recvDesc := recvFifo.2.getCcb channel ccbRqDesc
    let rqCtrl := recvDesc.2.getCcb channel ccbRqCtrl
    if rqCtrl.1 &&& ccbCtrlGoMask = 0 then
      (-eio, rqCtrl.2.setCcb channel ccbRqCtrl (rqCtrl.1 &&& (2 ^ 64 - 1 - ccbCtrlActiveMask)))
    else
      sendPacket (setRqActive rqCtrl.2 channel rqCtrl.1) channel recvFifo.1 recvDesc.1 buf fault
        host

end Chif
