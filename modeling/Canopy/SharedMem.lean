/-
The memory the CHIF driver shares with the host (`struct ccb`,
`struct chif_fifo_entry`, `struct chif_desc_entry` of gxp-chif).

Addresses are byte offsets from `shmem`.  The GXP is a 32-bit machine, so
`shmem + offset` is taken modulo 2 ^ 32; the window itself is the first 1 MiB.
The bit-fields of a FIFO entry share its first 32-bit word.
-/
import Canopy.WrapMem
import Canopy.ChifQueue

namespace Chif

open Bytes WrapMem

def maxChannels : ℕ := 32
def channelSharemem : ℕ := 24
def sharedMemSize : ℕ := 0x100000

theorem channelSharemem_lt : channelSharemem < maxChannels := by decide

/-- Size of the address space pointers live in. -/
def addressSpace : ℕ := 2 ^ 32

/-- The byte at each address. -/
abbrev Shmem := ℕ → UInt8

/-! ### FIFO entries -/

/-- The bit-fields of `struct chif_fifo_entry`. -/
structure FifoEntry where
  qwords : Fin 1024
  descriptorNum : Fin 4096
  consumed : Bool
  occupied : Bool
  sequenceNum : Fin 256
  deriving DecidableEq, Repr

namespace FifoEntry

def ofNat (w : ℕ) : FifoEntry where
  qwords := Fin.ofNat 1024 w
  descriptorNum := Fin.ofNat 4096 (w >>> 10)
  consumed := w.testBit 22
  occupied := w.testBit 23
  sequenceNum := Fin.ofNat 256 (w >>> 24)

/-- `fifo[i].qwords = n`, cut to the 10 bits of the field. -/
def setQwords (e : FifoEntry) (n : ℕ) : FifoEntry := { e with qwords := Fin.ofNat 1024 n }

def toNat (e : FifoEntry) : ℕ :=
  e.qwords + 2 ^ 10 * e.descriptorNum + 2 ^ 22 * e.consumed.toNat + 2 ^ 23 * e.occupied.toNat
    + 2 ^ 24 * e.sequenceNum

theorem toNat_lt (e : FifoEntry) : e.toNat < 256 ^ 4 := by
  have hc := Bool.toNat_le e.consumed
  have ho := Bool.toNat_le e.occupied
  have hq := e.qwords.isLt
  have hd := e.descriptorNum.isLt
  have hs := e.sequenceNum.isLt
  rw [toNat]
  omega

theorem ofNat_toNat (e : FifoEntry) : ofNat e.toNat = e := by
  obtain ⟨q, d, c, o, s⟩ := e
  have hc := Bool.toNat_le c
  have ho := Bool.toNat_le o
  have hq := q.isLt
  have hd := d.isLt
  have hs := s.isLt
  simp only [ofNat, toNat, mk.injEq, Fin.ext_iff, Fin.val_ofNat, Nat.shiftRight_eq_div_pow,
    Nat.testBit_eq_decide_div_mod_eq]
  refine ⟨by omega, by omega, ?_, ?_, by omega⟩
  · cases c with
    | true => simp only [Bool.toNat_true] at *; simp; omega
    | false => simp only [Bool.toNat_false] at *; simp; omega
  · cases o with
    | true => simp only [Bool.toNat_true] at *; simp; omega
    | false => simp only [Bool.toNat_false] at *; simp; omega

/-- Posted by the host and not yet taken by the driver. -/
def pending (e : FifoEntry) : Bool := e.occupied && !e.consumed

/-- A pending entry with a packet in it. -/
def nonEmpty (e : FifoEntry) : Bool := e.pending && e.qwords.val ≠ 0

/-- An entry `get_occupied_entry` picks: only sequence number 0 passes its test. -/
def eligible (e : FifoEntry) : Bool := e.pending && e.sequenceNum.val = 0

/-- `send_fifo[i].qwords << 3`. -/
def descLen (e : FifoEntry) : ℕ := e.qwords * 8

end FifoEntry

/-! ### Channel control blocks -/

/-- `sizeof(struct ccb)`. -/
def ccbSize : ℕ := 128

def ccbSqFifo : ℕ := 0
def ccbSqDesc : ℕ := 8
def ccbSqCtrl : ℕ := 16
def ccbRqFifo : ℕ := 24
def ccbRqDesc : ℕ := 32
def ccbRqCtrl : ℕ := 40
def ccbDoorbellBase : ℕ := 48

def ccbCtrlGoMask : ℕ := 0x80000000
def ccbCtrlActiveMask : ℕ := 0x40000000

/-- `sizeof(struct chif_fifo_entry)`. -/
def fifoEntrySize : ℕ := 8

/-- A u64 field of `ccb_table[channel]`. -/
def ccbField (m : Shmem) (channel field : ℕ) : ℕ :=
  toLE (read addressSpace m (ccbSize * channel + field) 8)

/-- The FIFO entry at an address. -/
def fifoEntry (m : Shmem) (a : ℕ) : FifoEntry := .ofNat (toLE (read addressSpace m a 4))

/-- `fifo[i]` is written back with new bit-fields. -/
def setFifoEntry (m : Shmem) (a : ℕ) (e : FifoEntry) : Shmem :=
  write addressSpace m a (ofLE 4 e.toNat)

theorem fifoEntry_set_self (m : Shmem) (a : ℕ) (e : FifoEntry) :
    fifoEntry (setFifoEntry m a e) a = e := by
  have hlen : (ofLE 4 e.toNat).length = 4 := ofLE_length 4 _
  have hfit : (ofLE 4 e.toNat).length ≤ addressSpace := by
    rw [hlen, addressSpace]
    decide
  have hread := read_write_self m a hfit
  rw [hlen] at hread
  rw [fifoEntry, setFifoEntry, hread, toLE_ofLE_of_lt e.toNat_lt, FifoEntry.ofNat_toNat]

/-- Writing entry 0 leaves entry 1 alone. -/
theorem fifoEntry_set_zero (m : Shmem) (fifo : ℕ) (e : FifoEntry) :
    fifoEntry (setFifoEntry m fifo e) (fifo + fifoEntrySize)
      = fifoEntry m (fifo + fifoEntrySize) := by
  rw [fifoEntry, setFifoEntry, read_write_of_offset, fifoEntry]
  intro j hj
  rw [ofLE_length, Nat.add_assoc, offset_add (by rw [addressSpace, fifoEntrySize]; omega),
    fifoEntrySize]
  omega

/-- Writing entry 1 leaves entry 0 alone. -/
theorem fifoEntry_set_one (m : Shmem) (fifo : ℕ) (e : FifoEntry) :
    fifoEntry (setFifoEntry m (fifo + fifoEntrySize) e) fifo = fifoEntry m fifo := by
  rw [fifoEntry, setFifoEntry, read_write_of_offset, fifoEntry]
  intro j hj
  -- seen from entry 1, entry 0 lies at the far end of the address space
  have hfar : (fifo + j) % addressSpace
      = (fifo + fifoEntrySize + (addressSpace - fifoEntrySize + j)) % addressSpace := by
    have : fifo + fifoEntrySize + (addressSpace - fifoEntrySize + j) = fifo + j + addressSpace := by
      rw [addressSpace, fifoEntrySize]
      omega
    rw [this, Nat.add_mod_right]
  rw [hfar, ofLE_length, offset_add (by rw [addressSpace, fifoEntrySize]; omega), addressSpace,
    fifoEntrySize]
  omega

end Chif
