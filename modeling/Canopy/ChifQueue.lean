/-
The packet queue of the CHIF driver (`struct chif_queue`, `chif_queue_push`,
`chif_queue_pop` of gxp-chif).

The queue is a ring of 16 slots of 4096 bytes.  `packets` reads it as the list
of packets it stands for: a push appends to that list (`packets_push`) and a pop
takes its first packet off (`packets_pop`).  The bytes of a popped packet stay
where they are until the slot is used again.
-/
import Canopy.Bytes
import Canopy.RingIndex

namespace Chif

open RingIndex

def sharedMemChifDescriptorNum : ℕ := 2
def sharedMemChifDescriptorSize : ℕ := 4096
def sharedMemChifQueueSize : ℕ := 16

/-- The entries of a FIFO in the order the loops look at them. -/
theorem range_descriptorNum : List.range sharedMemChifDescriptorNum = [0, 1] := rfl

/-- `pkt slot i` is byte `i` of a slot. -/
structure ChifQueue where
  head : ℕ
  tail : ℕ
  size : ℕ
  maxSize : ℕ
  pkt : ℕ → ℕ → UInt8
  pktLen : ℕ → ℕ
  maxPktLen : ℕ

def queueRcFull : ℤ := 1
def queueRcPktOverSize : ℤ := 2
def queueRcEmpty : ℤ := 3
def queueRcBufTooSmall : ℤ := 4

/-- The queue as `chif_probe` leaves it. -/
def ChifQueue.init : ChifQueue where
  head := 0
  tail := 0
  size := 0
  maxSize := sharedMemChifQueueSize
  pkt := fun _ _ => 0
  pktLen := fun _ => 0
  maxPktLen := sharedMemChifDescriptorSize

/-- `memcpy(q->pkt[slot], pkt, len)`. -/
def ChifQueue.fill (q : ChifQueue) (slot : ℕ) (pkt : ℕ → UInt8) (len : ℕ) : ChifQueue :=
  { q with pkt := fun s i => if s = slot ∧ i < len then pkt i else q.pkt s i }

/-- `chif_queue_push`: the return value and the queue. -/
def chifQueuePush (q : ChifQueue) (pkt : ℕ → UInt8) (len : ℕ) : ℤ × ChifQueue :=
  if q.size = q.maxSize then (-queueRcFull, q)
  else if len > q.maxPktLen then (-queueRcPktOverSize, q)
  else
    (0, { q.fill q.tail pkt len with
      pktLen := fun s => if s = q.tail then len else q.pktLen s
      size := q.size + 1
      tail := next q.maxSize q.tail })

/-- Return value, the slot the caller's pointer is set to (if it is), and the
queue. -/
def chifQueuePop (q : ChifQueue) (len : ℕ) : ℤ × Option ℕ × ChifQueue :=
  if q.size = 0 then (-queueRcEmpty, none, q)
  else if len < q.pktLen q.head then (-queueRcBufTooSmall, none, q)
  else
    (q.pktLen q.head, some q.head,
      { q with size := q.size - 1, head := next q.maxSize q.head })

namespace ChifQueue

/-! ### The list of packets -/

/-- What every queue reached from `init` keeps. -/
structure Wf (q : ChifQueue) : Prop where
  maxSize_eq : q.maxSize = sharedMemChifQueueSize
  maxPktLen_eq : q.maxPktLen = sharedMemChifDescriptorSize
  head_lt : q.head < sharedMemChifQueueSize
  size_le : q.size ≤ sharedMemChifQueueSize
  tail_eq : q.tail = slot sharedMemChifQueueSize q.head q.size
  pktLen_le : ∀ s, q.pktLen s ≤ sharedMemChifDescriptorSize

theorem wf_init : Wf init where
  maxSize_eq := rfl
  maxPktLen_eq := rfl
  head_lt := by decide
  size_le := by decide
  tail_eq := rfl
  pktLen_le := fun _ => Nat.zero_le _

/-- The packet in a slot. -/
def packet (q : ChifQueue) (s : ℕ) : Bytes := (List.range (q.pktLen s)).map (q.pkt s)

/-- The queued packets, oldest first. -/
def packets (q : ChifQueue) : List Bytes :=
  (List.range q.size).map fun i => q.packet (slot q.maxSize q.head i)

/-- A push is accepted. -/
def Accepts (q : ChifQueue) (len : ℕ) : Prop := q.size < q.maxSize ∧ len ≤ q.maxPktLen

instance (q : ChifQueue) (len : ℕ) : Decidable (q.Accepts len) := by
  unfold Accepts
  infer_instance

theorem push_of_not_accepts {q : ChifQueue} (h : Wf q) (src : ℕ → UInt8) {len : ℕ}
    (hacc : ¬q.Accepts len) : (chifQueuePush q src len).2 = q := by
  rw [chifQueuePush]
  split
  · rfl
  · next hfull =>
    have hlen : len > q.maxPktLen := by
      have hsize := h.size_le
      rw [Accepts, not_and_or] at hacc
      rw [← h.maxSize_eq] at hsize
      omega
    rw [if_pos hlen]

theorem push_of_accepts {q : ChifQueue} (src : ℕ → UInt8) {len : ℕ} (hacc : q.Accepts len) :
    (chifQueuePush q src len).2 = { q.fill q.tail src len with
      pktLen := fun s => if s = q.tail then len else q.pktLen s
      size := q.size + 1
      tail := next q.maxSize q.tail } := by
  obtain ⟨hsize, hlen⟩ := hacc
  rw [chifQueuePush, if_neg (by omega), if_neg (by omega)]

theorem wf_push {q : ChifQueue} (h : Wf q) (src : ℕ → UInt8) (len : ℕ) :
    Wf (chifQueuePush q src len).2 := by
  by_cases hacc : q.Accepts len
  · have hsize := hacc.1
    have hlen := hacc.2
    rw [h.maxSize_eq] at hsize
    rw [h.maxPktLen_eq] at hlen
    rw [push_of_accepts src hacc]
    refine ⟨h.maxSize_eq, h.maxPktLen_eq, h.head_lt, hsize, ?_, ?_⟩
    · show next q.maxSize q.tail = _
      rw [h.maxSize_eq, h.tail_eq, next_slot (by decide)]
      rfl
    · intro s
      show (if s = q.tail then len else q.pktLen s) ≤ _
      split
      · exact hlen
      · exact h.pktLen_le s
  · rw [push_of_not_accepts h src hacc]
    exact h

/-- The return code says whether the packet was accepted. -/
theorem push_rc {q : ChifQueue} (h : Wf q) (src : ℕ → UInt8) (len : ℕ) :
    (chifQueuePush q src len).1 = 0 ↔ q.Accepts len := by
  have hsize := h.size_le
  rw [← h.maxSize_eq] at hsize
  have hfull : -queueRcFull ≠ 0 := by decide
  have hover : -queueRcPktOverSize ≠ 0 := by decide
  rw [chifQueuePush, Accepts]
  split
  · exact ⟨fun h0 => absurd h0 hfull, fun hacc => by omega⟩
  · split
    · exact ⟨fun h0 => absurd h0 hover, fun hacc => by omega⟩
    · constructor
      · intro _
        omega
      · intro _
        rfl

theorem push_size {q : ChifQueue} (h : Wf q) (src : ℕ → UInt8) (len : ℕ) :
    (chifQueuePush q src len).2.size = q.size + if q.Accepts len then 1 else 0 := by
  by_cases hacc : q.Accepts len
  · rw [push_of_accepts src hacc, if_pos hacc]
  · rw [push_of_not_accepts h src hacc, if_neg hacc, Nat.add_zero]

/-- A pop from a queue whose packets fit the buffer fails only when it is empty. -/
theorem pop_of_pos {q : ChifQueue} (h : Wf q) (hpos : 0 < q.size) {len : ℕ}
    (hlen : sharedMemChifDescriptorSize ≤ len) :
    chifQueuePop q len = (((q.pktLen q.head : ℕ) : ℤ), some q.head,
      { q with size := q.size - 1, head := next q.maxSize q.head }) := by
  have hle := h.pktLen_le q.head
  rw [chifQueuePop, if_neg (by omega), if_neg (by omega)]

theorem pop_of_empty {q : ChifQueue} (h : q.size = 0) (len : ℕ) :
    chifQueuePop q len = (-queueRcEmpty, none, q) := by
  rw [chifQueuePop, if_pos h]

theorem wf_pop {q : ChifQueue} (h : Wf q) (len : ℕ) : Wf (chifQueuePop q len).2.2 := by
  rw [chifQueuePop]
  split
  · exact h
  · next hne =>
    split
    · exact h
    · have hsize := h.size_le
      have hle : q.size - 1 ≤ sharedMemChifQueueSize := by omega
      refine ⟨h.maxSize_eq, h.maxPktLen_eq, ?_, hle, ?_, h.pktLen_le⟩
      · show next q.maxSize q.head < _
        rw [h.maxSize_eq]
        exact next_lt h.head_lt
      · show q.tail = slot _ (next q.maxSize q.head) (q.size - 1)
        -- the tail stays: one element less, counted from one slot further
        have hsucc : q.size - 1 + 1 = q.size := by omega
        rw [h.maxSize_eq, slot_next h.head_lt, hsucc, h.tail_eq]

/-! ### Push and pop on the list -/

/-- A push appends one packet. -/
theorem packets_push {q : ChifQueue} (h : Wf q) (src : ℕ → UInt8) {len : ℕ}
    (hacc : q.Accepts len) :
    (chifQueuePush q src len).2.packets = q.packets ++ [(List.range len).map src] := by
  have hsize := hacc.1
  rw [h.maxSize_eq] at hsize
  have htail : slot q.maxSize q.head q.size = q.tail := by
    rw [h.maxSize_eq, h.tail_eq]
  rw [push_of_accepts src hacc, packets, packets]
  show List.map _ (List.range (q.size + 1)) = _
  rw [List.range_succ, List.map_append]
  congr 1
  · refine List.map_congr_left fun i hi => ?_
    have hi' := List.mem_range.mp hi
    -- an occupied slot is not the one written
    have hne : slot q.maxSize q.head i ≠ q.tail := by
      intro heq
      rw [← htail, h.maxSize_eq] at heq
      have := slot_inj (by omega) hsize heq
      omega
    show List.map (fun j => if slot q.maxSize q.head i = q.tail ∧ j < len then src j
      else q.pkt (slot q.maxSize q.head i) j) (List.range (if slot q.maxSize q.head i = q.tail
      then len else q.pktLen (slot q.maxSize q.head i))) = _
    simp only [hne, false_and, if_false]
    rfl
  · rw [List.map_singleton]
    show [List.map (fun j => if slot q.maxSize q.head q.size = q.tail ∧ j < len then src j
      else q.pkt (slot q.maxSize q.head q.size) j) (List.range (if slot q.maxSize q.head q.size
      = q.tail then len else q.pktLen (slot q.maxSize q.head q.size)))] = _
    rw [htail, if_pos rfl]
    congr 1
    refine List.map_congr_left fun j hj => ?_
    rw [if_pos ⟨rfl, List.mem_range.mp hj⟩]

/-- A pop takes the first packet off. -/
theorem packets_pop {q : ChifQueue} (h : Wf q) (hpos : 0 < q.size) {len : ℕ}
    (hlen : sharedMemChifDescriptorSize ≤ len) :
    q.packets = q.packet q.head :: (chifQueuePop q len).2.2.packets := by
  -- the first of the `n + 1` slots is `head`, the others move up by one
  obtain ⟨n, hn⟩ : ∃ n, q.size = n + 1 := ⟨q.size - 1, by omega⟩
  rw [pop_of_pos h hpos hlen, packets, packets, hn, List.range_succ_eq_map, List.map_cons,
    h.maxSize_eq, slot_zero h.head_lt, List.map_map]
  congr 1
  refine List.map_congr_left fun i _ => ?_
  show q.packet (slot _ q.head (i + 1)) = q.packet (slot _ (next _ q.head) i)
  rw [slot_next h.head_lt]

end ChifQueue

/-- A queue as the driver holds it: reached from `init` by pushes and pops. -/
abbrev PacketQueue := {q : ChifQueue // q.Wf}

namespace PacketQueue

def init : PacketQueue := ⟨.init, ChifQueue.wf_init⟩

def push (q : PacketQueue) (pkt : ℕ → UInt8) (len : ℕ) : ℤ × PacketQueue :=
  ((chifQueuePush q.1 pkt len).1, ⟨(chifQueuePush q.1 pkt len).2, ChifQueue.wf_push q.2 pkt len⟩)

def pop (q : PacketQueue) (len : ℕ) : ℤ × Option ℕ × PacketQueue :=
  ((chifQueuePop q.1 len).1, (chifQueuePop q.1 len).2.1,
    ⟨(chifQueuePop q.1 len).2.2, ChifQueue.wf_pop q.2 len⟩)

end PacketQueue

end Chif
