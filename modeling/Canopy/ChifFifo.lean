/-
The packet queue of the CHIF driver as a bounded FIFO.

The abstract queue is a list of at most 16 packets of at most 4096 bytes.  The
ring buffer is run beside it: each call of `chif_queue_push` or
`chif_queue_pop` returns what the list returns and leaves a ring that stands for
the list left.

* `bounded_push`, `bounded_pop` — the list stays within its bounds;
* `push_refines`, `pop_refines` — one call, any packet, any buffer length;
* `run_refines` — every sequence of calls from the initial state;
* `chifQueue_bounded_fifo` — the indices, and the results of a whole run.
-/
import Canopy.ChifQueue
import Canopy.Run

namespace Chif

open RingIndex Run

/-! ### The abstract queue -/

namespace Fifo

/-- Append, unless full or oversize. -/
def push (l : List Bytes) (p : Bytes) : ℤ × List Bytes :=
  if l.length = sharedMemChifQueueSize then (-queueRcFull, l)
  else if p.length > sharedMemChifDescriptorSize then (-queueRcPktOverSize, l)
  else (0, l ++ [p])

/-- Take the oldest packet, if there is one and the buffer holds it. -/
def pop (l : List Bytes) (len : ℕ) : ℤ × Option Bytes × List Bytes :=
  match l with
  | [] => (-queueRcEmpty, none, [])
  | p :: rest =>
    if len < p.length then (-queueRcBufTooSmall, none, p :: rest)
    else (p.length, some p, rest)

/-- At most 16 packets of at most 4096 bytes. -/
structure Bounded (l : List Bytes) : Prop where
  length_le : l.length ≤ sharedMemChifQueueSize
  packet_le : ∀ p ∈ l, p.length ≤ sharedMemChifDescriptorSize

theorem bounded_nil : Bounded [] where
  length_le := Nat.zero_le _
  packet_le := fun _ h => absurd h List.not_mem_nil

theorem bounded_push {l : List Bytes} (h : Bounded l) (p : Bytes) : Bounded (push l p).2 := by
  have hle := h.length_le
  rw [push]
  split
  · exact h
  · split
    · exact h
    · next hne hfit =>
      refine ⟨?_, ?_⟩
      · rw [List.length_append, List.length_singleton]
        omega
      · intro p' hp'
        rcases List.mem_append.mp hp' with hold | hnew
        · exact h.packet_le p' hold
        · rw [List.mem_singleton.mp hnew]
          omega

theorem bounded_pop {l : List Bytes} (h : Bounded l) (len : ℕ) : Bounded (pop l len).2.2 := by
  cases l with
  | nil => exact bounded_nil
  | cons p rest =>
    rw [pop]
    split
    · exact h
    · refine ⟨?_, fun p' hp' => h.packet_le p' (List.mem_cons_of_mem _ hp')⟩
      have hle := h.length_le
      rw [List.length_cons] at hle
      show rest.length ≤ _
      omega

end Fifo

/-! ### One call -/

namespace ChifQueue

/-- What the caller of `chif_queue_pop` sees through the pointer it is given: the
returned number of bytes of the slot. -/
def popBytes (r : ℤ × Option ℕ × ChifQueue) : Option Bytes :=
  r.2.1.map fun slot => (List.range r.1.toNat).map (r.2.2.pkt slot)

private theorem packet_length (q : ChifQueue) (s : ℕ) : (q.packet s).length = q.pktLen s := by
  rw [packet, List.length_map, List.length_range]

theorem packets_length (q : ChifQueue) : q.packets.length = q.size := by
  rw [packets, List.length_map, List.length_range]

private theorem packets_bounded {q : ChifQueue} (h : Wf q) : Fifo.Bounded q.packets where
  length_le := by
    rw [packets_length]
    exact h.size_le
  packet_le := by
    intro p hp
    rw [packets] at hp
    obtain ⟨i, -, rfl⟩ := List.mem_map.mp hp
    rw [packet_length]
    exact h.pktLen_le _

/-- The oldest packet lies in the slot at the head. -/
theorem packets_eq_cons {q : ChifQueue} (h : Wf q) (hpos : 0 < q.size) :
    q.packets = q.packet q.head :: { q with
      size := q.size - 1
      head := next q.maxSize q.head }.packets := by
  have hpop := packets_pop h hpos (Nat.le_refl _)
  rwa [pop_of_pos h hpos (Nat.le_refl _)] at hpop

theorem push_refines {q : ChifQueue} (h : Wf q) (src : ℕ → UInt8) (len : ℕ) :
    ((chifQueuePush q src len).1, (chifQueuePush q src len).2.packets)
      = Fifo.push q.packets ((List.range len).map src) := by
  have hlen : ((List.range len).map src).length = len := by
    rw [List.length_map, List.length_range]
  by_cases hacc : q.Accepts len
  · obtain ⟨hsize, hfit⟩ := hacc
    have hrc := (push_rc h src len).mpr ⟨hsize, hfit⟩
    rw [packets_push h src ⟨hsize, hfit⟩, hrc]
    rw [h.maxSize_eq] at hsize
    rw [h.maxPktLen_eq] at hfit
    rw [Fifo.push, packets_length, hlen, if_neg (by omega), if_neg (by omega)]
  · rw [push_of_not_accepts h src hacc, Fifo.push, packets_length, hlen, chifQueuePush,
      h.maxSize_eq, h.maxPktLen_eq]
    have hsize := h.size_le
    by_cases hfull : q.size = sharedMemChifQueueSize
    · rw [if_pos hfull, if_pos hfull]
    · -- not full, so the packet is what was refused
      have hover : len > sharedMemChifDescriptorSize := by
        rw [Accepts, h.maxSize_eq, h.maxPktLen_eq] at hacc
        omega
      rw [if_neg hfull, if_neg hfull, if_pos hover, if_pos hover]

theorem pop_refines {q : ChifQueue} (h : Wf q) (len : ℕ) :
    ((chifQueuePop q len).1, popBytes (chifQueuePop q len), (chifQueuePop q len).2.2.packets)
      = Fifo.pop q.packets len := by
  rcases Nat.eq_zero_or_pos q.size with hempty | hpos
  · have hnil : q.packets = [] := List.length_eq_zero_iff.mp (by rw [packets_length, hempty])
    rw [pop_of_empty hempty, hnil]
    rfl
  · rw [packets_eq_cons h hpos, Fifo.pop, packet_length, chifQueuePop,
      if_neg (Nat.ne_of_gt hpos)]
    by_cases hshort : len < q.pktLen q.head
    · rw [if_pos hshort, if_pos hshort, ← packets_eq_cons h hpos]
      rfl
    · rw [if_neg hshort, if_neg hshort]
      rfl

/-! ### Whole runs -/

/-- A call. -/
inductive Call where
  | push (pkt : ℕ → UInt8) (len : ℕ)
  | pop (len : ℕ)

/-- What a call returns: the code and, for a pop, the bytes. -/
abbrev Result := ℤ × Option Bytes

def call (q : ChifQueue) : Call → ChifQueue
  | .push pkt len => (chifQueuePush q pkt len).2
  | .pop len => (chifQueuePop q len).2.2

def result (q : ChifQueue) : Call → Result
  | .push pkt len => ((chifQueuePush q pkt len).1, none)
  | .pop len => ((chifQueuePop q len).1, popBytes (chifQueuePop q len))

/-- The results of a sequence of calls. -/
def results (q : ChifQueue) (cs : List Call) : List Result :=
  (visits call q cs).map fun v => result v.1 v.2

end ChifQueue

namespace Fifo

open ChifQueue (Call Result)

def call (l : List Bytes) : Call → List Bytes
  | .push pkt len => (push l ((List.range len).map pkt)).2
  | .pop len => (pop l len).2.2

def result (l : List Bytes) : Call → Result
  | .push pkt len => ((push l ((List.range len).map pkt)).1, none)
  | .pop len => ((pop l len).1, (pop l len).2.1)

def results (l : List Bytes) (cs : List Call) : List Result :=
  (visits call l cs).map fun v => result v.1 v.2

end Fifo

namespace ChifQueue

private theorem wf_call {q : ChifQueue} (h : Wf q) (c : Call) : Wf (call q c) := by
  cases c with
  | push pkt len => exact wf_push h pkt len
  | pop len => exact wf_pop h len

/-- **One call** of the ring and of the list. -/
theorem call_refines {q : ChifQueue} (h : Wf q) (c : Call) :
    result q c = Fifo.result q.packets c ∧ (call q c).packets = Fifo.call q.packets c := by
  cases c with
  | push pkt len =>
    have hpush := push_refines h pkt len
    rw [Prod.ext_iff] at hpush
    exact ⟨congrArg (·, none) hpush.1, hpush.2⟩
  | pop len =>
    have hpop := pop_refines h len
    rw [Prod.ext_iff, Prod.ext_iff] at hpop
    exact ⟨Prod.ext hpop.1 hpop.2.1, hpop.2.2⟩

/-- **A sequence of calls** of the ring and of the list. -/
theorem run_refines {q : ChifQueue} (h : Wf q) (cs : List Call) :
    results q cs = Fifo.results q.packets cs ∧
      (run call q cs).packets = run Fifo.call q.packets cs := by
  induction cs generalizing q with
  | nil => exact ⟨rfl, rfl⟩
  | cons c cs ih =>
    obtain ⟨hres, hcall⟩ := call_refines h c
    obtain ⟨ihres, ihrun⟩ := ih (wf_call h c)
    rw [hcall] at ihres ihrun
    refine ⟨?_, ihrun⟩
    show result q c :: results (call q c) cs = _
    rw [hres, ihres]
    rfl

/-- **The ring is a bounded FIFO**: after any calls from the initial state its
indices are in range and it stands for the list the same calls leave, and the
calls return what they return on the list. -/
theorem chifQueue_bounded_fifo (cs : List Call) :
    let q := run call init cs
    let l := run Fifo.call [] cs
    q.head < sharedMemChifQueueSize ∧ q.tail < sharedMemChifQueueSize ∧
      q.size ≤ sharedMemChifQueueSize ∧ q.size = l.length ∧
      q.tail = (q.head + q.size) % sharedMemChifQueueSize ∧
      q.packets = l ∧ Fifo.Bounded l ∧ results init cs = Fifo.results [] cs := by
  intro q l
  have hwf : Wf q := run_invariant (I := Wf) (fun _ c hq => wf_call hq c) wf_init cs
  obtain ⟨hres, hrun⟩ := run_refines wf_init cs
  have hl : q.packets = l := hrun
  have htail := hwf.tail_eq
  rw [slot] at htail
  refine ⟨hwf.head_lt, ?_, hwf.size_le, ?_, htail, hl, ?_, hres⟩
  · rw [htail]
    exact Nat.mod_lt _ (by decide)
  · rw [← hl, packets_length]
  · rw [← hl]
    exact packets_bounded hwf

end ChifQueue

end Chif
