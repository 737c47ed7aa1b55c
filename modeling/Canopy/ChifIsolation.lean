/-
Does `chif_read` deliver packets of channel 24 only?

There is one queue for all channels.  `delivered` pairs the packets userspace
got with the FIFO entries they were taken from, and `backlog` are the entries
whose packets are still queued.

* `delivered_packets` — the pairing is right;
* `safe_iff` — a state from which no read ever delivers a packet of another channel;
* `isolated_iff` — the runs that keep the channels apart.
-/
import Canopy.ChifFlow

namespace Chif

open Bytes

namespace ChifFlow

/-! ### Where a packet came from -/

/-- The entries whose packets were popped. -/
def popped (s : ChifFlow) : List Taken := (accepted s.taken).take s.reads.length

/-- The entries whose packets userspace got. -/
def delivered (s : ChifFlow) : List Taken :=
  ((s.popped.zip s.reads).filter fun p => p.2.2).map Prod.fst

/-- The entries whose packets are still in the queue. -/
def backlog (s : ChifFlow) : List Taken := (accepted s.taken).drop s.reads.length

private theorem popped_append_backlog (s : ChifFlow) : s.popped ++ s.backlog = accepted s.taken :=
  List.take_append_drop ..

/-- Every packet popped so far was accepted before. -/
theorem Inv.reads_le {s : ChifFlow} (h : s.Inv) : s.reads.length ≤ (accepted s.taken).length := by
  have hlen := congrArg List.length h.flow
  rw [List.length_map, List.length_append, List.length_map] at hlen
  omega

theorem Inv.popped_length {s : ChifFlow} (h : s.Inv) : s.popped.length = s.reads.length := by
  rw [popped, List.length_take, Nat.min_eq_left h.reads_le]

/-- The entries are those of the packets popped, and of the packets queued. -/
theorem Inv.packets_eq {s : ChifFlow} (h : s.Inv) :
    s.popped.map Taken.packet = s.reads.map Prod.fst ∧ s.backlog.map Taken.packet = s.queued := by
  have hflow := h.flow
  rw [← popped_append_backlog, List.map_append] at hflow
  exact List.append_inj hflow (by rw [List.length_map, List.length_map, h.popped_length])

/-- Pairing entries with reads finds the packets that were delivered. -/
theorem zip_filter_packets : ∀ {ts : List Taken} {rs : List (Bytes × Bool)},
    ts.map Taken.packet = rs.map Prod.fst →
      ((ts.zip rs).filter fun p => p.2.2).map (fun p => p.1.packet)
        = (rs.filter Prod.snd).map Prod.fst
  | _, [], _ => by simp
  | [], _ :: _, h => by simp at h
  | t :: ts, r :: rs, h => by
    rw [List.map_cons, List.map_cons, List.cons_eq_cons] at h
    obtain ⟨hhead, htail⟩ := h
    have ih := zip_filter_packets htail
    rw [List.zip_cons_cons]
    cases hok : r.2 with
    | true =>
      rw [List.filter_cons_of_pos (by exact hok), List.filter_cons_of_pos hok, List.map_cons,
        List.map_cons, ih, hhead]
    | false =>
      rw [List.filter_cons_of_neg (by simp [hok]), List.filter_cons_of_neg (by simp [hok]), ih]

/-- **The delivered packets are those of the entries `delivered` names.** -/
theorem delivered_packets {s : ChifFlow} (h : s.Inv) :
    s.delivered.map Taken.packet = s.returned := by
  rw [delivered, List.map_map, returned]
  exact zip_filter_packets h.packets_eq.1

/-! ### What a step does to the pairing -/

private theorem delivered_irq {s : ChifFlow} (h : s.Inv) (doorbell : ℕ) :
    (step s (.irq doorbell)).delivered = s.delivered ∧
      (step s (.irq doorbell)).backlog = s.backlog ++ accepted (irqTaken s.driver doorbell) := by
  have hle := h.reads_le
  have htaken : accepted (step s (.irq doorbell)).taken
      = accepted s.taken ++ accepted (irqTaken s.driver doorbell) := accepted_append ..
  have hreads : (step s (.irq doorbell)).reads = s.reads := rfl
  have hpopped : (step s (.irq doorbell)).popped = s.popped := by
    rw [popped, htaken, hreads, List.take_append_of_le_length hle, popped]
  constructor
  · rw [delivered, hpopped, hreads, delivered]
  · rw [backlog, htaken, hreads, List.drop_append_of_le_length hle, backlog]

/-- A read changes nothing, or takes the oldest entry off the backlog. -/
theorem delivered_read {s : ChifFlow} (h : s.Inv) (c : ReadCall) (fault : Bool) :
    ((chifRead s.driver.chif24Queue c fault).popped = none ∧
      (step s (.read c fault)).delivered = s.delivered ∧
        (step s (.read c fault)).backlog = s.backlog) ∨
      ∃ t ok, s.backlog = t :: (step s (.read c fault)).backlog ∧
        (chifRead s.driver.chif24Queue c fault).popped = some (t.packet, ok) ∧
        (step s (.read c fault)).delivered = s.delivered ++ if ok then [t] else [] := by
  have htaken : accepted (step s (.read c fault)).taken = accepted s.taken := rfl
  have hreads : (step s (.read c fault)).reads
      = s.reads ++ (chifRead s.driver.chif24Queue c fault).popped.toList := rfl
  rcases chifRead_cases s.driver.chif24Queue c fault with ⟨hnone, -⟩ | ⟨packet, ok, hsome, hpackets⟩
  · left
    rw [hnone, Option.toList_none, List.append_nil] at hreads
    rw [delivered, popped, backlog, htaken, hreads]
    exact ⟨hnone, rfl, rfl⟩
  · right
    -- the packet popped is that of the first entry of the backlog
    have hqueued : s.backlog.map Taken.packet
        = packet :: (chifRead s.driver.chif24Queue c fault).queue.1.packets :=
      h.packets_eq.2.trans hpackets
    obtain ⟨t, rest, hback, ht, -⟩ := List.map_eq_cons_iff.mp hqueued
    rw [hsome, Option.toList_some] at hreads
    have hall : accepted s.taken = s.popped ++ (t :: rest) := by
      rw [← popped_append_backlog s, hback]
    have hlen : (s.popped ++ [t]).length = (s.reads ++ [(packet, ok)]).length := by
      rw [List.length_append, List.length_append, h.popped_length]
      rfl
    have hall' : accepted s.taken = s.popped ++ [t] ++ rest := by
      rw [hall, List.append_assoc, List.singleton_append]
    have hpopped : (step s (.read c fault)).popped = s.popped ++ [t] := by
      rw [popped, htaken, hreads, hall', ← hlen, List.take_left]
    have hback' : (step s (.read c fault)).backlog = rest := by
      rw [backlog, htaken, hreads, hall', ← hlen, List.drop_left]
    refine ⟨t, ok, by rw [hback, hback'], by rw [hsome, ht], ?_⟩
    rw [delivered, hpopped, hreads, List.zip_append h.popped_length, List.filter_append,
      List.map_append, delivered]
    cases ok with
    | true => rfl
    | false => rfl

/-! ### Isolation -/

/-- Every packet `chif_read` returned was taken from channel 24's send FIFO. -/
def Isolated (s : ChifFlow) : Prop := ∀ t ∈ s.delivered, t.channel = channelSharemem

instance (s : ChifFlow) : Decidable s.Isolated := by
  unfold Isolated
  infer_instance

/-- No reads that follow deliver a packet of another channel. -/
def Safe (s : ChifFlow) : Prop :=
  ∀ reads : List (ReadCall × Bool),
    (Run.run step s (reads.map fun r => Event.read r.1 r.2)).Isolated

theorem Safe.isolated {s : ChifFlow} (h : s.Safe) : s.Isolated := h []

theorem Safe.read {s : ChifFlow} (h : s.Safe) (c : ReadCall) (fault : Bool) :
    (step s (.read c fault)).Safe := fun reads => h ((c, fault) :: reads)

/-- A blocking read with room for one packet, delivered without a fault. -/
def goodRead : ReadCall := ⟨channelSharemem, sharedMemChifDescriptorSize, false⟩

/-- With something queued, a good read delivers the oldest packet. -/
theorem delivered_goodRead {s : ChifFlow} (h : s.Inv) {t : Taken} {rest : List Taken}
    (hback : s.backlog = t :: rest) :
    (step s (.read goodRead false)).delivered = s.delivered ++ [t] ∧
      (step s (.read goodRead false)).backlog = rest := by
  have hsize : 0 < s.driver.chif24Queue.1.size := by
    have hlen := congrArg List.length h.packets_eq.2
    rw [hback, List.length_map, List.length_cons, queued, ChifQueue.packets, List.length_map,
      List.length_range] at hlen
    omega
  obtain ⟨packet, hpop⟩ := chifRead_of_pos hsize
  rcases delivered_read h goodRead false with ⟨hnone, -, -⟩ | ⟨t', ok, hback', hpop', hdel⟩
  · exact absurd (hnone.symm.trans hpop) (by simp)
  · rw [hback, List.cons_eq_cons] at hback'
    obtain ⟨ht, hrest⟩ := hback'
    have hok : some (packet, true) = some (t'.packet, ok) := hpop.symm.trans hpop'
    rw [Option.some_inj, Prod.mk.injEq] at hok
    rw [← hok.2, ← ht] at hdel
    exact ⟨hdel, hrest.symm⟩

/-- What reads can still deliver is the backlog. -/
theorem channel_of_safe {s : ChifFlow} (h : s.Inv) (hsafe : s.Safe) :
    ∀ t ∈ s.backlog, t.channel = channelSharemem := by
  generalize hback : s.backlog = ts
  induction ts generalizing s with
  | nil => simp
  | cons t rest ih =>
    obtain ⟨hdel, hrest⟩ := delivered_goodRead h hback
    have hsafe' := hsafe.read goodRead false
    have ht : t.channel = channelSharemem := by
      refine hsafe'.isolated t ?_
      rw [hdel]
      exact List.mem_append_right _ (List.mem_singleton_self t)
    exact List.forall_mem_cons.mpr ⟨ht, ih (inv_step s _ h) hsafe' hrest⟩

private theorem isolated_read {s : ChifFlow} (h : s.Inv) (hs : s.Isolated)
    (hback : ∀ t ∈ s.backlog, t.channel = channelSharemem) (c : ReadCall) (fault : Bool) :
    (step s (.read c fault)).Isolated ∧
      ∀ t ∈ (step s (.read c fault)).backlog, t.channel = channelSharemem := by
  rcases delivered_read h c fault with ⟨-, hdel, hsame⟩ | ⟨t, ok, hcons, -, hdel⟩
  · rw [Isolated, hdel, hsame]
    exact ⟨hs, hback⟩
  · rw [hcons] at hback
    obtain ⟨ht, hrest⟩ := List.forall_mem_cons.mp hback
    refine ⟨?_, hrest⟩
    rw [Isolated, hdel]
    intro t' ht'
    rcases List.mem_append.mp ht' with hmem | hmem
    · exact hs t' hmem
    · cases ok with
      | true =>
        rw [List.mem_singleton.mp hmem]
        exact ht
      | false => exact absurd hmem List.not_mem_nil

/-- **No read ever delivers a foreign packet** exactly when none was delivered
and none is queued. -/
theorem safe_iff {s : ChifFlow} (h : s.Inv) :
    s.Safe ↔ s.Isolated ∧ ∀ t ∈ s.backlog, t.channel = channelSharemem := by
  refine ⟨fun hsafe => ⟨hsafe.isolated, channel_of_safe h hsafe⟩, ?_⟩
  rintro ⟨hs, hback⟩ reads
  induction reads generalizing s with
  | nil => exact hs
  | cons r reads ih =>
    obtain ⟨hs', hback'⟩ := isolated_read h hs hback r.1 r.2
    exact ih (inv_step s _ h) hs' hback'

/-! ### Runs -/

/-- The interrupt finds, on another channel that the doorbell names and whose go
bit is set, a packet that the queue has room for. -/
def Foreign (s : ChifFlow) : Event → Prop
  | .irq doorbell => ∃ c ∈ consumeCalls s.driver doorbell,
      c.2 ≠ channelSharemem ∧ enqueued c.1.chif24Queue (offered c.1 c.2) ≠ []
  | _ => False

theorem safe_step_iff (s : ChifFlow) (e : Event) (h : s.Inv) (hsafe : s.Safe) :
    (step s e).Safe ↔ ¬s.Foreign e := by
  obtain ⟨hs, hback⟩ := (safe_iff h).mp hsafe
  cases e with
  | host shmem =>
    refine iff_of_true ?_ id
    exact (safe_iff (inv_step s _ h)).mpr ⟨hs, hback⟩
  | read c fault => exact iff_of_true (hsafe.read c fault) id
  | irq doorbell =>
    obtain ⟨hdel, hback'⟩ := delivered_irq h doorbell
    have hforeign := exists_accepted_iff s.driver doorbell fun channel => channel ≠ channelSharemem
    rw [safe_iff (inv_step s _ h), Isolated, hdel, hback', List.forall_mem_append, Foreign,
      ← hforeign]
    push Not
    exact ⟨fun hall => hall.2.2, fun hnew => ⟨hs, hback, hnew⟩⟩

/-- **The channels stay apart exactly in the runs without a foreign interrupt**:
userspace gets packets of channel 24 only, and in every other run reads can go
on to deliver a packet of another channel. -/
theorem isolated_iff (shmem : Shmem) (es : List Event) :
    (Run.run step (probe shmem) es).delivered.map Taken.packet
        = (Run.run step (probe shmem) es).returned ∧
    ((∀ v ∈ Run.visits step (probe shmem) es, ¬v.1.Foreign v.2) →
      ∀ v ∈ Run.visits step (probe shmem) es, (step v.1 v.2).Isolated) ∧
    ((∀ v ∈ Run.visits step (probe shmem) es, (step v.1 v.2).Safe) ↔
      ∀ v ∈ Run.visits step (probe shmem) es, ¬v.1.Foreign v.2) := by
  have hsafe : (probe shmem).Safe := by
    refine (safe_iff (inv_probe shmem)).mpr ⟨?_, ?_⟩
    · exact fun _ ht => absurd ht List.not_mem_nil
    · exact fun _ ht => absurd ht List.not_mem_nil
  have hiff : (∀ v ∈ Run.visits step (probe shmem) es, (step v.1 v.2).Safe) ↔
      ∀ v ∈ Run.visits step (probe shmem) es, ¬v.1.Foreign v.2 :=
    Run.forall_visits_iff (I := fun s : ChifFlow => s.Inv ∧ s.Safe)
      (P := fun s e => (step s e).Safe) (Q := fun s e => ¬s.Foreign e)
      (fun s e h hstep => ⟨inv_step s e h.1, hstep⟩) (fun s e h => safe_step_iff s e h.1 h.2)
      ⟨inv_probe shmem, hsafe⟩
  exact ⟨delivered_packets (inv_run shmem es),
    fun hown v hv => (hiff.mpr hown v hv).isolated, hiff⟩

/-- A host that posts an 8-byte packet on channel 3, its FIFO at offset 4096 and
its descriptors at 8192. -/
def packetOnChannelThree : Shmem := fun x =>
  if x = ccbSize * 3 + ccbSqFifo + 1 then 0x10
  else if x = ccbSize * 3 + ccbSqDesc + 1 then 0x20
  else if x = ccbSize * 3 + ccbSqCtrl + 3 then 0x80
  else if x = 0x1000 then 1
  else if x = 0x1002 then 0x80
  else 0

/-- The packet goes into the queue of channel 24, and a read returns it. -/
theorem delivered_channelThree :
    ¬(Run.run step (probe packetOnChannelThree) [.irq (2 ^ 3), .read goodRead false]).Isolated := by
  decide +kernel

end ChifFlow

end Chif
