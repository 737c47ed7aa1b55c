/-
The whole way of a request: from the host's send FIFO through the driver and the
daemon, and its response back into the shared memory.

The host rewrites the shared memory and rings its doorbell between any two steps
of the daemon, which reads, calls a handler and writes.

* `step_tracks` — the daemon's steps are the iterations of its loop;
* `exchange_accounts` — whatever fails, the daemon answers what it read, and
  what it did not read is queued, or was dropped;
* `exchange_answers` — if nothing fails, the host finds the responses to the
  requests it posted, in order, but for the requests still in `chif24_queue`.
-/
import Canopy.ChifFlow
import Canopy.ChifWriteOk
import Canopy.ServiceIsolation

namespace Chif

open Bytes WrapMem ChifDrvdata

/-! ### The system -/

/-- What `channel_->read(recvBuf_)` returns; `none` while it waits for a packet.
The buffer has `maxPacketSize` bytes. -/
def channelRead (r : ReadOutcome) : Option ReadResult :=
  match r.ret with
  | none => none
  | some v =>
    if v < 0 then some (.error (-v).toNat)
    else
      some (.bytes (((r.popped.map Prod.fst).getD []).take maxPacketSize)
        (List.length_take_le _ _))

/-- The call of `chif_read` behind it; `main` opens the device without `O_NONBLOCK`. -/
def daemonCall : ReadCall := ⟨channelSharemem, maxPacketSize, false⟩

/-- Where the daemon is in an iteration of its loop. -/
inductive Stage (σ ε : Type) where
  | reading
  /-- the read has returned -/
  | handling (r : ReadResult) (p : Pending σ ε)
  /-- the handler has returned -/
  | writing (r : ReadResult) (env : ε) (p : Pending σ ε)

instance {σ ε : Type} : (stage : Stage σ ε) → Decidable (stage = .reading)
  | .reading => .isTrue rfl
  | .handling _ _ => .isFalse nofun
  | .writing _ _ _ => .isFalse nofun

/-- The bytes a read delivers. -/
def readData : ReadResult → Option Bytes
  | .bytes data _ => some data
  | .error _ => none

/-- The packet of the iteration in progress. -/
def Stage.data {σ ε : Type} : Stage σ ε → Option Bytes
  | .reading => none
  | .handling r _ | .writing r _ _ => readData r

/-- The call passes the checks of `chif_read`. -/
theorem chifRead_daemonCall (q : PacketQueue) (fault : Bool) :
    chifRead q daemonCall fault =
      if (q.pop maxPacketSize).1 < 0 then ⟨none, q, none⟩
      else if (q.pop maxPacketSize).1 > 0 ∧ fault = true then
        ⟨some (-efault), (q.pop maxPacketSize).2.2,
          some (poppedPacket (q.pop maxPacketSize), false)⟩
      else
        ⟨some (q.pop maxPacketSize).1, (q.pop maxPacketSize).2.2,
          some (poppedPacket (q.pop maxPacketSize), true)⟩ := by
  have hchannel : ¬daemonCall.channel ≠ channelSharemem := not_not_intro rfl
  have hcount : ¬daemonCall.count < sharedMemChifDescriptorSize := by decide
  rw [chifRead, if_neg hchannel, if_neg hcount]
  rfl

/-- **A read of the daemon**: it waits, or loses the oldest packet to a failing copy, or
gets it whole. -/
theorem channelRead_cases (q : PacketQueue) (fault : Bool) :
    (channelRead (chifRead q daemonCall fault) = none ∧
        (chifRead q daemonCall fault).popped = none) ∨
      (∃ errno packet, fault = true ∧
        channelRead (chifRead q daemonCall fault) = some (.error errno) ∧
        (chifRead q daemonCall fault).popped = some (packet, false)) ∨
      ∃ packet fits, channelRead (chifRead q daemonCall fault) = some (.bytes packet fits) ∧
        (chifRead q daemonCall fault).popped = some (packet, true) := by
  rw [chifRead_daemonCall]
  by_cases hempty : (q.pop maxPacketSize).1 < 0
  · rw [if_pos hempty]
    exact Or.inl ⟨rfl, rfl⟩
  · rw [if_neg hempty]
    right
    by_cases hfault : (q.pop maxPacketSize).1 > 0 ∧ fault = true
    · rw [if_pos hfault]
      exact Or.inl ⟨_, _, hfault.2, rfl, rfl⟩
    · rw [if_neg hfault]
      -- a packet in the queue fits the buffer
      have hle : (poppedPacket (q.pop maxPacketSize)).length ≤ maxPacketSize := by
        obtain ⟨-, hpop⟩ := ChifQueue.pop_of_not_fails hempty
        have hret : (q.pop maxPacketSize).1 = (q.1.pktLen q.1.head : ℤ) := congrArg Prod.fst hpop
        rw [poppedPacket, List.length_map, List.length_range, hret, Int.toNat_natCast]
        exact q.2.pktLen_le _
      refine Or.inr ⟨poppedPacket (q.pop maxPacketSize), hle, ?_, rfl⟩
      rw [channelRead]
      simp only [hempty, if_false, Option.map_some, Option.getD_some, List.take_of_length_le hle]

/-- The driver, the daemon and what the host has found. -/
structure ChifSystem (σ ε : Type) where
  flow : ChifFlow
  daemon : ChifDaemon σ
  stage : Stage σ ε
  /-- the iterations that have ended -/
  turns : List (Turn ε)
  /-- what the host finds in its descriptor after each write that succeeds -/
  found : List Bytes

namespace ChifSystem

variable {σ ε : Type}

inductive Event (ε : Type) where
  /-- the host leaves the shared memory so -/
  | host (shmem : Shmem)
  | irq (doorbell : ℕ)
  /-- the daemon reads -/
  | read (fault : Bool)
  /-- it calls the handler -/
  | handle (env : ε)
  /-- it writes the response, while the host sets `occupied` as `occ` says -/
  | write (occ : ℕ → Bool) (fault : Option ℕ)

/-- The write of the response, if there is one: what `channel_->write` returns, the
driver and what the host finds. -/
def writePending (d : ChifDrvdata) (occ : ℕ → Bool) (fault : Option ℕ) :
    Pending σ ε → ℤ × ChifDrvdata × List Bytes
  | .write packet =>
    let r := chifWrite d channelSharemem packet fault (hostOccupies (recvFifo d.shmem) occ)
    (r.1, r.2, if 0 ≤ r.1 then [foundResponse d.shmem r.2.shmem] else [])
  | _ => (0, d, [])

section Step

variable (handlers : Handlers σ ε) (outOfRange : ℤ → ℤ)

/-- The read of an iteration; without a packet the daemon sleeps. -/
def read (s : ChifSystem σ ε) (fault : Bool) : ChifSystem σ ε :=
  match channelRead (chifRead s.flow.driver.chif24Queue daemonCall fault) with
  | none => s
  | some r =>
    let a := afterRead handlers outOfRange r s.daemon
    { s with
      flow := ChifFlow.step s.flow (.read daemonCall fault)
      daemon := a.1
      stage := .handling r a.2 }

def handle (s : ChifSystem σ ε) (r : ReadResult) (p : Pending σ ε) (env : ε) : ChifSystem σ ε :=
  let a := perform env 0 s.daemon p
  { s with daemon := a.1, stage := .writing r env a.2 }

def write (s : ChifSystem σ ε) (r : ReadResult) (env : ε) (p : Pending σ ε) (occ : ℕ → Bool)
    (fault : Option ℕ) : ChifSystem σ ε :=
  let w := writePending s.flow.driver occ fault p
  { flow := { s.flow with driver := w.2.1 }
    daemon := (perform env w.1 s.daemon p).1
    stage := .reading
    turns := s.turns ++ [⟨r, env, w.1⟩]
    found := s.found ++ w.2.2 }

def step (s : ChifSystem σ ε) : Event ε → ChifSystem σ ε
  | .host shmem => { s with flow := ChifFlow.step s.flow (.host shmem) }
  | .irq doorbell => { s with flow := ChifFlow.step s.flow (.irq doorbell) }
  | .read fault =>
    match s.stage with
    | .reading => s.read handlers outOfRange fault
    | _ => s
  | .handle env =>
    match s.stage with
    | .handling r p => s.handle r p env
    | _ => s
  | .write occ fault =>
    match s.stage with
    | .writing r env p => s.write r env p occ fault
    | _ => s

end Step

/-- The driver has probed and the daemon enters its loop. -/
def start (shmem : Shmem) (services : σ) : ChifSystem σ ε where
  flow := ChifFlow.probe shmem
  daemon := .entered services
  stage := .reading
  turns := []
  found := []

/-! ### The daemon's part is its loop -/

variable {handlers : Handlers σ ε} {outOfRange : ℤ → ℤ} {services : σ} {s : ChifSystem σ ε}

/-- The daemon is where the iterations so far, and the one in progress, have brought it. -/
def Tracks (handlers : Handlers σ ε) (outOfRange : ℤ → ℤ) (services : σ)
    (s : ChifSystem σ ε) : Prop :=
  let before := Run.run (iterate handlers outOfRange) (.entered services) s.turns
  match s.stage with
  | .reading => s.daemon = before
  | .handling r p => (s.daemon, p) = afterRead handlers outOfRange r before
  | .writing r env p => ∀ writeResult, (s.daemon, p) =
      perform env writeResult (afterRead handlers outOfRange r before).1
        (afterRead handlers outOfRange r before).2

private theorem tracks_start (handlers : Handlers σ ε) (outOfRange : ℤ → ℤ) (shmem : Shmem)
    (services : σ) : Tracks handlers outOfRange services (start shmem services) := by
  rw [Tracks]
  rfl

/-- A read leaves nothing to be written. -/
theorem afterRead_ne_write (r : ReadResult) (d : ChifDaemon σ) (packet : Bytes) :
    (afterRead handlers outOfRange r d).2 ≠ .write packet := by
  cases r with
  | error errno =>
    simp only [afterRead]
    split
    · split <;> simp
    · simp
  | bytes data fits =>
    simp only [afterRead]
    split
    · simp
    · split
      · simp
      · split <;> simp

private theorem perform_afterRead (r : ReadResult) (d : ChifDaemon σ) (env : ε) (w w' : ℤ) :
    perform env w (afterRead handlers outOfRange r d).1 (afterRead handlers outOfRange r d).2 =
      perform env w' (afterRead handlers outOfRange r d).1
        (afterRead handlers outOfRange r d).2 := by
  cases hp : (afterRead handlers outOfRange r d).2 with
  | write packet => exact absurd hp (afterRead_ne_write r d packet)
  | _ => rfl

/-- All a step can do. -/
inductive Steps (handlers : Handlers σ ε) (outOfRange : ℤ → ℤ) (s : ChifSystem σ ε) :
    Event ε → ChifSystem σ ε → Prop where
  | idle (e : Event ε) : Steps handlers outOfRange s e s
  | host (shmem : Shmem) :
    Steps handlers outOfRange s (.host shmem)
      { s with flow := ChifFlow.step s.flow (.host shmem) }
  | irq (doorbell : ℕ) :
    Steps handlers outOfRange s (.irq doorbell)
      { s with flow := ChifFlow.step s.flow (.irq doorbell) }
  | read (fault : Bool) (r : ReadResult) (hstage : s.stage = .reading)
    (hread : channelRead (chifRead s.flow.driver.chif24Queue daemonCall fault) = some r) :
    Steps handlers outOfRange s (.read fault)
      { s with
        flow := ChifFlow.step s.flow (.read daemonCall fault)
        daemon := (afterRead handlers outOfRange r s.daemon).1
        stage := .handling r (afterRead handlers outOfRange r s.daemon).2 }
  | handle (env : ε) (r : ReadResult) (p : Pending σ ε) (hstage : s.stage = .handling r p) :
    Steps handlers outOfRange s (.handle env) (s.handle r p env)
  | write (occ : ℕ → Bool) (fault : Option ℕ) (r : ReadResult) (env : ε) (p : Pending σ ε)
    (hstage : s.stage = .writing r env p) :
    Steps handlers outOfRange s (.write occ fault) (s.write r env p occ fault)

theorem steps (handlers : Handlers σ ε) (outOfRange : ℤ → ℤ) (s : ChifSystem σ ε) (e : Event ε) :
    Steps handlers outOfRange s e (step handlers outOfRange s e) := by
  cases e with
  | host shmem => exact .host shmem
  | irq doorbell => exact .irq doorbell
  | read fault =>
    rw [step]
    cases hstage : s.stage with
    | reading =>
      dsimp only
      rw [read]
      split
      · exact .idle _
      · next r hread => exact .read fault r hstage hread
    | _ => exact .idle _
  | handle env =>
    rw [step]
    cases hstage : s.stage with
    | handling r p => exact .handle env r p hstage
    | _ => exact .idle _
  | write occ fault =>
    rw [step]
    cases hstage : s.stage with
    | writing r env p => exact .write occ fault r env p hstage
    | _ => exact .idle _

/-- **A step of the system is a step of the loop or leaves the daemon alone.** -/
theorem step_tracks (h : Tracks handlers outOfRange services s) (e : Event ε) :
    Tracks handlers outOfRange services (step handlers outOfRange s e) := by
  have htracks := h
  rw [Tracks] at h
  have hsteps := steps handlers outOfRange s e
  generalize step handlers outOfRange s e = t at hsteps ⊢
  cases hsteps with
  | idle => exact htracks
  | host shmem => exact htracks
  | irq doorbell => exact htracks
  | read fault r hstage hread =>
    rw [hstage] at h
    -- the iteration starts where the last one ended
    rw [Tracks, ← h]
  | handle env r p hstage =>
    rw [hstage] at h
    obtain ⟨hdaemon, hpending⟩ := Prod.ext_iff.mp h
    intro writeResult
    rw [perform_afterRead r _ env writeResult 0]
    show perform env 0 (s.daemon, p).1 (s.daemon, p).2 = _
    rw [hdaemon, hpending]
    rfl
  | write occ fault r env p hstage =>
    rw [hstage] at h
    show (perform env _ s.daemon p).1 = Run.run _ _ (s.turns ++ [_])
    rw [Run.run_append, Run.run_cons, Run.run_nil, iterate]
    dsimp only
    rw [← h]

/-! ### What the daemon reads -/

/-- The packets the daemon has read. -/
def requests (s : ChifSystem σ ε) : List Bytes :=
  (s.turns.filterMap fun t => readData t.read) ++ s.stage.data.toList

/-- What the driver has returned is what the daemon has read. -/
structure Reads (s : ChifSystem σ ε) : Prop where
  flow : s.flow.Inv
  returned : s.flow.returned = s.requests

private theorem reads_start (shmem : Shmem) (services : σ) :
    Reads (start shmem services : ChifSystem σ ε) where
  flow := ChifFlow.inv_probe shmem
  returned := rfl

private theorem queue_writePending (d : ChifDrvdata) (occ : ℕ → Bool) (fault : Option ℕ)
    (p : Pending σ ε) : (writePending d occ fault p).2.1.chif24Queue = d.chif24Queue := by
  cases p with
  | write packet => exact queue_chifWrite d packet fault _
  | _ => rfl

/-- The packet that leaves the queue is the one the daemon gets, unless the copy fails. -/
theorem returned_read {q : PacketQueue} {fault : Bool} {r : ReadResult}
    (h : channelRead (chifRead q daemonCall fault) = some r) :
    ((chifRead q daemonCall fault).popped.toList.filter Prod.snd).map Prod.fst =
      (readData r).toList := by
  rcases channelRead_cases q fault with ⟨hnone, -⟩ | ⟨errno, packet, -, herror, hpopped⟩ |
    ⟨packet, fits, hbytes, hpopped⟩
  · rw [hnone] at h
    cases h
  · rw [herror] at h
    cases h
    rw [hpopped]
    rfl
  · rw [hbytes] at h
    cases h
    rw [hpopped]
    rfl

private theorem step_reads (h : Reads s) (e : Event ε) : Reads (step handlers outOfRange s e) := by
  have hreturned := h.returned
  have hsteps := steps handlers outOfRange s e
  generalize step handlers outOfRange s e = t at hsteps ⊢
  cases hsteps with
  | idle => exact h
  | host shmem => exact ⟨ChifFlow.inv_step s.flow (.host shmem) h.flow, hreturned⟩
  | irq doorbell => exact ⟨ChifFlow.inv_step s.flow (.irq doorbell) h.flow, hreturned⟩
  | read fault r hstage hread =>
    refine ⟨ChifFlow.inv_step s.flow (.read daemonCall fault) h.flow, ?_⟩
    rw [requests, hstage, Stage.data, Option.toList_none, List.append_nil] at hreturned
    show ((s.flow.reads ++ _).filter Prod.snd).map Prod.fst = _ ++ (readData r).toList
    rw [List.filter_append, List.map_append, returned_read hread, ← hreturned]
    rfl
  | handle env r p hstage =>
    rw [requests, hstage] at hreturned
    exact ⟨h.flow, hreturned⟩
  | write occ fault r env p hstage =>
    refine ⟨⟨?_, h.flow.rc⟩, ?_⟩
    · have hflow := h.flow.flow
      rw [ChifFlow.queued, ← queue_writePending s.flow.driver occ fault p] at hflow
      exact hflow
    · rw [requests, hstage] at hreturned
      show s.flow.returned = ((s.turns ++ [_]).filterMap _) ++ []
      rw [hreturned, List.filterMap_append, List.append_nil]
      rfl

/-! ### What the host finds -/

/-- The receive side is laid out when a response is written. -/
def LaidOut (s : ChifSystem σ ε) : Event ε → Prop
  | .write _ _ => RecvLayout s.flow.driver.shmem
  | _ => True

instance (s : ChifSystem σ ε) (e : Event ε) : Decidable (s.LaidOut e) := by
  cases e <;> (unfold LaidOut; infer_instance)

/-- The responses of the writes that succeeded. -/
def succeeded (d : ChifDaemon σ) : List Bytes := (d.written.filter fun w => 0 ≤ w.2).map Prod.fst

private theorem written_afterRead (r : ReadResult) (d : ChifDaemon σ) :
    (afterRead handlers outOfRange r d).1.written = d.written := by
  cases r with
  | error errno =>
    simp only [afterRead]
    split
    · split <;> rfl
    · rfl
  | bytes data fits =>
    simp only [afterRead]
    split
    · rfl
    · split
      · rfl
      · split <;> rfl

private theorem written_perform (env : ε) (w : ℤ) (d : ChifDaemon σ) {p : Pending σ ε}
    (hp : ∀ packet, p ≠ .write packet) : (perform env w d p).1.written = d.written := by
  cases p with
  | nothing => rfl
  | sleep delay => rfl
  | write packet => exact absurd rfl (hp packet)
  | call h request =>
    rw [perform_call]
    rfl

/-- The host finds the responses that were written. -/
def Finds (s : ChifSystem σ ε) : Prop := s.found = (succeeded s.daemon).map padded

private theorem finds_write {d : ChifDrvdata} (hm : RecvLayout d.shmem) (occ : ℕ → Bool)
    (fault : Option ℕ) (env : ε) (daemon : ChifDaemon σ) (p : Pending σ ε) :
    (succeeded (perform env (writePending d occ fault p).1 daemon p).1).map padded =
      (succeeded daemon).map padded ++ (writePending d occ fault p).2.2 := by
  cases hp : p with
  | write packet =>
    have hfound := chifWrite_found hm occ packet fault
    rw [writePending]
    dsimp only
    generalize chifWrite d channelSharemem packet fault (hostOccupies (recvFifo d.shmem) occ) = r
      at hfound
    rw [perform, succeeded, List.filter_append, List.map_append, List.map_append, succeeded]
    congr 1
    by_cases hok : 0 ≤ r.1
    · rw [if_pos hok, hfound hok]
      simp [hok]
    · rw [if_neg hok]
      simp [hok]
  | _ =>
    rw [succeeded, written_perform env _ daemon (by simp), writePending, List.append_nil]
    · rfl
    · simp

private theorem step_finds (htracks : Tracks handlers outOfRange services s) (h : Finds s)
    {e : Event ε}
    (hlaid : s.LaidOut e) : Finds (step handlers outOfRange s e) := by
  have hsteps := steps handlers outOfRange s e
  generalize step handlers outOfRange s e = t at hsteps ⊢
  rw [Finds] at h
  rw [Finds]
  cases hsteps with
  | idle => exact h
  | host shmem => exact h
  | irq doorbell => exact h
  | read fault r hstage hread =>
    rw [succeeded, written_afterRead]
    exact h
  | handle env r p hstage =>
    have hp : ∀ packet, p ≠ .write packet := by
      rw [Tracks, hstage] at htracks
      intro packet
      have hpending : p = _ := congrArg Prod.snd htracks
      rw [hpending]
      exact afterRead_ne_write r _ packet
    show s.found = (succeeded (perform env 0 s.daemon p).1).map padded
    rw [succeeded, written_perform env 0 s.daemon hp]
    exact h
  | write occ fault r env p hstage =>
    show s.found ++ _ = (succeeded (perform env _ s.daemon p).1).map padded
    rw [finds_write hlaid occ fault env s.daemon p, ← h]

/-! ### Runs in which nothing fails -/

/-- Nothing fails in the step. -/
def Smooth (s : ChifSystem σ ε) : Event ε → Prop
  | .irq doorbell => ∀ t ∈ irqTaken s.flow.driver doorbell, t.rc = 0
  | .read fault => fault = false
  | .write occ fault =>
    RecvLayout s.flow.driver.shmem ∧
      match s.stage with
      | .writing _ _ p => 0 ≤ (writePending s.flow.driver occ fault p).1
      | _ => True
  | _ => True

instance (s : ChifSystem σ ε) (e : Event ε) : Decidable (s.Smooth e) := by
  cases e <;> unfold Smooth <;> try infer_instance
  cases s.stage <;> infer_instance

theorem Smooth.laidOut {e : Event ε} (h : s.Smooth e) : s.LaidOut e := by
  cases e with
  | write occ fault => exact h.1
  | _ => trivial

/-- Nothing has failed. -/
structure Unfailing (s : ChifSystem σ ε) : Prop where
  taken : ∀ t ∈ s.flow.taken, t.rc = 0
  reads : ∀ r ∈ s.flow.reads, r.2 = true
  written : ∀ w ∈ s.daemon.written, 0 ≤ w.2

private theorem unfailing_start (shmem : Shmem) (services : σ) :
    Unfailing (start shmem services : ChifSystem σ ε) where
  taken := fun _ h => absurd h List.not_mem_nil
  reads := fun _ h => absurd h List.not_mem_nil
  written := fun _ h => absurd h List.not_mem_nil

/-- A read whose copy does not fail. -/
theorem reads_of_popped {q : PacketQueue} {r : Bytes × Bool}
    (h : r ∈ (chifRead q daemonCall false).popped.toList) : r.2 = true := by
  rcases channelRead_cases q false with ⟨-, hnone⟩ | ⟨errno, packet, hfault, -⟩ |
    ⟨packet, fits, -, hpopped⟩
  · rw [hnone] at h
    exact absurd h List.not_mem_nil
  · exact absurd hfault Bool.false_ne_true
  · rw [hpopped] at h
    rw [List.mem_singleton.mp h]

/-- A step adds at most the write of the pending packet. -/
theorem written_perform_write (env : ε) (w : ℤ) (d : ChifDaemon σ) (p : Pending σ ε) :
    ∀ v ∈ (perform env w d p).1.written, v ∈ d.written ∨ v.2 = w := by
  intro v hv
  by_cases hp : ∃ packet, p = .write packet
  · obtain ⟨packet, rfl⟩ := hp
    rcases List.mem_append.mp hv with hold | hnew
    · exact Or.inl hold
    · rw [List.mem_singleton.mp hnew]
      exact Or.inr rfl
  · rw [written_perform env w d fun packet hpacket => hp ⟨packet, hpacket⟩] at hv
    exact Or.inl hv

private theorem step_unfailing (h : Unfailing s) {e : Event ε} (hsmooth : s.Smooth e) :
    Unfailing (step handlers outOfRange s e) := by
  have hsteps := steps handlers outOfRange s e
  generalize step handlers outOfRange s e = t at hsteps ⊢
  cases hsteps with
  | idle => exact h
  | host shmem => exact ⟨h.taken, h.reads, h.written⟩
  | irq doorbell =>
    refine ⟨fun t ht => ?_, h.reads, h.written⟩
    rcases List.mem_append.mp ht with hold | hnew
    · exact h.taken t hold
    · exact hsmooth t hnew
  | read fault r hstage hread =>
    obtain rfl : fault = false := hsmooth
    refine ⟨h.taken, fun r hr => ?_, ?_⟩
    · rcases List.mem_append.mp hr with hold | hnew
      · exact h.reads r hold
      · exact reads_of_popped hnew
    · rw [written_afterRead]
      exact h.written
  | handle env r p hstage =>
    refine ⟨h.taken, h.reads, fun w hw => ?_⟩
    rcases written_perform_write env 0 s.daemon p w hw with hold | hzero
    · exact h.written w hold
    · exact le_of_eq hzero.symm
  | write occ fault r env p hstage =>
    obtain ⟨-, hok⟩ := hsmooth
    rw [hstage] at hok
    refine ⟨h.taken, h.reads, fun w hw => ?_⟩
    rcases written_perform_write env _ s.daemon p w hw with hold | hnew
    · exact h.written w hold
    · rw [hnew]
      exact hok

/-! ### Whole runs -/

/-- The books of driver, daemon and host. -/
structure Books (services : Services) (s : ChifSystem Services ServicesEnv) : Prop where
  /-- what the driver accepted was read, in order, or is queued -/
  accepted : (accepted s.flow.taken).map Taken.packet = s.flow.reads.map Prod.fst ++ s.flow.queued
  /-- the daemon reads every packet whose copy does not fail -/
  returned : s.flow.returned = s.requests
  /-- it writes the answers to what it has read -/
  answers : s.stage = .reading →
    s.daemon.written.map Prod.fst = replies (registered mainHandlers) services (inbound s.turns)
  /-- the host finds those whose write succeeds -/
  found : s.found = (succeeded s.daemon).map padded

section Main

variable (outOfRange : ℤ → ℤ) (shmem : Shmem) (services : Services)

/-- The system with the services of `main`. -/
abbrev mainStep : ChifSystem Services ServicesEnv → Event ServicesEnv →
    ChifSystem Services ServicesEnv :=
  step (registered mainHandlers) outOfRange

/-- **Whatever the host leaves in the shared memory, whenever it rings and
whatever fails, the books of a run agree.** -/
theorem exchange_accounts (events : List (Event ServicesEnv))
    (hlaid : ∀ p ∈ Run.visits (mainStep outOfRange) (start shmem services) events,
      p.1.LaidOut p.2) :
    Books services (Run.run (mainStep outOfRange) (start shmem services) events) := by
  set s := Run.run (mainStep outOfRange) (start shmem services) events with hs
  have hinv : Tracks (registered mainHandlers) outOfRange services s ∧ Reads s ∧ Finds s := by
    refine Run.run_invariant_of_visits (P := LaidOut) (I := fun t =>
      Tracks (registered mainHandlers) outOfRange services t ∧ Reads t ∧ Finds t) ?_
      ⟨tracks_start _ _ _ _, reads_start shmem services, rfl⟩ hlaid
    rintro t e ⟨htracks, hreads, hfinds⟩ he
    exact ⟨step_tracks htracks e, step_reads hreads e, step_finds htracks hfinds he⟩
  obtain ⟨htracks, hreads, hfinds⟩ := hinv
  refine ⟨hreads.flow.flow, hreads.returned, fun hstage => ?_, hfinds⟩
  rw [Tracks, hstage] at htracks
  rw [htracks]
  exact main_responses outOfRange services _

/-- A host with one health request posted on channel 24, a free receive entry, its
FIFOs at offsets 4096 and 12288 and their descriptors at 8192 and 16384. -/
def oneRequest : Shmem := fun x =>
  if x = ccbSize * channelSharemem + ccbSqFifo + 1 then 0x10
  else if x = ccbSize * channelSharemem + ccbSqDesc + 1 then 0x20
  else if x = ccbSize * channelSharemem + ccbSqCtrl + 3 then 0x80
  else if x = ccbSize * channelSharemem + ccbRqFifo + 1 then 0x30
  else if x = ccbSize * channelSharemem + ccbRqDesc + 1 then 0x40
  else if x = ccbSize * channelSharemem + ccbRqCtrl + 3 then 0x80
  else if x = 0x1000 then 1
  else if x = 0x1002 then 0x80
  else if x = 0x2006 then 0x10
  else if x = 0x3002 then 0x80
  else 0

/-- The request is taken, read, handled and answered. -/
def oneExchange : List (Event ServicesEnv) :=
  [.irq (2 ^ channelSharemem), .read false, .handle noEnv, .write (fun _ => false) none]

/-- The books of that exchange. -/
theorem exchange_accounts_oneRequest :
    Books emptyServices (Run.run (mainStep id) (start oneRequest emptyServices) oneExchange) :=
  exchange_accounts id oneRequest emptyServices oneExchange (by decide +kernel)

/-- **Every request the driver took is answered once, in order**: in a run in which
nothing fails, when the daemon is between two iterations, the packets taken off
the FIFO are those of its iterations and those still queued, and the host has
found the answers to the former. -/
theorem exchange_answers (events : List (Event ServicesEnv))
    (hsmooth : ∀ p ∈ Run.visits (mainStep outOfRange) (start shmem services) events,
      p.1.Smooth p.2) :
    let s := Run.run (mainStep outOfRange) (start shmem services) events
    s.stage = .reading →
      s.flow.taken.map Taken.packet =
          (s.turns.filterMap fun t => readData t.read) ++ s.flow.queued ∧
        s.found = (replies (registered mainHandlers) services (inbound s.turns)).map padded := by
  intro s hstage
  have hbooks : Books services s := exchange_accounts outOfRange shmem services events
    fun p hp => (hsmooth p hp).laidOut
  have hunfailing : Unfailing s := by
    refine Run.run_invariant_of_visits (I := Unfailing) (P := Smooth) ?_
      (unfailing_start shmem services) hsmooth
    exact fun t e ht he => step_unfailing ht he
  refine ⟨?_, ?_⟩
  · have haccepted : accepted s.flow.taken = s.flow.taken :=
      List.filter_eq_self.mpr fun t ht => decide_eq_true (hunfailing.taken t ht)
    have hreturned : s.flow.returned = s.flow.reads.map Prod.fst := by
      rw [ChifFlow.returned, List.filter_eq_self.mpr hunfailing.reads]
    have hrequests := hbooks.returned
    rw [requests, hstage, Stage.data, Option.toList_none, List.append_nil, hreturned] at hrequests
    rw [← haccepted, hbooks.accepted, hrequests]
  · have hall : succeeded s.daemon = s.daemon.written.map Prod.fst := by
      rw [succeeded, List.filter_eq_self.mpr fun w hw => decide_eq_true (hunfailing.written w hw)]
    rw [hbooks.found, hall, hbooks.answers hstage]

end Main

/-- The host finds the answer to its one request. -/
theorem exchange_answers_oneRequest :
    let s := Run.run (mainStep id) (start oneRequest emptyServices) oneExchange
    s.flow.taken.map Taken.packet =
        (s.turns.filterMap fun t => readData t.read) ++ s.flow.queued ∧
      s.found = (replies (registered mainHandlers) emptyServices (inbound s.turns)).map padded :=
  exchange_answers id oneRequest emptyServices oneExchange (by decide +kernel) (by decide +kernel)

example : (Run.run (mainStep id) (start oneRequest emptyServices) oneExchange).found =
    [[12, 0, 0, 0, 0, 128, 16, 0, 0, 0, 0, 0, 0, 0, 0, 0]] := by
  decide +kernel

end ChifSystem

end Chif
