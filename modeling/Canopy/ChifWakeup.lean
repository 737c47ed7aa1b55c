/-
Lost wake-ups on /dev/chif24.

`chif_read` looks at the queue, and only some steps later becomes
`TASK_INTERRUPTIBLE`; it does not look again before it calls `schedule`.  An
interrupt that lands in between finds nobody to wake.  Later interrupts wake
the reader only if they serve channel 24 itself, though packets of every
channel go into the same queue.

* `safe_iff_quiet` — the states from which the reader can still go to sleep
  next to a packet;
* `quiet_irq_iff` — the interrupts that lead to such a state;
* `noLostWakeup_iff` — the two put together, over whole runs.
-/
import Canopy.ChifReader

namespace Chif

open ReaderSys

/-! ### What is kept by every step -/

/-- The reader is linked into the wait queue. -/
def Pc.onList : Pc → Bool
  | .setWaiting | .setState | .schedule | .asleep | .checkSignal | .repop => true
  | _ => false

/-- `waiting` has been set for the read in progress. -/
def Pc.flagged : Pc → Bool
  | .setState | .schedule | .asleep | .checkSignal | .repop => true
  | _ => false

theorem Pc.onList_of_flagged {pc : Pc} (h : pc.flagged = true) : pc.onList = true := by
  cases pc with
  | setState => rfl
  | schedule => rfl
  | asleep => rfl
  | checkSignal => rfl
  | repop => rfl
  | _ => exact Bool.noConfusion h

/-- Between a failed pop and `TASK_INTERRUPTIBLE`. -/
def Pc.beforeSleep : Pc → Bool
  | .addWait | .setWaiting | .setState => true
  | _ => false

namespace ReaderSys

/-- How the reader's flags follow its place in `chif_read`. -/
structure Inv (s : ReaderSys) : Prop where
  sleepy : s.interruptible = true → s.pc = .schedule ∨ s.pc = .asleep
  onList : s.pc.onList = true → s.onWaitQueue = true
  flagged : s.pc.flagged = true → s.waiting = true
  room : s.pc ≠ .idle → s.pc ≠ .start → sharedMemChifDescriptorSize ≤ s.call.count
  /-- with a signal pending the reader does not fall asleep -/
  noSignal : s.pc = .asleep → s.interruptible = true → s.signalPending = false

theorem inv_probe : probe.Inv where
  sleepy := fun h => absurd h (by decide)
  onList := fun h => absurd h (by decide)
  flagged := fun h => absurd h (by decide)
  room := fun h => absurd rfl h
  noSignal := fun h => absurd h (by decide)

theorem Inv.running {s : ReaderSys} (h : s.Inv) (hsched : s.pc ≠ .schedule)
    (hsleep : s.pc ≠ .asleep) : s.interruptible = false := by
  rw [← Bool.not_eq_true]
  intro hint
  rcases h.sleepy hint with hpc | hpc
  · exact hsched hpc
  · exact hsleep hpc

/-- A reader that has set `waiting` is on the wait queue, with room for a packet. -/
theorem Inv.waits {s : ReaderSys} (h : s.Inv) (hflag : s.pc.flagged = true) :
    s.onWaitQueue = true ∧ s.waiting = true ∧ sharedMemChifDescriptorSize ≤ s.call.count := by
  refine ⟨h.onList (Pc.onList_of_flagged hflag), h.flagged hflag, h.room ?_ ?_⟩
  · intro hpc
    rw [hpc] at hflag
    exact Bool.noConfusion hflag
  · intro hpc
    rw [hpc] at hflag
    exact Bool.noConfusion hflag

/-- A running reader off the wait queue. -/
theorem inv_offList {s : ReaderSys} (hint : s.interruptible = false) (hoff : s.pc.onList = false)
    (hroom : s.pc ≠ .idle → s.pc ≠ .start → sharedMemChifDescriptorSize ≤ s.call.count) :
    s.Inv where
  sleepy := fun h => absurd h (by rw [hint]; decide)
  onList := fun h => absurd h (by rw [hoff]; decide)
  flagged := fun h => absurd (Pc.onList_of_flagged h) (by rw [hoff]; decide)
  room := hroom
  noSignal := fun _ h => absurd h (by rw [hint]; decide)

/-- A running reader on the wait queue. -/
theorem inv_onList {s : ReaderSys} (hint : s.interruptible = false) (hlist : s.onWaitQueue = true)
    (hflag : s.pc.flagged = true → s.waiting = true)
    (hroom : sharedMemChifDescriptorSize ≤ s.call.count) : s.Inv where
  sleepy := fun h => absurd h (by rw [hint]; decide)
  onList := fun _ => hlist
  flagged := hflag
  room := fun _ _ => hroom
  noSignal := fun _ h => absurd h (by rw [hint]; decide)

theorem inv_finish {s : ReaderSys} (hint : s.interruptible = false) (ret : ℤ) :
    (s.finish ret).Inv :=
  inv_offList hint rfl fun h => absurd rfl h

private theorem inv_copyMore {s : ReaderSys} (h : s.Inv) (hint : s.interruptible = false) (n : ℕ) :
    (s.copyMore n).Inv := by
  rw [copyMore]
  dsimp only
  split
  · exact inv_finish (s := { s with userBuf := s.userBuf ++ s.chunk n }) hint _
  · exact ⟨h.sleepy, h.onList, h.flagged, h.room, h.noSignal⟩

private theorem inv_readerStep {s : ReaderSys} (h : s.Inv) (copy : Option ℕ) :
    (s.readerStep copy).Inv := by
  have hrunning := h.running
  have hroom := h.room
  cases hpc : s.pc with
  | idle =>
    simp only [readerStep, hpc]
    exact h
  | start =>
    have hint := hrunning (by simp [hpc]) (by simp [hpc])
    simp only [readerStep, hpc]
    split
    · exact inv_finish hint _
    · split
      · exact inv_finish hint _
      · next hcount =>
        -- the length check is what keeps `QUEUE_RC_BUF_TOO_SMALL` away from here on
        have hle : sharedMemChifDescriptorSize ≤ s.call.count := Nat.le_of_not_lt hcount
        split
        · split
          · exact inv_finish hint _
          · exact inv_offList hint rfl fun _ _ => hle
        · exact inv_offList hint rfl fun _ _ => hle
  | addWait =>
    simp only [readerStep, hpc]
    have hint := hrunning (by simp [hpc]) (by simp [hpc])
    have hle := hroom (by simp [hpc]) (by simp [hpc])
    exact inv_onList hint rfl (fun hflag => Bool.noConfusion hflag) hle
  | setWaiting =>
    simp only [readerStep, hpc]
    have hint := hrunning (by simp [hpc]) (by simp [hpc])
    have hle := hroom (by simp [hpc]) (by simp [hpc])
    exact inv_onList hint (h.onList (congrArg Pc.onList hpc)) (fun _ => rfl) hle
  | setState =>
    simp only [readerStep, hpc]
    obtain ⟨hlist, hflag, hle⟩ := h.waits (congrArg Pc.flagged hpc)
    exact ⟨fun _ => Or.inl rfl, fun _ => hlist, fun _ => hflag, fun _ _ => hle,
      fun hsleep => Pc.noConfusion hsleep⟩
  | schedule =>
    simp only [readerStep, hpc]
    obtain ⟨hlist, hflag, hle⟩ := h.waits (congrArg Pc.flagged hpc)
    split
    · next hs =>
      -- the only way to sleep is with no signal pending
      exact ⟨fun _ => Or.inr rfl, fun _ => hlist, fun _ => hflag, fun _ _ => hle, fun _ _ => hs.2⟩
    · exact inv_onList rfl hlist (fun _ => hflag) hle
  | asleep =>
    simp only [readerStep, hpc]
    obtain ⟨hlist, hflag, hle⟩ := h.waits (congrArg Pc.flagged hpc)
    split
    · exact h
    · next hint => exact inv_onList (Bool.eq_false_of_not_eq_true hint) hlist (fun _ => hflag) hle
  | checkSignal =>
    simp only [readerStep, hpc]
    have hint := hrunning (by simp [hpc]) (by simp [hpc])
    obtain ⟨hlist, hflag, hle⟩ := h.waits (congrArg Pc.flagged hpc)
    split
    · exact inv_offList hint rfl fun _ _ => hle
    · exact inv_onList hint hlist (fun _ => hflag) hle
  | repop =>
    simp only [readerStep, hpc]
    have hint := hrunning (by simp [hpc]) (by simp [hpc])
    obtain ⟨hlist, hflag, hle⟩ := h.waits (congrArg Pc.flagged hpc)
    split
    · exact inv_onList hint hlist (fun _ => hflag) hle
    · exact inv_offList hint rfl fun _ _ => hle
  | setRunning e =>
    simp only [readerStep, hpc]
    exact inv_offList rfl rfl fun _ _ => hroom (by simp [hpc]) (by simp [hpc])
  | removeWait e =>
    simp only [readerStep, hpc]
    have hint := hrunning (by simp [hpc]) (by simp [hpc])
    exact inv_offList hint rfl fun _ _ => hroom (by simp [hpc]) (by simp [hpc])
  | clearWaiting e =>
    have hint := hrunning (by simp [hpc]) (by simp [hpc])
    have hle := hroom (by simp [hpc]) (by simp [hpc])
    cases e with
    | interrupted =>
      simp only [readerStep, hpc]
      exact inv_finish (s := { s with waiting := false }) hint _
    | delivered =>
      simp only [readerStep, hpc]
      exact inv_offList hint rfl fun _ _ => hle
  | copying =>
    simp only [readerStep, hpc]
    have hint := hrunning (by simp [hpc]) (by simp [hpc])
    split
    · exact inv_finish hint _
    · cases copy with
      | none => exact inv_finish hint _
      | some n => exact inv_copyMore h hint n

private theorem inv_irq {s : ReaderSys} (h : s.Inv) (shmem : Shmem) (doorbell : ℕ) :
    (s.irq shmem doorbell).Inv := by
  have hint : (s.irq shmem doorbell).interruptible = true → s.interruptible = true :=
    interruptible_of_irq
  have heq := irq_eq s shmem doorbell
  generalize s.irq shmem doorbell = s' at hint heq
  rw [heq]
  refine ⟨?_, h.onList, h.flagged, h.room, ?_⟩
  · intro hs'
    exact h.sleepy (hint hs')
  · intro hpc hs'
    exact h.noSignal hpc (hint hs')

theorem inv_step {s : ReaderSys} (h : s.Inv) (e : Event) : (step s e).Inv := by
  cases e with
  | irq shmem doorbell => exact inv_irq h shmem doorbell
  | call c =>
    rw [step]
    split
    · next hpc =>
      have hint : s.interruptible = false := h.running (by simp [hpc]) (by simp [hpc])
      exact inv_offList hint rfl fun _ hstart => absurd rfl hstart
    · exact h
  | reader copy => exact inv_readerStep h copy
  | signal =>
    exact ⟨fun hint => Bool.noConfusion hint, h.onList, h.flagged, h.room,
      fun _ hint => Bool.noConfusion hint⟩

/-! ### Falling asleep next to a packet -/

/-- The reader is blocked in `schedule()` with a packet queued and no wake-up
under way. -/
def Lost (s : ReaderSys) : Prop :=
  s.pc = .asleep ∧ s.interruptible = true ∧ s.queue.1.size ≠ 0

instance (s : ReaderSys) : Decidable s.Lost := by
  unfold Lost
  infer_instance

/-- Nothing the reader does next on its own leads to a lost wake-up. -/
def Safe (s : ReaderSys) : Prop :=
  ∀ copies : List (Option ℕ), ¬(Run.run step s (copies.map Event.reader)).Lost

theorem Safe.not_lost {s : ReaderSys} (h : s.Safe) : ¬s.Lost := h []

theorem Safe.readerStep {s : ReaderSys} (h : s.Safe) (copy : Option ℕ) : (s.readerStep copy).Safe :=
  fun copies => h (copy :: copies)

/-- A reader about to sleep has looked at the queue, and it is empty still. -/
def Quiet (s : ReaderSys) : Prop :=
  s.pc.beforeSleep = true ∨ s.interruptible = true →
    s.queue.1.size = 0 ∨ s.signalPending = true

theorem quiet_of_running {s : ReaderSys} (hint : s.interruptible = false)
    (hpc : s.pc.beforeSleep = false) : s.Quiet := by
  intro hsleep
  rw [hint, hpc] at hsleep
  simp at hsleep

/-- With a buffer of a whole packet, a pop fails on an empty queue only. -/
theorem popFails_iff {s : ReaderSys} (hroom : sharedMemChifDescriptorSize ≤ s.call.count) :
    s.popFails ↔ s.queue.1.size = 0 := by
  show (chifQueuePop s.queue.1 s.call.count).1 < 0 ↔ _
  constructor
  · intro hneg
    by_contra hne
    -- a packet is there and fits, so its length comes back
    rw [ChifQueue.pop_of_pos s.queue.2 (Nat.pos_of_ne_zero hne) hroom] at hneg
    have : (0 : ℤ) ≤ s.queue.1.pktLen s.queue.1.head := Int.natCast_nonneg _
    dsimp only at hneg
    omega
  · intro hzero
    rw [ChifQueue.pop_of_empty hzero]
    exact Int.negSucc_lt_zero 2

/-- From the failed pop to `TASK_INTERRUPTIBLE` only the reader moves, not the queue. -/
theorem Quiet.stays {s s' : ReaderSys} (hq : s.Quiet) (hbefore : s.pc.beforeSleep = true)
    (hqueue : s'.queue = s.queue) (hsignal : s'.signalPending = s.signalPending) : s'.Quiet := by
  intro _
  rw [hqueue, hsignal]
  exact hq (Or.inl hbefore)

/-- The reader itself goes to sleep only after a pop from the empty queue. -/
theorem quiet_readerStep {s : ReaderSys} (h : s.Inv) (hq : s.Quiet) (copy : Option ℕ) :
    (s.readerStep copy).Quiet := by
  have hrunning := h.running
  cases hpc : s.pc with
  | idle =>
    simp only [ReaderSys.readerStep, hpc]
    exact hq
  | start =>
    have hint := hrunning (by simp [hpc]) (by simp [hpc])
    simp only [ReaderSys.readerStep, hpc]
    split
    · exact quiet_of_running hint rfl
    · split
      · exact quiet_of_running hint rfl
      · next hcount =>
        split
        · next hfail =>
          split
          · exact quiet_of_running hint rfl
          · intro _
            exact Or.inl ((popFails_iff (Nat.le_of_not_lt hcount)).mp hfail)
        · exact quiet_of_running hint rfl
  | addWait =>
    simp only [ReaderSys.readerStep, hpc]
    exact hq.stays (congrArg Pc.beforeSleep hpc) rfl rfl
  | setWaiting =>
    simp only [ReaderSys.readerStep, hpc]
    exact hq.stays (congrArg Pc.beforeSleep hpc) rfl rfl
  | setState =>
    simp only [ReaderSys.readerStep, hpc]
    exact hq.stays (congrArg Pc.beforeSleep hpc) rfl rfl
  | schedule =>
    simp only [ReaderSys.readerStep, hpc]
    split
    · next hs =>
      intro _
      exact hq (Or.inr hs.1)
    · exact quiet_of_running rfl rfl
  | asleep =>
    simp only [ReaderSys.readerStep, hpc]
    split
    · exact hq
    · next hint => exact quiet_of_running (Bool.eq_false_of_not_eq_true hint) rfl
  | checkSignal =>
    have hint := hrunning (by simp [hpc]) (by simp [hpc])
    simp only [ReaderSys.readerStep, hpc]
    split
    · exact quiet_of_running hint rfl
    · exact quiet_of_running hint rfl
  | repop =>
    have hint := hrunning (by simp [hpc]) (by simp [hpc])
    have hle := h.room (by simp [hpc]) (by simp [hpc])
    simp only [ReaderSys.readerStep, hpc]
    split
    · next hfail =>
      -- back to `set_current_state`, after another look at the queue
      intro _
      exact Or.inl ((popFails_iff hle).mp hfail)
    · exact quiet_of_running hint rfl
  | setRunning e =>
    simp only [ReaderSys.readerStep, hpc]
    exact quiet_of_running rfl rfl
  | removeWait e =>
    have hint := hrunning (by simp [hpc]) (by simp [hpc])
    simp only [ReaderSys.readerStep, hpc]
    exact quiet_of_running hint rfl
  | clearWaiting e =>
    have hint := hrunning (by simp [hpc]) (by simp [hpc])
    cases e with
    | interrupted =>
      simp only [ReaderSys.readerStep, hpc]
      exact quiet_of_running hint rfl
    | delivered =>
      simp only [ReaderSys.readerStep, hpc]
      exact quiet_of_running hint rfl
  | copying =>
    have hint := hrunning (by simp [hpc]) (by simp [hpc])
    simp only [ReaderSys.readerStep, hpc]
    split
    · exact quiet_of_running hint rfl
    · cases copy with
      | none => exact quiet_of_running hint rfl
      | some n =>
        dsimp only [copyMore]
        split
        · exact quiet_of_running hint rfl
        · exact quiet_of_running hint (by show s.pc.beforeSleep = false; rw [hpc]; rfl)

private theorem not_lost_of_quiet {s : ReaderSys} (h : s.Inv) (hq : s.Quiet) : ¬s.Lost := by
  rintro ⟨hpc, hint, hne⟩
  rcases hq (Or.inr hint) with hzero | hsignal
  · exact hne hzero
  · rw [h.noSignal hpc hint] at hsignal
    exact Bool.noConfusion hsignal

/-- A packet is there and the reader, unless woken, is about to sleep. -/
theorem not_safe_of_schedule {s : ReaderSys} (hpc : s.pc = .schedule)
    (hint : s.interruptible = true) (hsignal : s.signalPending = false)
    (hne : s.queue.1.size ≠ 0) : ¬s.Safe := by
  intro hsafe
  refine (hsafe.readerStep none).not_lost ?_
  simp only [ReaderSys.readerStep, hpc]
  rw [if_pos ⟨hint, hsignal⟩]
  exact ⟨rfl, hint, hne⟩

private theorem not_safe_of_setState {s : ReaderSys} (hpc : s.pc = .setState)
    (hsignal : s.signalPending = false) (hne : s.queue.1.size ≠ 0) : ¬s.Safe := by
  intro hsafe
  refine not_safe_of_schedule ?_ ?_ ?_ ?_ (hsafe.readerStep none)
  all_goals simp only [ReaderSys.readerStep, hpc]
  · exact hsignal
  · exact hne

private theorem not_safe_of_setWaiting {s : ReaderSys} (hpc : s.pc = .setWaiting)
    (hsignal : s.signalPending = false) (hne : s.queue.1.size ≠ 0) : ¬s.Safe := by
  intro hsafe
  refine not_safe_of_setState ?_ ?_ ?_ (hsafe.readerStep none)
  all_goals simp only [ReaderSys.readerStep, hpc]
  · exact hsignal
  · exact hne

private theorem not_safe_of_addWait {s : ReaderSys} (hpc : s.pc = .addWait)
    (hsignal : s.signalPending = false) (hne : s.queue.1.size ≠ 0) : ¬s.Safe := by
  intro hsafe
  refine not_safe_of_setWaiting ?_ ?_ ?_ (hsafe.readerStep none)
  all_goals simp only [ReaderSys.readerStep, hpc]
  · exact hsignal
  · exact hne

private theorem quiet_of_safe {s : ReaderSys} (h : s.Inv) (hsafe : s.Safe) : s.Quiet := by
  intro hsleep
  by_contra hnot
  obtain ⟨hne, hpending⟩ := not_or.mp hnot
  have hsignal : s.signalPending = false := Bool.eq_false_of_not_eq_true hpending
  rcases hsleep with hbefore | hint
  · cases hpc : s.pc with
    | addWait => exact not_safe_of_addWait hpc hsignal hne hsafe
    | setWaiting => exact not_safe_of_setWaiting hpc hsignal hne hsafe
    | setState => exact not_safe_of_setState hpc hsignal hne hsafe
    | _ => exact Bool.noConfusion (hpc ▸ hbefore)
  · rcases h.sleepy hint with hpc | hpc
    -- it is in `schedule()`, or one step before
    · exact not_safe_of_schedule hpc hint hsignal hne hsafe
    · exact hsafe.not_lost ⟨hpc, hint, hne⟩

/-- **The reader alone cannot lose a wake-up from a quiet state**, and from no other. -/
theorem safe_iff_quiet {s : ReaderSys} (h : s.Inv) : s.Safe ↔ s.Quiet := by
  refine ⟨quiet_of_safe h, fun hq copies => ?_⟩
  -- the reader's own steps keep a quiet state quiet
  induction copies generalizing s with
  | nil => exact not_lost_of_quiet h hq
  | cons copy copies ih => exact ih (inv_readerStep h copy) (quiet_readerStep h hq copy)

/-! ### Interrupts -/

/-- The interrupt leaves a packet in the queue. -/
def Queues (s : ReaderSys) (shmem : Shmem) (doorbell : ℕ) : Prop :=
  ∃ c ∈ consumeCalls (s.drvdata shmem) doorbell, enqueued c.1.chif24Queue (offered c.1 c.2) ≠ []

/-- The interrupt serves channel 24 and finds a packet posted there. -/
def RingsReader (s : ReaderSys) (shmem : Shmem) (doorbell : ℕ) : Prop :=
  ∃ c ∈ consumeCalls (s.drvdata shmem) doorbell,
    c.2 = channelSharemem ∧ nonEmptyPackets c.1 c.2 > 0

/-- What an interrupt may do without a wake-up being lost: a packet it queues
does not come between the failed pop and `TASK_INTERRUPTIBLE`, and one that finds
the reader `TASK_INTERRUPTIBLE` comes with a packet on channel 24. -/
def Timely (s : ReaderSys) : Event → Prop
  | .irq shmem doorbell => s.Queues shmem doorbell → s.signalPending = true ∨
      s.pc.beforeSleep = false ∧ (s.interruptible = true → s.RingsReader shmem doorbell)
  | _ => True

private theorem size_irq (s : ReaderSys) (shmem : Shmem) (doorbell : ℕ) :
    (s.irq shmem doorbell).queue.1.size = 0 ↔
      s.queue.1.size = 0 ∧ ¬s.Queues shmem doorbell := by
  rw [irq_eq, Queues, not_exists]
  dsimp only
  rw [(handled_irq (s.drvdata shmem) doorbell).size]
  refine and_congr_right fun _ => forall_congr' fun c => ?_
  rw [not_and, not_not]

/-- An interrupt ends the reader's sleep exactly when it serves channel 24. -/
theorem interruptible_irq {s : ReaderSys} (h : s.Inv) (shmem : Shmem) (doorbell : ℕ) :
    (s.irq shmem doorbell).interruptible = true ↔
      s.interruptible = true ∧ ¬s.RingsReader shmem doorbell := by
  have hwoken := (handled_irq (s.drvdata shmem) doorbell).woken channelSharemem
  have hwaiting : (s.drvdata shmem).waiting channelSharemem = s.waiting := Bool.true_and _
  have hnone : channelSharemem ∉ (s.drvdata shmem).woken := List.not_mem_nil
  rw [hwaiting, or_iff_right hnone] at hwoken
  rw [RingsReader, irq]
  generalize consumeCalls (s.drvdata shmem) doorbell = calls at hwoken
  generalize chifIrqHandle (s.drvdata shmem) doorbell = d at hwoken
  cases hint : s.interruptible with
  | false =>
    refine iff_of_false ?_ fun hand => Bool.noConfusion hand.1
    split
    · simp [wake]
    · simp
  | true =>
    -- the reader is in `schedule()`, so it is on the list and `waiting` is set
    have hon : s.pc.onList = true ∧ s.pc.flagged = true := by
      rcases h.sleepy hint with hpc | hpc
      · rw [hpc]
        exact ⟨rfl, rfl⟩
      · rw [hpc]
        exact ⟨rfl, rfl⟩
    have hlist := h.onList hon.1
    have hflag := h.flagged hon.2
    simp only [hflag, and_true] at hwoken
    rw [← hwoken]
    split
    · next hmem => simp [wake, hlist, hmem]
    · next hmem => simp [hmem]

/-- **The interrupts that keep a quiet state quiet.** -/
theorem quiet_irq_iff {s : ReaderSys} (h : s.Inv) (hq : s.Quiet) (shmem : Shmem) (doorbell : ℕ) :
    (s.irq shmem doorbell).Quiet ↔ s.Timely (.irq shmem doorbell) := by
  have hpc : (s.irq shmem doorbell).pc = s.pc := by rw [irq_eq]
  have hsignal : (s.irq shmem doorbell).signalPending = s.signalPending := by rw [irq_eq]
  rw [Quiet, hpc, hsignal, size_irq, interruptible_irq h, Timely]
  rw [Quiet] at hq
  by_cases hqueues : s.Queues shmem doorbell
  · cases hbefore : s.pc.beforeSleep with
    | true => simp [hqueues]
    | false =>
      simp only [hqueues, Bool.false_eq_true, false_or, not_true_eq_false, and_false, true_imp_iff,
        true_and]
      tauto
  · simp only [hqueues, not_false_eq_true, and_true, false_imp_iff, iff_true]
    intro hsleep
    exact hq (hsleep.imp_right And.left)

private theorem quiet_call {s : ReaderSys} (h : s.Inv) (hq : s.Quiet) (c : ReadCall) :
    (step s (.call c)).Quiet := by
  rw [step]
  split
  · next hpc => exact quiet_of_running (h.running (by simp [hpc]) (by simp [hpc])) rfl
  · exact hq

theorem safe_step_iff {s : ReaderSys} (e : Event) (h : s.Inv) (hsafe : s.Safe) :
    (step s e).Safe ↔ s.Timely e := by
  have hq := (safe_iff_quiet h).mp hsafe
  rw [safe_iff_quiet (inv_step h e)]
  cases e with
  | irq shmem doorbell => exact quiet_irq_iff h hq shmem doorbell
  | call c => exact iff_of_true (quiet_call h hq c) trivial
  | reader copy => exact iff_of_true (quiet_readerStep h hq copy) trivial
  | signal => exact iff_of_true (fun _ => Or.inr rfl) trivial

/-- **No wake-up is lost in a run whose interrupts are all timely**; and in every
other run the reader, left to itself, ends up asleep next to a packet. -/
theorem noLostWakeup_iff (es : List Event) :
    ((∀ v ∈ Run.visits step probe es, v.1.Timely v.2) →
      ∀ v ∈ Run.visits step probe es, ¬(step v.1 v.2).Lost) ∧
    ((∀ v ∈ Run.visits step probe es, (step v.1 v.2).Safe) ↔
      ∀ v ∈ Run.visits step probe es, v.1.Timely v.2) := by
  have hsafe : probe.Safe :=
    (safe_iff_quiet inv_probe).mpr (quiet_of_running rfl rfl)
  have hiff : (∀ v ∈ Run.visits step probe es, (step v.1 v.2).Safe) ↔
      ∀ v ∈ Run.visits step probe es, v.1.Timely v.2 :=
    Run.forall_visits_iff (I := fun s : ReaderSys => s.Inv ∧ s.Safe)
      (P := fun s e => (step s e).Safe) (Q := fun s e => s.Timely e)
      (fun s e h hstep => ⟨inv_step h.1 e, hstep⟩) (fun s e h => safe_step_iff e h.1 h.2)
      ⟨inv_probe, hsafe⟩
  exact ⟨fun htimely v hv => (hiff.mpr htimely v hv).not_lost, hiff⟩

/-- A host that posts an 8-byte packet on channel 24, its FIFO at offset 4096 and
its descriptors at 8192. -/
def onePacket : Shmem := fun x =>
  if x = ccbSize * channelSharemem + ccbSqFifo + 1 then 0x10
  else if x = ccbSize * channelSharemem + ccbSqDesc + 1 then 0x20
  else if x = ccbSize * channelSharemem + ccbSqCtrl + 3 then 0x80
  else if x = 0x1000 then 1
  else if x = 0x1002 then 0x80
  else 0

/-- The doorbell rings after the first pop: the reader finds the queue empty,
gets on the wait queue and sleeps, with the packet queued. -/
theorem lost_packet_after_pop :
    (Run.run step probe
      [.call ⟨channelSharemem, sharedMemChifDescriptorSize, false⟩, .reader none,
        .irq onePacket (2 ^ channelSharemem), .reader none, .reader none, .reader none,
        .reader none]).Lost := by
  decide +kernel

end ReaderSys

end Chif
