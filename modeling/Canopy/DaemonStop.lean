/-
Stopping the daemon (`main.cpp`, `ChifDaemon::run`, `ChifDaemon::stop`).

The end of `main` and the whole of `run()` as a machine that executes one
statement at a time; the signal handler, which calls `stop()`, can run between
any two of them once it is installed.  `run()` begins by storing true in
`running_`, and so throws away a stop request that came before.

* `exists_steps_iterate` — the statements of one turn of the loop add up to
  `iterate`;
* `stopsHeeded_iff` — the stop requests of a run are heeded exactly when all of
  them come after that store.
-/
import Canopy.ChifDaemon

namespace Chif

variable {σ ε : Type}

/-! ### The machine -/

/-- The statement that is executed next. -/
inductive Point (σ ε : Type) where
  /-- `sigaction(SIGTERM, &sa, nullptr)` in `main` -/
  | sigactionTerm
  /-- `sigaction(SIGINT, &sa, nullptr)` -/
  | sigactionInt
  /-- `daemon.run()` -/
  | callRun
  /-- `running_ = true` in `run` -/
  | setRunning
  /-- the initialisation of the two counters -/
  | setCounters
  /-- `while (running_)` -/
  | test
  /-- `channel_->read(recvBuf_)` -/
  | read
  /-- what looks at the result of the read -/
  | received (r : ReadResult)
  /-- the rest of the loop body -/
  | body (p : Pending σ ε)
  /-- `run` has left its loop -/
  | returned

/-- The signal handler is installed. -/
def Point.installed : Point σ ε → Bool
  | .sigactionTerm => false
  | _ => true

/-- `running_ = true` has been executed. -/
def Point.started : Point σ ε → Bool
  | .sigactionTerm | .sigactionInt | .callRun | .setRunning => false
  | _ => true

structure Process (σ ε : Type) where
  point : Point σ ε
  running : Bool
  daemon : ChifDaemon σ
  /-- how many times the channel was read -/
  reads : ℕ

/-- The process when `main` comes to its first `sigaction`. -/
def Process.start (services : σ) : Process σ ε := ⟨.sigactionTerm, false, .entered services, 0⟩

inductive StopEvent (ε : Type) where
  /-- the next statement, with what the outside does if it looks there -/
  | statement (t : Turn ε)
  /-- a signal: the handler calls `stop()` -/
  | stop

/-- `stop()`. -/
def Process.stop (s : Process σ ε) : Process σ ε := { s with running := false }

section Machine

variable (handlers : Handlers σ ε) (outOfRange : ℤ → ℤ)

/-- The next statement of the main thread. -/
def Process.execute (s : Process σ ε) (t : Turn ε) : Process σ ε :=
  match s.point with
  | .sigactionTerm => { s with point := .sigactionInt }
  | .sigactionInt => { s with point := .callRun }
  | .callRun => { s with point := .setRunning }
  | .setRunning => { s with point := .setCounters, running := true }
  | .setCounters =>
    { s with
      point := .test
      daemon := { s.daemon with consecutiveErrors := 0, errorRetryCounter := 0 } }
  | .test => { s with point := if s.running then .read else .returned }
  | .read => { s with point := .received t.read, reads := s.reads + 1 }
  | .received r =>
    { s with
      point := .body (afterRead handlers outOfRange r s.daemon).2
      daemon := (afterRead handlers outOfRange r s.daemon).1 }
  | .body .nothing => { s with point := .test }
  | .body p =>
    { s with
      point := .body (perform t.env t.writeResult s.daemon p).2
      daemon := (perform t.env t.writeResult s.daemon p).1 }
  | .returned => s

/-- A signal before the handler is installed is no call of `stop()`. -/
def stopStep (s : Process σ ε) : StopEvent ε → Process σ ε
  | .statement t => s.execute handlers outOfRange t
  | .stop => if s.point.installed then s.stop else s

/-- Whatever happens after this point, the channel is read at most once more. -/
def Process.Heeded (s : Process σ ε) : Prop :=
  ∀ es : List (StopEvent ε),
    (Run.run (stopStep handlers outOfRange) s es).reads ≤ s.reads + 1

/-- Every stop request of the run is heeded. -/
def StopsHeeded (services : σ) (es : List (StopEvent ε)) : Prop :=
  ∀ p ∈ Run.visits (stopStep handlers outOfRange) (.start services) es,
    p.2 = .stop → p.1.point.installed = true → p.1.stop.Heeded handlers outOfRange

/-- Every stop request of the run comes after `running_ = true`. -/
def StopsTimely (services : σ) (es : List (StopEvent ε)) : Prop :=
  ∀ p ∈ Run.visits (stopStep handlers outOfRange) (.start services) es,
    p.2 = .stop → p.1.point.installed = true → p.1.point.started = true

/-! ### Statements and turns -/

/-- After one action at most a write is left to do. -/
theorem perform_cases (env : ε) (writeResult : ℤ) (d : ChifDaemon σ) (p : Pending σ ε) :
    (perform env writeResult d p).2 = .nothing ∨
      ∃ packet, (perform env writeResult d p).2 = .write packet := by
  cases p with
  | nothing => exact Or.inl rfl
  | sleep delay => exact Or.inl rfl
  | write packet => exact Or.inl rfl
  | call h request =>
    rw [perform_call]
    dsimp only
    split
    · exact Or.inr ⟨_, rfl⟩
    · exact Or.inl rfl

/-- The statements behind the read bring the loop back to its test. -/
theorem exists_steps_body (t : Turn ε) (b : Bool) (n : ℕ) (d : ChifDaemon σ) (p : Pending σ ε) :
    ∃ k, Run.run (stopStep handlers outOfRange) ⟨.body p, b, d, n⟩
        (List.replicate k (.statement t)) =
      ⟨.test, b, (perform t.env t.writeResult (perform t.env t.writeResult d p).1
        (perform t.env t.writeResult d p).2).1, n⟩ := by
  by_cases hp : p = .nothing
  · rw [hp]
    exact ⟨1, rfl⟩
  · have hstep : stopStep handlers outOfRange ⟨.body p, b, d, n⟩ (.statement t)
        = ⟨.body (perform t.env t.writeResult d p).2, b,
          (perform t.env t.writeResult d p).1, n⟩ := by
      cases p with
      | nothing => exact absurd rfl hp
      | sleep delay => rfl
      | write packet => rfl
      | call h request => rfl
    -- a call may leave a response to write, which is one statement more
    rcases perform_cases t.env t.writeResult d p with hnothing | ⟨packet, hwrite⟩
    · refine ⟨2, ?_⟩
      rw [List.replicate_succ, Run.run_cons, hstep, hnothing]
      rfl
    · refine ⟨3, ?_⟩
      rw [List.replicate_succ, Run.run_cons, hstep, hwrite]
      rfl

/-- **One turn of the loop, statement by statement**, is `iterate`. -/
theorem exists_steps_iterate (t : Turn ε) (b : Bool) (n : ℕ) (d : ChifDaemon σ) :
    ∃ k, Run.run (stopStep handlers outOfRange) ⟨.read, b, d, n⟩
        (List.replicate k (.statement t)) =
      ⟨.test, b, iterate handlers outOfRange d t, n + 1⟩ := by
  obtain ⟨k, hk⟩ := exists_steps_body handlers outOfRange t b (n + 1)
    (afterRead handlers outOfRange t.read d).1 (afterRead handlers outOfRange t.read d).2
  exact ⟨k + 2, hk⟩

/-! ### Stop requests after the store -/

/-- The reads the loop makes before it looks at `running_` again. -/
def Point.pendingReads : Point σ ε → ℕ
  | .read => 1
  | _ => 0

/-- A loop that has been told to stop. -/
structure Process.Stopping (n : ℕ) (s : Process σ ε) : Prop where
  running : s.running = false
  started : s.point.started = true
  reads : s.reads + s.point.pendingReads ≤ n

/-- No statement of the loop starts it again, and its test leads out of it. -/
theorem stopping_step {n : ℕ} {s : Process σ ε} (h : s.Stopping n) (e : StopEvent ε) :
    (stopStep handlers outOfRange s e).Stopping n := by
  obtain ⟨point, running, daemon, reads⟩ := s
  obtain ⟨hrunning, hstarted, hreads⟩ := h
  cases e with
  | stop =>
    simp only [stopStep]
    split
    · exact ⟨rfl, hstarted, hreads⟩
    · exact ⟨hrunning, hstarted, hreads⟩
  | statement t =>
    -- the handlers are in place, so the loop test is all that is left to fail
    simp only at hrunning
    subst hrunning
    cases point with
    | sigactionTerm => exact absurd hstarted Bool.false_ne_true
    | sigactionInt => exact absurd hstarted Bool.false_ne_true
    | callRun => exact absurd hstarted Bool.false_ne_true
    | setRunning => exact absurd hstarted Bool.false_ne_true
    | setCounters => exact ⟨rfl, rfl, hreads⟩
    | test => exact ⟨rfl, rfl, hreads⟩
    | read => exact ⟨rfl, rfl, hreads⟩
    | received r => exact ⟨rfl, rfl, hreads⟩
    | body p =>
      cases p with
      | nothing => exact ⟨rfl, rfl, hreads⟩
      | sleep delay => exact ⟨rfl, rfl, hreads⟩
      | call h request => exact ⟨rfl, rfl, hreads⟩
      | write packet => exact ⟨rfl, rfl, hreads⟩
    | returned => exact ⟨rfl, rfl, hreads⟩

private theorem heeded_of_started {s : Process σ ε} (h : s.point.started = true) :
    s.stop.Heeded handlers outOfRange := by
  intro es
  have hpending : s.point.pendingReads ≤ 1 := by
    cases s.point with
    | read => exact le_rfl
    | _ => exact Nat.zero_le 1
  have hstop : s.stop.Stopping (s.stop.reads + 1) :=
    ⟨rfl, h, Nat.add_le_add_left hpending s.stop.reads⟩
  have hrun := Run.run_invariant (I := Process.Stopping (s.stop.reads + 1))
    (fun s e hs => stopping_step handlers outOfRange hs e) hstop es
  exact le_trans (Nat.le_add_right _ _) hrun.reads

/-! ### Stop requests before the store -/

/-- A turn in which the read returns nothing. -/
def idleTurn (env : ε) : Turn ε := ⟨.bytes [] (Nat.zero_le _), env, 0⟩

private theorem not_heeded_of_not_started (env : ε) {s : Process σ ε}
    (hinstalled : s.point.installed = true) (h : s.point.started = false) :
    ¬s.stop.Heeded handlers outOfRange := by
  intro hheeded
  obtain ⟨point, running, daemon, reads⟩ := s
  -- the statements up to the store, and then two reads
  have htwo : ∃ k, (Run.run (stopStep handlers outOfRange)
      (Process.stop ⟨point, running, daemon, reads⟩)
      (List.replicate k (.statement (idleTurn env)))).reads = reads + 2 := by
    cases point with
    | sigactionTerm => exact absurd hinstalled Bool.false_ne_true
    | sigactionInt => exact ⟨10, rfl⟩
    | callRun => exact ⟨9, rfl⟩
    | setRunning => exact ⟨8, rfl⟩
    | _ => exact absurd h.symm Bool.false_ne_true
  obtain ⟨k, hk⟩ := htwo
  have hle := hheeded (List.replicate k (.statement (idleTurn env)))
  rw [hk] at hle
  have hreads : (Process.stop ⟨point, running, daemon, reads⟩).reads = reads := rfl
  omega

/-- The handler is installed by a statement, so there has been one. -/
theorem nonempty_of_installed (s : Process σ ε) (e : StopEvent ε)
    (h : s.point.installed = true → Nonempty ε) :
    (stopStep handlers outOfRange s e).point.installed = true → Nonempty ε := by
  intro hinstalled
  cases e with
  | statement t => exact ⟨t.env⟩
  | stop =>
    rw [stopStep] at hinstalled
    split at hinstalled
    · next hs => exact h hs
    · exact h hinstalled

/-- **When a stop request is not lost.**  In every run, each call of `stop()` is
followed by at most one more read, whatever happens, if and only if each of
them comes after `run()` has stored true in `running_`. -/
theorem stopsHeeded_iff (services : σ) (es : List (StopEvent ε)) :
    StopsHeeded handlers outOfRange services es ↔ StopsTimely handlers outOfRange services es := by
  have hstart : (Process.start services : Process σ ε).point.installed = true → Nonempty ε :=
    fun h => absurd h Bool.false_ne_true
  refine Run.forall_visits_iff
    (I := fun s : Process σ ε => s.point.installed = true → Nonempty ε)
    (P := fun s e => e = .stop → s.point.installed = true → s.stop.Heeded handlers outOfRange)
    (Q := fun s e => e = .stop → s.point.installed = true → s.point.started = true)
    (fun s e hs _ => nonempty_of_installed handlers outOfRange s e hs) (fun s e hs => ?_) hstart
  refine imp_congr_right fun _ => imp_congr_ctx Iff.rfl fun hinstalled => ?_
  constructor
  · intro hheeded
    obtain ⟨env⟩ := hs hinstalled
    by_contra hstarted
    exact not_heeded_of_not_started handlers outOfRange env hinstalled
      (Bool.eq_false_iff.mpr hstarted) hheeded
  · exact heeded_of_started handlers outOfRange

end Machine

/-- A signal between the installation of the handlers and the first statement of
`run()`: the loop goes on reading. -/
theorem not_stopsHeeded_before_run :
    ¬StopsHeeded (registered ([] : List (ServiceHandler Unit Unit))) (fun _ => 0) ()
      [.statement (idleTurn ()), .statement (idleTurn ()), .stop] := by
  intro h
  have hheeded := h (⟨.callRun, false, .entered (), 0⟩, .stop)
    (by exact List.mem_cons_of_mem _ (List.mem_cons_of_mem _ List.mem_cons_self)) rfl rfl
  have hle := hheeded (List.replicate 9 (.statement (idleTurn ())))
  exact absurd hle (by decide)

end Chif
