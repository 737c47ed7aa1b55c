/-
The back-off of the daemon on read errors.

From the tenth error of a series on, the daemon sleeps; the delay is 2 to the
number of sleeps before, converted to `int` and only then capped at 30 seconds.

* `Backs.step` — what one iteration does to the counters and to the delays;
* `Backs.after_run`, `Backs.conversions_iff` — what a run does to them, by
  induction on the reads;
* `backoffSound_iff` — the back-off is well defined and bounded iff no series
  has more than 40 errors.
-/
import Canopy.ChifDaemon
import Mathlib.Algebra.Order.Ring.Int

namespace Chif

open Run

variable {σ ε : Type}

/-! ### Series of errors -/

/-- A read that resets the counters. -/
def ReadResult.Succeeds : ReadResult → Prop
  | .bytes data _ => data.length ≠ 0
  | .error _ => False

instance : DecidablePred ReadResult.Succeeds := fun r => by
  cases r with
  | bytes data fits => exact inferInstanceAs (Decidable (data.length ≠ 0))
  | error errno => exact inferInstanceAs (Decidable False)

/-- A read that counts as an error. -/
def ReadResult.Fails : ReadResult → Prop
  | .bytes _ _ => False
  | .error errno => errno ≠ eintr

instance : DecidablePred ReadResult.Fails := fun r => by
  cases r with
  | bytes data fits => exact inferInstanceAs (Decidable False)
  | error errno => exact inferInstanceAs (Decidable (errno ≠ eintr))

theorem ReadResult.Succeeds.not_fails {r : ReadResult} (h : r.Succeeds) : ¬r.Fails := by
  cases r with
  | bytes data fits => exact id
  | error errno => exact absurd h id

/-- The errors of the series so far, after one more read. -/
def nextErrors (k : ℕ) (r : ReadResult) : ℕ :=
  if r.Succeeds then 0 else if r.Fails then k + 1 else k

/-- The errors of the series the reads end with, after `k` errors before them. -/
def errorsFrom (k : ℕ) (ts : List (Turn ε)) : ℕ := ts.foldl (fun k t => nextErrors k t.read) k

/-! ### What is asked of the back-off -/

/-- The iteration computes a delay. -/
def ChifDaemon.Converts (d : ChifDaemon σ) (t : Turn ε) : Prop :=
  t.read.Fails ∧ d.consecutiveErrors + 1 ≥ maxConsecutiveErrors

/-- 2 to the counter is an `int`, and the product with the base delay of one
second a 64-bit count of seconds. -/
def ConversionOk (errorRetryCounter : Int32) : Prop :=
  0 ≤ errorRetryCounter.toInt ∧ (2 : ℤ) ^ errorRetryCounter.toInt.toNat < 2 ^ 31 ∧
    1 * (2 : ℤ) ^ errorRetryCounter.toInt.toNat < 2 ^ 63

/-- The back-off is well defined and bounded on a run of the loop. -/
structure BackoffSound (handlers : Handlers σ ε) (outOfRange : ℤ → ℤ) (services : σ)
    (ts : List (Turn ε)) : Prop where
  conversions : ∀ p ∈ visits (iterate handlers outOfRange) (.entered services) ts,
    p.1.Converts p.2 → ConversionOk p.1.errorRetryCounter
  delays : ∀ delay ∈ (run (iterate handlers outOfRange) (.entered services) ts).slept,
    1 ≤ delay ∧ delay ≤ 30
  /-- where no read succeeds, the delays do not decrease -/
  series : ∀ pre mid, pre ++ mid <+: ts → (∀ t ∈ mid, ¬t.read.Succeeds) →
    ((run (iterate handlers outOfRange) (.entered services) (pre ++ mid)).slept.drop
      (run (iterate handlers outOfRange) (.entered services) pre).slept.length).Pairwise (· ≤ ·)

/-! ### The counters -/

/-- The counters after `k` errors of a series: each error from the tenth on was
slept for. -/
structure ChifDaemon.Backs (d : ChifDaemon σ) (k : ℕ) : Prop where
  errors : d.consecutiveErrors.toInt = k
  retries : d.errorRetryCounter.toInt = (k - 9 : ℕ)

private theorem backs_entered (services : σ) : (ChifDaemon.entered services).Backs 0 := ⟨rfl, rfl⟩

private theorem toInt_add_one {x : Int32} {k : ℕ} (hx : x.toInt = k) (hk : k ≤ 40) :
    (x + 1).toInt = (k + 1 : ℕ) := by
  have hone : (1 : Int32).toInt = 1 := rfl
  rw [Int32.toInt_add, hx, hone, Int.bmod_eq_of_le (by omega) (by omega), Nat.cast_succ]

/-- The delay of the error after `k` others of its series. -/
def delayAt (k : ℕ) : ℤ := min 30 (2 ^ (k - 9))

section Counters

variable {d : ChifDaemon σ} {k : ℕ}

theorem ChifDaemon.Backs.converts_iff (h : d.Backs k) (hk : k ≤ 40) (t : Turn ε) :
    d.Converts t ↔ t.read.Fails ∧ 9 ≤ k := by
  have hlimit : maxConsecutiveErrors.toInt = 10 := rfl
  rw [Converts, ge_iff_le, Int32.le_iff_toInt_le, toInt_add_one h.errors hk, hlimit]
  refine and_congr_right fun _ => ?_
  omega

/-- The conversion is fine up to the fortieth error of a series. -/
theorem ChifDaemon.Backs.conversionOk_iff (h : d.Backs k) :
    ConversionOk d.errorRetryCounter ↔ k < 40 := by
  have hpow : ∀ n, (2 : ℤ) ^ (k - 9) < 2 ^ n ↔ k - 9 < n := fun n =>
    pow_lt_pow_iff_right₀ one_lt_two
  rw [ConversionOk, h.retries, Int.toNat_natCast, one_mul, hpow, hpow]
  omega

theorem ChifDaemon.Backs.backoffDelay_eq (h : d.Backs k) (hk : k < 40) (outOfRange : ℤ → ℤ) :
    backoffDelay outOfRange d.errorRetryCounter = delayAt k := by
  rw [backoffDelay, h.retries, delayAt]
  rw [if_neg (by omega), if_pos (by omega), Int.toNat_natCast, one_mul]

/-- What is left of an iteration that does not sleep keeps the counters. -/
theorem perform_keeps (env : ε) (writeResult : ℤ) (d : ChifDaemon σ) {p : Pending σ ε}
    (hp : ∀ delay, p ≠ .sleep delay) :
    (perform env writeResult d p).1.consecutiveErrors = d.consecutiveErrors ∧
      (perform env writeResult d p).1.errorRetryCounter = d.errorRetryCounter ∧
      (perform env writeResult d p).1.slept = d.slept ∧
      ∀ delay, (perform env writeResult d p).2 ≠ .sleep delay := by
  cases p with
  | nothing => exact ⟨rfl, rfl, rfl, hp⟩
  | sleep delay => exact absurd rfl (hp delay)
  | call h request =>
    rw [perform_call]
    refine ⟨rfl, rfl, rfl, fun delay => ?_⟩
    dsimp only
    split
    · exact nofun
    · exact nofun
  | write packet => exact ⟨rfl, rfl, rfl, fun delay => nofun⟩

/-- An iteration that does not sleep leaves the counters as the read left them. -/
theorem iterate_keeps (handlers : Handlers σ ε) (outOfRange : ℤ → ℤ) (d : ChifDaemon σ)
    (t : Turn ε) (hp : ∀ delay, (afterRead handlers outOfRange t.read d).2 ≠ .sleep delay) :
    (iterate handlers outOfRange d t).consecutiveErrors =
        (afterRead handlers outOfRange t.read d).1.consecutiveErrors ∧
      (iterate handlers outOfRange d t).errorRetryCounter =
        (afterRead handlers outOfRange t.read d).1.errorRetryCounter ∧
      (iterate handlers outOfRange d t).slept =
        (afterRead handlers outOfRange t.read d).1.slept := by
  obtain ⟨herrors, hretries, hslept, hp'⟩ := perform_keeps t.env t.writeResult
    (afterRead handlers outOfRange t.read d).1 hp
  obtain ⟨herrors', hretries', hslept', -⟩ := perform_keeps t.env t.writeResult
    (perform t.env t.writeResult (afterRead handlers outOfRange t.read d).1
      (afterRead handlers outOfRange t.read d).2).1 hp'
  exact ⟨herrors'.trans herrors, hretries'.trans hretries, hslept'.trans hslept⟩

/-- The delays of one more read. -/
def delaysOf (k : ℕ) (r : ReadResult) : List ℤ := if r.Fails ∧ 9 ≤ k then [delayAt k] else []

/-- The statements between a failing read and the next one. -/
theorem iterate_error (handlers : Handlers σ ε) (outOfRange : ℤ → ℤ) (d : ChifDaemon σ)
    {t : Turn ε} {errno : ℕ} (hread : t.read = .error errno) (herrno : errno ≠ eintr) :
    iterate handlers outOfRange d t =
      if d.consecutiveErrors + 1 ≥ maxConsecutiveErrors then
        { d with
          consecutiveErrors := d.consecutiveErrors + 1
          errorRetryCounter := d.errorRetryCounter + 1
          slept := d.slept ++ [backoffDelay outOfRange d.errorRetryCounter] }
      else { d with consecutiveErrors := d.consecutiveErrors + 1 } := by
  rw [iterate, hread, afterRead, if_pos herrno]
  dsimp only
  split
  · rfl
  · rfl

/-- The statements between a read of bytes and the first call. -/
theorem afterRead_bytes (handlers : Handlers σ ε) (outOfRange : ℤ → ℤ) (d : ChifDaemon σ)
    {data : Bytes} (fits : data.length ≤ maxPacketSize) :
    (afterRead handlers outOfRange (.bytes data fits) d).1 =
        (if data.length = 0 then d else d.received data) ∧
      ∀ delay, (afterRead handlers outOfRange (.bytes data fits) d).2 ≠ .sleep delay := by
  rw [afterRead]
  dsimp only
  split
  · exact ⟨rfl, fun _ h => by cases h⟩
  · split
    · exact ⟨rfl, fun _ h => by cases h⟩
    · split
      · exact ⟨rfl, fun _ h => by cases h⟩
      · exact ⟨rfl, fun _ h => by cases h⟩

/-- A failing read. -/
theorem ChifDaemon.Backs.step_error (h : d.Backs k) (hk : k < 40)
    (handlers : Handlers σ ε) (outOfRange : ℤ → ℤ) {t : Turn ε} {errno : ℕ}
    (hread : t.read = .error errno) (herrno : errno ≠ eintr) :
    (iterate handlers outOfRange d t).Backs (k + 1) ∧
      (iterate handlers outOfRange d t).slept
        = d.slept ++ if 9 ≤ k then [delayAt k] else [] := by
  have hfails : (ReadResult.error errno).Fails := herrno
  have hconverts := h.converts_iff (by omega) t
  rw [Converts, hread, and_iff_right hfails, and_iff_right hfails] at hconverts
  have hcount := toInt_add_one h.errors (by omega)
  rw [iterate_error handlers outOfRange d hread herrno]
  -- the tenth error of a series is the first to sleep
  by_cases hsleep : 9 ≤ k
  · have hretries : (d.errorRetryCounter + 1).toInt = (k + 1 - 9 : ℕ) := by
      rw [toInt_add_one h.retries (by omega)]
      omega
    rw [if_pos (hconverts.mpr hsleep), if_pos hsleep, h.backoffDelay_eq hk]
    exact ⟨⟨hcount, hretries⟩, rfl⟩
  · have hretries : d.errorRetryCounter.toInt = (k + 1 - 9 : ℕ) := by
      rw [h.retries]
      omega
    rw [if_neg (mt hconverts.mp hsleep), if_neg hsleep, List.append_nil]
    exact ⟨⟨hcount, hretries⟩, rfl⟩

/-- A read that a signal interrupts. -/
theorem ChifDaemon.Backs.step_interrupted (h : d.Backs k) (handlers : Handlers σ ε)
    (outOfRange : ℤ → ℤ) {t : Turn ε} (hread : t.read = .error eintr) :
    (iterate handlers outOfRange d t).Backs k ∧
      (iterate handlers outOfRange d t).slept = d.slept := by
  obtain ⟨herrors, hretries, hslept⟩ := iterate_keeps handlers outOfRange d t (by
    rw [hread, afterRead, if_neg (not_not.mpr rfl)]
    rintro delay ⟨⟩)
  rw [hread, afterRead, if_neg (not_not.mpr rfl)] at herrors hretries hslept
  exact ⟨⟨herrors ▸ h.errors, hretries ▸ h.retries⟩, hslept⟩

/-- A read of bytes; one of none at all does not end the series. -/
theorem ChifDaemon.Backs.step_bytes (h : d.Backs k) (handlers : Handlers σ ε)
    (outOfRange : ℤ → ℤ) {t : Turn ε} {data : Bytes} {fits : data.length ≤ maxPacketSize}
    (hread : t.read = .bytes data fits) :
    (iterate handlers outOfRange d t).Backs (if data.length = 0 then k else 0) ∧
      (iterate handlers outOfRange d t).slept = d.slept := by
  obtain ⟨hafter, hp⟩ := afterRead_bytes handlers outOfRange d fits
  obtain ⟨herrors, hretries, hslept⟩ := iterate_keeps handlers outOfRange d t (by
    rw [hread]
    exact hp)
  rw [hread, hafter] at herrors hretries hslept
  by_cases hempty : data.length = 0
  · rw [if_pos hempty] at herrors hretries hslept ⊢
    exact ⟨⟨herrors ▸ h.errors, hretries ▸ h.retries⟩, hslept⟩
  · rw [if_neg hempty] at herrors hretries hslept ⊢
    exact ⟨⟨by rw [herrors]; rfl, by rw [hretries]; rfl⟩, hslept⟩

/-- **One iteration**: the counters follow the errors of the series. -/
theorem ChifDaemon.Backs.step (h : d.Backs k) {t : Turn ε} (hnext : nextErrors k t.read ≤ 40)
    (handlers : Handlers σ ε) (outOfRange : ℤ → ℤ) :
    (iterate handlers outOfRange d t).Backs (nextErrors k t.read) ∧
      (iterate handlers outOfRange d t).slept = d.slept ++ delaysOf k t.read := by
  cases hread : t.read with
  | error errno =>
    rw [hread] at hnext
    have hnever : ¬(ReadResult.error errno).Succeeds := id
    rw [nextErrors, if_neg hnever] at hnext ⊢
    rw [delaysOf]
    by_cases herrno : errno ≠ eintr
    · have hfails : (ReadResult.error errno).Fails := herrno
      rw [if_pos hfails] at hnext ⊢
      simp only [hfails, true_and]
      exact h.step_error hnext handlers outOfRange hread herrno
    · have hfails : ¬(ReadResult.error errno).Fails := herrno
      -- an interrupted read is neither an error nor a success
      rw [if_neg hfails, if_neg (fun hs => hfails hs.1), List.append_nil]
      rw [not_not.mp herrno] at hread
      exact h.step_interrupted handlers outOfRange hread
  | bytes data fits =>
    have hfails : ¬(ReadResult.bytes data fits).Fails := id
    have hsleeps : ¬((ReadResult.bytes data fits).Fails ∧ 9 ≤ k) := fun hs => hfails hs.1
    have hstep := h.step_bytes handlers outOfRange hread
    rw [nextErrors, if_neg hfails, delaysOf, if_neg hsleeps, List.append_nil]
    by_cases hempty : data.length = 0
    · have hidle : ¬(ReadResult.bytes data fits).Succeeds := fun hs => hs hempty
      rw [if_pos hempty] at hstep
      rwa [if_neg hidle]
    · have hsucceeds : (ReadResult.bytes data fits).Succeeds := hempty
      rw [if_neg hempty] at hstep
      rwa [if_pos hsucceeds]

end Counters

/-! ### Runs -/

section Runs

variable (handlers : Handlers σ ε) (outOfRange : ℤ → ℤ)

private theorem errorsFrom_append (k : ℕ) (ts ts' : List (Turn ε)) :
    errorsFrom k (ts ++ ts') = errorsFrom (errorsFrom k ts) ts' := List.foldl_append

/-- The delays of the reads, after `k` errors before them. -/
def delaysFrom : ℕ → List (Turn ε) → List ℤ
  | _, [] => []
  | k, t :: ts => delaysOf k t.read ++ delaysFrom (nextErrors k t.read) ts

private theorem forall_prefix_cons_iff {k : ℕ} {t : Turn ε} {ts : List (Turn ε)} (hk : k ≤ 40) :
    (∀ pre, pre <+: t :: ts → errorsFrom k pre ≤ 40) ↔
      nextErrors k t.read ≤ 40 ∧
        ∀ pre, pre <+: ts → errorsFrom (nextErrors k t.read) pre ≤ 40 := by
  constructor
  · intro h
    exact ⟨h [t] (List.cons_prefix_cons.mpr ⟨rfl, List.nil_prefix⟩),
      fun pre hpre => h (t :: pre) (List.cons_prefix_cons.mpr ⟨rfl, hpre⟩)⟩
  · rintro ⟨-, hrest⟩ pre hpre
    rcases List.prefix_cons_iff.mp hpre with rfl | ⟨pre', rfl, hpre'⟩
    · exact hk
    · exact hrest pre' hpre'

/-- **The counters and the delays of a run without a long series.** -/
theorem ChifDaemon.Backs.after_run (ts : List (Turn ε)) : ∀ {d : ChifDaemon σ} {k : ℕ}, d.Backs k →
    k ≤ 40 → (∀ pre, pre <+: ts → errorsFrom k pre ≤ 40) →
      (run (iterate handlers outOfRange) d ts).Backs (errorsFrom k ts) ∧
        (run (iterate handlers outOfRange) d ts).slept = d.slept ++ delaysFrom k ts := by
  induction ts with
  | nil =>
    intro d k h _ _
    exact ⟨h, (List.append_nil _).symm⟩
  | cons t ts ih =>
    intro d k h hk hpre
    obtain ⟨hnext, hrest⟩ := (forall_prefix_cons_iff hk).mp hpre
    obtain ⟨hbacks, hslept⟩ := h.step hnext handlers outOfRange
    obtain ⟨hbacks', hslept'⟩ := ih hbacks hnext hrest
    refine ⟨hbacks', ?_⟩
    rw [run_cons, hslept', hslept, delaysFrom, List.append_assoc]

/-- **The conversions of a run are fine iff it has no long series.** -/
theorem ChifDaemon.Backs.conversions_iff (ts : List (Turn ε)) : ∀ {d : ChifDaemon σ} {k : ℕ},
    d.Backs k → k ≤ 40 →
      ((∀ p ∈ visits (iterate handlers outOfRange) d ts,
        p.1.Converts p.2 → ConversionOk p.1.errorRetryCounter) ↔
          ∀ pre, pre <+: ts → errorsFrom k pre ≤ 40) := by
  induction ts with
  | nil =>
    intro d k _ hk
    refine iff_of_true (fun p hp => absurd hp List.not_mem_nil) fun pre hpre => ?_
    rw [List.prefix_nil.mp hpre]
    exact hk
  | cons t ts ih =>
    intro d k h hk
    rw [visits, List.forall_mem_cons, forall_prefix_cons_iff hk]
    -- the conversion of this turn is right as long as the count stays within 40
    have hfirst : (d.Converts t → ConversionOk d.errorRetryCounter) ↔
        nextErrors k t.read ≤ 40 := by
      rw [h.converts_iff hk, h.conversionOk_iff, nextErrors]
      by_cases hsucceeds : t.read.Succeeds
      · rw [if_pos hsucceeds]
        exact iff_of_true (fun hc => absurd hc.1 hsucceeds.not_fails) (Nat.zero_le 40)
      · rw [if_neg hsucceeds]
        by_cases hfails : t.read.Fails
        · rw [if_pos hfails, and_iff_right hfails]
          omega
        · rw [if_neg hfails]
          exact iff_of_true (fun hc => absurd hc.1 hfails) hk
    rw [hfirst]
    refine and_congr_right fun hnext => ?_
    exact ih (h.step hnext handlers outOfRange).1 hnext

/-! ### The delays -/

private theorem delayAt_bounds (k : ℕ) : 1 ≤ delayAt k ∧ delayAt k ≤ 30 := by
  have hpow : (1 : ℤ) ≤ 2 ^ (k - 9) := one_le_pow₀ (by norm_num)
  exact ⟨le_min (by norm_num) hpow, min_le_left _ _⟩

private theorem delayAt_mono {k k' : ℕ} (h : k ≤ k') : delayAt k ≤ delayAt k' :=
  min_le_min_left 30 (pow_le_pow_right₀ (by norm_num) (Nat.sub_le_sub_right h 9))

private theorem mem_delaysOf {k : ℕ} {r : ReadResult} {delay : ℤ} (h : delay ∈ delaysOf k r) :
    delay = delayAt k := by
  rw [delaysOf] at h
  split at h
  · exact List.mem_singleton.mp h
  · cases h

private theorem delaysFrom_bounds (ts : List (Turn ε)) : ∀ (k : ℕ), ∀ delay ∈ delaysFrom k ts,
    1 ≤ delay ∧ delay ≤ 30 := by
  induction ts with
  | nil =>
    intro k delay hdelay
    cases hdelay
  | cons t ts ih =>
    intro k delay hdelay
    rcases List.mem_append.mp hdelay with h | h
    · rw [mem_delaysOf h]
      exact delayAt_bounds k
    · exact ih _ delay h

private theorem le_nextErrors {k : ℕ} {r : ReadResult} (h : ¬r.Succeeds) : k ≤ nextErrors k r := by
  rw [nextErrors, if_neg h]
  split
  · exact Nat.le_succ k
  · exact Nat.le_refl k

/-- Where no read succeeds, the delays start at the current one and do not
decrease. -/
theorem delaysFrom_sorted (ts : List (Turn ε)) : ∀ (k : ℕ), (∀ t ∈ ts, ¬t.read.Succeeds) →
    (∀ delay ∈ delaysFrom k ts, delayAt k ≤ delay) ∧ (delaysFrom k ts).Pairwise (· ≤ ·) := by
  induction ts with
  | nil =>
    intro k _
    refine ⟨fun delay hdelay => ?_, List.Pairwise.nil⟩
    cases hdelay
  | cons t ts ih =>
    intro k h
    rw [List.forall_mem_cons] at h
    have hmono := delayAt_mono (le_nextErrors (k := k) h.1)
    obtain ⟨hle, hsorted⟩ := ih (nextErrors k t.read) h.2
    constructor
    · intro delay hdelay
      rcases List.mem_append.mp hdelay with hd | hd
      · rw [mem_delaysOf hd]
      · exact hmono.trans (hle delay hd)
    · -- the delay of this turn is the least of those to come
      refine List.pairwise_append.mpr ⟨?_, hsorted, fun a ha b hb => ?_⟩
      · rw [delaysOf]
        split
        · exact List.pairwise_singleton _ _
        · exact List.Pairwise.nil
      · rw [mem_delaysOf ha]
        exact hmono.trans (hle b hb)

/-- **The back-off is well defined and bounded iff no series has more than 40
errors.** -/
theorem backoffSound_iff (services : σ) (ts : List (Turn ε)) :
    BackoffSound handlers outOfRange services ts ↔
      ∀ pre, pre <+: ts → errorsFrom 0 pre ≤ 40 := by
  have hstart := backs_entered services
  rw [← hstart.conversions_iff handlers outOfRange ts (by omega)]
  constructor
  · intro h
    exact h.conversions
  · intro hconv
    have hpre := (hstart.conversions_iff handlers outOfRange ts (by omega)).mp hconv
    refine ⟨hconv, ?_, fun pre mid hmid hnone => ?_⟩
    · rw [(hstart.after_run handlers outOfRange ts (by omega) hpre).2]
      exact delaysFrom_bounds ts 0
    · have hbegin : ∀ pre', pre' <+: pre → errorsFrom 0 pre' ≤ 40 := fun pre' h' =>
        hpre pre' ((h'.trans (List.prefix_append pre mid)).trans hmid)
      obtain ⟨hbacks, -⟩ := hstart.after_run handlers outOfRange pre (by omega)
        hbegin
      -- the run goes on from the count that the first part leaves
      have hrest : ∀ mid', mid' <+: mid → errorsFrom (errorsFrom 0 pre) mid' ≤ 40 := by
        intro mid' h'
        rw [← errorsFrom_append]
        exact hpre _ (((List.prefix_append_right_inj pre).mpr h').trans hmid)
      have hslept := (hbacks.after_run handlers outOfRange mid (hbegin pre List.prefix_rfl) hrest).2
      rw [run_append, hslept, List.drop_left]
      exact (delaysFrom_sorted mid _ hnone).2

end Runs

/-- A read that fails with `EIO`. -/
def failingTurn : Turn Unit := { read := .error 5, env := (), writeResult := 0 }

/-- The 41st error in a row converts 2 to the 31 to `int`. -/
theorem backoff_overflows :
    ¬BackoffSound (fun _ => none : Handlers Unit Unit) id () (List.replicate 41 failingTurn) := by
  intro h
  have hpre := ((backs_entered ()).conversions_iff _ _ (List.replicate 41 failingTurn)
    (Nat.zero_le 40)).mp h.conversions
  exact absurd (hpre _ List.prefix_rfl) (by decide)

end Chif
