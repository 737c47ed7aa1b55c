/-
What goes into and comes out of the runs of an event machine.

A log collects what the steps of a run emit.  A machine that buffers what it
takes in obeys a conservation law: what it holds at first and what it takes in
is, in order, what it puts out and what it holds at the end.

* `log` — what the steps of a run emit;
* `log_length_le` — how much a run emits, from how much one step does;
* `conserved` — the law for a run, from the law for one step;
* `conserved_iff` — where the law for one step is equivalent to a condition on
  the step, the law for all prefixes of a run is equivalent to the condition on
  all its steps.

Nothing here knows about a particular program.
-/
import Canopy.Run
import Mathlib.Data.List.Infix

namespace Run

variable {σ ε α : Type*} {step : σ → ε → σ}

/-- What the steps of a run emit. -/
def log (step : σ → ε → σ) (emits : σ → ε → List α) (s : σ) (es : List ε) : List α :=
  (visits step s es).flatMap fun p => emits p.1 p.2

@[simp] theorem log_nil (emits : σ → ε → List α) (s : σ) : log step emits s [] = [] := rfl

@[simp] theorem log_cons (emits : σ → ε → List α) (s : σ) (e : ε) (es : List ε) :
    log step emits s (e :: es) = emits s e ++ log step emits (step s e) es := by
  rw [log, visits, List.flatMap_cons]
  rfl

/-- **What comes out is paid for** by what goes in, if every step pays for itself. -/
theorem log_length_le {β : Type*} {m : σ → ℕ} {emits : σ → ε → List α} {takes : σ → ε → List β}
    (hstep : ∀ s e, (emits s e).length + m (step s e) ≤ (takes s e).length + m s) (s : σ)
    (es : List ε) :
    (log step emits s es).length + m (run step s es) ≤ (log step takes s es).length + m s := by
  induction es generalizing s with
  | nil => exact le_rfl
  | cons e es ih =>
    have hone := hstep s e
    have hrest := ih (step s e)
    rw [log_cons, log_cons, List.length_append, List.length_append, run_cons]
    omega

/-- The steps of a prefix are steps of the run. -/
theorem mem_visits_mono {s : σ} {es es' : List ε} (h : es' <+: es) {p : σ × ε}
    (hp : p ∈ visits step s es') : p ∈ visits step s es := by
  obtain ⟨rest, rfl⟩ := h
  rw [visits_append]
  exact List.mem_append_left _ hp

variable {takes puts : σ → ε → List α} {holds : σ → List α} {I : σ → Prop} {P : σ → ε → Prop}

/-- **What goes in comes out in order, or is still held.** -/
theorem conserved (hstep : ∀ s e, I s → P s e → I (step s e))
    (hflow : ∀ s e, I s → P s e → holds s ++ takes s e = puts s e ++ holds (step s e)) :
    ∀ {s : σ} {es : List ε}, I s → (∀ p ∈ visits step s es, P p.1 p.2) →
      holds s ++ log step takes s es = log step puts s es ++ holds (run step s es) := by
  intro s es
  induction es generalizing s with
  | nil =>
    intro _ _
    simp
  | cons e es ih =>
    intro h hP
    have he : P s e := hP (s, e) List.mem_cons_self
    have hrest := ih (hstep s e h he) fun p hp => hP p (List.mem_cons_of_mem _ hp)
    rw [log_cons, log_cons, run_cons, ← List.append_assoc, hflow s e h he, List.append_assoc,
      hrest, List.append_assoc]

/-- **The law holds all along a run exactly when all its steps meet the condition.** -/
theorem conserved_iff (hstep : ∀ s e, I s → P s e → I (step s e))
    (hflow : ∀ s e, I s → (holds s ++ takes s e = puts s e ++ holds (step s e) ↔ P s e)) :
    ∀ {s : σ} {es : List ε}, I s →
      ((∀ es', es' <+: es →
        holds s ++ log step takes s es' = log step puts s es' ++ holds (run step s es')) ↔
          ∀ p ∈ visits step s es, P p.1 p.2) := by
  intro s es h
  constructor
  · induction es generalizing s with
    | nil =>
      intro _ p hp
      exact absurd hp List.not_mem_nil
    | cons e es ih =>
      intro hlaw
      have hone := hlaw [e] (List.cons_prefix_cons.mpr ⟨rfl, List.nil_prefix⟩)
      rw [log_cons, log_cons, log_nil, log_nil, List.append_nil, List.append_nil, run_cons,
        run_nil] at hone
      have he : P s e := (hflow s e h).mp hone
      rw [visits, List.forall_mem_cons]
      refine ⟨he, ih (hstep s e h he) fun es' hes' => ?_⟩
      -- the law for `e :: es'` is the law for `e` and the one for `es'`
      have hboth := hlaw (e :: es') (List.cons_prefix_cons.mpr ⟨rfl, hes'⟩)
      rw [log_cons, log_cons, run_cons, ← List.append_assoc, hone, List.append_assoc,
        List.append_assoc] at hboth
      exact List.append_cancel_left hboth
  · intro hP es' hes'
    exact conserved hstep (fun t e ht he => (hflow t e ht).mpr he) h fun p hp =>
      hP p (mem_visits_mono hes' hp)

end Run
