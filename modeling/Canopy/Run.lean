/-
Runs of a deterministic event machine.

A machine is a function `step : σ → ε → σ`; a run feeds it a list of events.
`visits` lists the pairs (state, event) a run goes through, so that a
condition on the steps of a run is a condition on `visits`.

* `eq_append_of_mem_visits` — a run around one of its steps;
* `run_invariant` — the induction rule for an invariant of every run;
* `run_invariant_of_visits`, `invariant_of_mem_visits` — the same when the steps
  of the run meet a condition, at its end and at its steps;
* `forall_prefix_run_iff` — what holds in every state of a run, step by step;
* `forall_visits_iff` — conditions that agree on every step from an invariant
  state agree on all steps of a run.
-/
import Mathlib.Tactic.Common

namespace Run

variable {σ ε : Type*} (step : σ → ε → σ)

/-- The state after the events `es`. -/
def run (s : σ) (es : List ε) : σ := es.foldl step s

/-- The steps a run takes: each event with the state it finds. -/
def visits : σ → List ε → List (σ × ε)
  | _, [] => []
  | s, e :: es => (s, e) :: visits (step s e) es

@[simp] theorem run_nil (s : σ) : run step s [] = s := rfl

@[simp] theorem run_cons (s : σ) (e : ε) (es : List ε) :
    run step s (e :: es) = run step (step s e) es := rfl

theorem run_append (s : σ) (es es' : List ε) :
    run step s (es ++ es') = run step (run step s es) es' :=
  List.foldl_append

theorem visits_append (s : σ) (es es' : List ε) :
    visits step s (es ++ es') = visits step s es ++ visits step (run step s es) es' := by
  induction es generalizing s with
  | nil => rfl
  | cons e es ih =>
    rw [List.cons_append, visits, visits, ih, List.cons_append, run_cons]

variable {step}

/-- A run only takes steps on its own events. -/
theorem event_mem_of_mem_visits : ∀ {s : σ} {es : List ε} {p : σ × ε},
    p ∈ visits step s es → p.2 ∈ es
  | _, [], _, h => absurd h List.not_mem_nil
  | s, e :: es, p, h => by
    rcases List.mem_cons.mp h with hp | hp
    · rw [hp]
      exact List.mem_cons_self
    · exact List.mem_cons_of_mem _ (event_mem_of_mem_visits hp)

/-- A step of a run splits the run in what leads to it and what follows. -/
theorem eq_append_of_mem_visits : ∀ {s : σ} {es : List ε} {p : σ × ε},
    p ∈ visits step s es → ∃ es₁ es₂, es = es₁ ++ p.2 :: es₂ ∧ p.1 = run step s es₁
  | _, [], _, h => absurd h List.not_mem_nil
  | s, e :: es, p, h => by
    rcases List.mem_cons.mp h with rfl | hp
    · exact ⟨[], es, rfl, rfl⟩
    · obtain ⟨es₁, es₂, hes, hs⟩ := eq_append_of_mem_visits hp
      exact ⟨e :: es₁, es₂, by rw [hes, List.cons_append], hs⟩

/-- An invariant kept by every step the run takes holds at its end. -/
theorem run_invariant_of_visits {I : σ → Prop} {P : σ → ε → Prop}
    (hstep : ∀ s e, I s → P s e → I (step s e)) :
    ∀ {s : σ} {es : List ε}, I s → (∀ p ∈ visits step s es, P p.1 p.2) →
      I (run step s es) := by
  intro s es
  induction es generalizing s with
  | nil =>
    intro h _
    exact h
  | cons e es ih =>
    intro h hP
    have he : P s e := hP (s, e) List.mem_cons_self
    exact ih (hstep s e h he) fun p hp => hP p (List.mem_cons_of_mem _ hp)

/-- Such an invariant holds wherever the run takes a step. -/
theorem invariant_of_mem_visits {I : σ → Prop} {P : σ → ε → Prop}
    (hstep : ∀ s e, I s → P s e → I (step s e)) :
    ∀ {s : σ} {es : List ε}, I s → (∀ p ∈ visits step s es, P p.1 p.2) →
      ∀ p ∈ visits step s es, I p.1 := by
  intro s es
  induction es generalizing s with
  | nil =>
    intro _ _ p hp
    exact absurd hp List.not_mem_nil
  | cons e es ih =>
    intro h hP p hp
    have he : P s e := hP (s, e) List.mem_cons_self
    rcases List.mem_cons.mp hp with rfl | hp
    · exact h
    · exact ih (hstep s e h he) (fun q hq => hP q (List.mem_cons_of_mem _ hq)) p hp

/-- An invariant kept by every step holds at the end of every run. -/
theorem run_invariant {I : σ → Prop} (hstep : ∀ s e, I s → I (step s e))
    {s : σ} (h : I s) (es : List ε) : I (run step s es) :=
  run_invariant_of_visits (P := fun _ _ => True) (fun t e ht _ => hstep t e ht) h
    fun _ _ => trivial

/-- What holds in every state of a run holds where it starts and after each of
its steps. -/
theorem forall_prefix_run_iff {Q : σ → Prop} {s : σ} {es : List ε} :
    (∀ es', es' <+: es → Q (run step s es')) ↔
      Q s ∧ ∀ p ∈ visits step s es, Q (step p.1 p.2) := by
  induction es generalizing s with
  | nil =>
    constructor
    · intro h
      exact ⟨h [] List.prefix_rfl, fun _ hp => absurd hp List.not_mem_nil⟩
    · rintro ⟨h, -⟩ es' hes'
      rw [List.prefix_nil.mp hes']
      exact h
  | cons e es ih =>
    have hsplit : (∀ es', es' <+: e :: es → Q (run step s es')) ↔
        Q s ∧ ∀ es', es' <+: es → Q (run step (step s e) es') := by
      constructor
      · intro h
        refine ⟨h [] List.nil_prefix, fun es' hes' => ?_⟩
        exact h (e :: es') (List.cons_prefix_cons.mpr ⟨rfl, hes'⟩)
      · rintro ⟨h, hrest⟩ es' hes'
        rcases List.prefix_cons_iff.mp hes' with rfl | ⟨t, rfl, ht⟩
        · exact h
        · exact hrest t ht
    rw [hsplit, ih, visits, List.forall_mem_cons]

/-- Two conditions that agree on every step from an invariant state agree on
the steps of every run; the invariant has to survive only steps that meet them. -/
theorem forall_visits_iff {I : σ → Prop} {P Q : σ → ε → Prop}
    (hstep : ∀ s e, I s → P s e → I (step s e)) (hPQ : ∀ s e, I s → (P s e ↔ Q s e)) :
    ∀ {s : σ} {es : List ε}, I s →
      ((∀ p ∈ visits step s es, P p.1 p.2) ↔ ∀ p ∈ visits step s es, Q p.1 p.2) := by
  intro s es
  induction es generalizing s with
  | nil =>
    intro _
    simp [visits]
  | cons e es ih =>
    intro h
    simp only [visits, List.forall_mem_cons]
    rw [← hPQ s e h]
    exact and_congr_right fun hP => ih (hstep s e h hP)

end Run
