/-
What can be told about the state of an event machine from outside.

Two states are indistinct if every run logs the same from both.

* `indistinct_of_bisim` — a relation that every event respects, and under which
  it is answered alike, only relates indistinct states;
* `Indistinct.emits_eq`, `Indistinct.next` — conversely, indistinctness is such a
  relation.

Nothing here knows about a particular program.
-/
import Canopy.RunLog

namespace Observation

open Run

variable {σ ε α : Type*} {step : σ → ε → σ} {emits : σ → ε → List α}

/-- No run tells the two states apart. -/
def Indistinct (step : σ → ε → σ) (emits : σ → ε → List α) (s t : σ) : Prop :=
  ∀ es, log step emits s es = log step emits t es

/-- **To be indistinct, it is enough to be related by a bisimulation.** -/
theorem indistinct_of_bisim {R : σ → σ → Prop} (hemits : ∀ s t e, R s t → emits s e = emits t e)
    (hstep : ∀ s t e, R s t → R (step s e) (step t e)) {s t : σ} (h : R s t) :
    Indistinct step emits s t := by
  intro es
  induction es generalizing s t with
  | nil => rfl
  | cons e es ih => rw [log_cons, log_cons, hemits s t e h, ih (hstep s t e h)]

theorem Indistinct.refl (s : σ) : Indistinct step emits s s := fun _ => rfl

theorem Indistinct.symm {s t : σ} (h : Indistinct step emits s t) : Indistinct step emits t s :=
  fun es => (h es).symm

theorem Indistinct.trans {s t u : σ} (h : Indistinct step emits s t)
    (h' : Indistinct step emits t u) : Indistinct step emits s u :=
  fun es => (h es).trans (h' es)

/-- One event is answered alike. -/
theorem Indistinct.emits_eq {s t : σ} (h : Indistinct step emits s t) (e : ε) :
    emits s e = emits t e := by
  have hone := h [e]
  rwa [log_cons, log_cons, log_nil, log_nil, List.append_nil, List.append_nil] at hone

/-- And leaves states that are indistinct again. -/
theorem Indistinct.next {s t : σ} (h : Indistinct step emits s t) (e : ε) :
    Indistinct step emits (step s e) (step t e) := by
  intro es
  have hall := h (e :: es)
  rw [log_cons, log_cons, h.emits_eq e] at hall
  exact List.append_cancel_left hall

end Observation
