/-
Noninterference of event machines by unwinding.

Each event belongs to a domain.  Two states agree for a domain `d` if `d` cannot
tell them apart.  If the events of other domains keep such an agreement, and
those of `d` itself answer alike in states that agree, then `d` cannot tell a
run from the run of its own events.  The steps of the run may be held to a
condition.

* `Unwinds` — the conditions on one step;
* `log_own`, `agree_purge` — what a run emits for `d`, and what `d` sees at its
  end, are those of the purged run.

Nothing here knows about a particular program.
-/
import Canopy.RunLog

namespace Unwinding

open Run

variable {σ ε δ α : Type*} [DecidableEq δ] {step : σ → ε → σ} {dom : ε → δ}
  {emits : σ → ε → List α} {agree : σ → σ → Prop} {P : σ → ε → Prop} {d : δ}

/-- The events of domain `d`. -/
def purge (dom : ε → δ) (d : δ) (es : List ε) : List ε := es.filter fun e => dom e = d

/-- What a step emits for domain `d`. -/
def own (dom : ε → δ) (d : δ) (emits : σ → ε → List α) (s : σ) (e : ε) : List α :=
  if dom e = d then emits s e else []

/-- It is part of what the step emits. -/
theorem log_own_sublist (es : List ε) : ∀ s : σ,
    (log step (own dom d emits) s es).Sublist (log step emits s es) := by
  induction es with
  | nil =>
    intro s
    exact List.Sublist.refl _
  | cons e es ih =>
    intro s
    rw [log_cons, log_cons]
    refine List.Sublist.append ?_ (ih _)
    rw [own]
    split
    · exact List.Sublist.refl _
    · exact List.nil_sublist _

/-- The unwinding conditions for domain `d`, on steps that meet `P`. -/
structure Unwinds (step : σ → ε → σ) (dom : ε → δ) (emits : σ → ε → List α)
    (agree : σ → σ → Prop) (P : σ → ε → Prop) (d : δ) : Prop where
  respects : ∀ s t e, agree s t → P s e → dom e ≠ d → agree (step s e) t
  emits_eq : ∀ s t e, agree s t → P s e → dom e = d → emits s e = emits t e
  consistent : ∀ s t e, agree s t → P s e → dom e = d → agree (step s e) (step t e)

/-- **A run and its purged run** end in states that agree. -/
theorem Unwinds.agree_purge (h : Unwinds step dom emits agree P d) (es : List ε) :
    ∀ {s t : σ}, agree s t → (∀ p ∈ visits step s es, P p.1 p.2) →
      agree (run step s es) (run step t (purge dom d es)) := by
  induction es with
  | nil =>
    intro s t hagree _
    exact hagree
  | cons e es ih =>
    intro s t hagree hP
    obtain ⟨hPe, hPes⟩ := List.forall_mem_cons.mp hP
    rw [purge, run_cons]
    by_cases he : dom e = d
    · rw [List.filter_cons_of_pos (by simpa using he), run_cons]
      exact ih (h.consistent s t e hagree hPe he) hPes
    · rw [List.filter_cons_of_neg (by simpa using he)]
      exact ih (h.respects s t e hagree hPe he) hPes

/-- **They emit the same for the domain.** -/
theorem Unwinds.log_own (h : Unwinds step dom emits agree P d) (es : List ε) :
    ∀ {s t : σ}, agree s t → (∀ p ∈ visits step s es, P p.1 p.2) →
      log step (own dom d emits) s es = log step emits t (purge dom d es) := by
  induction es with
  | nil =>
    intro s t _ _
    rfl
  | cons e es ih =>
    intro s t hagree hP
    obtain ⟨hPe, hPes⟩ := List.forall_mem_cons.mp hP
    rw [purge, log_cons, own]
    by_cases he : dom e = d
    · rw [List.filter_cons_of_pos (by simpa using he), log_cons, if_pos he,
        h.emits_eq s t e hagree hPe he]
      exact congrArg _ (ih (h.consistent s t e hagree hPe he) hPes)
    · rw [List.filter_cons_of_neg (by simpa using he), if_neg he]
      exact ih (h.respects s t e hagree hPe he) hPes

end Unwinding
