/-
A deferred work item that visits a list of elements.

Scheduling an item that is pending has no effect.  A pending item that rests may
start; once it has looked up what it is to visit, it visits that one element at a
time.  An item never runs twice at once, so one that is scheduled while it runs
starts over when it has finished.

* `Due` — an element that a start still to come, or the run under way, will visit;
* `due_start_iff`, `due_visit`, `due_advance` — it stays due until it is visited;
* `due_of_due_visit`, `due_of_due_advance` — only scheduling makes elements due;
* `not_due_of_idle` — an item that has come to rest owes no visit.

Nothing here knows about a particular program.
-/
import Mathlib.Tactic.Common

/-- Where the function of a work item is. -/
inductive WorkItem.Phase (α : Type*) where
  | resting
  /-- before it looks up what to visit -/
  | started
  | visiting (left : List α)
  deriving DecidableEq

structure WorkItem (α : Type*) where
  pending : Bool
  phase : WorkItem.Phase α
  deriving DecidableEq

namespace WorkItem

variable {α : Type*} {w : WorkItem α} {a : α}

/-- `a` is still to be visited in this run. -/
def Phase.Due : Phase α → α → Prop
  | resting, _ => False
  | started, _ => True
  | visiting left, a => a ∈ left

instance [DecidableEq α] : (p : Phase α) → (a : α) → Decidable (p.Due a)
  | .resting, _ => inferInstanceAs (Decidable False)
  | .started, _ => inferInstanceAs (Decidable True)
  | .visiting left, a => inferInstanceAs (Decidable (a ∈ left))

/-- `a` is still to be visited. -/
def Due (w : WorkItem α) (a : α) : Prop := w.pending = true ∨ w.phase.Due a

instance [DecidableEq α] (w : WorkItem α) (a : α) : Decidable (w.Due a) :=
  inferInstanceAs (Decidable (_ ∨ _))

/-- Neither pending nor running. -/
def Idle (w : WorkItem α) : Prop := w.pending = false ∧ w.phase = .resting

instance [DecidableEq α] (w : WorkItem α) : Decidable w.Idle :=
  inferInstanceAs (Decidable (_ ∧ _))

/-- Every element left to visit meets `P`. -/
def AllLeft (w : WorkItem α) (P : α → Prop) : Prop :=
  ∀ left, w.phase = .visiting left → ∀ a ∈ left, P a

def schedule (w : WorkItem α) : WorkItem α := { w with pending := true }

/-- A pending item starts, if it rests. -/
def start (w : WorkItem α) : WorkItem α :=
  match w.pending, w.phase with
  | true, .resting => ⟨false, .started⟩
  | _, _ => w

/-- An item that has started finds the elements of `l` to visit. -/
def visit (w : WorkItem α) (l : List α) : WorkItem α :=
  match w.phase with
  | .started => { w with phase := .visiting l }
  | _ => w

/-- What it visits next. -/
def current? (w : WorkItem α) : Option α :=
  match w.phase with
  | .visiting left => left.head?
  | _ => none

/-- It goes on to the next element, or finishes. -/
def advance (w : WorkItem α) : WorkItem α :=
  match w.phase with
  | .visiting [] => { w with phase := .resting }
  | .visiting (_ :: left) => { w with phase := .visiting left }
  | _ => w

/-- It finishes early. -/
def stop (w : WorkItem α) : WorkItem α := { w with phase := .resting }

/-! ### What is due -/

theorem due_schedule (w : WorkItem α) (a : α) : w.schedule.Due a := Or.inl rfl

theorem not_due_of_idle (h : w.Idle) (a : α) : ¬w.Due a := by
  rintro (hpending | hdue)
  · rw [h.1] at hpending
    cases hpending
  · rw [h.2] at hdue
    exact hdue

theorem due_of_current? (h : w.current? = some a) : w.Due a := by
  rw [current?] at h
  split at h
  · next left hphase =>
    refine Or.inr ?_
    rw [hphase]
    exact List.mem_of_head? h
  · cases h

/-- Starting keeps the promise of a pending item. -/
theorem due_start_iff : w.start.Due a ↔ w.Due a := by
  rw [start]
  split
  · next hpending _ => exact iff_of_true (Or.inr trivial) (Or.inl hpending)
  · exact Iff.rfl

theorem due_visit (h : w.Due a) {l : List α} (ha : a ∈ l) : (w.visit l).Due a := by
  rw [visit]
  split
  · exact Or.inr ha
  · exact h

theorem visit_of_ne (h : w.phase ≠ .started) (l : List α) : w.visit l = w := by
  rw [visit]
  split
  · next hphase => exact absurd hphase h
  · rfl

theorem due_of_due_visit {l : List α} (h : (w.visit l).Due a) : w.Due a := by
  rw [visit] at h
  split at h
  · next hphase =>
    refine Or.inr ?_
    rw [hphase]
    exact trivial
  · exact h

/-- An element stays due until it is visited. -/
theorem due_advance (h : w.Due a) (hne : w.current? ≠ some a) : w.advance.Due a := by
  rcases h with hpending | hdue
  · left
    rw [advance]
    split <;> exact hpending
  · rw [advance]
    rw [current?] at hne
    split
    · next hphase =>
      rw [hphase] at hdue
      exact absurd hdue List.not_mem_nil
    · next b left hphase =>
      rw [hphase] at hdue hne
      rcases List.mem_cons.mp hdue with rfl | hin
      · exact absurd rfl hne
      · exact Or.inr hin
    · exact Or.inr hdue

theorem due_of_due_advance (h : w.advance.Due a) : w.Due a := by
  rw [advance] at h
  split at h
  · exact h.imp_right False.elim
  · next b left hphase =>
    refine h.imp_right fun hin => ?_
    rw [hphase]
    exact List.mem_cons_of_mem b hin
  · exact h

/-! ### What is left -/

variable {P : α → Prop}

theorem AllLeft.of_idle (h : w.Idle) : w.AllLeft P := by
  intro left hleft
  rw [h.2] at hleft
  cases hleft

theorem AllLeft.start (h : w.AllLeft P) : w.start.AllLeft P := by
  rw [WorkItem.start]
  split
  · rintro left ⟨⟩
  · exact h

theorem AllLeft.visit (h : w.AllLeft P) {l : List α} (hl : ∀ a ∈ l, P a) :
    (w.visit l).AllLeft P := by
  rw [WorkItem.visit]
  split
  · rintro left ⟨⟩
    exact hl
  · exact h

theorem AllLeft.advance (h : w.AllLeft P) : w.advance.AllLeft P := by
  rw [WorkItem.advance]
  split
  · rintro left ⟨⟩
  · next b rest hphase =>
    rintro left ⟨⟩ a ha
    exact h _ hphase a (List.mem_cons_of_mem b ha)
  · exact h

theorem AllLeft.current? (h : w.AllLeft P) (ha : w.current? = some a) : P a := by
  rw [WorkItem.current?] at ha
  split at ha
  · next left hphase => exact h left hphase a (List.mem_of_head? ha)
  · cases ha

end WorkItem
