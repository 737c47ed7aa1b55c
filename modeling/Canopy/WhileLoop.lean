/-
Loops as iterated steps.

A step either goes on from a new state or ends with a result.  `iterate` runs
it on fuel; `Returns` and `Terminates` forget the fuel.

* `returns_iff_of_next` — one unrolling of a loop;
* `reaches_invariant` — the induction rule for an invariant of a loop;
* `terminates_iff_no_cycle` — a loop with finitely many states ends iff it
  never comes back to one;
* `exists_walk`, `Walk.reaches` — the states a loop comes through, with what it meets
  on the way;
* `Walk.modEq` — an offset that every step moves by what it meets, modulo a number.
-/
import Mathlib.Algebra.BigOperators.Group.List.Basic
import Mathlib.Data.Nat.ModEq
import Mathlib.Logic.Relation
import Mathlib.Order.Preorder.Finite

namespace WhileLoop

variable {σ ρ : Type*} (step : σ → σ ⊕ ρ)

/-- Run the loop for at most `fuel` steps. -/
def iterate : ℕ → σ → Option ρ
  | 0, _ => none
  | fuel + 1, s =>
    match step s with
    | .inl s' => iterate fuel s'
    | .inr r => some r

/-- The loop goes on from `s'`. -/
def Next (s s' : σ) : Prop := step s = .inl s'

/-- The states a loop comes through. -/
abbrev Reaches : σ → σ → Prop := Relation.ReflTransGen (Next step)

/-- The loop ends with `r`. -/
def Returns (s : σ) (r : ρ) : Prop := ∃ fuel, iterate step fuel s = some r

/-- The loop ends. -/
def Terminates (s : σ) : Prop := ∃ r, Returns step s r

variable {step} {s s' t : σ} {r r' : ρ} {n : ℕ}

theorem iterate_of_next (h : step s = .inl s') : iterate step (n + 1) s = iterate step n s' := by
  rw [iterate, h]

theorem iterate_of_done (h : step s = .inr r) : iterate step (n + 1) s = some r := by
  rw [iterate, h]

/-! ### Results -/

/-- One unrolling of a loop that goes on. -/
theorem returns_iff_of_next (h : step s = .inl s') : Returns step s r ↔ Returns step s' r := by
  constructor
  · rintro ⟨fuel, hfuel⟩
    rcases fuel with _ | fuel
    · cases hfuel
    · rw [iterate_of_next h] at hfuel
      exact ⟨fuel, hfuel⟩
  · rintro ⟨fuel, hfuel⟩
    exact ⟨fuel + 1, by rw [iterate_of_next h, hfuel]⟩

/-- One unrolling of a loop that ends. -/
theorem returns_iff_of_done (h : step s = .inr r') : Returns step s r ↔ r' = r := by
  constructor
  · rintro ⟨fuel, hfuel⟩
    rcases fuel with _ | fuel
    · cases hfuel
    · rw [iterate_of_done h] at hfuel
      exact Option.some.inj hfuel
  · rintro rfl
    exact ⟨1, iterate_of_done h⟩

theorem returns_iff_of_reaches (h : Reaches step s t) : Returns step s r ↔ Returns step t r := by
  induction h with
  | refl => exact Iff.rfl
  | tail _ hnext ih => exact ih.trans (returns_iff_of_next hnext)

theorem terminates_iff_of_reaches (h : Reaches step s t) :
    Terminates step s ↔ Terminates step t :=
  exists_congr fun _ => returns_iff_of_reaches h

/-- A result comes from a state the loop reaches. -/
theorem exists_reaches_of_returns (h : Returns step s r) :
    ∃ t, Reaches step s t ∧ step t = .inr r := by
  obtain ⟨fuel, hfuel⟩ := h
  induction fuel generalizing s with
  | zero => cases hfuel
  | succ fuel ih =>
    cases hs : step s with
    | inl s' =>
      rw [iterate_of_next hs] at hfuel
      obtain ⟨t, ht, hdone⟩ := ih hfuel
      exact ⟨t, Relation.ReflTransGen.head hs ht, hdone⟩
    | inr r' =>
      rw [iterate_of_done hs] at hfuel
      obtain rfl := Option.some.inj hfuel
      exact ⟨s, Relation.ReflTransGen.refl, hs⟩

/-- A loop has one result. -/
theorem Returns.iff (h : Returns step s r) : Returns step s r' ↔ r = r' := by
  obtain ⟨t, hreach, hdone⟩ := exists_reaches_of_returns h
  rw [returns_iff_of_reaches hreach, returns_iff_of_done hdone]

/-! ### Invariants -/

/-- What every step keeps holds of every state the loop reaches. -/
theorem reaches_invariant {I : σ → Prop} (hstep : ∀ s s', I s → step s = .inl s' → I s')
    (h : Reaches step s t) (hs : I s) : I t := by
  induction h with
  | refl => exact hs
  | tail _ hnext ih => exact hstep _ _ ih hnext

/-! ### Termination -/

/-- A state on the way needs no more fuel. -/
theorem exists_le_iterate_of_reaches (h : Reaches step s t) (hn : iterate step n s = some r) :
    ∃ m ≤ n, iterate step m t = some r := by
  induction h with
  | refl => exact ⟨n, le_rfl, hn⟩
  | tail _ hnext ih =>
    obtain ⟨m, hm, hiter⟩ := ih
    rcases m with _ | m
    · cases hiter
    · rw [iterate_of_next hnext] at hiter
      exact ⟨m, by omega, hiter⟩

/-- A loop that comes back to a state never ends. -/
theorem not_terminates_of_cycle (hnext : step s = .inl s') (hback : Reaches step s' s) :
    ¬Terminates step s := by
  rintro ⟨r, n, hn⟩
  -- the induction is on the fuel: one round of the cycle uses some up
  induction n using Nat.strong_induction_on with
  | _ n ih =>
    rcases n with _ | n
    · cases hn
    · rw [iterate_of_next hnext] at hn
      obtain ⟨m, hm, hiter⟩ := exists_le_iterate_of_reaches hback hn
      exact ih m (by omega) hiter

/-- The state after `n` steps; a loop that has ended stays where it is. -/
def orbit (step : σ → σ ⊕ ρ) (s : σ) : ℕ → σ
  | 0 => s
  | n + 1 =>
    match step (orbit step s n) with
    | .inl s' => s'
    | .inr _ => orbit step s n

theorem next_orbit (h : ¬Terminates step s) :
    ∀ n, Reaches step s (orbit step s n) ∧
      step (orbit step s n) = .inl (orbit step s (n + 1)) := by
  intro n
  have hgo (n : ℕ) (hreach : Reaches step s (orbit step s n)) :
      step (orbit step s n) = .inl (orbit step s (n + 1)) := by
    cases hs : step (orbit step s n) with
    | inl s' => rw [orbit, hs]
    | inr r =>
      have hdone : Returns step (orbit step s n) r := (returns_iff_of_done hs).mpr rfl
      exact absurd ⟨r, (returns_iff_of_reaches hreach).mpr hdone⟩ h
  induction n with
  | zero => exact ⟨Relation.ReflTransGen.refl, hgo 0 Relation.ReflTransGen.refl⟩
  | succ n ih =>
    have hreach := ih.1.tail ih.2
    exact ⟨hreach, hgo (n + 1) hreach⟩

theorem reaches_orbit (h : ¬Terminates step s) {i j : ℕ} (hij : i ≤ j) :
    Reaches step (orbit step s i) (orbit step s j) := by
  induction j, hij using Nat.le_induction with
  | base => exact Relation.ReflTransGen.refl
  | succ j _ ih => exact ih.tail (next_orbit h j).2

/-- **A loop with finitely many states ends iff it never comes back to one.** -/
theorem terminates_iff_no_cycle (hfin : {t | Reaches step s t}.Finite) :
    Terminates step s ↔ ∀ t t', Reaches step s t → step t = .inl t' → ¬Reaches step t' t := by
  constructor
  · intro hterm t t' hreach hnext hback
    exact not_terminates_of_cycle hnext hback ((terminates_iff_of_reaches hreach).mp hterm)
  · intro hback
    by_contra hterm
    obtain ⟨i, j, hij, hloop⟩ :=
      hfin.exists_lt_map_eq_of_forall_mem fun n => (next_orbit hterm n).1
    have hto : Reaches step (orbit step s (i + 1)) (orbit step s j) := reaches_orbit hterm hij
    rw [← hloop] at hto
    exact hback _ _ (next_orbit hterm i).1 (next_orbit hterm i).2 hto

/-! ### What a loop meets -/

/-- The loop goes from one state to another, and meets the listed things on the way. -/
inductive Walk {α : Type*} (step : σ → σ ⊕ ρ) (met : σ → σ → List α) : σ → List α → σ → Prop
  | nil (s : σ) : Walk step met s [] s
  | cons {s s' t : σ} {ls : List α} (hnext : step s = .inl s')
      (hrest : Walk step met s' ls t) : Walk step met s (met s s' ++ ls) t

section Walk

variable {α : Type*} {met : σ → σ → List α} {ls : List α}

theorem Walk.reaches (h : Walk step met s ls t) : Reaches step s t := by
  induction h with
  | nil s => exact Relation.ReflTransGen.refl
  | cons hnext _ ih => exact ih.head hnext

theorem exists_walk (met : σ → σ → List α) (h : Reaches step s t) :
    ∃ ls, Walk step met s ls t := by
  induction h using Relation.ReflTransGen.head_induction_on with
  | refl => exact ⟨[], .nil t⟩
  | head hnext _ ih =>
    obtain ⟨ls, hwalk⟩ := ih
    exact ⟨_, .cons hnext hwalk⟩

/-- A walk that meets something takes a step. -/
theorem Walk.exists_next (h : Walk step met s ls t) (hls : ls ≠ []) :
    ∃ s', step s = .inl s' ∧ Reaches step s' t := by
  cases h with
  | nil => exact absurd rfl hls
  | cons hnext hrest => exact ⟨_, hnext, hrest.reaches⟩

/-- What is met has the properties that every step sees to. -/
theorem Walk.forall_met {P : α → Prop} (hmet : ∀ s s', step s = .inl s' → ∀ l ∈ met s s', P l)
    (h : Walk step met s ls t) : ∀ l ∈ ls, P l := by
  induction h with
  | nil => exact List.forall_mem_nil P
  | cons hnext _ ih =>
    intro l hl
    rcases List.mem_append.mp hl with hl | hl
    · exact hmet _ _ hnext l hl
    · exact ih l hl

/-- **An offset that every step moves by what it meets is moved by the sum.**  Modulo 0
this is an equation. -/
theorem Walk.modEq {met : σ → σ → List ℕ} {ls : List ℕ} {m : ℕ} (I : σ → Prop) (offset : σ → ℕ)
    (hkeep : ∀ s s', I s → step s = .inl s' → I s')
    (hmove : ∀ s s', I s → step s = .inl s' → offset s' ≡ offset s + (met s s').sum [MOD m])
    (h : Walk step met s ls t) (hs : I s) : offset t ≡ offset s + ls.sum [MOD m] := by
  induction h with
  | nil s => exact Nat.ModEq.refl _
  | @cons s s' t ls hnext _ ih =>
    rw [List.sum_append, ← Nat.add_assoc]
    exact (ih (hkeep s s' hs hnext)).trans ((hmove s s' hs hnext).add_right _)

end Walk

end WhileLoop
