/-
Programs that go well exactly when a condition holds.

A program of `StateT σ (Except ε)` may fail, and it may return in a state that
is no longer good.  `Guards P x` says that `x` does neither exactly when `P`
holds; the condition of a program is put together from those of its parts.

* `Outcome.bind` — what a sequence comes to;
* `Guards.bind`, `Guards.bind_within` — the sequence rules;
* `Guards.forM` — the rule for a run over a list;
* `Guards.safe_iff` — what a program that is guarded by `P` does.
-/
import Mathlib.Logic.Basic
import Mathlib.Data.List.Basic

namespace ExactGuard

variable {σ ε α β : Type}

/-- What a run from `s` comes to: it fails only if `P` does not hold, and leaves a
good state iff it started in one and `P` holds. -/
def Outcome (inv good : σ → Prop) (s : σ) (P : Prop) : Except ε (α × σ) → Prop
  | .error _ => ¬P
  | .ok r => inv r.2 ∧ (good r.2 ↔ good s ∧ P)

/-- From every state of the invariant, the program goes well exactly when `P`. -/
def Guards (inv good : σ → Prop) (P : Prop) (x : StateT σ (Except ε) α) : Prop :=
  ∀ s, inv s → Outcome inv good s P (x s)

/-- The program checks at most `P`; what it does check may depend on the state. -/
def Within (inv good : σ → Prop) (P : Prop) (x : StateT σ (Except ε) α) : Prop :=
  ∀ s, inv s → ∃ Q, (P → Q) ∧ Outcome inv good s Q (x s)

variable {inv good : σ → Prop} {P Q : Prop} {x : StateT σ (Except ε) α}
  {f : α → StateT σ (Except ε) β}

theorem Guards.congr (hx : Guards inv good P x) (h : P ↔ Q) : Guards inv good Q x := by
  rwa [← propext h]

theorem Guards.within (hx : Guards inv good Q x) (h : P → Q) : Within inv good P x :=
  fun s hs => ⟨Q, h, hx s hs⟩

/-! ### Sequences -/

theorem Outcome.bind {s : σ} {r : Except ε (α × σ)} (h : Outcome inv good s P r)
    (hf : ∀ p, r = .ok p → inv p.2 → Outcome inv good p.2 Q (f p.1 p.2)) :
    Outcome inv good s (P ∧ Q) (r >>= fun p => f p.1 p.2) := by
  cases r with
  | error e => exact fun hPQ => h hPQ.1
  | ok p =>
    obtain ⟨hinv, hgood⟩ := h
    have hsecond := hf p rfl hinv
    show Outcome inv good s (P ∧ Q) (f p.1 p.2)
    cases hrest : f p.1 p.2 with
    | error e =>
      rw [hrest] at hsecond
      exact fun hPQ => hsecond hPQ.2
    | ok p' =>
      rw [hrest] at hsecond
      refine ⟨hsecond.1, hsecond.2.trans ?_⟩
      rw [hgood, and_assoc]

theorem Guards.bind (hx : Guards inv good P x) (hf : ∀ a, Guards inv good Q (f a)) :
    Guards inv good (P ∧ Q) (x >>= f) :=
  fun s hs => (hx s hs).bind fun p _ hp => hf p.1 p.2 hp

/-- A program that checks `P` in each of its parts. -/
theorem Guards.bind_same (hx : Guards inv good P x) (hf : ∀ a, Guards inv good P (f a)) :
    Guards inv good P (x >>= f) :=
  (hx.bind hf).congr and_self_iff

/-- A first part that checks nothing. -/
theorem Guards.true_bind (hx : Guards inv good True x) (hf : ∀ a, Guards inv good P (f a)) :
    Guards inv good P (x >>= f) :=
  (hx.bind hf).congr (and_iff_right trivial)

/-- A second part that checks nothing. -/
theorem Guards.bind_true (hx : Guards inv good P x) (hf : ∀ a, Guards inv good True (f a)) :
    Guards inv good P (x >>= f) :=
  (hx.bind hf).congr (and_iff_left trivial)

theorem Within.bind (hx : Within inv good P x) (hf : ∀ a, Within inv good P (f a)) :
    Within inv good P (x >>= f) := by
  intro s hs
  obtain ⟨Q, hPQ, hfirst⟩ := hx s hs
  cases hrun : x s with
  | error e =>
    rw [hrun] at hfirst
    refine ⟨Q, hPQ, ?_⟩
    show Outcome inv good s Q (x s >>= fun p => f p.1 p.2)
    rw [hrun]
    exact hfirst
  | ok p =>
    have hinv : inv p.2 := by
      rw [hrun] at hfirst
      exact hfirst.1
    obtain ⟨Q', hPQ', hsecond⟩ := hf p.1 p.2 hinv
    refine ⟨Q ∧ Q', fun hP => ⟨hPQ hP, hPQ' hP⟩, hfirst.bind fun p' hp' _ => ?_⟩
    rw [hrun] at hp'
    cases hp'
    exact hsecond

theorem Within.get_bind {f : σ → StateT σ (Except ε) β} (hf : ∀ s, Within inv good P (f s)) :
    Within inv good P (get >>= f) :=
  fun s hs => hf s s hs

/-- A program that checks `P` first and at most `P` afterwards. -/
theorem Guards.bind_within (hx : Guards inv good P x) (hf : ∀ a, Within inv good P (f a)) :
    Guards inv good P (x >>= f) := by
  intro s hs
  have hfirst := hx s hs
  show Outcome inv good s P (x s >>= fun p => f p.1 p.2)
  cases hrun : x s with
  | error e =>
    rw [hrun] at hfirst
    exact hfirst
  | ok p =>
    rw [hrun] at hfirst
    obtain ⟨Q, hPQ, hsecond⟩ := hf p.1 p.2 hfirst.1
    have hboth : Outcome inv good s (P ∧ Q) (.ok p >>= fun p => f p.1 p.2) :=
      hfirst.bind fun p' hp' _ => by
        cases hp'
        exact hsecond
    rwa [and_iff_left_of_imp hPQ] at hboth

/-! ### Steps -/

theorem guards_pure (a : α) : Guards inv good True (pure a : StateT σ (Except ε) α) :=
  fun _ hs => ⟨hs, (and_iff_left trivial).symm⟩

theorem guards_get : Guards inv good True (get : StateT σ (Except ε) σ) :=
  fun _ hs => ⟨hs, (and_iff_left trivial).symm⟩

/-- A change of the state that has nothing to do with what is good. -/
theorem guards_modify {g : σ → σ} (hinv : ∀ s, inv s → inv (g s))
    (hgood : ∀ s, good (g s) ↔ good s) :
    Guards inv good True (modify g : StateT σ (Except ε) PUnit) :=
  fun s hs => ⟨hinv s hs, (hgood s).trans (and_iff_left trivial).symm⟩

/-- A run over a list. -/
theorem Guards.forM {g : β → StateT σ (Except ε) PUnit} {P : β → Prop}
    (h : ∀ b, Guards inv good (P b) (g b)) (l : List β) :
    Guards inv good (∀ b ∈ l, P b) (l.forM g) := by
  induction l with
  | nil => exact (guards_pure _).congr (iff_of_true trivial fun _ hb => absurd hb List.not_mem_nil)
  | cons b l ih => exact ((h b).bind fun _ => ih).congr List.forall_mem_cons.symm

/-- **From a good state the program goes well exactly when `P`.** -/
theorem Guards.safe_iff (hx : Guards inv good P x) {s : σ} (hs : inv s) (hgood : good s) :
    (∃ r, x s = .ok r ∧ good r.2) ↔ P := by
  have houtcome := hx s hs
  cases hrun : x s with
  | error e =>
    rw [hrun] at houtcome
    refine iff_of_false ?_ houtcome
    rintro ⟨r, hr, -⟩
    cases hr
  | ok r =>
    rw [hrun] at houtcome
    constructor
    · rintro ⟨r', hr', hgood'⟩
      cases hr'
      exact (houtcome.2.mp hgood').2
    · intro hP
      exact ⟨r, rfl, houtcome.2.mpr ⟨hgood, hP⟩⟩

end ExactGuard
