/-
Threads that share registers, interleaved access by access.

A program is a sequence of register accesses, what comes after a read depending
on the value read.  Calls start threads, each running the program of its call;
an event starts a thread or lets one thread make its next access.

* `Leaves`, `Quiet` — the last value a program writes to a register, whatever it
  reads, and that it writes none;
* `leaves_seq`, `leaves_seq_quiet` — the same of a sequence of programs;
* `regs_of_idle` — if every call leaves a register right or alone, it is right
  once a call that writes it has run and no thread is in progress.

Nothing here knows about a particular program.
-/
import Canopy.Run
import Mathlib.Logic.Function.Basic

namespace RegThreads

open Run

variable {ρ α κ : Type*}

/-- What is left of a thread. -/
inductive Prog (ρ α : Type*) where
  | done
  | read (r : ρ) (k : α → Prog ρ α)
  | write (r : ρ) (v : α) (p : Prog ρ α)

namespace Prog

/-- One program after the other. -/
def seq : Prog ρ α → Prog ρ α → Prog ρ α
  | done, q => q
  | read r k, q => read r fun v => (k v).seq q
  | write r v p, q => write r v (p.seq q)

def isDone : Prog ρ α → Bool
  | done => true
  | _ => false

/-- The next access: the registers after it, and what is left. -/
def access [DecidableEq ρ] (regs : ρ → α) : Prog ρ α → (ρ → α) × Prog ρ α
  | done => (regs, done)
  | read r k => (regs, k (regs r))
  | write r v p => (Function.update regs r v, p)

/-- The program does not write `r`. -/
inductive Quiet (r : ρ) : Prog ρ α → Prop
  | done : Quiet r done
  | read {r' : ρ} {k : α → Prog ρ α} (h : ∀ v, Quiet r (k v)) : Quiet r (read r' k)
  | write {r' : ρ} {v : α} {p : Prog ρ α} (hne : r' ≠ r) (h : Quiet r p) :
      Quiet r (write r' v p)

/-- The program writes `r`, and the last value it writes there has `P`. -/
inductive Leaves (r : ρ) (P : α → Prop) : Prog ρ α → Prop
  | read {r' : ρ} {k : α → Prog ρ α} (h : ∀ v, Leaves r P (k v)) : Leaves r P (read r' k)
  | last {v : α} {p : Prog ρ α} (hv : P v) (h : Quiet r p) : Leaves r P (write r v p)
  | write {r' : ρ} {v : α} {p : Prog ρ α} (h : Leaves r P p) : Leaves r P (write r' v p)

section Seq

variable {r : ρ} {P : α → Prop} {p q : Prog ρ α}

theorem quiet_seq (hp : Quiet r p) (hq : Quiet r q) : Quiet r (p.seq q) := by
  induction hp with
  | done => exact hq
  | read _ ih => exact .read ih
  | write hne _ ih => exact .write hne ih

/-- What comes first does not matter. -/
theorem leaves_seq (p : Prog ρ α) (hq : Leaves r P q) : Leaves r P (p.seq q) := by
  induction p with
  | done => exact hq
  | read r' k ih => exact .read ih
  | write r' v p ih => exact .write ih

theorem leaves_seq_quiet (hp : Leaves r P p) (hq : Quiet r q) : Leaves r P (p.seq q) := by
  induction hp with
  | read _ ih => exact .read ih
  | last hv h => exact .last hv (quiet_seq h hq)
  | write _ ih => exact .write ih

theorem not_isDone_of_leaves (h : Leaves r P p) : p.isDone = false := by
  cases h <;> rfl

end Seq

section Access

variable [DecidableEq ρ] {r : ρ} {P : α → Prop} {p : Prog ρ α} (regs : ρ → α)

theorem regs_access_of_quiet (h : Quiet r p) : (p.access regs).1 r = regs r := by
  cases h with
  | done => rfl
  | read _ => rfl
  | write hne _ => exact Function.update_of_ne hne.symm _ _

theorem quiet_access (h : Quiet r p) : Quiet r (p.access regs).2 := by
  cases h with
  | done => exact .done
  | read h => exact h _
  | write _ h => exact h

/-- A program that still has to write `r` keeps having to, or just wrote the last
value. -/
theorem leaves_access (h : Leaves r P p) : Leaves r P (p.access regs).2 ∨
    Quiet r (p.access regs).2 ∧ P ((p.access regs).1 r) := by
  cases h with
  | read h => exact .inl (h _)
  | @last v p hv h =>
    refine .inr ⟨h, ?_⟩
    show P (Function.update regs r v r)
    rwa [Function.update_self]
  | write h => exact .inl h

end Access

end Prog

/-! ### Interleavings -/

/-- The registers and the threads started so far. -/
structure Sys (ρ α : Type*) where
  regs : ρ → α
  threads : List (Prog ρ α)

inductive Event (κ : Type*) where
  | start (c : κ)
  | access (i : ℕ)

/-- Before any thread is started. -/
def Sys.fresh (regs : ρ → α) : Sys ρ α := ⟨regs, []⟩

/-- No thread is in progress. -/
def Sys.idle (s : Sys ρ α) : Bool := s.threads.all Prog.isDone

/-- Replacing the element at `i` loses no other. -/
theorem eq_or_mem_set {β : Type*} {l : List β} {i : ℕ} {x y : β} (hx : l[i]? = some x) (z : β)
    (hy : y ∈ l) : y = x ∨ y ∈ l.set i z := by
  obtain ⟨j, hj⟩ := List.mem_iff_getElem?.mp hy
  by_cases hij : i = j
  · subst hij
    rw [hx] at hj
    exact .inl (Option.some.inj hj).symm
  · rw [← List.getElem?_set_ne hij (a := z)] at hj
    exact .inr (List.mem_of_getElem? hj)

section Run

variable [DecidableEq ρ] (body : κ → Prog ρ α)

def step (s : Sys ρ α) : Event κ → Sys ρ α
  | .start c => { s with threads := s.threads ++ [body c] }
  | .access i =>
    match s.threads[i]? with
    | none => s
    | some p => ⟨(p.access s.regs).1, s.threads.set i (p.access s.regs).2⟩

variable {body} {r : ρ} {P : α → Prop}

/-- Every thread leaves `r` right or alone. -/
def Sys.Leaving (r : ρ) (P : α → Prop) (s : Sys ρ α) : Prop :=
  ∀ p ∈ s.threads, p.Quiet r ∨ p.Leaves r P

/-- `r` is right, or a thread has still to make it so. -/
def Sys.Settling (r : ρ) (P : α → Prop) (s : Sys ρ α) : Prop :=
  s.Leaving r P ∧ ((∃ p ∈ s.threads, p.Leaves r P) ∨ P (s.regs r))

variable (hbody : ∀ c, (body c).Quiet r ∨ (body c).Leaves r P)
include hbody

theorem leaving_step (s : Sys ρ α) (e : Event κ) (h : s.Leaving r P) :
    (step body s e).Leaving r P := by
  cases e with
  | start c =>
    intro p hp
    rcases List.mem_append.mp hp with hold | hnew
    · exact h p hold
    · rw [List.mem_singleton.mp hnew]
      exact hbody c
  | access i =>
    rw [step]
    split
    · exact h
    · next p hget =>
      intro p' hp'
      -- only the thread that made the access has moved
      rcases List.mem_or_eq_of_mem_set hp' with hold | rfl
      · exact h p' hold
      · rcases h p (List.mem_of_getElem? hget) with hq | hl
        · exact .inl (Prog.quiet_access s.regs hq)
        · rcases Prog.leaves_access s.regs hl with hl' | ⟨hq', -⟩
          · exact .inr hl'
          · exact .inl hq'

theorem settling_step (s : Sys ρ α) (e : Event κ) (h : s.Settling r P) :
    (step body s e).Settling r P := by
  obtain ⟨hall, hr⟩ := h
  refine ⟨leaving_step hbody s e hall, ?_⟩
  cases e with
  | start c =>
    rcases hr with ⟨p, hp, hl⟩ | hr
    · exact .inl ⟨p, List.mem_append_left _ hp, hl⟩
    · exact .inr hr
  | access i =>
    rw [step]
    split
    · exact hr
    · next p hget =>
      have hi : i < s.threads.length := (List.getElem?_eq_some_iff.mp hget).1
      have hmem : (p.access s.regs).2 ∈ s.threads.set i (p.access s.regs).2 :=
        List.mem_set hi _
      -- a thread that has still to write `r` goes on having to, or writes it now
      have hmoves : p.Leaves r P →
          (∃ q ∈ s.threads.set i (p.access s.regs).2, q.Leaves r P) ∨
            P ((p.access s.regs).1 r) := by
        intro hl
        rcases Prog.leaves_access s.regs hl with hl' | ⟨-, hr'⟩
        · exact .inl ⟨_, hmem, hl'⟩
        · exact .inr hr'
      rcases hall p (List.mem_of_getElem? hget) with hq | hl
      · rcases hr with ⟨p', hp', hl'⟩ | hr
        · rcases eq_or_mem_set hget (p.access s.regs).2 hp' with rfl | hstays
          · exact hmoves hl'
          · exact .inl ⟨p', hstays, hl'⟩
        · refine .inr ?_
          show P ((p.access s.regs).1 r)
          rwa [Prog.regs_access_of_quiet s.regs hq]
      · exact hmoves hl

theorem settling_of_start {s : Sys ρ α} {c : κ} (h : s.Leaving r P)
    (hc : (body c).Leaves r P) : (step body s (.start c)).Settling r P :=
  ⟨leaving_step hbody s (.start c) h, .inl ⟨body c, List.mem_append_right _ (.head _), hc⟩⟩

/-- **The register in the end**: once a call that writes it has run and no thread
is in progress, it holds what the calls are to leave. -/
theorem regs_of_idle (regs : ρ → α) {es : List (Event κ)} {c : κ} (hc : .start c ∈ es)
    (hl : (body c).Leaves r P) (hidle : (run (step body) (.fresh regs) es).idle = true) :
    P ((run (step body) (.fresh regs) es).regs r) := by
  obtain ⟨before, after, rfl⟩ := List.append_of_mem hc
  rw [run_append, run_cons] at hidle ⊢
  have hfresh : (Sys.fresh regs).Leaving r P := fun _ hp => absurd hp List.not_mem_nil
  have hbefore := run_invariant (leaving_step hbody) hfresh before
  have hafter := run_invariant (settling_step hbody) (settling_of_start hbody hbefore hl) after
  rcases hafter.2 with ⟨p, hp, hlp⟩ | hr
  · have hdone := List.all_eq_true.mp hidle p hp
    rw [Prog.not_isDone_of_leaves hlp] at hdone
    exact absurd hdone Bool.false_ne_true
  · exact hr

end Run

end RegThreads
