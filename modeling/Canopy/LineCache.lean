/-
Memory behind a write-back cache.

The CPU works on copies of whole lines and marks the ones it has changed; a
device accesses the memory itself.  What the CPU sees of a cell is `view`, what
the device sees is `mem`.  A write back replaces all cells of a line.

* `view_fetch`, `view_store`, `view_flush`, `view_invalidate`, `view_device` —
  what the CPU sees after each operation;
* `mem_flush` — what a write back leaves in the memory;
* `dirty_store`, `dirty_flush`, `dirty_invalidate` — the lines with changes that
  are not written back.

Nothing here knows about a particular program.
-/
import Mathlib.Logic.Function.Basic
import Mathlib.Tactic.Common

/-- The copy of a line. -/
structure LineCache.Copy (α : Type*) where
  cells : ℕ → α
  dirty : Bool

/-- Memory and cache, with `width` cells a line. -/
structure LineCache (α : Type*) where
  width : ℕ
  mem : ℕ → α
  lines : ℕ → Option (LineCache.Copy α)

namespace LineCache

variable {α : Type*} (c : LineCache α) (i j l l' : ℕ) (x : α)

/-- The line of a cell. -/
def line : ℕ := i / c.width

/-- What the CPU sees of a cell. -/
def view : α :=
  match c.lines (c.line i) with
  | some k => k.cells i
  | none => c.mem i

/-- The line has changes that are not written back. -/
def Dirty : Bool := (c.lines l).any Copy.dirty

/-- The line is copied into the cache, unless it is there. -/
def fetch : LineCache α :=
  match c.lines l with
  | some _ => c
  | none => { c with lines := Function.update c.lines l (some ⟨c.mem, false⟩) }

/-- The CPU writes a cell. -/
def store : LineCache α :=
  { c with lines := Function.update c.lines (c.line i) (some ⟨Function.update c.view i x, true⟩) }

/-- The line leaves the cache, its changes are written back. -/
def flush : LineCache α :=
  { c with
    mem := fun i => if c.line i = l ∧ c.Dirty l = true then c.view i else c.mem i
    lines := Function.update c.lines l none }

/-- The line leaves the cache, its changes are lost. -/
def invalidate : LineCache α := { c with lines := Function.update c.lines l none }

/-- The device writes a cell. -/
def device : LineCache α := { c with mem := Function.update c.mem i x }

/-! ### Copies -/

variable {c i l} in
theorem view_of_some {k : Copy α} (h : c.lines (c.line i) = some k) : c.view i = k.cells i := by
  rw [view, h]

variable {c i l} in
theorem view_of_none (h : c.lines (c.line i) = none) : c.view i = c.mem i := by
  rw [view, h]

/-- Only the copy of its line and the memory matter. -/
theorem view_congr {c c' : LineCache α} {i : ℕ} (hline : c'.line i = c.line i)
    (hmem : c'.mem i = c.mem i) (hlines : c'.lines (c.line i) = c.lines (c.line i)) :
    c'.view i = c.view i := by
  rw [view, view, hline, hlines, hmem]

variable {c l} in
theorem fetch_of_some {k : Copy α} (h : c.lines l = some k) : c.fetch l = c := by
  rw [fetch, h]

variable {c l} in
theorem fetch_of_none (h : c.lines l = none) :
    c.fetch l = { c with lines := Function.update c.lines l (some ⟨c.mem, false⟩) } := by
  rw [fetch, h]

/-! ### Fetching -/

@[simp] theorem mem_fetch : (c.fetch l).mem = c.mem := by
  rw [fetch]
  split <;> rfl

@[simp] theorem line_fetch : (c.fetch l).line i = c.line i := by
  rw [fetch]
  split <;> rfl

@[simp] theorem view_fetch : (c.fetch l).view i = c.view i := by
  cases h : c.lines l with
  | some k => rw [fetch_of_some h]
  | none =>
    rw [fetch_of_none h]
    by_cases hi : c.line i = l
    · subst hi
      rw [view_of_none h, view]
      show (match Function.update c.lines (c.line i) (some ⟨c.mem, false⟩) (c.line i) with
        | some k => k.cells i
        | none => c.mem i) = c.mem i
      rw [Function.update_self]
    · exact view_congr rfl rfl (Function.update_of_ne hi _ _)

@[simp] theorem dirty_fetch : (c.fetch l).Dirty l' = c.Dirty l' := by
  cases h : c.lines l with
  | some k => rw [fetch_of_some h]
  | none =>
    rw [fetch_of_none h, Dirty, Dirty]
    dsimp only
    by_cases hl : l' = l
    · rw [hl, Function.update_self, h]
      rfl
    · rw [Function.update_of_ne hl]

/-! ### Writing -/

@[simp] theorem mem_store : (c.store i x).mem = c.mem := rfl

@[simp] theorem line_store : (c.store i x).line j = c.line j := rfl

theorem view_store : (c.store i x).view j = if j = i then x else c.view j := by
  by_cases hline : c.line j = c.line i
  · have hcopy : (c.store i x).lines (c.line j) = some ⟨Function.update c.view i x, true⟩ := by
      rw [hline]
      exact Function.update_self (c.line i) _ c.lines
    exact (view_of_some hcopy).trans (Function.update_apply c.view i x j)
  · have hne : j ≠ i := by
      rintro rfl
      exact hline rfl
    rw [if_neg hne]
    exact view_congr rfl rfl (Function.update_of_ne hline _ _)

theorem dirty_store : (c.store i x).Dirty l = true ↔ l = c.line i ∨ c.Dirty l = true := by
  rw [Dirty, Dirty, store]
  dsimp only
  by_cases hl : l = c.line i
  · rw [hl, Function.update_self]
    simp
  · rw [Function.update_of_ne hl]
    simp [hl]

/-! ### Leaving the cache -/

@[simp] theorem line_flush : (c.flush l).line i = c.line i := rfl

theorem mem_flush :
    (c.flush l).mem i = if c.line i = l ∧ c.Dirty l = true then c.view i else c.mem i := rfl

theorem view_flush :
    (c.flush l).view i = if c.line i = l then (c.flush l).mem i else c.view i := by
  by_cases hi : c.line i = l
  · rw [if_pos hi]
    refine view_of_none ?_
    rw [line_flush, hi]
    exact Function.update_self l _ c.lines
  · rw [if_neg hi]
    refine view_congr rfl ?_ (Function.update_of_ne hi _ _)
    rw [mem_flush, if_neg (fun h => hi h.1)]

@[simp] theorem mem_invalidate : (c.invalidate l).mem = c.mem := rfl

@[simp] theorem line_invalidate : (c.invalidate l).line i = c.line i := rfl

theorem view_invalidate :
    (c.invalidate l).view i = if c.line i = l then c.mem i else c.view i := by
  by_cases hi : c.line i = l
  · rw [if_pos hi]
    refine view_of_none ?_
    rw [line_invalidate, hi]
    exact Function.update_self l _ c.lines
  · rw [if_neg hi]
    exact view_congr rfl rfl (Function.update_of_ne hi _ _)

/-- A line that has left the cache is clean. -/
theorem any_update_none :
    (Function.update c.lines l none l').any Copy.dirty = true ↔
      l' ≠ l ∧ (c.lines l').any Copy.dirty = true := by
  by_cases hl : l' = l
  · rw [hl, Function.update_self]
    simp
  · rw [Function.update_of_ne hl]
    simp [hl]

theorem dirty_flush : (c.flush l).Dirty l' = true ↔ l' ≠ l ∧ c.Dirty l' = true :=
  any_update_none c l l'

theorem dirty_invalidate : (c.invalidate l).Dirty l' = true ↔ l' ≠ l ∧ c.Dirty l' = true :=
  any_update_none c l l'

/-! ### The device -/

@[simp] theorem mem_device : (c.device i x).mem = Function.update c.mem i x := rfl

@[simp] theorem line_device : (c.device i x).line j = c.line j := rfl

@[simp] theorem dirty_device : (c.device i x).Dirty l = c.Dirty l := rfl

/-- The CPU sees the old value of a cell whose line it has a copy of. -/
theorem view_device :
    (c.device i x).view j = c.view j ∨ (c.device i x).view j = (c.device i x).mem j := by
  cases h : c.lines (c.line j) with
  | none => exact Or.inr (view_of_none h)
  | some k =>
    left
    rw [view_of_some h]
    exact view_of_some h

/-- It has one of a line with changes. -/
theorem view_device_of_dirty (h : c.Dirty (c.line j) = true) :
    (c.device i x).view j = c.view j := by
  cases hcopy : c.lines (c.line j) with
  | none =>
    rw [Dirty, hcopy] at h
    cases h
  | some k =>
    rw [view_of_some hcopy]
    exact view_of_some hcopy

end LineCache
