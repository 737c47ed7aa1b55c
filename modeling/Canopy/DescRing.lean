/-
A ring of descriptors that one party fills and another empties.

Of the `n` slots the full ones lie one behind the other from `head`; each of
them holds an item.  `Holds n full item head items` says so: it is the state of
a queue whose contents are `items`, spread over the flags and the memory of a
descriptor ring.

* `Holds.full_head_iff`, `Holds.full_tail_iff` — the flag of the oldest slot
  tells whether the queue is empty, the flag of the next one whether it is full;
* `Holds.full_prev_iff` — so does the flag of the slot behind which it starts;
* `Holds.push`, `Holds.pop` — filling the next slot, emptying the oldest;
* `Holds.set_head`, `Holds.set_last` — changing the first item, or what was pushed last;
* `Holds.contents_eq` — what a walk over the flags and the memory finds.

Nothing here knows about a particular program.
-/
import Canopy.RingIndex
import Mathlib.Data.List.Basic
import Mathlib.Data.List.GetD
import Mathlib.Data.List.TakeWhile

namespace DescRing

open RingIndex

variable {α : Type*} {n : ℕ} {full full' : ℕ → Prop} {item item' : ℕ → α} {head : ℕ}
  {items items' : List α} {x : α}

/-- The full slots are the first `items.length` ones from `head`, and hold `items`. -/
structure Holds (n : ℕ) (full : ℕ → Prop) (item : ℕ → α) (head : ℕ) (items : List α) : Prop where
  head_lt : head < n
  length_le : items.length ≤ n
  full_iff : ∀ i < n, full i ↔ ∃ k < items.length, i = slot n head k
  item_eq : ∀ k x, items[k]? = some x → item (slot n head k) = x

/-- An item of the longer queue is an older one or the one pushed last. -/
theorem getElem?_concat {k : ℕ} {y : α} (h : (items ++ [x])[k]? = some y) :
    (k < items.length ∧ items[k]? = some y) ∨ (k = items.length ∧ x = y) := by
  rcases Nat.lt_or_ge k items.length with hlt | hge
  · rw [List.getElem?_append_left hlt] at h
    exact Or.inl ⟨hlt, h⟩
  · have hk : k = items.length := by
      have hlt := (List.getElem?_eq_some_iff.mp h).1
      rw [List.length_append, List.length_singleton] at hlt
      omega
    subst hk
    rw [List.getElem?_append_right (le_refl _), Nat.sub_self] at h
    exact Or.inr ⟨rfl, Option.some.inj h⟩

theorem Holds.pos (h : Holds n full item head items) : 0 < n :=
  Nat.lt_of_le_of_lt (Nat.zero_le _) h.head_lt

theorem Holds.full_slot (h : Holds n full item head items) {k : ℕ} (hk : k < items.length) :
    full (slot n head k) :=
  (h.full_iff _ (slot_lt h.pos head k)).mpr ⟨k, hk, rfl⟩

/-- No slot is full. -/
theorem holds_nil (hhead : head < n) (hempty : ∀ i < n, ¬full i) :
    Holds n full item head [] where
  head_lt := hhead
  length_le := Nat.zero_le _
  full_iff := by
    intro i hi
    constructor
    · intro hfull
      exact absurd hfull (hempty i hi)
    · rintro ⟨k, hk, -⟩
      exact absurd hk (Nat.not_lt_zero k)
  item_eq := by
    rintro k x ⟨⟩

/-- Only the flags of the slots and the items of the full ones matter. -/
theorem Holds.congr (h : Holds n full item head items) (hfull : ∀ i < n, full' i ↔ full i)
    (hitem : ∀ i < n, full i → item' i = item i) : Holds n full' item' head items where
  head_lt := h.head_lt
  length_le := h.length_le
  full_iff := by
    intro i hi
    rw [hfull i hi, h.full_iff i hi]
  item_eq := by
    intro k x hk
    have hlen : k < items.length := (List.getElem?_eq_some_iff.mp hk).1
    rw [hitem _ (slot_lt h.pos head k) (h.full_slot hlen)]
    exact h.item_eq k x hk

/-- **The oldest slot is full exactly when the queue is not empty.** -/
theorem Holds.full_head_iff (h : Holds n full item head items) : full head ↔ items ≠ [] := by
  rw [h.full_iff head h.head_lt, ← List.length_pos_iff]
  constructor
  · rintro ⟨k, hk, -⟩
    exact Nat.zero_lt_of_lt hk
  · intro hpos
    exact ⟨0, hpos, (slot_zero h.head_lt).symm⟩

/-- **The slot behind the last one is full exactly when all are.** -/
theorem Holds.full_tail_iff (h : Holds n full item head items) :
    full (slot n head items.length) ↔ items.length = n := by
  rw [h.full_iff _ (slot_lt h.pos head _)]
  constructor
  · rintro ⟨k, hk, hslot⟩
    by_contra hne
    have hlt : items.length < n := Nat.lt_of_le_of_ne h.length_le hne
    have := slot_inj hlt (hk.trans hlt) hslot
    omega
  · intro hlen
    refine ⟨0, hlen ▸ h.pos, ?_⟩
    rw [hlen, slot_self, slot_zero h.head_lt, Nat.mod_eq_of_lt h.head_lt]

/-- The slot before the head is the last one of the ring. -/
theorem slot_next_pred {i : ℕ} (hi : i < n) : slot n (next n i) (n - 1) = i := by
  rw [slot_next hi, Nat.sub_add_cancel (Nat.one_le_of_lt hi), slot_self, Nat.mod_eq_of_lt hi]

/-- A slot further on is not the head. -/
theorem slot_ne_head (hhead : head < n) {k : ℕ} (hk : k + 1 < n) : slot n head (k + 1) ≠ head := by
  intro hslot
  have hzero : slot n head (k + 1) = slot n head 0 := by rw [hslot, slot_zero hhead]
  have := slot_inj hk (Nat.zero_lt_of_lt hk) hzero
  omega

/-- The slot the queue has just moved past is full exactly when all are. -/
theorem Holds.full_prev_iff {i : ℕ} (hi : i < n) (h : Holds n full item (next n i) items) :
    full i ↔ items.length = n := by
  have hpred := slot_next_pred hi
  constructor
  · intro hfull
    obtain ⟨k, hk, hslot⟩ := (h.full_iff i hi).mp hfull
    have hkn : k < n := hk.trans_le h.length_le
    have := slot_inj (Nat.sub_lt h.pos Nat.one_pos) hkn (hpred.trans hslot)
    have := h.length_le
    omega
  · intro hlen
    refine (h.full_iff i hi).mpr ⟨n - 1, ?_, hpred.symm⟩
    rw [hlen]
    exact Nat.sub_lt h.pos Nat.one_pos

/-- The oldest slot holds the first item. -/
theorem Holds.item_head (h : Holds n full item head (x :: items)) : item head = x := by
  have := h.item_eq 0 x rfl
  rwa [slot_zero h.head_lt] at this

/-- A full oldest slot is the first item and the rest. -/
theorem Holds.exists_cons (h : Holds n full item head items) (hfull : full head) :
    ∃ rest, items = item head :: rest := by
  obtain ⟨y, rest, rfl⟩ := List.exists_cons_of_ne_nil (h.full_head_iff.mp hfull)
  exact ⟨rest, by rw [h.item_head]⟩

theorem Holds.length_lt (h : Holds n full item head items)
    (hroom : ¬full (slot n head items.length)) : items.length < n :=
  Nat.lt_of_le_of_ne h.length_le fun hlen => hroom (h.full_tail_iff.mpr hlen)

/-- Filling the next slot. -/
theorem Holds.push (h : Holds n full item head items) {tail : ℕ}
    (htail : tail = slot n head items.length) (hroom : ¬full tail)
    (hfull : ∀ i < n, full' i ↔ i = tail ∨ full i) (hnew : item' tail = x)
    (hold : ∀ i < n, i ≠ tail → item' i = item i) :
    Holds n full' item' head (items ++ [x]) := by
  subst htail
  have hlt := h.length_lt hroom
  refine ⟨h.head_lt, ?_, ?_, ?_⟩
  · rw [List.length_append, List.length_singleton]
    exact hlt
  · intro i hi
    rw [hfull i hi, h.full_iff i hi, List.length_append, List.length_singleton]
    constructor
    · rintro (rfl | ⟨k, hk, hslot⟩)
      · exact ⟨items.length, Nat.lt_succ_self _, rfl⟩
      · exact ⟨k, Nat.lt_succ_of_lt hk, hslot⟩
    · rintro ⟨k, hk, hslot⟩
      rcases Nat.lt_succ_iff_lt_or_eq.mp hk with hk | rfl
      · exact Or.inr ⟨k, hk, hslot⟩
      · exact Or.inl hslot
  · intro k y hk
    rcases getElem?_concat hk with ⟨hk', hy⟩ | ⟨rfl, rfl⟩
    · -- an older item lies in another slot
      have hne : slot n head k ≠ slot n head items.length := by
        intro hslot
        have := slot_inj (hk'.trans hlt) hlt hslot
        omega
      rw [hold _ (slot_lt h.pos head k) hne]
      exact h.item_eq k y hy
    · exact hnew

/-- Emptying the oldest slot. -/
theorem Holds.pop (h : Holds n full item head (x :: items))
    (hfull : ∀ i < n, full' i ↔ i ≠ head ∧ full i)
    (hold : ∀ i < n, i ≠ head → full i → item' i = item i) :
    Holds n full' item' (next n head) items := by
  have hlen : items.length < n := h.length_le
  have hne (k : ℕ) (hk : k < items.length) : slot n head (k + 1) ≠ head :=
    slot_ne_head h.head_lt (by omega)
  refine ⟨next_lt h.head_lt, hlen.le, ?_, ?_⟩
  · intro i hi
    simp only [slot_next h.head_lt]
    rw [hfull i hi, h.full_iff i hi, List.length_cons]
    constructor
    · rintro ⟨hhead, k, hk, rfl⟩
      obtain _ | k := k
      · exact absurd (slot_zero h.head_lt) hhead
      · exact ⟨k, Nat.lt_of_succ_lt_succ hk, rfl⟩
    · rintro ⟨k, hk, rfl⟩
      exact ⟨hne k hk, k + 1, Nat.succ_lt_succ hk, rfl⟩
  · intro k y hk
    rw [slot_next h.head_lt]
    have hk' : k < items.length := (List.getElem?_eq_some_iff.mp hk).1
    rw [hold _ (slot_lt h.pos head _) (hne k hk') (h.full_slot (Nat.succ_lt_succ hk'))]
    exact h.item_eq (k + 1) y hk

/-- Changing the first item. -/
theorem Holds.set_head (h : Holds n full item head (x :: items))
    (hfull : ∀ i < n, full' i ↔ full i)
    (hold : ∀ i < n, i ≠ head → full i → item' i = item i) :
    Holds n full' item' head (item' head :: items) where
  head_lt := h.head_lt
  length_le := h.length_le
  full_iff := by
    intro i hi
    rw [hfull i hi, h.full_iff i hi]
    rfl
  item_eq := by
    intro k y hk
    obtain _ | k := k
    · rw [slot_zero h.head_lt]
      exact Option.some.inj hk
    · have hlt : k + 1 < (x :: items).length := (List.getElem?_eq_some_iff.mp hk).1
      rw [hold _ (slot_lt h.pos head _) (slot_ne_head h.head_lt (hlt.trans_le h.length_le))
        (h.full_slot hlt)]
      exact h.item_eq (k + 1) y hk

/-- Changing the item that was pushed last. -/
theorem Holds.set_last (h : Holds n full item head (items ++ [x])) {y : α} {last : ℕ}
    (hlast : last = slot n head items.length) (hfull : ∀ i < n, full' i ↔ full i)
    (hnew : item' last = y) (hold : ∀ i < n, i ≠ last → item' i = item i) :
    Holds n full' item' head (items ++ [y]) := by
  have hlen : items.length < n := by
    have := h.length_le
    rw [List.length_append, List.length_singleton] at this
    omega
  refine ⟨h.head_lt, ?_, ?_, ?_⟩
  · have := h.length_le
    rwa [List.length_append, List.length_singleton] at this ⊢
  · intro i hi
    rw [hfull i hi, h.full_iff i hi, List.length_append, List.length_append]
    rfl
  · intro k z hk
    rcases getElem?_concat hk with ⟨hk', hz⟩ | ⟨rfl, rfl⟩
    · have hne : slot n head k ≠ last := by
        rw [hlast]
        intro hslot
        have := slot_inj (hk'.trans hlen) hlen hslot
        omega
      rw [hold _ (slot_lt h.pos head k) hne]
      refine h.item_eq k z ?_
      rw [List.getElem?_append_left hk']
      exact hz
    · rw [← hlast]
      exact hnew

/-! ### Reading the contents off the ring -/

/-- The items from `head` up to the first slot that is not full. -/
def contents (n : ℕ) (full : ℕ → Prop) [DecidablePred full] (item : ℕ → α) (head : ℕ) : List α :=
  (((List.range n).map (slot n head)).takeWhile full).map item

theorem length_contents_le (full : ℕ → Prop) [DecidablePred full] (item : ℕ → α) (head : ℕ) :
    (contents n full item head).length ≤ n := by
  rw [contents, List.length_map]
  refine (List.takeWhile_sublist _).length_le.trans ?_
  rw [List.length_map, List.length_range]

/-- The walk ends at a slot that is not full. -/
theorem length_contents_le_of_not_full [DecidablePred full] (item : ℕ → α) {k : ℕ}
    (hk : ¬full (slot n head k)) : (contents n full item head).length ≤ k := by
  by_contra hlen
  rw [contents, List.length_map, Nat.not_le] at hlen
  have hprefix :=
    List.takeWhile_prefix (fun i => decide (full i)) (l := (List.range n).map (slot n head))
  have hget := hprefix.getElem hlen
  rw [List.getElem_map, List.getElem_range] at hget
  have hfull := List.mem_takeWhile_imp (List.getElem_mem hlen)
  rw [hget] at hfull
  exact hk (of_decide_eq_true hfull)

/-- **The walk finds the contents.** -/
theorem Holds.contents_eq [DecidablePred full] (h : Holds n full item head items) :
    contents n full item head = items := by
  have hprefix : ∀ i ∈ (List.range items.length).map (slot n head), decide (full i) = true := by
    intro i hi
    obtain ⟨k, hk, rfl⟩ := List.mem_map.mp hi
    exact decide_eq_true (h.full_slot (List.mem_range.mp hk))
  -- the walk stops right behind the last full slot
  have hstop : (((List.range n).map (slot n head)).takeWhile full) =
      (List.range items.length).map (slot n head) := by
    obtain ⟨m, hm⟩ := Nat.exists_eq_add_of_le h.length_le
    have hsplit : List.range n =
        List.range items.length ++ (List.range m).map (items.length + ·) := by
      rw [hm, List.range_add]
    rw [hsplit, List.map_append, List.takeWhile_append_of_pos hprefix]
    obtain _ | m := m
    · simp
    · have hroom : ¬full (slot n head items.length) := by
        rw [h.full_tail_iff]
        omega
      rw [List.range_succ_eq_map, List.map_cons, List.map_cons, Nat.add_zero,
        List.takeWhile_cons_of_neg (by simpa using hroom), List.append_nil]
  rw [contents, hstop]
  refine List.ext_getElem (by simp) fun k hk hk' => ?_
  rw [List.getElem_map, List.getElem_map, List.getElem_range]
  exact h.item_eq k _ (List.getElem?_eq_getElem hk')

/-- What is written over the first cells of a buffer can be read off them. -/
theorem map_range_getD (data : List α) (d : α) (old : ℕ → α) :
    ((List.range data.length).map fun j => if j < data.length then data.getD j d else old j) =
      data := by
  refine List.ext_getElem (by simp) fun j hj hj' => ?_
  rw [List.getElem_map, List.getElem_range, if_pos hj', List.getD_eq_getElem _ _ hj']

end DescRing
