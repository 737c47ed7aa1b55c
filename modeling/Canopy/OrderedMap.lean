/-
Lists searched by key, and the insertion-ordered maps they represent.

The first part is about `std::find_if` on a vector of keyed values and the two
things one does with the iterator it returns: change the value in place
(`modifyFirst`) or erase it (`eraseFirst`).  Keys may repeat.

The second part is the abstract map: `OMap` carries the proof that its keys
are distinct.  A history of `put`, `erase` and `clear` events determines both
the value of a key (`valueOf`, the last `put` that was not undone) and the
time its current life began (`bornAt`).

* `lookup_ofHistory` — looking a key up gives `valueOf`;
* `keys_pairwise_before` — keys are listed in the order they were born.
-/
import Mathlib.Data.List.Nodup
import Mathlib.Algebra.BigOperators.Group.List.Basic
import Mathlib.Tactic.Ring

namespace OrderedMap

section Keyed

variable {α κ : Type*} [DecidableEq κ] (key : α → κ)

/-- `std::find_if` for the first value with key `k`. -/
def find (k : κ) (l : List α) : Option α := l.find? (fun a => key a = k)

/-- Change the first value with key `k`. -/
def modifyFirst (k : κ) (f : α → α) : List α → List α
  | [] => []
  | a :: l => if key a = k then f a :: l else a :: modifyFirst k f l

/-- Erase the first value with key `k`. -/
def eraseFirst (k : κ) (l : List α) : List α := l.eraseP (fun a => key a = k)

variable {key} {k k' : κ} {f : α → α} {l : List α} {a : α}

theorem find_cons_of_eq (h : key a = k) : find key k (a :: l) = some a := by
  simp [find, h]

theorem find_cons_of_ne (h : key a ≠ k) : find key k (a :: l) = find key k l := by
  simp [find, h]

theorem find_eq_none : find key k l = none ↔ k ∉ l.map key := by
  simp [find, List.find?_eq_none]

theorem find_isSome : (find key k l).isSome ↔ k ∈ l.map key := by
  rw [Option.isSome_iff_ne_none, ne_eq, find_eq_none, not_not]

theorem key_of_find (h : find key k l = some a) : key a = k := by
  simpa using List.find?_some h

theorem mem_of_find (h : find key k l = some a) : a ∈ l := List.mem_of_find?_eq_some h

theorem find_append_singleton_self (h : find key k l = none) (ha : key a = k) :
    find key k (l ++ [a]) = some a := by
  simp only [find] at h
  simp [find, List.find?_append, h, ha]

theorem find_append_singleton_of_ne (ha : key a ≠ k) :
    find key k (l ++ [a]) = find key k l := by
  simp [find, List.find?_append, ha]

/-! ### Changing a value in place -/

theorem map_modifyFirst {β : Type*} (g : α → β) (hf : ∀ a, g (f a) = g a) :
    (modifyFirst key k f l).map g = l.map g := by
  induction l with
  | nil => rfl
  | cons a l ih =>
    rw [modifyFirst]
    split
    · rw [List.map_cons, List.map_cons, hf]
    · rw [List.map_cons, List.map_cons, ih]

theorem find_modifyFirst_self (hf : ∀ a, key (f a) = key a) :
    find key k (modifyFirst key k f l) = (find key k l).map f := by
  induction l with
  | nil => rfl
  | cons a l ih =>
    by_cases ha : key a = k
    · rw [modifyFirst, if_pos ha, find_cons_of_eq ha, find_cons_of_eq ((hf a).trans ha)]
      rfl
    · rw [modifyFirst, if_neg ha, find_cons_of_ne ha, find_cons_of_ne ha, ih]

theorem find_modifyFirst_of_ne (hf : ∀ a, key (f a) = key a) (hk : k' ≠ k) :
    find key k' (modifyFirst key k f l) = find key k' l := by
  induction l with
  | nil => rfl
  | cons a l ih =>
    by_cases ha : key a = k
    · have ha' : key a ≠ k' := fun h => hk (h.symm.trans ha)
      rw [modifyFirst, if_pos ha, find_cons_of_ne ha', find_cons_of_ne ((hf a).trans_ne ha')]
    · rw [modifyFirst, if_neg ha]
      by_cases ha' : key a = k'
      · rw [find_cons_of_eq ha', find_cons_of_eq ha']
      · rw [find_cons_of_ne ha', find_cons_of_ne ha', ih]

theorem mem_modifyFirst {b : α} (h : b ∈ modifyFirst key k f l) :
    b ∈ l ∨ ∃ a ∈ l, key a = k ∧ b = f a := by
  induction l with
  | nil => exact absurd h (by simp [modifyFirst])
  | cons a l ih =>
    by_cases ha : key a = k
    · rw [modifyFirst, if_pos ha] at h
      rcases List.mem_cons.mp h with hb | hb
      · exact Or.inr ⟨a, List.mem_cons_self, ha, hb⟩
      · exact Or.inl (List.mem_cons_of_mem _ hb)
    · rw [modifyFirst, if_neg ha] at h
      rcases List.mem_cons.mp h with hb | hb
      · exact Or.inl (hb ▸ List.mem_cons_self)
      · rcases ih hb with hl | ⟨c, hc, hck, hbc⟩
        · exact Or.inl (List.mem_cons_of_mem _ hl)
        · exact Or.inr ⟨c, List.mem_cons_of_mem _ hc, hck, hbc⟩

/-- A total over the list after a change in place, without subtraction. -/
theorem sum_map_modifyFirst (w : α → ℕ) (h : find key k l = some a) :
    ((modifyFirst key k f l).map w).sum + w a = (l.map w).sum + w (f a) := by
  induction l with
  | nil => exact absurd h (by simp [find])
  | cons b l ih =>
    by_cases hb : key b = k
    · rw [find_cons_of_eq hb, Option.some_inj] at h
      subst h
      rw [modifyFirst, if_pos hb, List.map_cons, List.map_cons, List.sum_cons, List.sum_cons]
      ring
    · rw [find_cons_of_ne hb] at h
      have := ih h
      rw [modifyFirst, if_neg hb, List.map_cons, List.map_cons, List.sum_cons, List.sum_cons]
      omega

/-- The change is invisible exactly when it leaves the value it hits alone. -/
theorem modifyFirst_eq_self_iff (h : find key k l = some a) :
    modifyFirst key k f l = l ↔ f a = a := by
  induction l with
  | nil => exact absurd h (by simp [find])
  | cons b l ih =>
    by_cases hb : key b = k
    · rw [find_cons_of_eq hb, Option.some_inj] at h
      subst h
      rw [modifyFirst, if_pos hb, List.cons_eq_cons]
      exact and_iff_left rfl
    · rw [find_cons_of_ne hb] at h
      rw [modifyFirst, if_neg hb, List.cons_eq_cons, ih h]
      exact and_iff_right rfl

/-! ### Erasing a value -/

theorem eraseFirst_cons_of_eq (h : key a = k) : eraseFirst key k (a :: l) = l := by
  simp [eraseFirst, h]

theorem eraseFirst_cons_of_ne (h : key a ≠ k) :
    eraseFirst key k (a :: l) = a :: eraseFirst key k l := by
  simp [eraseFirst, h]

theorem eraseFirst_eq_self (h : find key k l = none) : eraseFirst key k l = l := by
  refine List.eraseP_of_forall_not fun a ha => ?_
  rw [find_eq_none, List.mem_map, not_exists] at h
  simpa using fun hk => h a ⟨ha, hk⟩

theorem eraseFirst_sublist : (eraseFirst key k l).Sublist l := List.eraseP_sublist

theorem map_key_eraseFirst : (eraseFirst key k l).map key = (l.map key).erase k := by
  induction l with
  | nil => rfl
  | cons a l ih =>
    by_cases ha : key a = k
    · rw [eraseFirst_cons_of_eq ha, List.map_cons, ha, List.erase_cons_head]
    · rw [eraseFirst_cons_of_ne ha, List.map_cons, List.map_cons, ih,
        List.erase_cons_tail (by simpa using ha)]

theorem find_eraseFirst_of_ne (hk : k' ≠ k) :
    find key k' (eraseFirst key k l) = find key k' l := by
  induction l with
  | nil => rfl
  | cons a l ih =>
    by_cases ha : key a = k
    · rw [eraseFirst_cons_of_eq ha, find_cons_of_ne (fun h => hk (h.symm.trans ha))]
    · rw [eraseFirst_cons_of_ne ha]
      by_cases ha' : key a = k'
      · rw [find_cons_of_eq ha', find_cons_of_eq ha']
      · rw [find_cons_of_ne ha', find_cons_of_ne ha', ih]

/-- Erasing takes out the value the search finds, and only that one. -/
theorem eraseFirst_of_find (h : find key k l = some a) :
    ∃ pre post, l = pre ++ a :: post ∧ eraseFirst key k l = pre ++ post := by
  induction l with
  | nil => exact absurd h (by simp [find])
  | cons b l ih =>
    by_cases hb : key b = k
    · rw [find_cons_of_eq hb, Option.some_inj] at h
      subst h
      exact ⟨[], l, rfl, eraseFirst_cons_of_eq hb⟩
    · rw [find_cons_of_ne hb] at h
      obtain ⟨pre, post, hl, herase⟩ := ih h
      refine ⟨b :: pre, post, by rw [hl, List.cons_append], ?_⟩
      rw [eraseFirst_cons_of_ne hb, herase, List.cons_append]

theorem eraseFirst_ne_self (h : find key k l = some a) : eraseFirst key k l ≠ l := by
  intro heq
  have hmem : k ∈ l.map key := find_isSome.mp (by rw [h]; rfl)
  have hcount := congrArg (List.count k) (congrArg (List.map key) heq)
  rw [map_key_eraseFirst, List.count_erase_self] at hcount
  have hpos := List.count_pos_iff.mpr hmem
  omega

theorem sum_map_eraseFirst (w : α → ℕ) (h : find key k l = some a) :
    ((eraseFirst key k l).map w).sum + w a = (l.map w).sum := by
  induction l with
  | nil => exact absurd h (by simp [find])
  | cons b l ih =>
    by_cases hb : key b = k
    · rw [find_cons_of_eq hb, Option.some_inj] at h
      subst h
      rw [eraseFirst_cons_of_eq hb, List.map_cons, List.sum_cons]
      ring
    · rw [find_cons_of_ne hb] at h
      have := ih h
      rw [eraseFirst_cons_of_ne hb, List.map_cons, List.map_cons, List.sum_cons, List.sum_cons]
      omega

/-! ### How often a key occurs -/

variable (key) in
def occurrences (k : κ) (l : List α) : ℕ := (l.map key).count k

theorem occurrences_eq_zero : occurrences key k l = 0 ↔ find key k l = none := by
  rw [occurrences, List.count_eq_zero, find_eq_none]

theorem occurrences_modifyFirst (hf : ∀ a, key (f a) = key a) :
    occurrences key k' (modifyFirst key k f l) = occurrences key k' l := by
  rw [occurrences, map_modifyFirst key hf, occurrences]

theorem occurrences_append_singleton :
    occurrences key k (l ++ [a]) = occurrences key k l + if key a = k then 1 else 0 := by
  rw [occurrences, List.map_append, List.count_append, List.map_singleton, List.count_singleton,
    occurrences]
  simp only [beq_iff_eq]

theorem occurrences_eraseFirst_le :
    occurrences key k' (eraseFirst key k l) ≤ occurrences key k' l := by
  rw [occurrences, map_key_eraseFirst]
  exact List.erase_sublist.count_le k'

/-- An erased key is gone exactly when it occurred at most once. -/
theorem find_eraseFirst_self_eq_none :
    find key k (eraseFirst key k l) = none ↔ occurrences key k l ≤ 1 := by
  rw [← occurrences_eq_zero, occurrences, map_key_eraseFirst, List.count_erase_self, occurrences]
  omega

theorem find_eraseFirst_self_of_nodup (h : (l.map key).Nodup) :
    find key k (eraseFirst key k l) = none :=
  find_eraseFirst_self_eq_none.mpr (List.nodup_iff_count_le_one.mp h k)

/-! ### Seen through a map of the values -/

section Comap

variable {β : Type*} {key' : β → κ} {g : α → β}

theorem find_map (hg : ∀ a, key' (g a) = key a) :
    find key' k (l.map g) = (find key k l).map g := by
  induction l with
  | nil => rfl
  | cons a l ih =>
    by_cases ha : key a = k
    · rw [List.map_cons, find_cons_of_eq ((hg a).trans ha), find_cons_of_eq ha]
      rfl
    · rw [List.map_cons, find_cons_of_ne ((hg a).trans_ne ha), find_cons_of_ne ha, ih]

theorem map_modifyFirst_comm {f' : β → β} (hg : ∀ a, key' (g a) = key a)
    (hf : ∀ a, g (f a) = f' (g a)) :
    (modifyFirst key k f l).map g = modifyFirst key' k f' (l.map g) := by
  induction l with
  | nil => rfl
  | cons a l ih =>
    by_cases ha : key a = k
    · rw [modifyFirst, if_pos ha, List.map_cons, List.map_cons, modifyFirst,
        if_pos ((hg a).trans ha), hf]
    · rw [modifyFirst, if_neg ha, List.map_cons, List.map_cons, modifyFirst,
        if_neg ((hg a).trans_ne ha), ih]

theorem map_eraseFirst_comm (hg : ∀ a, key' (g a) = key a) :
    (eraseFirst key k l).map g = eraseFirst key' k (l.map g) := by
  induction l with
  | nil => rfl
  | cons a l ih =>
    by_cases ha : key a = k
    · rw [eraseFirst_cons_of_eq ha, List.map_cons, eraseFirst_cons_of_eq ((hg a).trans ha)]
    · rw [eraseFirst_cons_of_ne ha, List.map_cons, List.map_cons,
        eraseFirst_cons_of_ne ((hg a).trans_ne ha), ih]

end Comap

end Keyed

/-! ### Insertion-ordered maps -/

/-- A finite map that remembers the order in which its keys arrived. -/
structure OMap (κ ν : Type*) where
  entries : List (κ × ν)
  nodup : (entries.map Prod.fst).Nodup

/-- What can happen to a map; `idle` is an event that leaves it alone. -/
inductive Event (κ ν : Type*) where
  | put (k : κ) (v : ν)
  | erase (k : κ)
  | clear
  | idle

/-- The binding `p` with its value replaced. -/
def setValue {κ ν : Type*} (v : ν) (p : κ × ν) : κ × ν := (p.1, v)

theorem setValue_fst {κ ν : Type*} (v : ν) (p : κ × ν) : (setValue v p).1 = p.1 := rfl

section Map

variable {κ ν : Type*} [DecidableEq κ]

namespace OMap

def keys (m : OMap κ ν) : List κ := m.entries.map Prod.fst

def lookup (m : OMap κ ν) (k : κ) : Option ν := (find Prod.fst k m.entries).map Prod.snd

def empty : OMap κ ν := ⟨[], by simp⟩

/-- Update `k` in place, or append it. -/
def put (m : OMap κ ν) (k : κ) (v : ν) : OMap κ ν :=
  if hk : k ∈ m.keys then
    { entries := modifyFirst Prod.fst k (setValue v) m.entries
      nodup := by
        rw [map_modifyFirst Prod.fst (setValue_fst v)]
        exact m.nodup }
  else
    { entries := m.entries ++ [(k, v)]
      nodup := by
        rw [List.map_append]
        exact List.nodup_append'.mpr
          ⟨m.nodup, List.nodup_singleton k, by simpa [keys] using hk⟩ }

theorem put_entries_of_mem {m : OMap κ ν} {k : κ} (hk : k ∈ m.keys) (v : ν) :
    (m.put k v).entries = modifyFirst Prod.fst k (setValue v) m.entries := by
  rw [put, dif_pos hk]

theorem put_entries_of_notMem {m : OMap κ ν} {k : κ} (hk : k ∉ m.keys) (v : ν) :
    (m.put k v).entries = m.entries ++ [(k, v)] := by
  rw [put, dif_neg hk]

theorem keys_put_of_mem {m : OMap κ ν} {k : κ} (hk : k ∈ m.keys) (v : ν) :
    (m.put k v).keys = m.keys := by
  rw [keys, put_entries_of_mem hk, map_modifyFirst Prod.fst (setValue_fst v), keys]

theorem keys_put_of_notMem {m : OMap κ ν} {k : κ} (hk : k ∉ m.keys) (v : ν) :
    (m.put k v).keys = m.keys ++ [k] := by
  rw [keys, put_entries_of_notMem hk, List.map_append, keys]
  rfl

def erase (m : OMap κ ν) (k : κ) : OMap κ ν where
  entries := eraseFirst Prod.fst k m.entries
  nodup := m.nodup.sublist (eraseFirst_sublist.map Prod.fst)

theorem erase_entries (m : OMap κ ν) (k : κ) :
    (m.erase k).entries = eraseFirst Prod.fst k m.entries := rfl

def apply (m : OMap κ ν) : Event κ ν → OMap κ ν
  | .put k v => m.put k v
  | .erase k => m.erase k
  | .clear => empty
  | .idle => m

/-- The map a history leads to; histories list the newest event first. -/
def ofHistory : List (Event κ ν) → OMap κ ν
  | [] => empty
  | e :: older => (ofHistory older).apply e

end OMap

/-- The value of `k` after a history: the last `put` of it with no later
`erase` of it and no later `clear`. -/
def valueOf (k : κ) : List (Event κ ν) → Option ν
  | [] => none
  | .put k' v :: older => if k' = k then some v else valueOf k older
  | .erase k' :: older => if k' = k then none else valueOf k older
  | .clear :: _ => none
  | .idle :: older => valueOf k older

/-- The time of the first `put` of `k` since it was last absent. -/
def bornAt (k : κ) : List (Event κ ν) → Option ℕ
  | [] => none
  | .put k' _ :: older =>
    if k' = k then (bornAt k older).or (some older.length) else bornAt k older
  | .erase k' :: older => if k' = k then none else bornAt k older
  | .clear :: _ => none
  | .idle :: older => bornAt k older

/-- Both keys are present and the first one was born earlier. -/
def Before (h : List (Event κ ν)) (k k' : κ) : Prop :=
  ∃ i j, bornAt k h = some i ∧ bornAt k' h = some j ∧ i < j

open OMap

theorem lookup_put (m : OMap κ ν) (k k' : κ) (v : ν) :
    (m.put k v).lookup k' = if k = k' then some v else m.lookup k' := by
  by_cases hmem : k ∈ m.keys
  · rw [lookup, put_entries_of_mem hmem]
    by_cases hk : k = k'
    · subst hk
      obtain ⟨p, hp⟩ := Option.isSome_iff_exists.mp (find_isSome.mpr hmem)
      rw [find_modifyFirst_self (setValue_fst v), hp, if_pos rfl]
      rfl
    · rw [find_modifyFirst_of_ne (setValue_fst v) (Ne.symm hk), if_neg hk, lookup]
  · rw [lookup, put_entries_of_notMem hmem]
    by_cases hk : k = k'
    · subst hk
      rw [find_append_singleton_self (find_eq_none.mpr hmem) rfl, if_pos rfl]
      rfl
    · rw [find_append_singleton_of_ne hk, if_neg hk, lookup]

theorem lookup_erase (m : OMap κ ν) (k k' : κ) :
    (m.erase k).lookup k' = if k = k' then none else m.lookup k' := by
  rw [lookup, erase]
  by_cases hk : k = k'
  · subst hk
    rw [if_pos rfl, find_eraseFirst_self_of_nodup m.nodup]
    rfl
  · rw [if_neg hk, find_eraseFirst_of_ne (Ne.symm hk), lookup]

/-- A map filled from a list: the last element that binds `k` decides. -/
theorem lookup_foldl {α : Type*} {f : OMap κ ν → α → OMap κ ν} {k : κ} {v : α → Option ν}
    (hf : ∀ m a, (f m a).lookup k = (v a).or (m.lookup k)) :
    ∀ (l : List α) (m : OMap κ ν),
      (l.foldl f m).lookup k = (l.reverse.findSome? v).or (m.lookup k)
  | [], _ => rfl
  | a :: l, m => by
    rw [List.foldl_cons, lookup_foldl hf l, hf, List.reverse_cons, List.findSome?_append,
      Option.or_assoc]
    cases hv : v a with
    | none => simp [hv]
    | some b => simp [hv]

/-- A search whose values are given where a test holds. -/
theorem findSome_ite {α β : Type*} (p : α → Prop) [DecidablePred p] (g : α → β) (l : List α) :
    l.findSome? (fun a => if p a then some (g a) else none) = (l.find? fun a => p a).map g := by
  induction l with
  | nil => rfl
  | cons a l ih =>
    by_cases ha : p a
    · simp [ha]
    · simp [ha, ih]

/-- In a map every key has one entry, and a search from the back finds it too. -/
theorem findSome_reverse_entries {β : Type*} (m : OMap κ ν) (k : κ) (g : ν → Option β) :
    m.entries.reverse.findSome? (fun p => if p.1 = k then g p.2 else none) =
      (m.lookup k).bind g := by
  obtain ⟨entries, hnodup⟩ := m
  rw [lookup]
  induction entries with
  | nil => rfl
  | cons p l ih =>
    rw [List.map_cons, List.nodup_cons] at hnodup
    rw [List.reverse_cons, List.findSome?_append, ih hnodup.2]
    by_cases hp : p.1 = k
    · -- the keys differ, so the last entry of a key is the first
      have hnone : find Prod.fst k l = none := by
        rw [find_eq_none, ← hp]
        exact hnodup.1
      rw [find_cons_of_eq hp, hnone]
      cases hg : g p.2 with
      | none => simp [hp, hg]
      | some b => simp [hp, hg]
    · rw [find_cons_of_ne hp]
      simp [hp]

/-- **Looking a key up gives its value in the history.** -/
theorem lookup_ofHistory (k : κ) :
    ∀ h : List (Event κ ν), (ofHistory h).lookup k = valueOf k h
  | [] => rfl
  | .put k' v :: older => by
    rw [ofHistory, apply, lookup_put, valueOf, lookup_ofHistory k older]
  | .erase k' :: older => by
    rw [ofHistory, apply, lookup_erase, valueOf, lookup_ofHistory k older]
  | .clear :: older => rfl
  | .idle :: older => by rw [ofHistory, apply, valueOf, lookup_ofHistory k older]

theorem mem_keys_iff_valueOf (k : κ) (h : List (Event κ ν)) :
    k ∈ (ofHistory h).keys ↔ (valueOf k h).isSome := by
  rw [← lookup_ofHistory, lookup, Option.isSome_map, find_isSome, keys]

theorem valueOf_isSome_iff_bornAt (k : κ) :
    ∀ h : List (Event κ ν), (valueOf k h).isSome ↔ (bornAt k h).isSome
  | [] => Iff.rfl
  | .put k' v :: older => by
    rw [valueOf, bornAt]
    split
    · simp
    · exact valueOf_isSome_iff_bornAt k older
  | .erase k' :: older => by
    rw [valueOf, bornAt]
    split
    · exact Iff.rfl
    · exact valueOf_isSome_iff_bornAt k older
  | .clear :: older => Iff.rfl
  | .idle :: older => valueOf_isSome_iff_bornAt k older

theorem bornAt_lt {k : κ} {h : List (Event κ ν)} {t : ℕ} (ht : bornAt k h = some t) :
    t < h.length := by
  induction h generalizing t with
  | nil => exact absurd ht (by simp [bornAt])
  | cons event older ih =>
    rw [List.length_cons]
    cases event with
    | put k' v =>
      rw [bornAt] at ht
      split at ht
      · cases hb : bornAt k older with
        | none =>
          -- born by this very event
          rw [hb, Option.none_or, Option.some_inj] at ht
          omega
        | some u =>
          rw [hb, Option.some_or, Option.some_inj] at ht
          have hu : u < older.length := ih hb
          omega
      · exact Nat.lt_succ_of_lt (ih ht)
    | erase k' =>
      rw [bornAt] at ht
      split at ht
      · exact absurd ht (by simp)
      · exact Nat.lt_succ_of_lt (ih ht)
    | clear => exact absurd ht (by simp [bornAt])
    | idle => exact Nat.lt_succ_of_lt (ih ht)

/-- A key is present exactly when it has a birth time. -/
theorem mem_keys_iff_bornAt (k : κ) (h : List (Event κ ν)) :
    k ∈ (ofHistory h).keys ↔ (bornAt k h).isSome := by
  rw [mem_keys_iff_valueOf, valueOf_isSome_iff_bornAt]

private theorem pairwise_of_bornAt_eq {h h' : List (Event κ ν)} {l : List κ}
    (hp : l.Pairwise (Before h)) (heq : ∀ k ∈ l, bornAt k h' = bornAt k h) :
    l.Pairwise (Before h') := by
  refine hp.imp_of_mem fun {a b} ha hb hab => ?_
  obtain ⟨i, j, hi, hj, hij⟩ := hab
  exact ⟨i, j, (heq a ha).trans hi, (heq b hb).trans hj, hij⟩

/-- **Keys are listed in the order they were born.** -/
theorem keys_pairwise_before :
    ∀ h : List (Event κ ν), (ofHistory h).keys.Pairwise (Before h)
  | [] => List.Pairwise.nil
  | .put k v :: older => by
    have ih := keys_pairwise_before older
    by_cases hmem : k ∈ (ofHistory older).keys
    · -- an update in place keeps the keys and every birth time
      rw [ofHistory, apply, keys_put_of_mem hmem]
      refine pairwise_of_bornAt_eq ih fun k' _ => ?_
      rw [bornAt]
      split
      · next hk =>
        subst hk
        obtain ⟨t, ht⟩ := Option.isSome_iff_exists.mp ((mem_keys_iff_bornAt k older).mp hmem)
        rw [ht, Option.some_or]
      · rfl
    · -- a new key goes to the end and is younger than all others
      have hnone : bornAt k older = none := by
        rw [mem_keys_iff_bornAt] at hmem
        simpa using hmem
      have hold : ∀ k' ∈ (ofHistory older).keys,
          bornAt k' (.put k v :: older) = bornAt k' older := by
        intro k' hk'
        have hne : k ≠ k' := fun hk => hmem (hk.symm ▸ hk')
        rw [bornAt, if_neg hne]
      rw [ofHistory, apply, keys_put_of_notMem hmem, List.pairwise_append]
      refine ⟨pairwise_of_bornAt_eq ih hold, List.pairwise_singleton _ _, ?_⟩
      intro a ha b hb
      rw [List.mem_singleton] at hb
      subst hb
      obtain ⟨t, ht⟩ := Option.isSome_iff_exists.mp ((mem_keys_iff_bornAt a older).mp ha)
      refine ⟨t, older.length, (hold a ha).trans ht, ?_, bornAt_lt ht⟩
      rw [bornAt, if_pos rfl, hnone, Option.none_or]
  | .erase k :: older => by
    have ih := keys_pairwise_before older
    have hkeys : (ofHistory (.erase k :: older)).keys = (ofHistory older).keys.erase k := by
      rw [keys, ofHistory, apply, erase, map_key_eraseFirst]
      rfl
    rw [hkeys]
    -- the keys that stay keep their birth times
    refine pairwise_of_bornAt_eq (ih.sublist List.erase_sublist) fun k' hk' => ?_
    have hne : k' ≠ k := ((List.Nodup.mem_erase_iff (ofHistory older).nodup).mp hk').1
    rw [bornAt, if_neg (Ne.symm hne)]
  | .clear :: older => List.Pairwise.nil
  | .idle :: older => pairwise_of_bornAt_eq (keys_pairwise_before older) fun _ _ => rfl

end Map

end OrderedMap
