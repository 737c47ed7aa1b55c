/-
The EV store refines an insertion-ordered finite map.

A run of mutator calls (saves succeeding) produces a history: each call with
the result it returned.  `eventOf` reads a history entry as an event of the
abstract map, and `Represents` says that the entry list lists the bindings of
an `OMap`.  The simulation `represents_mutate` carries the results of the
`OrderedMap` library over to the store.
-/
import Canopy.EvFile

namespace Chif

open OrderedMap

/-! ### The abstract map -/

/-- What a call did to the map: a refused `set` did nothing. -/
def eventOf : EvOp × Bool → Event Bytes Bytes
  | (.set name data, true) => .put name data
  | (.set _ _, false) => .idle
  | (.del name, _) => .erase name
  | (.deleteAll, _) => .clear

def EvEntry.toPair (e : EvEntry) : Bytes × Bytes := (e.name, e.data)

theorem EvEntry.toPair_fst (e : EvEntry) : e.toPair.1 = e.name := rfl

theorem EvEntry.toPair_assign (data : Bytes) (e : EvEntry) :
    (e.assign data).toPair = setValue data e.toPair := rfl

/-- The entries are the bindings of `m`, in order. -/
def Represents (entries : List EvEntry) (m : OMap Bytes Bytes) : Prop :=
  entries.map EvEntry.toPair = m.entries

theorem Represents.keys {entries : List EvEntry} {m : OMap Bytes Bytes}
    (h : Represents entries m) : m.keys = entries.map EvEntry.name := by
  rw [OMap.keys, ← h, List.map_map]
  rfl

theorem Represents.find {entries : List EvEntry} {m : OMap Bytes Bytes}
    (h : Represents entries m) (k : Bytes) :
    OrderedMap.find Prod.fst k m.entries
      = (OrderedMap.find EvEntry.name k entries).map EvEntry.toPair := by
  rw [← h, find_map EvEntry.toPair_fst]

theorem Represents.getByName {s : EvStorage} {m : OMap Bytes Bytes}
    (h : Represents s.entries m) (k : Bytes) :
    s.getByName k = (m.lookup k).map (EvEntry.mk k) := by
  rw [EvStorage.getByName, OMap.lookup, h.find]
  cases hfind : OrderedMap.find EvEntry.name k s.entries with
  | none => rfl
  | some e =>
    have hname : e.name = k := key_of_find hfind
    subst hname
    rfl

/-- **The simulation**: a call acts on the entries as its event acts on the map. -/
theorem represents_mutate {s : EvStorage} {m : OMap Bytes Bytes} (h : Represents s.entries m)
    (op : EvOp) :
    Represents (s.mutate .ok op).2.entries
      (m.apply (eventOf (op, (s.mutate .ok op).1))) := by
  by_cases href : refused s.entries op
  · rw [EvStorage.mutate_of_refused .ok s href]
    cases op with
    | set name data => exact h
    | del name =>
      -- a refused `del` is an erase of a key that is not there
      have hnone : OrderedMap.find Prod.fst name m.entries = none := by
        rw [h.find, show OrderedMap.find EvEntry.name name s.entries = none from href]
        rfl
      rw [eventOf, OMap.apply, Represents, OMap.erase_entries, eraseFirst_eq_self hnone]
      exact h
    | deleteAll => exact absurd href id
  · have hok : (s.mutate .ok op).1 = true := (EvStorage.mutate_fst .ok s op).mpr ⟨href, rfl⟩
    rw [hok, EvStorage.mutate_entries, if_neg href]
    cases op with
    | set name data =>
      rw [eventOf, OMap.apply, update, Represents]
      cases hfind : OrderedMap.find EvEntry.name name s.entries with
      | some it =>
        have hmem : name ∈ m.keys := by
          rw [h.keys, ← find_isSome, hfind]
          rfl
        -- in place: the position of the key does not change
        rw [OMap.put_entries_of_mem hmem, ← h]
        exact map_modifyFirst_comm EvEntry.toPair_fst (EvEntry.toPair_assign data)
      | none =>
        have hmem : name ∉ m.keys := by
          rw [h.keys]
          exact find_eq_none.mp hfind
        rw [OMap.put_entries_of_notMem hmem, ← h, List.map_append]
        rfl
    | del name =>
      rw [eventOf, OMap.apply, update, Represents, OMap.erase_entries, ← h]
      exact map_eraseFirst_comm EvEntry.toPair_fst
    | deleteAll => rfl

/-! ### Runs with their history -/

/-- The store and what has been called so far, newest call first. -/
structure Traced where
  store : EvStorage
  history : List (EvOp × Bool)

/-- One call, its save succeeding. -/
def Traced.step (t : Traced) (op : EvOp) : Traced :=
  ⟨(t.store.mutate .ok op).2, (op, (t.store.mutate .ok op).1) :: t.history⟩

/-- The events of a history. -/
def Traced.events (t : Traced) : List (Event Bytes Bytes) := t.history.map eventOf

/-- A run from an empty store. -/
def Traced.ofOps (file : Option Bytes) (ops : List EvOp) : Traced :=
  Run.run Traced.step ⟨⟨file, []⟩, []⟩ ops

/-- What a run from an empty store maintains. -/
structure Traced.Inv (t : Traced) : Prop where
  represents : Represents t.store.entries (OMap.ofHistory t.events)
  bounded : Bounded t.store.entries
  name_ne_nil : ∀ e ∈ t.store.entries, e.name ≠ []

private theorem name_ne_nil_mutate {s : EvStorage} (h : ∀ e ∈ s.entries, e.name ≠ [])
    (op : EvOp) : ∀ e ∈ (s.mutate .ok op).2.entries, e.name ≠ [] := by
  rw [EvStorage.mutate_entries]
  split
  · exact h
  · next hop =>
    cases op with
    | set name data =>
      -- an empty name is refused
      have hname : name ≠ [] := fun hnil => hop (Or.inl (Or.inl hnil))
      rw [update]
      split
      · intro e he
        rcases mem_modifyFirst he with he | ⟨a, ha, -, rfl⟩
        · exact h e he
        · exact h a ha
      · rw [List.forall_mem_append]
        exact ⟨h, by simpa using hname⟩
    | del name =>
      intro e he
      exact h e (eraseFirst_sublist.subset he)
    | deleteAll =>
      intro e he
      exact absurd he List.not_mem_nil

theorem Traced.inv_step {t : Traced} (h : t.Inv) (op : EvOp) : (t.step op).Inv where
  represents := represents_mutate h.represents op
  bounded := EvStorage.bounded_mutate h.bounded .ok op
  name_ne_nil := name_ne_nil_mutate h.name_ne_nil op

theorem Traced.inv_empty (file : Option Bytes) : (Traced.mk ⟨file, []⟩ []).Inv where
  represents := rfl
  bounded := bounded_nil
  name_ne_nil := fun _ he => absurd he List.not_mem_nil

theorem Traced.inv_ofOps (file : Option Bytes) (ops : List EvOp) : (Traced.ofOps file ops).Inv :=
  Run.run_invariant (I := Traced.Inv) (fun _ op h => Traced.inv_step h op)
    (Traced.inv_empty file) ops

/-! ### Refinement -/

/-- The store answers every lookup as the insertion-ordered map of the events
`h` does, within the limits of the format. -/
structure RefinesMap (s : EvStorage) (h : List (Event Bytes Bytes)) : Prop where
  /-- the data of the last successful `set` not undone since -/
  getByName_eq : ∀ k, s.getByName k = (valueOf k h).map (EvEntry.mk k)
  /-- each live key has exactly one index below `count()` -/
  existsUnique_index : ∀ k, (valueOf k h).isSome →
    ∃! i, i < s.count ∧ (s.getByIndex i).map EvEntry.name = some k
  /-- every index below `count()` holds an entry that `getByName` also finds -/
  getByIndex_agrees : ∀ i < s.count, ∃ e, s.getByIndex i = some e ∧ s.getByName e.name = some e
  /-- indices follow the order of first `set` since last absent -/
  getByIndex_ordered : ∀ i j e e', i < j → s.getByIndex i = some e → s.getByIndex j = some e' →
    Before h e.name e'.name
  getByIndex_eq_none : ∀ i, s.count ≤ i → s.getByIndex i = none
  names_nodup : (s.entries.map EvEntry.name).Nodup
  name_length : ∀ e ∈ s.entries, 1 ≤ e.name.length ∧ e.name.length ≤ 31
  data_length : ∀ e ∈ s.entries, e.data.length ≤ 3966
  size_le : serializedSize s.entries ≤ 65536

theorem EvStorage.getByIndex_eq (s : EvStorage) (i : ℕ) : s.getByIndex i = s.entries[i]? := by
  rw [getByIndex]
  split
  · next h => rw [List.getElem?_eq_none_iff.mpr h]
  · rfl

theorem EvStorage.count_eq {s : EvStorage} (h : Bounded s.entries) :
    s.count = s.entries.length := by
  have := h.length_lt
  exact Nat.mod_eq_of_lt (by omega)

/-- **The EV store refines an insertion-ordered finite map**, in every run of
`set`, `del` and `deleteAll` from an empty store. -/
theorem refinesMap_ofOps (file : Option Bytes) (ops : List EvOp) :
    RefinesMap (Traced.ofOps file ops).store (Traced.ofOps file ops).events := by
  obtain ⟨hrep, hb, hne⟩ := Traced.inv_ofOps file ops
  generalize (Traced.ofOps file ops).store = s at hrep hb hne ⊢
  generalize (Traced.ofOps file ops).events = h at hrep ⊢
  -- uniqueness comes from the abstract map, whose keys are distinct by construction
  have hnodup : (s.entries.map EvEntry.name).Nodup := hrep.keys ▸ (OMap.ofHistory h).nodup
  have hname : ∀ k, s.getByName k = (valueOf k h).map (EvEntry.mk k) := by
    intro k
    rw [hrep.getByName, lookup_ofHistory]
  have hindex : ∀ i k, (s.getByIndex i).map EvEntry.name = some k ↔
      (s.entries.map EvEntry.name)[i]? = some k := by
    intro i k
    rw [EvStorage.getByIndex_eq, List.getElem?_map]
  refine ⟨hname, ?_, ?_, ?_, ?_, hnodup, ?_, ?_, ?_⟩
  · intro k hk
    rw [← mem_keys_iff_valueOf, hrep.keys] at hk
    obtain ⟨i, hi, hik⟩ := List.mem_iff_getElem.mp hk
    refine ⟨i, ⟨?_, ?_⟩, ?_⟩
    · rw [EvStorage.count_eq hb]
      simpa using hi
    · rw [hindex, List.getElem?_eq_getElem hi, hik]
    · rintro j ⟨-, hj⟩
      rw [hindex, ← hik, ← List.getElem?_eq_getElem hi] at hj
      exact ((List.getElem?_inj hi hnodup).mp hj.symm).symm
  · intro i hi
    rw [EvStorage.count_eq hb] at hi
    refine ⟨s.entries[i], ?_, ?_⟩
    · rw [EvStorage.getByIndex_eq, List.getElem?_eq_getElem hi]
    · have hmem : s.entries[i] ∈ s.entries := List.getElem_mem hi
      obtain ⟨e, he⟩ := Option.isSome_iff_exists.mp
        (find_isSome.mpr (List.mem_map_of_mem (f := EvEntry.name) hmem))
      rw [EvStorage.getByName, he,
        List.inj_on_of_nodup_map hnodup (mem_of_find he) hmem (key_of_find he)]
  · intro i j e e' hij hi hj
    rw [EvStorage.getByIndex_eq] at hi hj
    have hpair := keys_pairwise_before h
    rw [hrep.keys, List.pairwise_map, List.pairwise_iff_getElem] at hpair
    obtain ⟨hilt, rfl⟩ := List.getElem?_eq_some_iff.mp hi
    obtain ⟨hjlt, rfl⟩ := List.getElem?_eq_some_iff.mp hj
    exact hpair i j hilt hjlt hij
  · intro i hi
    rw [EvStorage.count_eq hb] at hi
    rw [EvStorage.getByIndex_eq, List.getElem?_eq_none_iff.mpr hi]
  · intro e he
    have hlt := hb.name_lt e he
    have hpos : e.name.length ≠ 0 := fun h0 => hne e he (List.length_eq_zero_iff.mp h0)
    rw [maxEvNameLen] at hlt
    omega
  · exact hb.data_le
  · exact hb.size_le

end Chif
