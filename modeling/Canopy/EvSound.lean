/-
Whether `load()` establishes what `set` and `del` rely on.

`set` refuses an empty name and keeps names unique; `load()` takes whatever
names the file has.

* `loadStream_prefix`, `loadStream_exists` — `load()` keeps exactly a longest
  run of entries the file starts with;
* `Sound.mutate`, `Sound.del_removes` — a sound store stays sound, and in it a
  deleted name is gone;
* `loadsSound_iff` — a file loads to a sound store iff the entries it starts
  with have non-empty and distinct names.
-/
import Canopy.EvFile

namespace Chif

open Bytes InputStream OrderedMap

/-! ### Sound stores -/

/-- What `set` and `del` rely on. -/
structure Sound (entries : List EvEntry) : Prop where
  bounded : Bounded entries
  name_ne : ∀ e ∈ entries, e.name ≠ []
  nodup : (entries.map EvEntry.name).Nodup

theorem Sound.update {entries : List EvEntry} (h : Sound entries) {op : EvOp}
    (hop : ¬refused entries op) : Sound (update entries op) := by
  refine ⟨h.bounded.update hop, ?_, ?_⟩
  · cases op with
    | set name data =>
      -- an empty name is refused
      have hname : name ≠ [] := fun hnil => hop (Or.inl (Or.inl hnil))
      intro e he
      rw [Chif.update] at he
      split at he
      · rcases mem_modifyFirst he with he | ⟨a, ha, -, rfl⟩
        · exact h.name_ne e he
        · exact h.name_ne a ha
      · rcases List.mem_append.mp he with he | he
        · exact h.name_ne e he
        · rw [List.mem_singleton.mp he]
          exact hname
    | del name =>
      intro e he
      exact h.name_ne e (eraseFirst_sublist.subset he)
    | deleteAll =>
      intro e he
      exact absurd he List.not_mem_nil
  · cases op with
    | set name data =>
      rw [Chif.update]
      split
      · rw [map_modifyFirst EvEntry.name (EvEntry.assign_name data)]
        exact h.nodup
      · next hnone =>
        -- a name is appended only if no entry has it
        rw [List.map_append, List.map_singleton]
        exact List.nodup_append'.mpr ⟨h.nodup, List.nodup_singleton _,
          List.disjoint_singleton.mpr (find_eq_none.mp hnone)⟩
    | del name => exact h.nodup.sublist (eraseFirst_sublist.map EvEntry.name)
    | deleteAll => exact List.nodup_nil

/-- Every mutator keeps a store sound, whatever happens to its save. -/
theorem Sound.mutate {s : EvStorage} (h : Sound s.entries) (io : SaveIo) (op : EvOp) :
    Sound (s.mutate io op).2.entries := by
  rw [EvStorage.mutate_entries]
  split
  · exact h
  · next hop => exact h.update hop

/-- In a sound store a deleted name is gone. -/
theorem Sound.del_removes {s : EvStorage} (h : Sound s.entries) {io : SaveIo} {name : Bytes}
    (hdel : (s.del io name).1 = true) : (s.del io name).2.getByName name = none := by
  have haccepted := ((EvStorage.mutate_fst io s (.del name)).mp hdel).1
  have hentries : (s.del io name).2.entries = eraseFirst EvEntry.name name s.entries := by
    have := EvStorage.mutate_entries io s (.del name)
    rwa [if_neg haccepted] at this
  rw [EvStorage.getByName, hentries, find_eraseFirst_self_of_nodup h.nodup]

/-! ### The entries a file starts with -/

/-- The content has the header of an EV file and then the entries `es`, within
the limits that `load()` checks. -/
structure StartsWith (content : Bytes) (count : ℕ) (es : List RawEntry) : Prop where
  count_le : count ≤ 10000
  length_le : es.length ≤ count
  bytes_prefix : ofLE 4 evFileMagic ++ (ofLE 4 count ++ es.flatMap RawEntry.bytes) <+: content
  size_le : serializedSize (es.map RawEntry.entry) ≤ maxEvFileSize

/-- All the loop can do: it takes a run of entries off the stream. -/
theorem loadEntries_exists (n : ℕ) : ∀ (total : ℕ) (file : InputStream) (acc : List EvEntry),
    ∃ es : List RawEntry, loadEntries n file total acc = acc ++ es.map RawEntry.entry ∧
      (es ≠ [] → es.length ≤ n ∧
        (∃ tail, file = ⟨es.flatMap RawEntry.bytes ++ tail, true⟩) ∧
        total + ((es.map RawEntry.entry).map entrySize).sum ≤ maxEvFileSize) := by
  induction n with
  | zero =>
    intro total file acc
    exact ⟨[], (List.append_nil acc).symm, fun h => absurd rfl h⟩
  | succ n ih =>
    intro total file acc
    rcases loadEntries_stops_or_takes n total file acc with hstop | ⟨e, tail, rfl, hsize⟩
    · exact ⟨[], by rw [hstop, List.map_nil, List.append_nil], fun h => absurd rfl h⟩
    · obtain ⟨es, hload, hes⟩ := ih (total + entrySize e.entry) ⟨tail, true⟩ (acc ++ [e.entry])
      refine ⟨e :: es, ?_, fun _ => ?_⟩
      · rw [loadEntries_raw e hsize, hload, List.append_assoc]
        rfl
      -- the rest of the stream is known where the loop took more
      · rcases es with _ | ⟨e', es⟩
        · refine ⟨by simp, ⟨tail, by simp⟩, ?_⟩
          simpa using hsize
        · obtain ⟨hlength, ⟨tail', htail⟩, htotal⟩ := hes (List.cons_ne_nil _ _)
          obtain rfl := (InputStream.mk.inj htail).1
          refine ⟨Nat.succ_le_succ hlength, ⟨tail', ?_⟩, ?_⟩
          · exact congrArg (InputStream.mk · true) (List.append_assoc _ _ _).symm
          · rw [List.map_cons, List.map_cons, List.sum_cons]
            omega

/-- The loop takes every entry that is there, within the limits. -/
theorem loadEntries_prefix (es : List RawEntry) : ∀ (n total : ℕ) (tail : Bytes)
    (acc : List EvEntry), es.length ≤ n →
      total + ((es.map RawEntry.entry).map entrySize).sum ≤ maxEvFileSize →
      acc ++ es.map RawEntry.entry <+:
        loadEntries n ⟨es.flatMap RawEntry.bytes ++ tail, true⟩ total acc := by
  induction es with
  | nil =>
    intro n total tail acc _ _
    obtain ⟨more, hload, -⟩ := loadEntries_exists n total ⟨tail, true⟩ acc
    rw [List.map_nil, List.append_nil, List.flatMap_nil, List.nil_append, hload]
    exact List.prefix_append _ _
  | cons e es ih =>
    intro n total tail acc hn htotal
    rcases n with _ | n
    · cases hn
    · rw [List.map_cons, List.map_cons, List.sum_cons] at htotal
      have hrest := ih n (total + entrySize e.entry) tail (acc ++ [e.entry])
        (Nat.le_of_succ_le_succ hn) (by omega)
      rw [List.flatMap_cons, List.append_assoc, loadEntries_raw e (by omega), List.map_cons]
      rwa [List.append_assoc] at hrest

private theorem loadStream_eq {content rest : Bytes} {count : ℕ} (hcount : count ≤ 10000)
    (hcontent : content = ofLE 4 evFileMagic ++ (ofLE 4 count ++ rest)) :
    loadStream (ofBytes content) = (0, loadEntries count ⟨rest, true⟩ headerSize []) := by
  subst hcontent
  have hread : toLE (ofLE 4 count) = count := toLE_ofLE_of_lt (by omega)
  simp only [loadStream, ofBytes, read_append (ofLE_length 4 evFileMagic),
    read_append (ofLE_length 4 count), toLE_evFileMagic, hread, ne_eq, not_true_eq_false, if_false,
    Nat.not_lt.mpr hcount]

/-- **`load()` keeps every run of entries the file starts with.** -/
theorem loadStream_prefix {content : Bytes} {count : ℕ} {es : List RawEntry}
    (h : StartsWith content count es) : (loadStream (ofBytes content)).1 = 0 ∧
      es.map RawEntry.entry <+: (loadStream (ofBytes content)).2 := by
  obtain ⟨tail, htail⟩ := h.bytes_prefix
  have hsize := h.size_le
  rw [serializedSize_eq] at hsize
  rw [List.append_assoc, List.append_assoc] at htail
  rw [loadStream_eq h.count_le htail.symm]
  exact ⟨rfl, loadEntries_prefix es count headerSize tail [] h.length_le hsize⟩

/-- **`load()` keeps nothing else.** -/
theorem loadStream_exists (content : Bytes) : ∃ es : List RawEntry,
    (loadStream (ofBytes content)).2 = es.map RawEntry.entry ∧
      (es ≠ [] → ∃ count, StartsWith content count es) := by
  rw [loadStream]
  dsimp only
  split
  · exact ⟨[], rfl, fun h => absurd rfl h⟩
  · next hmagic =>
    split
    · exact ⟨[], rfl, fun h => absurd rfl h⟩
    · next hcount =>
      obtain ⟨es, hload, hes⟩ := loadEntries_exists
        (toLE (read 4 (read 4 (ofBytes content)).2).1) headerSize
        (read 4 (read 4 (ofBytes content)).2).2 []
      refine ⟨es, hload, fun hne => ?_⟩
      obtain ⟨hlength, ⟨tail, hstream⟩, hsize⟩ := hes hne
      -- the stream is good behind the header, so the header was there in full
      have hgood : (read 4 (read 4 (ofBytes content)).2).2.good = true := by rw [hstream]
      obtain ⟨magicBytes, rest, hcontent, hmagicLen⟩ :=
        exists_append_of_read_good (good_of_read_good hgood)
      rw [hcontent, read_append hmagicLen] at hgood hmagic hcount hlength hstream
      obtain ⟨countBytes, rest', hrest, hcountLen⟩ := exists_append_of_read_good hgood
      obtain rfl := (InputStream.mk.inj hrest).1
      rw [read_append hcountLen] at hcount hlength hstream
      have hmagicBytes : ofLE 4 evFileMagic = magicBytes := by
        rw [← not_not.mp hmagic, ← hmagicLen, ofLE_toLE]
      have hcountBytes : ofLE 4 (toLE countBytes) = countBytes := by rw [← hcountLen, ofLE_toLE]
      refine ⟨toLE countBytes, not_lt.mp hcount, hlength, ⟨tail, ?_⟩, ?_⟩
      · have hbytes : content = magicBytes ++ (countBytes ++ rest') :=
          (InputStream.mk.inj hcontent).1
        rw [hbytes, hmagicBytes, hcountBytes, (InputStream.mk.inj hstream).1, List.append_assoc,
          List.append_assoc]
      · rw [serializedSize_eq]
        exact hsize

/-! ### Files that load to a sound store -/

/-- The names of the entries are neither empty nor repeated. -/
structure NamesOk (es : List RawEntry) : Prop where
  name_ne : ∀ e ∈ es, e.entry.name ≠ []
  nodup : (es.map fun e => e.entry.name).Nodup

/-- When `load()` of the content returns 0, the store is sound, and after any
calls a `del` that returns true leaves nothing under its name. -/
def LoadsSound (content : Bytes) : Prop :=
  (loadFile true (some content)).1 = 0 →
    Sound (EvStorage.boot true (some content)).entries ∧
    ∀ (calls : List (EvOp × SaveIo)) (io : SaveIo) (name : Bytes),
      ((EvStorage.after true (some content) calls).del io name).1 = true →
        ((EvStorage.after true (some content) calls).del io name).2.getByName name = none

private theorem boot_entries (content : Bytes) :
    (EvStorage.boot true (some content)).entries = (loadStream (ofBytes content)).2 := rfl

/-- **A file loads to a sound store iff the entries it starts with have
non-empty and distinct names.** -/
theorem loadsSound_iff (content : Bytes) :
    LoadsSound content ↔ ∀ count es, StartsWith content count es → NamesOk es := by
  constructor
  · intro h count es hes
    obtain ⟨hret, hbegin⟩ := loadStream_prefix hes
    have hsound := (h hret).1
    rw [boot_entries] at hsound
    refine ⟨fun e he => ?_, ?_⟩
    · exact hsound.name_ne _ (hbegin.subset (List.mem_map_of_mem he))
    · have hnames := (hbegin.map EvEntry.name).sublist.nodup hsound.nodup
      rwa [List.map_map] at hnames
  · intro h _
    have hsound : Sound (EvStorage.boot true (some content)).entries := by
      obtain ⟨es, hload, hes⟩ := loadStream_exists content
      -- what is loaded is a prefix the file starts with
      have hok : NamesOk es := by
        rcases es with _ | ⟨e, es⟩
        · exact ⟨fun e he => absurd he List.not_mem_nil, List.nodup_nil⟩
        · obtain ⟨count, hcount⟩ := hes (List.cons_ne_nil _ _)
          exact h count _ hcount
      refine ⟨bounded_loadFile true (some content), ?_, ?_⟩
      · rw [boot_entries, hload]
        intro e he
        obtain ⟨raw, hraw, rfl⟩ := List.mem_map.mp he
        exact hok.name_ne raw hraw
      · rw [boot_entries, hload, List.map_map]
        exact hok.nodup
    refine ⟨hsound, fun calls io name hdel => ?_⟩
    have hafter : Sound (EvStorage.after true (some content) calls).entries :=
      Run.run_invariant (I := fun s : EvStorage => Sound s.entries)
        (fun _ c hs => hs.mutate c.2 c.1) hsound calls
    exact hafter.del_removes hdel

/-- A file with two entries of the same name. -/
def twiceNamed : Bytes := serialize [⟨[65], [1]⟩, ⟨[65], [2]⟩]

/-- The first entry is deleted, the second one is found. -/
theorem not_loadsSound_twiceNamed : ¬LoadsSound twiceNamed := by
  intro h
  have hgone := (h (by decide +kernel)).2 [] .ok [65] (by decide +kernel)
  exact absurd hgone (by decide +kernel)

end Chif
