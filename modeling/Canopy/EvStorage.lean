/-
The EV store of the CHIF daemon (`ev_storage.hpp`, `ev_storage.cpp`).

An `EvStorage` is the in-memory entry list together with the content of the
file at `path_`.  Each function of the class is a definition under its own
name; the outcome of the file operations inside `save()` is a parameter, so
that every mutator is a total function of the store, its arguments and that
outcome.

Design notes: sizes are natural numbers (a `size_t` never overflows here: the
guards keep every sum below `2 ^ 17`), but the casts to `uint16_t` and
`uint32_t` that `save()` and `count()` make are kept.
-/
import Canopy.InputStream
import Canopy.OrderedMap

namespace Chif

open Bytes

/-! ### On-disk limits -/

def maxEvFileSize : ℕ := 65536
def maxEvNameLen : ℕ := 32
def maxEvDataSize : ℕ := 3966

/-- "EVS1", little-endian. -/
def evFileMagic : ℕ := 0x31535645

/-- Per-entry overhead on disk: 32 (name) + 2 (dataLen). -/
def entryOverhead : ℕ := maxEvNameLen + 2

/-- File header: 4 (magic) + 4 (count). -/
def headerSize : ℕ := 4 + 4

/-- A stored variable. -/
structure EvEntry where
  name : Bytes
  data : Bytes
  deriving DecidableEq, Repr

/-- `it->data.assign(data.begin(), data.end())`. -/
def EvEntry.assign (data : Bytes) (e : EvEntry) : EvEntry := { e with data := data }

theorem EvEntry.assign_name (data : Bytes) (e : EvEntry) : (e.assign data).name = e.name := rfl

/-- The store: what is in memory and what is in the file at `path_` (`none`
when there is no file). -/
structure EvStorage where
  file : Option Bytes
  entries : List EvEntry
  deriving DecidableEq, Repr

/-! ### Loading -/

/-- The loop of `load()`; the first argument is `count - i`. -/
def loadEntries : ℕ → InputStream → ℕ → List EvEntry → List EvEntry
  | 0, _, _, entries => entries
  | n + 1, file, totalRead, entries =>
    if file.good = false then entries
    else
      let (nameBytes, file) := file.read maxEvNameLen
      let nameBuf := padTo maxEvNameLen nameBytes
      let (lenBytes, file) := file.read 2
      let dataLen := toLE lenBytes
      if dataLen > maxEvDataSize ∨ totalRead + entryOverhead + dataLen > maxEvFileSize ∨
          file.good = false then
        entries
      else
        let (data, file) := if dataLen > 0 then file.read dataLen else ([], file)
        if file.good = false then entries
        else
          let name := cstr (nameBuf.set (maxEvNameLen - 1) 0)
          loadEntries n file (totalRead + (entryOverhead + dataLen))
            (entries ++ [⟨name, data⟩])

/-- `load()` on a file that could be opened: return code and entries. -/
def loadStream (file : InputStream) : ℤ × List EvEntry :=
  let (magicBytes, file) := file.read 4
  let (countBytes, file) := file.read 4
  let magic := toLE magicBytes
  let count := toLE countBytes
  if magic ≠ evFileMagic then (-1, [])
  else if count > 10000 then (-1, [])
  else (0, loadEntries count file headerSize [])

/-- `load()`: `opened` says whether an existing file can be opened. -/
def loadFile (opened : Bool) : Option Bytes → ℤ × List EvEntry
  | none => (0, [])
  | some content => if opened then loadStream (.ofBytes content) else (-1, [])

/-- What `load()` makes of the content of a file it can open. -/
def reload (file : Option Bytes) : ℤ × List EvEntry := loadFile true file

namespace EvStorage

/-- `load()` as a member function. -/
def load (opened : Bool) (s : EvStorage) : ℤ × EvStorage :=
  ((loadFile opened s.file).1, { s with entries := (loadFile opened s.file).2 })

/-! ### Lookups -/

/-- `EvStorage::getByIndex`. -/
def getByIndex (s : EvStorage) (index : ℕ) : Option EvEntry :=
  if index ≥ s.entries.length then none else s.entries[index]?

/-- `EvStorage::getByName`: the first entry of that name. -/
def getByName (s : EvStorage) (name : Bytes) : Option EvEntry :=
  OrderedMap.find EvEntry.name name s.entries

/-- `static_cast<uint32_t>(entries_.size())`. -/
def count (s : EvStorage) : ℕ := s.entries.length % 2 ^ 32

end EvStorage

/-- `EvStorage::serializedSize`. -/
def serializedSize (entries : List EvEntry) : ℕ :=
  entries.foldl (fun total entry => total + (entryOverhead + entry.data.length)) headerSize

/-- `EvStorage::remainingSize`. -/
def EvStorage.remainingSize (s : EvStorage) : ℕ :=
  let used := serializedSize s.entries
  if used < maxEvFileSize then maxEvFileSize - used else 0

/-! ### Saving -/

/-- The bytes `save()` writes for one entry, one `file.write` each. -/
def entryWrites (entry : EvEntry) : List Bytes :=
  let nameBuf := padTo maxEvNameLen ((cstr entry.name).take (maxEvNameLen - 1))
  let dataLen := entry.data.length % 2 ^ 16
  [nameBuf, ofLE 2 dataLen, entry.data.take dataLen]

/-- The successive `file.write` calls of `save()` on the temporary file. -/
def saveWrites (entries : List EvEntry) : List Bytes :=
  [ofLE 4 evFileMagic, ofLE 4 (entries.length % 2 ^ 32)] ++ entries.flatMap entryWrites

/-- The content of the temporary file once everything is written. -/
def serialize (entries : List EvEntry) : Bytes := (saveWrites entries).flatten

/-- How the file operations of one `save()` turn out.  `copyFails none` fails
before `copy_file` has touched the destination, `copyFails (some n)` after the
destination was truncated and `n` bytes were copied. -/
inductive SaveIo where
  | ok
  | createFails
  | writeFails
  | copyFails (copied : Option ℕ)
  deriving DecidableEq, Repr

namespace EvStorage

/-- `EvStorage::save`: the temporary file is copied over the live one, which a failed
copy leaves cut off. -/
def save (io : SaveIo) (s : EvStorage) : Bool × EvStorage :=
  match io with
  | .ok => (true, { s with file := some (serialize s.entries) })
  | .createFails => (false, s)
  | .writeFails => (false, s)
  | .copyFails none => (false, s)
  | .copyFails (some n) => (false, { s with file := some ((serialize s.entries).take n) })

/-! ### Mutators -/

/-- `EvStorage::set`: whether it succeeds, and the store it leaves. -/
def set (io : SaveIo) (s : EvStorage) (name data : Bytes) : Bool × EvStorage :=
  if name = [] ∨ name.length ≥ maxEvNameLen then (false, s)
  else if data.length > maxEvDataSize then (false, s)
  else
    match s.getByName name with
    | some it =>
      -- update in place; the size delta must still fit within the file limit
      if data.length > it.data.length ∧
          serializedSize s.entries + (data.length - it.data.length) > maxEvFileSize then
        (false, s)
      else
        save io { s with
          entries := OrderedMap.modifyFirst EvEntry.name name (EvEntry.assign data) s.entries }
    | none =>
      let needed := entryOverhead + data.length
      if serializedSize s.entries + needed > maxEvFileSize then (false, s)
      else save io { s with entries := s.entries ++ [⟨name, data⟩] }

/-- `EvStorage::del`: the first entry of that name goes. -/
def del (io : SaveIo) (s : EvStorage) (name : Bytes) : Bool × EvStorage :=
  match s.getByName name with
  | none => (false, s)
  | some _ => save io { s with entries := OrderedMap.eraseFirst EvEntry.name name s.entries }

/-- `EvStorage::deleteAll`. -/
def deleteAll (io : SaveIo) (s : EvStorage) : Bool × EvStorage :=
  save io { s with entries := [] }

end EvStorage

/-! ### What a mutator can do

Every mutator either refuses the call and changes nothing, or replaces the
entry list and saves it.  `refused` collects the guards, `update` the new
list, and `mutate_of_refused` and `mutate_of_accepted` say that this is all
there is. -/

/-- A call of one of the three mutators. -/
inductive EvOp where
  | set (name data : Bytes)
  | del (name : Bytes)
  | deleteAll
  deriving DecidableEq, Repr

/-- The mutator the call names. -/
def EvStorage.mutate (io : SaveIo) (s : EvStorage) : EvOp → Bool × EvStorage
  | .set name data => s.set io name data
  | .del name => s.del io name
  | .deleteAll => s.deleteAll io

/-- The space check of `set()` fails. -/
def noRoom (entries : List EvEntry) (name data : Bytes) : Prop :=
  match OrderedMap.find EvEntry.name name entries with
  | some it =>
    data.length > it.data.length ∧
      serializedSize entries + (data.length - it.data.length) > maxEvFileSize
  | none => serializedSize entries + (entryOverhead + data.length) > maxEvFileSize

instance (entries : List EvEntry) (name data : Bytes) :
    Decidable (noRoom entries name data) := by
  unfold noRoom
  cases OrderedMap.find EvEntry.name name entries with
  | some it => infer_instance
  | none => infer_instance

/-- The call is turned down by a guard, before anything is changed. -/
def refused (entries : List EvEntry) : EvOp → Prop
  | .set name data =>
    (name = [] ∨ name.length ≥ maxEvNameLen) ∨ data.length > maxEvDataSize ∨
      noRoom entries name data
  | .del name => OrderedMap.find EvEntry.name name entries = none
  | .deleteAll => False

instance (entries : List EvEntry) : DecidablePred (refused entries)
  | .set name data => by unfold refused; infer_instance
  | .del name => by unfold refused; infer_instance
  | .deleteAll => by unfold refused; infer_instance

/-- The entry list after a call that passed the guards. -/
def update (entries : List EvEntry) : EvOp → List EvEntry
  | .set name data =>
    match OrderedMap.find EvEntry.name name entries with
    | some _ => OrderedMap.modifyFirst EvEntry.name name (EvEntry.assign data) entries
    | none => entries ++ [⟨name, data⟩]
  | .del name => OrderedMap.eraseFirst EvEntry.name name entries
  | .deleteAll => []

namespace EvStorage

theorem mutate_of_refused (io : SaveIo) (s : EvStorage) {op : EvOp} (h : refused s.entries op) :
    s.mutate io op = (false, s) := by
  cases op with
  | set name data =>
    rw [mutate, set]
    rcases h with hname | hdata | hroom
    · rw [if_pos hname]
    · rw [if_pos hdata, ite_self]
    · unfold noRoom at hroom
      unfold getByName
      cases hfind : OrderedMap.find EvEntry.name name s.entries with
      | some it =>
        simp only [hfind] at hroom ⊢
        rw [if_pos hroom, ite_self, ite_self]
      | none =>
        simp only [hfind] at hroom ⊢
        rw [if_pos hroom, ite_self, ite_self]
  | del name =>
    have hfind : s.getByName name = none := h
    rw [mutate, del, hfind]
  | deleteAll => exact h.elim

theorem mutate_of_accepted (io : SaveIo) (s : EvStorage) {op : EvOp}
    (h : ¬refused s.entries op) :
    s.mutate io op = save io { s with entries := update s.entries op } := by
  cases op with
  | set name data =>
    obtain ⟨hname, hrest⟩ := not_or.mp h
    obtain ⟨hdata, hroom⟩ := not_or.mp hrest
    rw [mutate, set, if_neg hname, if_neg hdata]
    unfold noRoom at hroom
    unfold getByName update
    cases hfind : OrderedMap.find EvEntry.name name s.entries with
    | some it =>
      simp only [hfind] at hroom ⊢
      rw [if_neg hroom]
    | none =>
      simp only [hfind] at hroom ⊢
      rw [if_neg hroom]
  | del name =>
    have hfind : s.getByName name ≠ none := h
    obtain ⟨it, hit⟩ := Option.ne_none_iff_exists'.mp hfind
    rw [mutate, del, hit]
    rfl
  | deleteAll => rfl

theorem save_entries (io : SaveIo) (s : EvStorage) : (s.save io).2.entries = s.entries := by
  unfold save
  split <;> rfl

private theorem save_fst (io : SaveIo) (s : EvStorage) : (s.save io).1 = true ↔ io = .ok := by
  unfold save
  split <;> simp

/-- A mutator succeeds exactly when no guard refuses it and `save()` succeeds. -/
theorem mutate_fst (io : SaveIo) (s : EvStorage) (op : EvOp) :
    (s.mutate io op).1 = true ↔ ¬refused s.entries op ∧ io = .ok := by
  by_cases h : refused s.entries op
  · simp [mutate_of_refused io s h, h]
  · rw [mutate_of_accepted io s h, save_fst, and_iff_right h]

theorem mutate_entries (io : SaveIo) (s : EvStorage) (op : EvOp) :
    (s.mutate io op).2.entries =
      if refused s.entries op then s.entries else update s.entries op := by
  split
  · next h => rw [mutate_of_refused io s h]
  · next h => rw [mutate_of_accepted io s h, save_entries]

end EvStorage

/-! ### What a lookup finds after a call -/

theorem find_update_set_self (entries : List EvEntry) (name data : Bytes) :
    OrderedMap.find EvEntry.name name (update entries (.set name data)) = some ⟨name, data⟩ := by
  rw [update]
  cases hfind : OrderedMap.find EvEntry.name name entries with
  | some it =>
    have hname : it.name = name := OrderedMap.key_of_find hfind
    simp only [OrderedMap.find_modifyFirst_self (EvEntry.assign_name data), hfind,
      Option.map_some, EvEntry.assign, hname]
  | none =>
    have ha : EvEntry.name ⟨name, data⟩ = name := rfl
    simp only [OrderedMap.find_append_singleton_self hfind ha]

theorem find_update_set_of_ne (entries : List EvEntry) {name name' : Bytes} (data : Bytes)
    (h : name' ≠ name) :
    OrderedMap.find EvEntry.name name' (update entries (.set name data))
      = OrderedMap.find EvEntry.name name' entries := by
  rw [update]
  cases OrderedMap.find EvEntry.name name entries with
  | some it => simp only [OrderedMap.find_modifyFirst_of_ne (EvEntry.assign_name data) h]
  | none =>
    have ha : EvEntry.name ⟨name, data⟩ ≠ name' := Ne.symm h
    simp only [OrderedMap.find_append_singleton_of_ne ha]

/-! ### The bounds every store keeps -/

/-- Bytes an entry takes on disk. -/
def entrySize (e : EvEntry) : ℕ := entryOverhead + e.data.length

theorem serializedSize_eq (entries : List EvEntry) :
    serializedSize entries = headerSize + (entries.map entrySize).sum := by
  have key : ∀ (l : List EvEntry) (total : ℕ),
      l.foldl (fun total entry => total + (entryOverhead + entry.data.length)) total
        = total + (l.map entrySize).sum := by
    intro l
    induction l with
    | nil =>
      intro total
      rfl
    | cons e l ih =>
      intro total
      rw [List.foldl_cons, ih, List.map_cons, List.sum_cons, entrySize]
      omega
  exact key entries headerSize

theorem serializedSize_append (entries : List EvEntry) (e : EvEntry) :
    serializedSize (entries ++ [e]) = serializedSize entries + entrySize e := by
  rw [serializedSize_eq, serializedSize_eq, List.map_append, List.sum_append, List.map_singleton,
    List.sum_singleton]
  omega

/-- What `load()` establishes and the guards of `set()` maintain. -/
structure Bounded (entries : List EvEntry) : Prop where
  name_lt : ∀ e ∈ entries, e.name.length < maxEvNameLen
  data_le : ∀ e ∈ entries, e.data.length ≤ maxEvDataSize
  size_le : serializedSize entries ≤ maxEvFileSize

theorem bounded_nil : Bounded [] where
  name_lt := by simp
  data_le := by simp
  size_le := by decide

/-- Each entry takes at least 34 bytes, so there are fewer than 2000 of them. -/
theorem Bounded.length_lt {entries : List EvEntry} (h : Bounded entries) :
    entries.length < 2000 := by
  have hsum : ∀ l : List EvEntry, 34 * l.length ≤ (l.map entrySize).sum := by
    intro l
    induction l with
    | nil => simp
    | cons e l ih =>
      have he : 34 ≤ entrySize e := Nat.le_add_right 34 e.data.length
      rw [List.length_cons, List.map_cons, List.sum_cons]
      omega
  have hsize := h.size_le
  have hlen := hsum entries
  rw [serializedSize_eq, maxEvFileSize, headerSize] at hsize
  omega

/-- A new entry at the end, if there is room for it. -/
theorem Bounded.append {entries : List EvEntry} (h : Bounded entries) {e : EvEntry}
    (hname : e.name.length < maxEvNameLen) (hdata : e.data.length ≤ maxEvDataSize)
    (hsize : serializedSize entries + entrySize e ≤ maxEvFileSize) : Bounded (entries ++ [e]) := by
  refine ⟨?_, ?_, ?_⟩
  · rw [List.forall_mem_append, List.forall_mem_singleton]
    exact ⟨h.name_lt, hname⟩
  · rw [List.forall_mem_append, List.forall_mem_singleton]
    exact ⟨h.data_le, hdata⟩
  · rw [serializedSize_append]
    exact hsize

/-- New data for an entry; when it is longer, there has to be room for the difference. -/
theorem Bounded.assign {entries : List EvEntry} (h : Bounded entries) {name data : Bytes}
    {it : EvEntry} (hfind : OrderedMap.find EvEntry.name name entries = some it)
    (hdata : data.length ≤ maxEvDataSize)
    (hroom : it.data.length < data.length →
      serializedSize entries + (data.length - it.data.length) ≤ maxEvFileSize) :
    Bounded (OrderedMap.modifyFirst EvEntry.name name (EvEntry.assign data) entries) := by
  refine ⟨?_, ?_, ?_⟩
  · intro e he
    rcases OrderedMap.mem_modifyFirst he with he | ⟨a, ha, -, rfl⟩
    · exact h.name_lt e he
    · exact h.name_lt a ha
  · intro e he
    rcases OrderedMap.mem_modifyFirst he with he | ⟨a, ha, -, rfl⟩
    · exact h.data_le e he
    · exact hdata
  · have hsum := OrderedMap.sum_map_modifyFirst (f := EvEntry.assign data) entrySize hfind
    have hsize := h.size_le
    rw [serializedSize_eq] at hsize hroom ⊢
    simp only [entrySize, EvEntry.assign] at hsum hsize hroom ⊢
    omega

/-- Erasing only shrinks the list. -/
theorem Bounded.eraseFirst {entries : List EvEntry} (h : Bounded entries) {name : Bytes}
    {a : EvEntry} (hfind : OrderedMap.find EvEntry.name name entries = some a) :
    Bounded (OrderedMap.eraseFirst EvEntry.name name entries) := by
  have hsub : (OrderedMap.eraseFirst EvEntry.name name entries).Sublist entries :=
    OrderedMap.eraseFirst_sublist
  refine ⟨?_, ?_, ?_⟩
  · intro e he
    exact h.name_lt e (hsub.subset he)
  · intro e he
    exact h.data_le e (hsub.subset he)
  · have hsum := OrderedMap.sum_map_eraseFirst entrySize hfind
    have hsize := h.size_le
    rw [serializedSize_eq] at hsize ⊢
    omega

theorem Bounded.update {entries : List EvEntry} (h : Bounded entries) {op : EvOp}
    (hop : ¬refused entries op) : Bounded (update entries op) := by
  cases op with
  | set name data =>
    simp only [refused, not_or, not_le, ge_iff_le, gt_iff_lt, not_lt] at hop
    obtain ⟨⟨-, hname⟩, hdata, hroom⟩ := hop
    unfold Chif.update noRoom at *
    cases hfind : OrderedMap.find EvEntry.name name entries with
    | some it =>
      simp only [hfind, not_and, not_lt, gt_iff_lt] at hroom ⊢
      exact h.assign hfind hdata hroom
    | none =>
      simp only [hfind, not_lt, gt_iff_lt] at hroom ⊢
      exact h.append hname hdata hroom
  | del name =>
    rw [refused] at hop
    obtain ⟨a, ha⟩ := Option.ne_none_iff_exists'.mp hop
    exact h.eraseFirst ha
  | deleteAll => exact bounded_nil

/-- Every mutator keeps the bounds, whatever happens to its save. -/
theorem EvStorage.bounded_mutate {s : EvStorage} (h : Bounded s.entries) (io : SaveIo)
    (op : EvOp) : Bounded (s.mutate io op).2.entries := by
  rw [mutate_entries]
  split
  · exact h
  · next hop => exact h.update hop

end Chif
