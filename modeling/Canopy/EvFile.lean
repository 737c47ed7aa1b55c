/-
The EV file format: what `load()` makes of the bytes `save()` writes.

`serialize` and `loadFile` are inverse up to the name normalisation `stored`
(a name is cut at its first NUL), and `load()` is lenient: on a proper prefix
of a saved file it keeps the entries that are wholly there.

* `reload_take_serialize` — the result of `load()` on the first `n` bytes of a
  saved file, for every `n`;
* `bounded_loadFile` — whatever the file holds, the loaded entries respect the
  bounds;
* `roundTrips_iff_nulFree` — a bounded store survives a save and a load exactly
  when no name has an embedded NUL.
-/
import Canopy.EvStorage
import Canopy.Run

namespace Chif

open Bytes InputStream

/-! ### One entry -/

def entryBytes (e : EvEntry) : Bytes := (entryWrites e).flatten

/-- An entry as it comes back from disk: the name ends at its first NUL. -/
def stored (e : EvEntry) : EvEntry := ⟨(cstr e.name).take (maxEvNameLen - 1), e.data⟩

/-- The 32-byte name field of an entry. -/
def nameField (e : EvEntry) : Bytes :=
  padTo maxEvNameLen ((cstr e.name).take (maxEvNameLen - 1))

private theorem nameField_take_length (e : EvEntry) :
    ((cstr e.name).take (maxEvNameLen - 1)).length < maxEvNameLen := by
  have := List.length_take_le (maxEvNameLen - 1) (cstr e.name)
  rw [maxEvNameLen] at *
  omega

private theorem nameField_length (e : EvEntry) : (nameField e).length = maxEvNameLen :=
  padTo_length (Nat.le_of_lt (nameField_take_length e))

private theorem cstr_nameField (e : EvEntry) :
    cstr ((nameField e).set (maxEvNameLen - 1) 0) = (stored e).name := by
  have hnul : (0 : UInt8) ∉ (cstr e.name).take (maxEvNameLen - 1) :=
    fun h => nul_notMem_cstr e.name (List.mem_of_mem_take h)
  rw [nameField, padTo_set_last (nameField_take_length e), cstr_padTo hnul, stored]

private theorem entryBytes_eq {e : EvEntry} (h : e.data.length ≤ maxEvDataSize) :
    entryBytes e = nameField e ++ (ofLE 2 e.data.length ++ e.data) := by
  have hmod : e.data.length % 2 ^ 16 = e.data.length := by
    rw [maxEvDataSize] at h
    exact Nat.mod_eq_of_lt (by omega)
  simp only [entryBytes, entryWrites, hmod, List.take_length, List.flatten_cons,
    List.flatten_nil, List.append_nil, nameField]

private theorem entryBytes_length {e : EvEntry} (h : e.data.length ≤ maxEvDataSize) :
    (entryBytes e).length = entrySize e := by
  rw [entryBytes_eq h, List.length_append, List.length_append, nameField_length, ofLE_length,
    entrySize, entryOverhead]
  omega

/-! ### The loading loop -/

private theorem loadEntries_of_not_good {n total : ℕ} {file : InputStream} {acc : List EvEntry}
    (h : file.good = false) : loadEntries n file total acc = acc := by
  cases n with
  | zero => rfl
  | succ n => rw [loadEntries, if_pos h]

/-- An entry as a file may hold it: 32 bytes for the name, and the data. -/
structure RawEntry where
  nameBuf : Bytes
  data : Bytes
  nameBuf_length : nameBuf.length = maxEvNameLen
  data_le : data.length ≤ maxEvDataSize

def RawEntry.bytes (e : RawEntry) : Bytes := e.nameBuf ++ (ofLE 2 e.data.length ++ e.data)

/-- What `load()` makes of an entry. -/
def RawEntry.entry (e : RawEntry) : EvEntry := ⟨cstr (e.nameBuf.set (maxEvNameLen - 1) 0), e.data⟩

/-- One round of the loop on an entry that is wholly there. -/
theorem loadEntries_raw {n total : ℕ} (e : RawEntry) {tail : Bytes} {acc : List EvEntry}
    (htotal : total + entrySize e.entry ≤ maxEvFileSize) :
    loadEntries (n + 1) ⟨e.bytes ++ tail, true⟩ total acc
      = loadEntries n ⟨tail, true⟩ (total + entrySize e.entry) (acc ++ [e.entry]) := by
  obtain ⟨nameBuf, data, hname, hdata⟩ := e
  have hlen : toLE (ofLE 2 data.length) = data.length := by
    rw [maxEvDataSize] at hdata
    exact toLE_ofLE_of_lt (by omega)
  have hsize : ¬(data.length > maxEvDataSize ∨
      total + entryOverhead + data.length > maxEvFileSize) := by
    rw [entrySize, RawEntry.entry] at htotal
    dsimp only at htotal
    omega
  -- an empty value is not read at all, with the same result
  have hdataRead : (if data.length > 0 then read data.length ⟨data ++ tail, true⟩
      else ([], ⟨data ++ tail, true⟩)) = (data, (⟨tail, true⟩ : InputStream)) := by
    split
    · exact read_append rfl tail
    · next h0 =>
      have hnil : data = [] := List.length_eq_zero_iff.mp (by omega)
      rw [hnil, List.nil_append]
  rw [RawEntry.bytes, List.append_assoc, List.append_assoc]
  simp only [loadEntries, Bool.true_eq_false, if_false, read_append hname,
    read_append (ofLE_length 2 data.length), hlen, or_false, hsize, hdataRead,
    padTo_of_length hname]
  rfl

/-- One round of the loop on a saved entry that is wholly there. -/
theorem loadEntries_entry {n total : ℕ} {e : EvEntry} {tail : Bytes} {acc : List EvEntry}
    (hdata : e.data.length ≤ maxEvDataSize) (htotal : total + entrySize e ≤ maxEvFileSize) :
    loadEntries (n + 1) ⟨entryBytes e ++ tail, true⟩ total acc
      = loadEntries n ⟨tail, true⟩ (total + entrySize e) (acc ++ [stored e]) := by
  have hraw : loadEntries (n + 1)
      ⟨RawEntry.bytes ⟨nameField e, e.data, nameField_length e, hdata⟩ ++ tail, true⟩ total acc
        = _ :=
    loadEntries_raw _ htotal
  rw [RawEntry.bytes, ← entryBytes_eq hdata, RawEntry.entry, cstr_nameField] at hraw
  exact hraw

/-- One round of the loop on an entry that is cut short: it is dropped. -/
theorem loadEntries_short {n total m : ℕ} {e : EvEntry} {tail : Bytes} {acc : List EvEntry}
    (hdata : e.data.length ≤ maxEvDataSize) (hm : m < entrySize e) :
    loadEntries (n + 1) ⟨(entryBytes e ++ tail).take m, true⟩ total acc = acc := by
  have hlen : toLE (ofLE 2 e.data.length) = e.data.length := by
    rw [maxEvDataSize] at hdata
    exact toLE_ofLE_of_lt (by omega)
  have hbytes := entryBytes_length hdata
  have hname := nameField_length e
  -- the cut lies inside this entry, so what follows it does not matter
  rw [List.take_append_of_le_length (by omega), entryBytes_eq hdata]
  rw [entrySize, entryOverhead] at hm
  by_cases h32 : m < maxEvNameLen
  · -- the name is cut
    rw [List.take_append_of_le_length (by omega)]
    have hshort : ((nameField e).take m).length < maxEvNameLen := by
      rw [List.length_take]
      omega
    simp only [loadEntries, Bool.true_eq_false, if_false, read_short hshort,
      read_of_not_good, or_true, if_true]
  · obtain ⟨k, rfl⟩ : ∃ k, m = maxEvNameLen + k := ⟨m - maxEvNameLen, by omega⟩
    rw [take_block hname]
    by_cases h2 : k < 2
    · -- the length field is cut
      rw [List.take_append_of_le_length (by rw [ofLE_length]; omega)]
      have hshort : ((ofLE 2 e.data.length).take k).length < 2 := by
        rw [List.length_take, ofLE_length]
        omega
      simp only [loadEntries, Bool.true_eq_false, if_false, read_append hname,
        read_short hshort, or_true, if_true]
    · -- the data are cut
      obtain ⟨j, rfl⟩ : ∃ j, k = 2 + j := ⟨k - 2, by omega⟩
      have hj : j < e.data.length := by omega
      rw [take_block (ofLE_length 2 e.data.length)]
      have hshort : (e.data.take j).length < e.data.length := by
        rw [List.length_take]
        omega
      have hpos : e.data.length > 0 := by omega
      simp only [loadEntries, Bool.true_eq_false, read_append hname,
        read_append (ofLE_length 2 e.data.length), hlen, hpos, if_true, read_short hshort,
        ite_self]

/-! ### The whole file -/

/-- The entries that lie wholly in the first `m` bytes after the header. -/
def wholeEntries : ℕ → List EvEntry → List EvEntry
  | _, [] => []
  | m, e :: es => if entrySize e ≤ m then e :: wholeEntries (m - entrySize e) es else []

theorem wholeEntries_isPrefix (m : ℕ) (es : List EvEntry) : wholeEntries m es <+: es := by
  induction es generalizing m with
  | nil => exact List.prefix_rfl
  | cons e es ih =>
    rw [wholeEntries]
    split
    · exact (List.prefix_cons_inj e).mpr (ih (m - entrySize e))
    · exact List.nil_prefix

theorem wholeEntries_zero (es : List EvEntry) : wholeEntries 0 es = [] := by
  cases es with
  | nil => rfl
  | cons e es =>
    rw [wholeEntries, if_neg]
    rw [entrySize, entryOverhead]
    omega

private theorem wholeEntries_of_le {m : ℕ} {es : List EvEntry} (h : (es.map entrySize).sum ≤ m) :
    wholeEntries m es = es := by
  induction es generalizing m with
  | nil => rfl
  | cons e es ih =>
    rw [List.map_cons, List.sum_cons] at h
    rw [wholeEntries, if_pos (by omega), ih (by omega)]

private theorem loadEntries_take (tail : List EvEntry) : ∀ (m total : ℕ) (acc : List EvEntry),
    (∀ e ∈ tail, e.data.length ≤ maxEvDataSize) →
    total + (tail.map entrySize).sum ≤ maxEvFileSize →
    loadEntries tail.length ⟨(tail.flatMap entryBytes).take m, true⟩ total acc
      = acc ++ (wholeEntries m tail).map stored := by
  induction tail with
  | nil =>
    intro m total acc _ _
    simp [loadEntries, wholeEntries]
  | cons e es ih =>
    intro m total acc hdata htotal
    have he : e.data.length ≤ maxEvDataSize := hdata e List.mem_cons_self
    rw [List.map_cons, List.sum_cons] at htotal
    rw [List.length_cons, List.flatMap_cons, wholeEntries]
    split
    · next hm =>
      -- the cut is behind this entry
      obtain ⟨k, rfl⟩ : ∃ k, m = entrySize e + k := ⟨m - entrySize e, by omega⟩
      rw [Nat.add_sub_cancel_left, take_block (entryBytes_length he),
        loadEntries_entry he (by omega),
        ih k _ _ (fun x hx => hdata x (List.mem_cons_of_mem _ hx)) (by omega), List.map_cons,
        List.append_assoc]
      rfl
    · next hm =>
      -- the cut is inside this entry, and reading it fails
      rw [loadEntries_short he (by omega), List.map_nil, List.append_nil]

private theorem serialize_eq (entries : List EvEntry) :
    serialize entries = ofLE 4 evFileMagic ++
      (ofLE 4 (entries.length % 2 ^ 32) ++ entries.flatMap entryBytes) := by
  have hbody : (entries.flatMap entryWrites).flatten = entries.flatMap entryBytes := by
    induction entries with
    | nil => rfl
    | cons e es ih =>
      rw [List.flatMap_cons, List.flatten_append, ih, List.flatMap_cons]
      rfl
  simp only [serialize, saveWrites, List.flatten_append, List.flatten_cons, List.flatten_nil,
    List.append_nil, List.append_assoc, hbody]

private theorem serialize_length {entries : List EvEntry}
    (h : ∀ e ∈ entries, e.data.length ≤ maxEvDataSize) :
    (serialize entries).length = serializedSize entries := by
  have hbody : (entries.flatMap entryBytes).length = (entries.map entrySize).sum := by
    rw [List.length_flatMap]
    congr 1
    exact List.map_congr_left fun e he => entryBytes_length (h e he)
  rw [serialize_eq, List.length_append, List.length_append, ofLE_length, ofLE_length, hbody,
    serializedSize_eq, headerSize]
  omega

theorem toLE_evFileMagic : toLE (ofLE 4 evFileMagic) = evFileMagic := by decide

/-- A file cut in its magic number is not an EV file. -/
theorem loadStream_magicCut {n : ℕ} (hn : n < 4) :
    loadStream (ofBytes ((ofLE 4 evFileMagic).take n)) = (-1, []) := by
  have hshort : ((ofLE 4 evFileMagic).take n).length < 4 := by
    rw [List.length_take, ofLE_length]
    omega
  have hbad : toLE ((ofLE 4 evFileMagic).take n) ≠ evFileMagic := by
    rcases n with _ | _ | _ | _ | n
    · decide
    · decide
    · decide
    · decide
    · omega
  simp only [loadStream, ofBytes, read_short hshort, ne_eq, hbad, not_false_eq_true, if_true]

/-- A file cut in its count: it can only come out smaller, and the loop does not start. -/
theorem loadStream_countCut {count k : ℕ} (hk : k < 4) (hcount : count ≤ 10000) :
    loadStream (ofBytes (ofLE 4 evFileMagic ++ (ofLE 4 count).take k)) = (0, []) := by
  have hshort : ((ofLE 4 count).take k).length < 4 := by
    rw [List.length_take, ofLE_length]
    omega
  have hpart : ¬toLE ((ofLE 4 count).take k) > 10000 := by
    have hle := toLE_take_le k (ofLE 4 count)
    rw [toLE_ofLE_of_lt (by omega)] at hle
    omega
  simp only [loadStream, ofBytes, read_append (ofLE_length 4 evFileMagic), read_short hshort,
    toLE_evFileMagic, ne_eq, not_true_eq_false, if_false, hpart, loadEntries_of_not_good]

/-- **`load()` on the first `n` bytes of a saved file.**  Without the whole
magic number it fails; otherwise it keeps the entries that are wholly there. -/
theorem reload_take_serialize {entries : List EvEntry} (h : Bounded entries) (n : ℕ) :
    reload (some ((serialize entries).take n)) =
      if n < 4 then (-1, [])
      else (0, (wholeEntries (n - headerSize) entries).map stored) := by
  have hlt := h.length_lt
  have hcount : entries.length % 2 ^ 32 = entries.length := Nat.mod_eq_of_lt (by omega)
  rw [reload, loadFile, if_pos rfl, serialize_eq, hcount]
  split
  · next hn =>
    -- the magic number is cut
    rw [List.take_append_of_le_length (by rw [ofLE_length]; omega)]
    exact loadStream_magicCut hn
  · next hn =>
    obtain ⟨k, rfl⟩ : ∃ k, n = 4 + k := ⟨n - 4, by omega⟩
    rw [take_block (ofLE_length 4 evFileMagic)]
    by_cases h8 : k < 4
    · have hnone : wholeEntries (4 + k - headerSize) entries = [] := by
        have hz : 4 + k - headerSize = 0 := by
          rw [headerSize]
          omega
        rw [hz, wholeEntries_zero]
      rw [List.take_append_of_le_length (by rw [ofLE_length]; omega), hnone, List.map_nil]
      exact loadStream_countCut h8 (by omega)
    · obtain ⟨j, rfl⟩ : ∃ j, k = 4 + j := ⟨k - 4, by omega⟩
      have hj : 4 + (4 + j) - headerSize = j := by
        rw [headerSize]
        omega
      have hcountLE : toLE (ofLE 4 entries.length) = entries.length :=
        toLE_ofLE_of_lt (by omega)
      have hle : ¬entries.length > 10000 := by omega
      have hsize := h.size_le
      rw [serializedSize_eq] at hsize
      rw [take_block (ofLE_length 4 entries.length), hj]
      simp only [loadStream, ofBytes, read_append (ofLE_length 4 evFileMagic),
        read_append (ofLE_length 4 entries.length), toLE_evFileMagic, hcountLE, ne_eq,
        not_true_eq_false, if_false, hle, loadEntries_take entries j headerSize [] h.data_le hsize,
        List.nil_append]

/-- **Round trip**: a saved file loads back to the stored form of its entries. -/
theorem reload_serialize {entries : List EvEntry} (h : Bounded entries) :
    reload (some (serialize entries)) = (0, entries.map stored) := by
  have hlen := serialize_length h.data_le
  have hsum := serializedSize_eq entries
  have hfull := reload_take_serialize h (serialize entries).length
  rw [List.take_length, if_neg (by rw [hlen, hsum, headerSize]; omega),
    wholeEntries_of_le (by rw [hlen, hsum]; omega)] at hfull
  exact hfull

/-! ### What `load()` guarantees -/

/-- One round of the loop: it stops, or takes one entry off the stream. -/
theorem loadEntries_stops_or_takes (n total : ℕ) (file : InputStream) (acc : List EvEntry) :
    loadEntries (n + 1) file total acc = acc ∨
    ∃ (e : RawEntry) (tail : Bytes), file = ⟨e.bytes ++ tail, true⟩ ∧
      total + entrySize e.entry ≤ maxEvFileSize := by
  rw [loadEntries]
  split
  · exact Or.inl rfl
  · dsimp only
    split
    · exact Or.inl rfl
    · next hguard =>
      obtain ⟨hdata, hrest⟩ := not_or.mp hguard
      obtain ⟨hsize, hread⟩ := not_or.mp hrest
      have hread : (read 2 (read maxEvNameLen file).2).2.good = true := by simpa using hread
      -- the name and the length field were there in full
      obtain ⟨nameBuf, rest, rfl, hname⟩ := exists_append_of_read_good (good_of_read_good hread)
      rw [read_append hname] at hread hdata hsize ⊢
      obtain ⟨lenBytes, rest, hrest, hlen⟩ := exists_append_of_read_good hread
      obtain rfl := (InputStream.mk.inj hrest).1
      rw [read_append hlen] at hdata hsize ⊢
      dsimp only at hdata hsize ⊢
      have htakes : ∀ data tail, rest = data ++ tail → data.length = toLE lenBytes →
          ∃ (e : RawEntry) (tail : Bytes),
            InputStream.mk (nameBuf ++ (lenBytes ++ rest)) true = ⟨e.bytes ++ tail, true⟩ ∧
              total + entrySize e.entry ≤ maxEvFileSize := by
        rintro data tail rfl hdataLen
        have hofLE : ofLE 2 data.length = lenBytes := by rw [hdataLen, ← hlen, ofLE_toLE]
        refine ⟨⟨nameBuf, data, hname, by omega⟩, tail, ?_, ?_⟩
        · rw [RawEntry.bytes]
          simp only [hofLE, List.append_assoc]
        · rw [entrySize, RawEntry.entry]
          dsimp only
          omega
      by_cases hpos : toLE lenBytes > 0
      · rw [if_pos hpos]
        split
        · exact Or.inl rfl
        · next hgood =>
          have hgood : (read (toLE lenBytes) ⟨rest, true⟩).2.good = true := by simpa using hgood
          obtain ⟨data, tail, heq, hdataLen⟩ := exists_append_of_read_good hgood
          exact Or.inr (htakes data tail (InputStream.mk.inj heq).1 hdataLen)
      · exact Or.inr (htakes [] rest rfl (by rw [List.length_nil]; omega))

theorem RawEntry.name_lt (e : RawEntry) : e.entry.name.length < maxEvNameLen := by
  have hnul : (e.nameBuf.set (maxEvNameLen - 1) 0)[maxEvNameLen - 1]? = some 0 := by
    rw [List.getElem?_set_self]
    rw [e.nameBuf_length, maxEvNameLen]
    omega
  have hle := cstr_length_le_of_nul hnul
  have hmax : maxEvNameLen = 32 := rfl
  rw [RawEntry.entry]
  dsimp only
  omega

/-- One round of the loop: it stops, or appends one entry within the bounds. -/
theorem loadEntries_succ (n total : ℕ) (file : InputStream) (acc : List EvEntry) :
    loadEntries (n + 1) file total acc = acc ∨
    ∃ e file', e.name.length < maxEvNameLen ∧ (0 : UInt8) ∉ e.name ∧
      e.data.length ≤ maxEvDataSize ∧ total + entrySize e ≤ maxEvFileSize ∧
      loadEntries (n + 1) file total acc
        = loadEntries n file' (total + entrySize e) (acc ++ [e]) := by
  rcases loadEntries_stops_or_takes n total file acc with hstop | ⟨e, tail, rfl, hsize⟩
  · exact Or.inl hstop
  · exact Or.inr ⟨e.entry, ⟨tail, true⟩, e.name_lt, nul_notMem_cstr _, e.data_le, hsize,
      loadEntries_raw e hsize⟩

/-- No name contains a NUL byte. -/
def NulFree (entries : List EvEntry) : Prop := ∀ e ∈ entries, (0 : UInt8) ∉ e.name

private theorem loadEntries_sound (n : ℕ) : ∀ (file : InputStream) (acc : List EvEntry),
    Bounded acc → NulFree acc →
    Bounded (loadEntries n file (serializedSize acc) acc) ∧
      NulFree (loadEntries n file (serializedSize acc) acc) := by
  induction n with
  | zero =>
    intro file acc hb hn
    exact ⟨hb, hn⟩
  | succ n ih =>
    intro file acc hb hn
    rcases loadEntries_succ n (serializedSize acc) file acc with
      hstop | ⟨e, file', hname, hnul, hdata, hsize, hstep⟩
    · rw [hstop]
      exact ⟨hb, hn⟩
    · rw [hstep, ← serializedSize_append]
      -- `totalRead` is the serialized size of what has been kept
      refine ih file' (acc ++ [e]) (hb.append hname hdata hsize) ?_
      rw [NulFree, List.forall_mem_append, List.forall_mem_singleton]
      exact ⟨hn, hnul⟩

private theorem loadFile_sound (opened : Bool) (file : Option Bytes) :
    Bounded (loadFile opened file).2 ∧ NulFree (loadFile opened file).2 := by
  have hnil : Bounded [] ∧ NulFree [] := ⟨bounded_nil, by simp [NulFree]⟩
  cases file with
  | none => exact hnil
  | some content =>
    rw [loadFile]
    split
    · rw [loadStream]
      simp only
      split
      · exact hnil
      · split
        · exact hnil
        · exact loadEntries_sound _ _ [] hnil.1 hnil.2
    · exact hnil

/-- **Whatever the file holds, `load()` respects the bounds.** -/
theorem bounded_loadFile (opened : Bool) (file : Option Bytes) :
    Bounded (loadFile opened file).2 :=
  (loadFile_sound opened file).1

theorem nulFree_loadFile (opened : Bool) (file : Option Bytes) :
    NulFree (loadFile opened file).2 :=
  (loadFile_sound opened file).2

/-! ### Runs of the store -/

/-- The store after `load()` at start-up, on whatever the file holds. -/
def EvStorage.boot (opened : Bool) (file : Option Bytes) : EvStorage :=
  (EvStorage.load opened ⟨file, []⟩).2

/-- One mutator call with the outcome of its file operations. -/
def EvStorage.step (s : EvStorage) (c : EvOp × SaveIo) : EvStorage := (s.mutate c.2 c.1).2

/-- The store after `load()` and then any calls with any outcomes. -/
def EvStorage.after (opened : Bool) (file : Option Bytes) (calls : List (EvOp × SaveIo)) :
    EvStorage :=
  Run.run EvStorage.step (EvStorage.boot opened file) calls

theorem EvStorage.bounded_after (opened : Bool) (file : Option Bytes)
    (calls : List (EvOp × SaveIo)) : Bounded (EvStorage.after opened file calls).entries :=
  Run.run_invariant (I := fun s : EvStorage => Bounded s.entries)
    (fun _ c h => EvStorage.bounded_mutate h c.2 c.1) (bounded_loadFile opened file) calls

/-- The name a `set` call carries has no embedded NUL. -/
def EvOp.NulFree : EvOp → Prop
  | .set name _ => (0 : UInt8) ∉ name
  | .del _ => True
  | .deleteAll => True

theorem NulFree.update {entries : List EvEntry} (h : NulFree entries) {op : EvOp}
    (hop : op.NulFree) : NulFree (update entries op) := by
  cases op with
  | set name data =>
    intro e he
    rw [Chif.update] at he
    split at he
    · rcases OrderedMap.mem_modifyFirst he with he | ⟨a, ha, -, rfl⟩
      · exact h e he
      · exact h a ha
    · rcases List.mem_append.mp he with he | he
      · exact h e he
      · rw [List.mem_singleton.mp he]
        exact hop
  | del name =>
    intro e he
    exact h e (OrderedMap.eraseFirst_sublist.subset he)
  | deleteAll =>
    intro e he
    exact absurd he List.not_mem_nil

theorem EvStorage.nulFree_mutate {s : EvStorage} (h : Chif.NulFree s.entries) (io : SaveIo)
    {op : EvOp} (hop : op.NulFree) : Chif.NulFree (s.mutate io op).2.entries := by
  rw [mutate_entries]
  split
  · exact h
  · exact h.update hop

theorem EvStorage.nulFree_after (opened : Bool) (file : Option Bytes)
    {calls : List (EvOp × SaveIo)} (h : ∀ c ∈ calls, c.1.NulFree) :
    Chif.NulFree (EvStorage.after opened file calls).entries := by
  exact Run.run_invariant_of_visits (I := fun s : EvStorage => Chif.NulFree s.entries)
    (P := fun _ c => c.1.NulFree) (fun _ c hs hc => EvStorage.nulFree_mutate hs c.2 hc)
    (nulFree_loadFile opened file) fun p hp => h p.2 (Run.event_mem_of_mem_visits hp)

/-! ### Round trip of a store -/

theorem stored_eq_self_iff {e : EvEntry} (h : e.name.length < maxEvNameLen) :
    stored e = e ↔ (0 : UInt8) ∉ e.name := by
  have htake : (cstr e.name).take (maxEvNameLen - 1) = cstr e.name := by
    refine List.take_of_length_le ?_
    have := cstr_length_le e.name
    omega
  constructor
  · intro heq hmem
    have hname : cstr e.name = e.name := by
      rw [← htake]
      exact congrArg EvEntry.name heq
    exact nul_notMem_cstr e.name (hname.symm ▸ hmem)
  · intro hnul
    rw [stored, htake, cstr_eq_self hnul]

theorem map_stored {entries : List EvEntry} (h : Bounded entries) (hnul : NulFree entries) :
    entries.map stored = entries := by
  rw [List.map_congr_left (g := id), List.map_id]
  intro e he
  exact (stored_eq_self_iff (h.name_lt e he)).mpr (hnul e he)

/-- The store survives `save()` and `load()`, and a truncated save loses
entries from the end only. -/
structure RoundTrips (s : EvStorage) : Prop where
  /-- neither the count nor a data length is truncated -/
  count_fits : s.entries.length % 2 ^ 32 = s.entries.length
  lengths_fit : ∀ e ∈ s.entries, e.data.length % 2 ^ 16 = e.data.length
  restores : reload (s.save .ok).2.file = (0, s.entries)
  truncated : ∀ bs, bs <+: serialize s.entries → bs ≠ serialize s.entries →
    reload (some bs) = (-1, []) ∨ ∃ es, es <+: s.entries ∧ reload (some bs) = (0, es)

private theorem roundTrips_of_nulFree {s : EvStorage} (h : Bounded s.entries)
    (hnul : NulFree s.entries) :
    RoundTrips s where
  count_fits := by
    have := h.length_lt
    exact Nat.mod_eq_of_lt (by omega)
  lengths_fit := by
    intro e he
    have := h.data_le e he
    rw [maxEvDataSize] at this
    exact Nat.mod_eq_of_lt (by omega)
  restores := by
    rw [EvStorage.save, reload_serialize h, map_stored h hnul]
  truncated := by
    intro bs hbs _
    rw [List.prefix_iff_eq_take.mp hbs, reload_take_serialize h]
    split
    · exact Or.inl rfl
    · have hpre := wholeEntries_isPrefix (bs.length - headerSize) s.entries
      refine Or.inr ⟨_, ?_, rfl⟩
      have hmap := hpre.map stored
      rwa [map_stored h hnul] at hmap

/-- **A bounded store survives a save and a load exactly when no name has an
embedded NUL.** -/
theorem roundTrips_iff_nulFree {s : EvStorage} (h : Bounded s.entries) :
    RoundTrips s ↔ NulFree s.entries := by
  constructor
  · intro hrt e he
    have hmap : s.entries.map stored = s.entries := by
      have := hrt.restores
      rw [EvStorage.save, reload_serialize h, Prod.mk.injEq] at this
      exact this.2
    have hstored : stored e = e := by
      have := List.map_inj_left.mp (hmap.trans (List.map_id _).symm) e he
      exact this
    exact (stored_eq_self_iff (h.name_lt e he)).mp hstored
  · exact roundTrips_of_nulFree h

/-- **Round trip on every run**: after `load()` of any file and any calls whose
`set` names have no embedded NUL, saving and loading restores the store. -/
theorem roundTrips_after (opened : Bool) (file : Option Bytes) (calls : List (EvOp × SaveIo))
    (h : ∀ c ∈ calls, c.1.NulFree) : RoundTrips (EvStorage.after opened file calls) :=
  roundTrips_of_nulFree (EvStorage.bounded_after opened file calls)
    (EvStorage.nulFree_after opened file h)

/-- A file that holds `A = [1]`, then `B = [2, 3]` set and `A` deleted. -/
theorem roundTrips_after_set_del :
    RoundTrips (EvStorage.after true (some (serialize [⟨[65], [1]⟩]))
      [(.set [66] [2, 3], .ok), (.del [65], .ok)]) :=
  roundTrips_after true _ _ (by simp [EvOp.NulFree])

/-- A name with an embedded NUL comes back shorter. -/
theorem not_roundTrips_embedded_nul :
    ¬RoundTrips (EvStorage.after true (some (serialize []))
      [(.set [65, 0, 66] [1], .ok)]) := by
  intro h
  exact absurd h.restores (by decide)

end Chif
