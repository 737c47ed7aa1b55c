/-
What a failing or interrupted `save()` leaves behind.

`save()` writes a temporary file on another file system and then lets
`copy_file` overwrite the real one in place.  `saveOps` is the sequence of
file operations, `interrupted` the files after the first `j` of them.

* `loadsOldOrNew_iff` — exactly which interruption points leave a file that
  loads as the old or as the new entries;
* `mutate_atomic_iff` — exactly when a mutator that returns `false` has left
  memory and file as they were;
* `save_file_eq_interrupted` — the boolean-level `save` leaves one of the
  interrupted files.
-/
import Canopy.EvFile

namespace Chif

open Bytes

/-! ### The file operations of `save()` -/

inductive FsOp where
  | createTmp
  | writeTmp (bs : Bytes)
  | truncateDest
  | copyChunk (bs : Bytes)
  | removeTmp
  deriving DecidableEq, Repr

/-- The temporary file and the file at `path_`. -/
structure Fs where
  tmp : Option Bytes
  dest : Option Bytes
  deriving DecidableEq, Repr

def Fs.apply (fs : Fs) : FsOp → Fs
  | .createTmp => { fs with tmp := some [] }
  | .writeTmp bs => { fs with tmp := fs.tmp.map (· ++ bs) }
  | .truncateDest => { fs with dest := some [] }
  | .copyChunk bs => { fs with dest := fs.dest.map (· ++ bs) }
  | .removeTmp => { fs with tmp := none }

/-- Everything before `copy_file`. -/
def tmpOps (entries : List EvEntry) : List FsOp :=
  .createTmp :: (saveWrites entries).map .writeTmp

/-- `save()`, with the copy made in the given chunks. -/
def saveOps (entries : List EvEntry) (chunks : List Bytes) : List FsOp :=
  tmpOps entries ++ (.truncateDest :: (chunks.map .copyChunk ++ [.removeTmp]))

/-- The files when `save()` stops, or fails, after its first `j` operations. -/
def interrupted (entries : List EvEntry) (chunks : List Bytes) (file : Option Bytes) (j : ℕ) : Fs :=
  Run.run Fs.apply ⟨none, file⟩ ((saveOps entries chunks).take j)

/-- How many bytes have been copied after `j` operations; `none` while the
destination is still untouched. -/
def copied (entries : List EvEntry) (chunks : List Bytes) (j : ℕ) : Option ℕ :=
  if j ≤ (tmpOps entries).length then none
  else some ((chunks.take (j - (tmpOps entries).length - 1)).flatten.length)

private theorem dest_run_tmp {ops : List FsOp}
    (h : ∀ op ∈ ops, op = .createTmp ∨ op = .removeTmp ∨ ∃ bs, op = .writeTmp bs) (fs : Fs) :
    (Run.run Fs.apply fs ops).dest = fs.dest := by
  refine Run.run_invariant_of_visits (I := fun t : Fs => t.dest = fs.dest)
    (P := fun _ op => op = .createTmp ∨ op = .removeTmp ∨ ∃ bs, op = .writeTmp bs) ?_ rfl
    fun p hp => h p.2 (Run.event_mem_of_mem_visits hp)
  rintro t op ht (rfl | rfl | ⟨bs, rfl⟩)
  · exact ht
  · exact ht
  · exact ht

private theorem tmpOps_kind (entries : List EvEntry) :
    ∀ op ∈ tmpOps entries, op = .createTmp ∨ op = .removeTmp ∨ ∃ bs, op = .writeTmp bs := by
  intro op hop
  rcases List.mem_cons.mp hop with rfl | hop
  · exact Or.inl rfl
  · obtain ⟨bs, -, rfl⟩ := List.mem_map.mp hop
    exact Or.inr (Or.inr ⟨bs, rfl⟩)

private theorem dest_run_copy (chunks : List Bytes) : ∀ (tmp : Option Bytes) (bs : Bytes),
    (Run.run Fs.apply ⟨tmp, some bs⟩ (chunks.map .copyChunk)).dest
      = some (bs ++ chunks.flatten) := by
  induction chunks with
  | nil =>
    intro tmp bs
    rw [List.flatten_nil, List.append_nil]
    rfl
  | cons c cs ih =>
    intro tmp bs
    rw [List.map_cons, Run.run_cons, List.flatten_cons, ← List.append_assoc]
    exact ih tmp (bs ++ c)

/-- **The destination at every interruption point**: the old content until the
copy begins, then a prefix of the new one. -/
theorem interrupted_dest {entries : List EvEntry} {chunks : List Bytes}
    (hchunks : chunks.flatten = serialize entries) (file : Option Bytes) (j : ℕ) :
    (interrupted entries chunks file j).dest =
      match copied entries chunks j with
      | none => file
      | some n => some ((serialize entries).take n) := by
  rw [interrupted, saveOps, List.take_append]
  by_cases hj : j ≤ (tmpOps entries).length
  · rw [copied, if_pos hj, Nat.sub_eq_zero_of_le hj, List.take_zero, List.append_nil]
    exact dest_run_tmp (fun op hop => tmpOps_kind entries op (List.mem_of_mem_take hop)) _
  · obtain ⟨i, hi⟩ : ∃ i, j - (tmpOps entries).length = i + 1 :=
      ⟨j - (tmpOps entries).length - 1, by omega⟩
    have hcopied : (serialize entries).take (chunks.take i).flatten.length
        = (chunks.take i).flatten := by
      rw [← hchunks, ← List.take_append_drop i chunks, List.flatten_append, List.take_append_drop,
        List.take_left]
    rw [copied, if_neg hj, hi, Nat.add_sub_cancel]
    simp only [hcopied]
    rw [List.take_of_length_le (by omega), List.take_succ_cons, Run.run_append, Run.run_cons,
      List.take_append, Run.run_append, dest_run_tmp, ← List.map_take]
    · exact dest_run_copy (chunks.take i) _ []
    · intro op hop
      exact Or.inr (Or.inl (List.mem_singleton.mp (List.mem_of_mem_take hop)))

/-- The boolean-level `save` leaves the file of some interruption point. -/
theorem save_file_eq_interrupted (io : SaveIo) (s : EvStorage) :
    ∃ chunks j, chunks.flatten = serialize s.entries ∧
      (s.save io).2.file = (interrupted s.entries chunks s.file j).dest := by
  have huntouched : ∀ io, (s.save io).2.file = s.file → ∃ chunks j,
      chunks.flatten = serialize s.entries ∧
        (s.save io).2.file = (interrupted s.entries chunks s.file j).dest := by
    intro io hio
    refine ⟨[serialize s.entries], 0, List.flatten_singleton, ?_⟩
    rw [interrupted_dest List.flatten_singleton, copied, if_pos (Nat.zero_le _), hio]
  cases io with
  | ok =>
    -- a save that succeeds is one interrupted after its last operation
    refine ⟨[serialize s.entries], (tmpOps s.entries).length + 2, List.flatten_singleton, ?_⟩
    rw [interrupted_dest List.flatten_singleton, copied, if_neg (by omega)]
    have hone : (tmpOps s.entries).length + 2 - (tmpOps s.entries).length - 1 = 1 := by omega
    rw [hone]
    simp [EvStorage.save]
  | createFails => exact huntouched _ rfl
  | writeFails => exact huntouched _ rfl
  | copyFails written =>
    cases written with
    | none => exact huntouched _ rfl
    | some n =>
      -- a copy that fails is one interrupted between its two chunks
      have hchunks : [(serialize s.entries).take n, (serialize s.entries).drop n].flatten
          = serialize s.entries := by simp
      refine ⟨_, (tmpOps s.entries).length + 2, hchunks, ?_⟩
      rw [interrupted_dest hchunks, copied, if_neg (by omega)]
      have hone : (tmpOps s.entries).length + 2 - (tmpOps s.entries).length - 1 = 1 := by omega
      rw [hone]
      simp [EvStorage.save]

/-! ### Crash atomicity -/

/-- An entry list the daemon can hold. -/
structure SoundEntries where
  entries : List EvEntry
  bounded : Bounded entries
  nulFree : NulFree entries

/-- The entries after `load()` of any file and any calls with NUL-free names. -/
def SoundEntries.after (opened : Bool) (file : Option Bytes) (calls : List (EvOp × SaveIo))
    (h : ∀ c ∈ calls, c.1.NulFree) : SoundEntries where
  entries := (EvStorage.after opened file calls).entries
  bounded := EvStorage.bounded_after opened file calls
  nulFree := EvStorage.nulFree_after opened file h

theorem SoundEntries.reload_serialize (es : SoundEntries) :
    reload (some (serialize es.entries)) = (0, es.entries) := by
  rw [Chif.reload_serialize es.bounded, map_stored es.bounded es.nulFree]

theorem SoundEntries.reload_take (es : SoundEntries) (n : ℕ) :
    reload (some ((serialize es.entries).take n)) =
      if n < 4 then (-1, []) else (0, wholeEntries (n - headerSize) es.entries) := by
  have hpre := wholeEntries_isPrefix (n - headerSize) es.entries
  have hmap : (wholeEntries (n - headerSize) es.entries).map stored
      = wholeEntries (n - headerSize) es.entries := by
    rw [List.map_congr_left (g := id), List.map_id]
    intro e he
    have hmem := hpre.subset he
    exact (stored_eq_self_iff (es.bounded.name_lt e hmem)).mpr (es.nulFree e hmem)
  rw [reload_take_serialize es.bounded, hmap]

/-- The file loads as exactly the old or exactly the new entries. -/
def LoadsOldOrNew (old new : SoundEntries) (file : Option Bytes) : Prop :=
  reload file = (0, old.entries) ∨ reload file = (0, new.entries)

instance (old new : SoundEntries) (file : Option Bytes) :
    Decidable (LoadsOldOrNew old new file) := by
  unfold LoadsOldOrNew
  infer_instance

/-- The interruption is harmless: the destination is untouched, or the copy got
past the magic number and the entries wholly copied are the old or the new ones. -/
def HarmlessStop (old new : SoundEntries) : Option ℕ → Prop
  | none => True
  | some n => 4 ≤ n ∧ (wholeEntries (n - headerSize) new.entries = old.entries ∨
      wholeEntries (n - headerSize) new.entries = new.entries)

/-- **Crash atomicity, exactly.**  Over an old file written by `save()`, an
interruption after `j` operations leaves the old or the new entries if and only
if it is harmless. -/
theorem loadsOldOrNew_iff (old new : SoundEntries) (chunks : List Bytes)
    (hchunks : chunks.flatten = serialize new.entries) (j : ℕ) :
    LoadsOldOrNew old new
        (interrupted new.entries chunks (some (serialize old.entries)) j).dest ↔
      HarmlessStop old new (copied new.entries chunks j) := by
  rw [interrupted_dest hchunks, LoadsOldOrNew]
  cases copied new.entries chunks j with
  | none => exact iff_of_true (Or.inl old.reload_serialize) trivial
  | some n =>
    simp only [HarmlessStop, new.reload_take]
    by_cases hn : n < 4
    · rw [if_pos hn]
      exact iff_of_false (by simp) (by omega)
    · rw [if_neg hn, Prod.mk.injEq, Prod.mk.injEq, and_iff_right rfl, and_iff_right rfl,
        and_iff_right (by omega)]

/-- `A = [1]` on disk, to be replaced by `A = [2]`. -/
def crashOld : SoundEntries := SoundEntries.after true none [(.set [65] [1], .ok)]
  (by simp [EvOp.NulFree])

def crashNew : SoundEntries :=
  SoundEntries.after true none [(.set [65] [1], .ok), (.set [65] [2], .ok)]
    (by simp [EvOp.NulFree])

/-- `B = [2]` is added. -/
def crashAdded : SoundEntries :=
  SoundEntries.after true none [(.set [65] [1], .ok), (.set [66] [2], .ok)]
    (by simp [EvOp.NulFree])

/-- The bytes that `copy_file` has copied first, and the rest: the header and `A`, then `B`. -/
def crashChunks : List Bytes :=
  [(serialize crashAdded.entries).take 43, (serialize crashAdded.entries).drop 43]

/-- Stopped between the two chunks, over the old file: the old entries, from the new file. -/
theorem loadsOldOrNew_mid_copy :
    LoadsOldOrNew crashOld crashAdded
      (interrupted crashAdded.entries crashChunks (some (serialize crashOld.entries)) 11).dest :=
  (loadsOldOrNew_iff crashOld crashAdded crashChunks (by simp [crashChunks]) 11).mpr
    (show HarmlessStop crashOld crashAdded (some 43) from ⟨by decide, Or.inl (by decide)⟩)

/-- Stopped right after `copy_file` has truncated the destination: the file no
longer loads. -/
theorem not_loadsOldOrNew_truncated :
    ¬LoadsOldOrNew crashOld crashNew
      (interrupted crashNew.entries [serialize crashNew.entries]
        (some (serialize crashOld.entries)) 7).dest := by
  decide

/-! ### Atomicity of the mutators -/

/-- If the call fails, memory is as before and the file loads as before. -/
def FailsCleanly (s : EvStorage) (op : EvOp) (io : SaveIo) : Prop :=
  (s.mutate io op).1 = false →
    (s.mutate io op).2.entries = s.entries ∧
      (reload (s.mutate io op).2.file).2 = (reload s.file).2

instance (s : EvStorage) (op : EvOp) (io : SaveIo) : Decidable (FailsCleanly s op io) := by
  unfold FailsCleanly
  infer_instance

/-- The call would store what is already there. -/
def changesNothing (entries : List EvEntry) : EvOp → Prop
  | .set name data => ∃ it, OrderedMap.find EvEntry.name name entries = some it ∧ it.data = data
  | .del _ => False
  | .deleteAll => entries = []

private theorem update_eq_self_iff {entries : List EvEntry} {op : EvOp}
    (hop : ¬refused entries op) :
    update entries op = entries ↔ changesNothing entries op := by
  cases op with
  | set name data =>
    rw [update, changesNothing]
    cases hfind : OrderedMap.find EvEntry.name name entries with
    | some it =>
      simp only [Option.some_inj, exists_eq_left']
      rw [OrderedMap.modifyFirst_eq_self_iff hfind, EvEntry.assign]
      constructor
      · intro h
        exact (congrArg EvEntry.data h).symm
      · rintro rfl
        rfl
    | none => simp
  | del name =>
    rw [refused] at hop
    obtain ⟨it, hit⟩ := Option.ne_none_iff_exists'.mp hop
    exact iff_of_false (OrderedMap.eraseFirst_ne_self hit) id
  | deleteAll =>
    rw [update, changesNothing]
    exact eq_comm

/-- The file operations leave a file that loads as before, when the entries
being saved are those already in memory. -/
def harmlessIo (s : EvStorage) : SaveIo → Prop
  | .ok => True
  | .createFails => True
  | .writeFails => True
  | .copyFails none => True
  | .copyFails (some n) =>
    (wholeEntries (n - headerSize) s.entries).map stored = (reload s.file).2

/-- **When a failing mutator is atomic.**  In every state reached by `load()`
of any file and any calls, a call that returns `false` leaves memory and file
as they were if and only if a guard refused it, or its `save()` succeeded, or
it stored what was there already and the file operations did no harm. -/
theorem mutate_atomic_iff (opened : Bool) (file : Option Bytes) (calls : List (EvOp × SaveIo))
    (op : EvOp) (io : SaveIo) :
    FailsCleanly (EvStorage.after opened file calls) op io ↔
      refused (EvStorage.after opened file calls).entries op ∨ io = .ok ∨
        (changesNothing (EvStorage.after opened file calls).entries op ∧
          harmlessIo (EvStorage.after opened file calls) io) := by
  have hb := EvStorage.bounded_after opened file calls
  generalize EvStorage.after opened file calls = s at hb ⊢
  by_cases href : refused s.entries op
  · rw [FailsCleanly, EvStorage.mutate_of_refused io s href]
    exact iff_of_true (fun _ => ⟨rfl, rfl⟩) (Or.inl href)
  · rw [or_iff_right href, FailsCleanly, EvStorage.mutate_of_accepted io s href,
      EvStorage.save_entries, ← update_eq_self_iff href]
    -- after the guards, only the outcome of `save()` matters
    cases io with
    | ok => exact iff_of_true (fun h => absurd h (by simp [EvStorage.save])) (Or.inl rfl)
    | createFails => simp [EvStorage.save, harmlessIo]
    | writeFails => simp [EvStorage.save, harmlessIo]
    | copyFails written =>
      cases written with
      | none => simp [EvStorage.save, harmlessIo]
      | some n =>
        simp only [EvStorage.save, harmlessIo, forall_const, reduceCtorEq, false_or]
        refine and_congr_right fun hupd => ?_
        rw [hupd, reload_take_serialize hb]
        split
        · next hn =>
          have hz : n - headerSize = 0 := by
            rw [headerSize]
            omega
          rw [hz, wholeEntries_zero, List.map_nil]
        · rfl

/-- `set` on an empty store when the temporary file cannot be created: the call
fails, but the entry stays in memory. -/
theorem not_failsCleanly_set_createFails :
    ¬FailsCleanly (EvStorage.after true none []) (.set [65] [1]) .createFails := by
  decide

end Chif
