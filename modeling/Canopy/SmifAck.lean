/-
Acknowledgement and durability of the SMIF EV commands.

A SetDeleteEv answer with error code 0 is read by the firmware as "the change
is in the file".  The set, delete and delete-all paths report the result of
the mutator and keep that promise; the path that turns a zero-length set into
a delete answers success whatever `del()` returned.

`durable_iff_ackSafe` determines, over every run, which steps keep the promise.
-/
import Canopy.SmifWire

namespace Chif

/-! ### Serving SetDeleteEv requests -/

/-- One SetDeleteEv request with its response buffer.  `saved` is the outcome of
the `save()` it may cause: either the file is replaced, or it is left alone. -/
structure SetDeleteCall where
  hdr : ChifPktHeader
  reqPayload : Bytes
  response : Bytes
  saved : Bool
  room : 12 ≤ response.length

namespace SetDeleteCall

def saveIo (c : SetDeleteCall) : SaveIo := if c.saved then .ok else .writeFails

def serve (s : EvStorage) (c : SetDeleteCall) : (ℤ × Bytes) × Option EvStorage :=
  handleSetDeleteEv c.saveIo (some s) c.hdr c.reqPayload c.response

/-- The store after the request; the handler never drops the store. -/
def step (s : EvStorage) (c : SetDeleteCall) : EvStorage := (c.serve s).2.getD s

/-- The answer is read as an error code. -/
def answer (s : EvStorage) (c : SetDeleteCall) : Option ℕ := errorCode (c.serve s).1

/-- An acknowledged request has left its effect in the file. -/
def Durable (s : EvStorage) (c : SetDeleteCall) : Prop :=
  c.answer s = some (ev .success) → reload (c.step s).file = (0, (c.step s).entries)

/-- A zero-length set finds its key and is saved, or the file already holds the
list without that key. -/
def AckSafe (s : EvStorage) (c : SetDeleteCall) : Prop :=
  zeroLengthSet c.reqPayload →
    ((s.getByName (setName c.reqPayload)).isSome ∧ c.saved = true) ∨
      reload s.file = (0, OrderedMap.eraseFirst EvEntry.name (setName c.reqPayload) s.entries)

private theorem serve_eq (s : EvStorage) (c : SetDeleteCall) (h : 4 ≤ c.reqPayload.length) :
    c.serve s = (buildSimpleResponse c.hdr c.response (ev (setDeleteEv c.saveIo s c.reqPayload).1),
      some (setDeleteEv c.saveIo s c.reqPayload).2) := by
  rw [serve, handleSetDeleteEv]
  exact if_neg (by omega)

private theorem serve_short (s : EvStorage) (c : SetDeleteCall) (h : c.reqPayload.length < 4) :
    c.serve s = (buildSimpleResponse c.hdr c.response (ev .noSuchEv), some s) := by
  rw [serve, handleSetDeleteEv]
  exact if_pos h

/-- Everything one request can do, in terms of mutator calls. -/
theorem step_cases (s : EvStorage) (c : SetDeleteCall) :
    (zeroLengthSet c.reqPayload ∧ c.answer s = some (ev .success) ∧
      c.step s = (s.mutate c.saveIo (.del (setName c.reqPayload))).2) ∨
    (¬zeroLengthSet c.reqPayload ∧ c.answer s ≠ some (ev .success) ∧ c.step s = s) ∨
    (¬zeroLengthSet c.reqPayload ∧ ∃ op : EvOp, op.NulFree ∧
      (c.answer s = some (ev .success) ↔ (s.mutate c.saveIo op).1 = true) ∧
      c.step s = (s.mutate c.saveIo op).2) := by
  have hcode : ∀ e e' : EvError, e ≠ e' → some (ev e) ≠ some (ev e') := by
    intro e e' hne heq
    exact hne (ev_injective (Option.some_inj.mp heq))
  by_cases hshort : c.reqPayload.length < 4
  · refine Or.inr (Or.inl ⟨fun h => ?_, ?_, ?_⟩)
    · have := h.2.2.2.1
      omega
    · rw [answer, serve_short s c hshort, errorCode_buildSimpleResponse _ _ c.room]
      exact hcode _ _ (by simp)
    · rw [step, serve_short s c hshort, Option.getD_some]
  · have hlen : 4 ≤ c.reqPayload.length := Nat.le_of_not_lt hshort
    have hanswer : c.answer s = some (ev (setDeleteEv c.saveIo s c.reqPayload).1) := by
      rw [answer, serve_eq s c hlen, errorCode_buildSimpleResponse _ _ c.room]
    have hstep : c.step s = (setDeleteEv c.saveIo s c.reqPayload).2 := by
      rw [step, serve_eq s c hlen, Option.getD_some]
    rw [hanswer, hstep]
    -- long enough to have flags: the three cases of the handler
    rcases setDeleteEv_cases c.saveIo s c.reqPayload with
      ⟨hzero, heq⟩ | ⟨hzero, e, he, heq⟩ | ⟨hzero, op, e, hop, he, heq⟩
    · exact Or.inl ⟨hzero, by rw [heq], by rw [heq]⟩
    · exact Or.inr (Or.inl ⟨hzero, by rw [heq]; exact hcode _ _ he, by rw [heq]⟩)
    · refine Or.inr (Or.inr ⟨hzero, op, hop, ?_, by rw [heq]⟩)
      rw [heq]
      cases (s.mutate c.saveIo op).1 with
      | true => exact iff_of_true rfl rfl
      | false => exact iff_of_false (hcode _ _ he) Bool.false_ne_true

end SetDeleteCall

/-! ### Which acknowledgements are durable -/

/-- What every store reached from a loaded one keeps. -/
def Storable (entries : List EvEntry) : Prop := Bounded entries ∧ NulFree entries

theorem Storable.reload_serialize {entries : List EvEntry} (h : Storable entries) :
    reload (some (serialize entries)) = (0, entries) := by
  rw [Chif.reload_serialize h.1, map_stored h.1 h.2]

theorem storable_of_reload {file : Option Bytes} {entries : List EvEntry}
    (h : reload file = (0, entries)) : Storable entries := by
  have heq : (reload file).2 = entries := congrArg Prod.snd h
  rw [← heq]
  exact ⟨bounded_loadFile true file, nulFree_loadFile true file⟩

theorem EvStorage.storable_mutate {s : EvStorage} (h : Storable s.entries) (io : SaveIo) {op : EvOp}
    (hop : op.NulFree) : Storable (s.mutate io op).2.entries :=
  ⟨EvStorage.bounded_mutate h.1 io op, EvStorage.nulFree_mutate h.2 io hop⟩

theorem SetDeleteCall.storable_step (s : EvStorage) (c : SetDeleteCall) (h : Storable s.entries) :
    Storable (c.step s).entries := by
  rcases c.step_cases s with ⟨-, -, hstep⟩ | ⟨-, -, hstep⟩ | ⟨-, op, hop, -, hstep⟩
  · rw [hstep]
    exact EvStorage.storable_mutate h _ trivial
  · rw [hstep]
    exact h
  · rw [hstep]
    exact EvStorage.storable_mutate h _ hop

/-- A mutator that reports success has written its list to the file. -/
theorem EvStorage.reload_of_mutate {s : EvStorage} (h : Storable s.entries) {io : SaveIo}
    {op : EvOp} (hop : op.NulFree) (hok : (s.mutate io op).1 = true) :
    reload (s.mutate io op).2.file = (0, (s.mutate io op).2.entries) := by
  have hstored := EvStorage.storable_mutate h io hop
  obtain ⟨hacc, hio⟩ := (EvStorage.mutate_fst io s op).mp hok
  rw [EvStorage.mutate_of_accepted io s hacc, hio] at hstored ⊢
  exact hstored.reload_serialize

/-- A delete whose save leaves the file alone ends up in step with the file
exactly when the file already held the shorter list. -/
theorem EvStorage.reload_of_del_unsaved (s : EvStorage) (name : Bytes) :
    (reload (s.mutate .writeFails (.del name)).2.file
        = (0, (s.mutate .writeFails (.del name)).2.entries)) ↔
      reload s.file = (0, OrderedMap.eraseFirst EvEntry.name name s.entries) := by
  by_cases hfind : refused s.entries (.del name)
  · rw [EvStorage.mutate_of_refused _ s hfind, OrderedMap.eraseFirst_eq_self hfind]
  · rw [EvStorage.mutate_of_accepted _ s hfind]
    rfl

theorem EvStorage.mutate_del_of_none {s : EvStorage} {name : Bytes} (h : s.getByName name = none)
    (io : SaveIo) : s.mutate io (.del name) = (false, s) :=
  EvStorage.mutate_of_refused io s h

/-- A single step is durable exactly when it is safe to acknowledge. -/
theorem SetDeleteCall.durable_iff (s : EvStorage) (c : SetDeleteCall) (h : Storable s.entries) :
    c.Durable s ↔ c.AckSafe s := by
  rcases c.step_cases s with ⟨hzero, hans, hstep⟩ | ⟨hzero, hans, -⟩ | ⟨hzero, op, hop, hans, hstep⟩
  · rw [Durable, AckSafe, hstep, imp_iff_right hans, imp_iff_right hzero]
    cases hfind : s.getByName (setName c.reqPayload) with
    | none =>
      have herase := OrderedMap.eraseFirst_eq_self hfind
      rw [EvStorage.mutate_del_of_none hfind, herase]
      simp
    | some it =>
      -- the key is there, so `del()` succeeds exactly when the save does
      cases hsaved : c.saved with
      | true =>
        have hok : (s.mutate c.saveIo (.del (setName c.reqPayload))).1 = true := by
          refine (EvStorage.mutate_fst _ _ _).mpr ⟨?_, if_pos hsaved⟩
          exact Option.ne_none_iff_exists'.mpr ⟨it, hfind⟩
        exact iff_of_true (EvStorage.reload_of_mutate h trivial hok) (Or.inl ⟨rfl, rfl⟩)
      | false =>
        have hio : c.saveIo = .writeFails := if_neg (by simp [hsaved])
        rw [hio, EvStorage.reload_of_del_unsaved]
        simp
  · exact ⟨fun _ hz => absurd hz hzero, fun _ ha => absurd ha hans⟩
  · refine ⟨fun _ hz => absurd hz hzero, fun _ ha => ?_⟩
    rw [hstep]
    exact EvStorage.reload_of_mutate h hop (hans.mp ha)

/-- **Acknowledged means durable, on the steps that are safe to acknowledge and
on no others**: in every run from a store that equals its file. -/
theorem durable_iff_ackSafe (s : EvStorage) (calls : List SetDeleteCall)
    (hstart : reload s.file = (0, s.entries)) :
    (∀ v ∈ Run.visits SetDeleteCall.step s calls, v.2.Durable v.1) ↔
      ∀ v ∈ Run.visits SetDeleteCall.step s calls, v.2.AckSafe v.1 :=
  Run.forall_visits_iff (I := fun s : EvStorage => Storable s.entries)
    (P := fun s (c : SetDeleteCall) => c.Durable s) (Q := fun s (c : SetDeleteCall) => c.AckSafe s)
    (fun s c h _ => c.storable_step s h) SetDeleteCall.durable_iff (storable_of_reload hstart)

/-- A SetDeleteEv payload with the set flag for the name `A`. -/
def setPayload (data : Bytes) : Bytes :=
  ([0x01, 0, 0, 0] ++ Bytes.padTo maxEvNameLen [65]) ++ (Bytes.ofLE 2 data.length ++ data)

/-- The call that carries it, with a 12-byte response buffer. -/
def setCall (data : Bytes) (saved : Bool) : SetDeleteCall :=
  ⟨⟨50, 1, smifCmdSetDeleteEv, 0, 1⟩, setPayload data, List.replicate 12 0, saved, by decide⟩

/-- Setting `A` and removing it by a zero-length set, both saved. -/
theorem durable_set_then_zeroLengthSet :
    reload (none : Option Bytes) = (0, []) ∧
      ∀ v ∈ Run.visits SetDeleteCall.step ⟨none, []⟩ [setCall [7] true, setCall [] true],
        v.2.Durable v.1 := by
  have hstart : reload (none : Option Bytes) = (0, []) := by decide
  refine ⟨hstart, (durable_iff_ackSafe ⟨none, []⟩ _ hstart).mpr fun v hv => ?_⟩
  simp only [Run.visits, List.mem_cons, List.not_mem_nil, or_false] at hv
  rcases hv with rfl | rfl
  · exact fun hz => absurd hz (by decide)
  · exact fun _ => Or.inl (by decide)

/-- The store that holds `A = [7]`, in memory and in its file. -/
def storeA : EvStorage := ⟨some (serialize [⟨[65], [7]⟩]), [⟨[65], [7]⟩]⟩

/-- A zero-length set of a stored name whose save fails is acknowledged, and the
file still holds the entry. -/
theorem not_durable_zeroLengthSet_unsaved :
    reload storeA.file = (0, storeA.entries) ∧
      ¬∀ v ∈ Run.visits SetDeleteCall.step storeA [setCall [] false], v.2.Durable v.1 := by
  refine ⟨by decide, fun h => ?_⟩
  have := h (storeA, setCall [] false) List.mem_cons_self (by decide)
  exact absurd this (by decide)

end Chif
