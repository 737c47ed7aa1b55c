/-
The 32-byte name field and its three decoders.

SetDeleteEv with the set flag, SetDeleteEv with the delete flag and
GetEvByName each decode the field by hand.  Delete and get reject a field
whose last byte is not NUL; set overwrites that byte and stores the entry
under the first 31 bytes.

`namesAgree_iff` says which fields the three treat alike: the ones that end in
NUL, and the ones that start with NUL (their key is empty, which the store
itself turns down).
-/
import Canopy.SmifWire

namespace Chif

/-- The stores the daemon can hold. -/
def EvStorage.Reachable (st : EvStorage) : Prop :=
  ∃ opened file calls, st = EvStorage.after opened file calls

theorem EvStorage.reachable_empty : EvStorage.Reachable ⟨none, []⟩ := ⟨true, none, [], rfl⟩

/-- How a mutator's result is reported. -/
def reported (hdr : ChifPktHeader) (response : Bytes) (e : EvError) (r : Bool × EvStorage) :
    (ℤ × Bytes) × Option EvStorage :=
  (buildSimpleResponse hdr response (ev (if r.1 then .success else e)), some r.2)

/-- The request is turned down because of its name, and changes nothing. -/
def tooLong (hdr : ChifPktHeader) (response : Bytes) (st : EvStorage) :
    (ℤ × Bytes) × Option EvStorage :=
  (buildSimpleResponse hdr response (ev .nameTooLong), some st)

/-! ### The key a request acts on

`ActsOn (some k)` says that the request is served under the key `k` in every
store, `ActsOn none` that every store turns it down as too long. -/

def SetRequest.ActsOn (r : SetRequest) (k : Option Bytes) : Prop :=
  ∀ (io : SaveIo) (st : EvStorage) (hdr : ChifPktHeader) (response : Bytes), st.Reachable →
    12 ≤ response.length →
      handleSetDeleteEv io (some st) hdr r.bytes response =
        match k with
        | none => tooLong hdr response st
        | some k => reported hdr response .nameTooLong (st.set io k r.data)

def DeleteRequest.ActsOn (r : DeleteRequest) (k : Option Bytes) : Prop :=
  ∀ (io : SaveIo) (st : EvStorage) (hdr : ChifPktHeader) (response : Bytes), st.Reachable →
    12 ≤ response.length →
      handleSetDeleteEv io (some st) hdr r.bytes response =
        match k with
        | none => tooLong hdr response st
        | some k => reported hdr response .deviceError (st.del io k)

/-- The answer of GetEvByName for a key. -/
def getAnswer (hdr : ChifPktHeader) (response : Bytes) (st : EvStorage) (k : Bytes) : ℤ × Bytes :=
  match st.getByName k with
  | none => buildSimpleResponse hdr response (ev .noSuchEv)
  | some e => buildEvDataResponse hdr response e

def GetRequest.ActsOn (r : GetRequest) (k : Option Bytes) : Prop :=
  ∀ (st : EvStorage) (hdr : ChifPktHeader) (response : Bytes), st.Reachable →
    12 ≤ response.length →
      handleGetEvByName (some st) hdr r.bytes response =
        match k with
        | none => buildSimpleResponse hdr response (ev .nameTooLong)
        | some k => getAnswer hdr response st k

/-- All three commands reject the field as too long, or all map it to one key. -/
def FieldAgrees (f : NameField) : Prop :=
  ∃ k : Option Bytes, (∀ r : SetRequest, r.field = f → r.ActsOn k) ∧
    (∀ r : DeleteRequest, r.field = f → r.ActsOn k) ∧ ∀ r : GetRequest, r.field = f → r.ActsOn k

/-- After a set acknowledged for the field, get finds the entry it stored and
delete removes that entry. -/
def AckedSetVisible (f : NameField) : Prop :=
  ∀ (io : SaveIo) (st st' : EvStorage) (r : SetRequest) (hdr : ChifPktHeader) (response : Bytes),
    st.Reachable → 12 ≤ response.length → r.field = f →
    handleSetDeleteEv io (some st) hdr r.bytes response
        = (buildSimpleResponse hdr response (ev .success), some st') →
    ∃ e pre post, e.data = r.data ∧ st'.entries = pre ++ e :: post ∧
      (∀ (g : GetRequest) (hdr : ChifPktHeader) (response : Bytes), g.field = f →
        12 ≤ response.length →
        handleGetEvByName (some st') hdr g.bytes response = buildEvDataResponse hdr response e) ∧
      ∀ (d : DeleteRequest) (hdr : ChifPktHeader) (response : Bytes), d.field = f →
        12 ≤ response.length →
        ∃ file, handleSetDeleteEv .ok (some st') hdr d.bytes response
          = (buildSimpleResponse hdr response (ev .success), some ⟨file, pre ++ post⟩)

/-- A set of the field adds an entry named `k` to some store. -/
def StoredUnder (f : NameField) (k : Bytes) : Prop :=
  ∃ (io : SaveIo) (st : EvStorage) (r : SetRequest), st.Reachable ∧ r.field = f ∧
    k ∉ st.entries.map EvEntry.name ∧
    k ∈ (setDeleteEv io st r.bytes).2.entries.map EvEntry.name

/-- The get path answers the two fields alike in every store. -/
def SameAnswers (f g : NameField) : Prop :=
  ∀ (rf rg : GetRequest) (st : EvStorage) (hdr : ChifPktHeader) (response : Bytes),
    rf.field = f → rg.field = g → st.Reachable → 12 ≤ response.length →
      handleGetEvByName (some st) hdr rf.bytes response
        = handleGetEvByName (some st) hdr rg.bytes response

/-- What a pair of name fields needs from the three commands. -/
structure NamesAgree (f g : NameField) : Prop where
  left : FieldAgrees f
  right : FieldAgrees g
  left_visible : AckedSetVisible f
  right_visible : AckedSetVisible g
  /-- fields stored under one key are not told apart by get -/
  not_confused : ∀ k, StoredUnder f k → StoredUnder g k → SameAnswers f g

/-- The last byte of the field is NUL, or the first one is. -/
def NameField.Proper (f : NameField) : Prop := f.lastByte = 0 ∨ f.bytes.getD 0 0 = 0

instance (f : NameField) : Decidable f.Proper := by
  unfold NameField.Proper
  infer_instance

/-! ### Fields that agree -/

theorem SetRequest.handle_eq (r : SetRequest) (io : SaveIo) (st : EvStorage) (hdr : ChifPktHeader)
    (response : Bytes) :
    handleSetDeleteEv io (some st) hdr r.bytes response
      = reported hdr response .nameTooLong (st.set io r.field.key r.data) := by
  have hlen : ¬r.bytes.length < 4 := by
    rw [bytes, List.length_append, List.length_cons, r.reserved_length]
    omega
  simp only [handleSetDeleteEv, if_neg hlen, r.setDeleteEv_eq, reported]

theorem DeleteRequest.handle_eq (r : DeleteRequest) (io : SaveIo) (st : EvStorage)
    (hdr : ChifPktHeader) (response : Bytes) :
    handleSetDeleteEv io (some st) hdr r.bytes response =
      if r.field.lastByte ≠ 0 then tooLong hdr response st
      else reported hdr response .deviceError (st.del io r.field.key) := by
  have hlen : ¬r.bytes.length < 4 := by
    rw [bytes, List.length_append, List.length_cons, r.reserved_length]
    omega
  simp only [handleSetDeleteEv, if_neg hlen, r.setDeleteEv_eq, reported, tooLong]
  split <;> rfl

theorem GetRequest.handle_eq (r : GetRequest) (st : EvStorage) (hdr : ChifPktHeader)
    (response : Bytes) :
    handleGetEvByName (some st) hdr r.bytes response =
      if r.field.lastByte ≠ 0 then buildSimpleResponse hdr response (ev .nameTooLong)
      else getAnswer hdr response st r.field.key :=
  r.handleGetEvByName_eq st hdr response

theorem NameField.key_eq_nil {f : NameField} (h : f.bytes.getD 0 0 = 0) : f.key = [] := by
  have hlen := f.length_eq
  rw [key]
  cases hb : f.bytes with
  | nil => rfl
  | cons b bs =>
    rw [hb, List.getD_cons_zero] at h
    rw [h]
    rfl

theorem NameField.key_ne_nil {f : NameField} (h : f.bytes.getD 0 0 ≠ 0) : f.key ≠ [] := by
  rw [key]
  cases hb : f.bytes with
  | nil => exact absurd (by rw [hb]; rfl) h
  | cons b bs =>
    rw [hb, List.getD_cons_zero] at h
    simp [maxEvNameLen, Bytes.padTo, Bytes.cstr, h]

/-- A terminated field stands for its key in all three commands. -/
theorem actsOn_key {f : NameField} (h : f.lastByte = 0) :
    (∀ r : SetRequest, r.field = f → r.ActsOn (some f.key)) ∧
      (∀ r : DeleteRequest, r.field = f → r.ActsOn (some f.key)) ∧
      ∀ r : GetRequest, r.field = f → r.ActsOn (some f.key) := by
  refine ⟨?_, ?_, ?_⟩
  · intro r hr io st hdr response _ _
    rw [r.handle_eq, hr]
  · intro r hr io st hdr response _ _
    rw [r.handle_eq, hr, if_neg (not_not.mpr h)]
  · intro r hr st hdr response _ _
    rw [r.handle_eq, hr, if_neg (not_not.mpr h)]

/-- The store turns the empty key down, as it does a name that is too long. -/
theorem EvStorage.set_nil (st : EvStorage) (io : SaveIo) (data : Bytes) :
    st.set io [] data = (false, st) := by
  rw [EvStorage.set, if_pos (Or.inl rfl)]

/-- An unterminated field that starts with NUL is rejected by all three. -/
theorem actsOn_none {f : NameField} (hlast : f.lastByte ≠ 0) (hfirst : f.bytes.getD 0 0 = 0) :
    (∀ r : SetRequest, r.field = f → r.ActsOn none) ∧
      (∀ r : DeleteRequest, r.field = f → r.ActsOn none) ∧
      ∀ r : GetRequest, r.field = f → r.ActsOn none := by
  refine ⟨?_, ?_, ?_⟩
  · intro r hr io st hdr response _ _
    rw [r.handle_eq, hr, NameField.key_eq_nil hfirst, EvStorage.set_nil]
    rfl
  · intro r hr io st hdr response _ _
    rw [r.handle_eq, hr, if_pos hlast]
  · intro r hr st hdr response _ _
    rw [r.handle_eq, hr, if_pos hlast]

private theorem fieldAgrees_of_proper {f : NameField} (h : f.Proper) : FieldAgrees f := by
  by_cases hlast : f.lastByte = 0
  · exact ⟨some f.key, actsOn_key hlast⟩
  · exact ⟨none, actsOn_none hlast (h.resolve_left hlast)⟩

/-! ### What follows from an acknowledged set -/

private theorem reported_eq_success {hdr : ChifPktHeader} {response : Bytes} {e : EvError}
    {r : Bool × EvStorage} {st' : EvStorage} (hroom : 12 ≤ response.length) (he : e ≠ .success)
    (h : reported hdr response e r
      = (buildSimpleResponse hdr response (ev .success), some st')) : r = (true, st') := by
  rw [reported, Prod.mk.injEq, Option.some_inj] at h
  obtain ⟨hanswer, hst⟩ := h
  have hcode := buildSimpleResponse_inj hroom hanswer
  cases hr : r.1 with
  | true => exact Prod.ext hr hst
  | false =>
    rw [hr, if_neg (by simp)] at hcode
    exact absurd hcode he

/-- A successful `set` is found again under its name. -/
theorem EvStorage.getByName_of_set {st st' : EvStorage} {io : SaveIo} {name data : Bytes}
    (h : st.set io name data = (true, st')) : st'.getByName name = some ⟨name, data⟩ := by
  have hmut : st.mutate io (.set name data) = (true, st') := h
  have hok := (EvStorage.mutate_fst io st (.set name data)).mp (by rw [hmut])
  have hent := EvStorage.mutate_entries io st (.set name data)
  rw [if_neg hok.1, hmut] at hent
  have hent' : st'.entries = update st.entries (.set name data) := hent
  rw [EvStorage.getByName, hent', find_update_set_self]

private theorem ackedSetVisible_of_proper {f : NameField} (h : f.Proper) : AckedSetVisible f := by
  intro io st st' r hdr response _ hroom hr hack
  rw [r.handle_eq, hr] at hack
  have hset := reported_eq_success hroom (by simp) hack
  have hlast : f.lastByte = 0 := by
    rcases h with hlast | hfirst
    · exact hlast
    · rw [NameField.key_eq_nil hfirst, EvStorage.set_nil] at hset
      exact absurd (congrArg Prod.fst hset) (by simp)
  have hget := EvStorage.getByName_of_set hset
  obtain ⟨pre, post, hsplit, herase⟩ := OrderedMap.eraseFirst_of_find hget
  refine ⟨⟨f.key, r.data⟩, pre, post, rfl, hsplit, ?_, ?_⟩
  · intro g hdr response hg _
    rw [g.handle_eq, hg, if_neg (not_not.mpr hlast), getAnswer, hget]
  · intro d hdr response hd _
    refine ⟨some (serialize (pre ++ post)), ?_⟩
    rw [d.handle_eq, hd, if_neg (not_not.mpr hlast), reported, EvStorage.del, hget]
    show (_, some (EvStorage.save .ok _).2) = _
    rw [herase]
    rfl

/-- The only name `set` can add is the one it is given. -/
theorem EvStorage.mem_names_set {st : EvStorage} {io : SaveIo} {name data k : Bytes}
    (h : k ∈ (st.set io name data).2.entries.map EvEntry.name) :
    k ∈ st.entries.map EvEntry.name ∨ k = name := by
  have hent : (st.set io name data).2.entries
      = if refused st.entries (.set name data) then st.entries
        else update st.entries (.set name data) := EvStorage.mutate_entries io st (.set name data)
  rw [hent] at h
  split at h
  · exact Or.inl h
  · rw [update] at h
    cases hfind : OrderedMap.find EvEntry.name name st.entries with
    | some it =>
      simp only [hfind] at h
      rw [OrderedMap.map_modifyFirst EvEntry.name (EvEntry.assign_name data)] at h
      exact Or.inl h
    | none =>
      simp only [hfind] at h
      rw [List.map_append, List.mem_append, List.map_singleton, List.mem_singleton] at h
      exact h

private theorem storedUnder_key {f : NameField} {k : Bytes} (h : StoredUnder f k) : k = f.key := by
  obtain ⟨io, st, r, -, hr, hold, hnew⟩ := h
  rw [r.setDeleteEv_eq, hr] at hnew
  exact (EvStorage.mem_names_set hnew).resolve_left hold

private theorem ne_nil_of_storedUnder {f : NameField} {k : Bytes} (h : StoredUnder f k) :
    f.key ≠ [] := by
  obtain ⟨io, st, r, -, hr, hold, hnew⟩ := h
  intro hnil
  rw [r.setDeleteEv_eq, hr, hnil, EvStorage.set_nil] at hnew
  exact hold hnew

private theorem namesAgree_of_proper {f g : NameField} (hf : f.Proper) (hg : g.Proper) :
    NamesAgree f g where
  left := fieldAgrees_of_proper hf
  right := fieldAgrees_of_proper hg
  left_visible := ackedSetVisible_of_proper hf
  right_visible := ackedSetVisible_of_proper hg
  not_confused := by
    intro k hfk hgk rf rg st hdr response hrf hrg _ _
    have terminated : ∀ {f : NameField}, f.Proper → StoredUnder f k → f.lastByte = 0 := by
      intro f hproper hk
      refine hproper.resolve_right fun hfirst => ?_
      exact ne_nil_of_storedUnder hk (NameField.key_eq_nil hfirst)
    rw [rf.handle_eq, rg.handle_eq, hrf, hrg, if_neg (not_not.mpr (terminated hf hfk)),
      if_neg (not_not.mpr (terminated hg hgk)), ← storedUnder_key hfk, ← storedUnder_key hgk]

/-! ### Fields that do not -/

/-- The shortest set request for a field. -/
def SetRequest.ofField (f : NameField) : SetRequest :=
  ⟨evFlagSet, [0, 0, 0], f, [0], [], by decide, by decide, by decide, rfl, by decide, by decide⟩

/-- An unterminated field with a non-empty key is rejected by get, but a set on
the empty store goes through. -/
theorem proper_of_fieldAgrees {f : NameField} (h : FieldAgrees f) : f.Proper := by
  obtain ⟨k, hset, -, hget⟩ := h
  by_contra hproper
  obtain ⟨hlast, hfirst⟩ := not_or.mp hproper
  let response : Bytes := List.replicate 12 0
  let hdr : ChifPktHeader := ⟨0, 0, 0, 0, 0⟩
  have hroom : 12 ≤ response.length := by decide
  have hg := hget ⟨f, []⟩ rfl ⟨none, []⟩ hdr response EvStorage.reachable_empty hroom
  rw [GetRequest.handle_eq, if_pos hlast] at hg
  cases k with
  | some k =>
    -- under a key, get would have answered noSuchEv
    exact absurd (buildSimpleResponse_inj hroom hg) (by simp)
  | none =>
    have hs := hset (SetRequest.ofField f) rfl .ok ⟨none, []⟩ hdr response
      EvStorage.reachable_empty hroom
    have hacc : ¬refused [] (.set f.key [0]) := by
      simp only [refused, not_or]
      refine ⟨⟨NameField.key_ne_nil hfirst, Nat.not_le_of_lt f.key_length_lt⟩, by decide, ?_⟩
      simp [noRoom, OrderedMap.find, serializedSize, headerSize, entryOverhead, maxEvNameLen,
        maxEvFileSize]
    have hok : (EvStorage.set .ok ⟨none, []⟩ f.key [0]).1 = true :=
      (EvStorage.mutate_fst .ok ⟨none, []⟩ (.set f.key [0])).mpr ⟨hacc, rfl⟩
    rw [SetRequest.handle_eq] at hs
    have hcode := congrArg Prod.fst hs
    simp only [reported, tooLong, SetRequest.ofField, hok, if_true] at hcode
    exact absurd (buildSimpleResponse_inj hroom hcode) (by simp)

/-- **The three commands agree on a pair of name fields exactly when each field
ends or starts with a NUL byte.** -/
theorem namesAgree_iff (f g : NameField) : NamesAgree f g ↔ f.Proper ∧ g.Proper := by
  constructor
  · intro h
    exact ⟨proper_of_fieldAgrees h.left, proper_of_fieldAgrees h.right⟩
  · rintro ⟨hf, hg⟩
    exact namesAgree_of_proper hf hg

/-- 32 characters `A`: set stores under 31 of them, delete and get reject. -/
theorem not_namesAgree_unterminated :
    ¬NamesAgree ⟨List.replicate 32 65, rfl⟩ ⟨List.replicate 32 65, rfl⟩ := by
  intro h
  exact absurd (proper_of_fieldAgrees h.left) (by decide)

end Chif
