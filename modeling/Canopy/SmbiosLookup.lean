/-
What the BMC finds in the SMBIOS table of the host.

The host sends structures; `finalize` publishes them behind the two headers, and
`getSMBIOSTypePtr` walks the published table.  A structure is its formatted area,
whose second byte is its length, and its strings up to two zero bytes; the walk
skips from one structure to the next until it meets two zero bytes.
`smbiosNextPtr` is a parameter: all that is asked of it is what the loop it
replaces does (`skips_skipEntry`).

* `search_table` — the search finds the first structure of the type that is long
  enough;
* `lookup_session` — and so it does in the file a boot session publishes;
* `searchBefore_table`, `agree_iff` — the search that gave up at a structure that
  is too short, and exactly when it finds something else.
-/
import Canopy.SmbiosSession
import Canopy.WhileLoop

namespace Chif.SmbiosLookup

open Bytes WhileLoop

/-! ### The search -/

section Search

variable (mem : ℕ → UInt8) (separateLen mdrSMBIOSSize : ℕ)

/-- Neither of the two bytes that end a structure, or the table. -/
def Inside (p : ℕ) : Prop := mem p ≠ 0 ∨ mem (p + 1) ≠ 0

instance (p : ℕ) : Decidable (Inside mem p) := inferInstanceAs (Decidable (_ ∨ _))

/-- One round of the loop that skips a structure; `len` counts its bytes. -/
def skipStep (s : ℕ × ℕ) : ℕ × ℕ ⊕ Option ℕ :=
  if Inside mem s.1 then
    if s.2 + 1 ≥ mdrSMBIOSSize then .inr none -- to avoid an endless loop
    else .inl (s.1 + 1, s.2 + 1)
  else .inr (some (s.1 + separateLen))

/-- The next structure; the loop starts behind the formatted area. -/
def skipEntry (p : ℕ) : Option ℕ :=
  let len := (mem (p + 1)).toNat
  (WhileLoop.iterate (skipStep mem separateLen mdrSMBIOSSize) (mdrSMBIOSSize + 1)
    (p + len, len)).join

variable (smbiosNextPtr : ℕ → Option ℕ) (typeId : UInt8) (size : ℕ)

/-- One round of the loop of `getSMBIOSTypePtr`. -/
def searchStep (p : ℕ) : ℕ ⊕ Option ℕ :=
  if Inside mem p then
    if mem p ≠ typeId then
      match smbiosNextPtr p with
      | none => .inr none
      | some p' => .inl p'
    else if (mem (p + 1)).toNat < size then
      match smbiosNextPtr p with
      | none => .inr none
      | some p' => .inl p'
    else .inr (some p)
  else .inr none

/-- One round before a structure that is too short was skipped. -/
def searchStepBefore (p : ℕ) : ℕ ⊕ Option ℕ :=
  if Inside mem p then
    if mem p ≠ typeId then
      match smbiosNextPtr p with
      | none => .inr none
      | some p' => .inl p'
    else if (mem (p + 1)).toNat < size then .inr none
    else .inr (some p)
  else .inr none

end Search

/-! ### Tables -/

/-- An SMBIOS structure; `body` is its formatted area behind type and length. -/
structure SmbiosStructure where
  type : UInt8
  body : Bytes
  strings : List Bytes
  handle_le : 2 ≤ body.length
  body_lt : body.length + 2 < 256
  strings_ne : ∀ s ∈ strings, s ≠ [] ∧ 0 ∉ s

namespace SmbiosStructure

/-- The length byte. -/
def length (s : SmbiosStructure) : ℕ := s.body.length + 2

def formatted (s : SmbiosStructure) : Bytes := s.type :: UInt8.ofNat s.length :: s.body

/-- The strings, each with a zero byte behind it, and one more; two if there are none. -/
def stringArea (s : SmbiosStructure) : Bytes :=
  if s.strings = [] then [0, 0] else s.strings.flatMap (· ++ [0]) ++ [0]

def bytes (s : SmbiosStructure) : Bytes := s.formatted ++ s.stringArea

/-- The structure `getSMBIOSTypePtr` is asked for. -/
def Fits (typeId : UInt8) (size : ℕ) (s : SmbiosStructure) : Prop :=
  s.type = typeId ∧ size ≤ s.length

instance (typeId : UInt8) (size : ℕ) : DecidablePred (Fits typeId size) := fun s =>
  inferInstanceAs (Decidable (s.type = typeId ∧ size ≤ s.length))

end SmbiosStructure

def tableBytes (ss : List SmbiosStructure) : Bytes := ss.flatMap SmbiosStructure.bytes

/-- Where the first structure with `P` is in a table at `a`. -/
def locate (P : SmbiosStructure → Prop) [DecidablePred P] : ℕ → List SmbiosStructure → Option ℕ
  | _, [] => none
  | a, s :: ss => if P s then some a else locate P (a + s.bytes.length) ss

/-- The bytes `bs` are in memory at `a`. -/
def HoldsAt (mem : ℕ → UInt8) (a : ℕ) (bs : Bytes) : Prop :=
  ∀ i (h : i < bs.length), mem (a + i) = bs[i]

/-- What is asked of `smbiosNextPtr`: it skips every structure that is shorter than
`mdrSMBIOSSize`. -/
def Skips (mem : ℕ → UInt8) (mdrSMBIOSSize : ℕ) (smbiosNextPtr : ℕ → Option ℕ) : Prop :=
  ∀ (s : SmbiosStructure) (p : ℕ), HoldsAt mem p s.bytes → s.bytes.length < mdrSMBIOSSize →
    smbiosNextPtr p = some (p + s.bytes.length)

/-! ### Bytes in memory -/

section Memory

variable {mem : ℕ → UInt8} {a : ℕ} {bs cs : Bytes}

theorem holdsAt_append :
    HoldsAt mem a (bs ++ cs) ↔ HoldsAt mem a bs ∧ HoldsAt mem (a + bs.length) cs := by
  constructor
  · intro h
    refine ⟨fun i hi => ?_, fun i hi => ?_⟩
    · have hlt : i < (bs ++ cs).length := by
        rw [List.length_append]
        omega
      rw [h i hlt, List.getElem_append_left hi]
    · have hlt : bs.length + i < (bs ++ cs).length := by
        rw [List.length_append]
        omega
      rw [Nat.add_assoc, h _ hlt, List.getElem_append_right (by omega)]
      congr 1
      omega
  · rintro ⟨hbs, hcs⟩ i hi
    rw [List.length_append] at hi
    by_cases hlt : i < bs.length
    · rw [List.getElem_append_left hlt]
      exact hbs i hlt
    · rw [List.getElem_append_right (by omega), ← hcs (i - bs.length) (by omega)]
      congr 1
      omega

theorem holdsAt_cons {b : UInt8} :
    HoldsAt mem a (b :: bs) ↔ mem a = b ∧ HoldsAt mem (a + 1) bs := by
  rw [← List.singleton_append, holdsAt_append, List.length_singleton]
  refine and_congr_left fun _ => ⟨fun h => h 0 Nat.zero_lt_one, fun h i hi => ?_⟩
  obtain rfl : i = 0 := by
    rw [List.length_singleton] at hi
    omega
  exact h

end Memory

/-! ### One structure -/

/-- The first two zero bytes in a row are the last two. -/
inductive Ended : Bytes → Prop where
  | last : Ended [0, 0]
  | cons {b c : UInt8} {rest : Bytes} (h : b ≠ 0 ∨ c ≠ 0) (hrest : Ended (c :: rest)) :
    Ended (b :: c :: rest)

theorem Ended.two_le {bs : Bytes} (h : Ended bs) : 2 ≤ bs.length := by
  cases h with
  | last => exact le_rfl
  | cons _ _ =>
    rw [List.length_cons, List.length_cons]
    omega

/-- A string in front. -/
theorem Ended.string {str : Bytes} (h0 : 0 ∉ str) {c : UInt8} {rest : Bytes}
    (h : Ended (c :: rest)) : Ended (str ++ c :: rest) := by
  induction str with
  | nil => exact h
  | cons b str ih =>
    rw [List.mem_cons, not_or] at h0
    have hrest := ih h0.2
    have hb : b ≠ 0 := Ne.symm h0.1
    cases str with
    | nil => exact .cons (Or.inl hb) hrest
    | cons b' str => exact .cons (Or.inl hb) hrest

private theorem ended_strings {strings : List Bytes} (h : ∀ s ∈ strings, s ≠ [] ∧ 0 ∉ s) :
    Ended (0 :: (strings.flatMap (· ++ [0]) ++ [0])) := by
  induction strings with
  | nil => exact .last
  | cons str strings ih =>
    obtain ⟨hne, h0⟩ := h str List.mem_cons_self
    have hrest := (ih fun s hs => h s (List.mem_cons_of_mem _ hs)).string h0
    obtain ⟨b, str, rfl⟩ := List.exists_cons_of_ne_nil hne
    rw [List.flatMap_cons, List.append_assoc, List.append_assoc, List.singleton_append]
    -- the byte behind the zero byte is the first one of the string
    refine .cons (Or.inr ?_) hrest
    rintro rfl
    exact h0 List.mem_cons_self

private theorem ended_stringArea (s : SmbiosStructure) : Ended s.stringArea := by
  rw [SmbiosStructure.stringArea]
  split
  · exact .last
  · next hsome =>
    obtain ⟨str, strings, hstrings⟩ := List.exists_cons_of_ne_nil hsome
    have hok := s.strings_ne
    rw [hstrings] at hok ⊢
    rw [List.flatMap_cons, List.append_assoc, List.append_assoc, List.singleton_append]
    refine Ended.string (hok str List.mem_cons_self).2 ?_
    exact ended_strings fun t ht => hok t (List.mem_cons_of_mem _ ht)

variable {mem : ℕ → UInt8} {separateLen mdrSMBIOSSize : ℕ} {smbiosNextPtr : ℕ → Option ℕ}
  {typeId : UInt8} {size a : ℕ}

/-- The end of a structure, or of the table. -/
theorem not_inside (hmem : HoldsAt mem a [0, 0]) : ¬Inside mem a := by
  obtain ⟨hfst, hrest⟩ := holdsAt_cons.mp hmem
  obtain ⟨hsnd, -⟩ := holdsAt_cons.mp hrest
  rintro (hne | hne)
  · exact hne hfst
  · exact hne hsnd

/-- The loop stops at the two zero bytes. -/
theorem iterate_skip {bs : Bytes} (hend : Ended bs) {p len n : ℕ} (hmem : HoldsAt mem p bs)
    (hlen : len + bs.length < mdrSMBIOSSize + 2) (hn : bs.length ≤ n + 1) :
    WhileLoop.iterate (skipStep mem separateLen mdrSMBIOSSize) n (p, len) =
      some (some (p + (bs.length - 2) + separateLen)) := by
  induction hend generalizing p len n with
  | last =>
    rw [List.length_cons, List.length_singleton] at hn
    obtain ⟨n, rfl⟩ : ∃ m, n = m + 1 := ⟨n - 1, by omega⟩
    have hstep : skipStep mem separateLen mdrSMBIOSSize (p, len) = .inr (some (p + separateLen)) :=
      if_neg (not_inside hmem)
    rw [iterate_of_done hstep]
    rfl
  | @cons b c rest hne hrest ih =>
    obtain ⟨hfst, hmem'⟩ := holdsAt_cons.mp hmem
    obtain ⟨hsnd, -⟩ := holdsAt_cons.mp hmem'
    rw [List.length_cons] at hlen hn
    have hpos := hrest.two_le
    obtain ⟨n, rfl⟩ : ∃ m, n = m + 1 := ⟨n - 1, by omega⟩
    have hin : Inside mem p := by rwa [Inside, hfst, hsnd]
    have hstep : skipStep mem separateLen mdrSMBIOSSize (p, len) = .inl (p + 1, len + 1) := by
      rw [skipStep, if_pos hin, if_neg (by omega)]
    rw [iterate_of_next hstep, ih hmem' (by omega) (by omega)]
    rw [List.length_cons] at hpos
    simp only [List.length_cons, Option.some.injEq]
    omega

private theorem formatted_length (s : SmbiosStructure) : s.formatted.length = s.length := by
  rw [SmbiosStructure.formatted, SmbiosStructure.length, List.length_cons, List.length_cons]

/-- What the search reads of a structure. -/
theorem HoldsAt.header {s : SmbiosStructure} (h : HoldsAt mem a s.bytes) :
    mem a = s.type ∧ (mem (a + 1)).toNat = s.length := by
  rw [SmbiosStructure.bytes, SmbiosStructure.formatted, List.cons_append, List.cons_append,
    holdsAt_cons, holdsAt_cons] at h
  refine ⟨h.1, ?_⟩
  rw [h.2.1]
  exact UInt8.toNat_ofNat_of_lt' s.body_lt

theorem HoldsAt.inside {s : SmbiosStructure} (h : HoldsAt mem a s.bytes) : Inside mem a := by
  refine Or.inr fun hzero => ?_
  have hlen := h.header.2
  rw [hzero, SmbiosStructure.length] at hlen
  have := s.handle_le
  exact absurd hlen (by simp)

/-- **The loop that `smbiosNextPtr` replaces does what is asked of it.** -/
theorem skips_skipEntry (hsep : separateLen = 2) :
    Skips mem mdrSMBIOSSize (skipEntry mem separateLen mdrSMBIOSSize) := by
  intro s p hmem hshort
  have hlen := hmem.header.2
  rw [SmbiosStructure.bytes] at hmem hshort ⊢
  rw [List.length_append, formatted_length] at hshort ⊢
  have harea := (holdsAt_append.mp hmem).2
  rw [formatted_length] at harea
  have hpos := (ended_stringArea s).two_le
  rw [skipEntry, hlen, iterate_skip (ended_stringArea s) harea (by omega) (by omega),
    Option.join_some, hsep]
  congr 1
  omega

/-! ### Tables in memory -/

/-- What a round of the search finds at a structure. -/
theorem structure_at {s : SmbiosStructure} {rest : Bytes}
    (hnext : Skips mem mdrSMBIOSSize smbiosNextPtr) (hmem : HoldsAt mem a (s.bytes ++ rest))
    (hshort : s.bytes.length < mdrSMBIOSSize) :
    Inside mem a ∧ mem a = s.type ∧ (mem (a + 1)).toNat = s.length ∧
      smbiosNextPtr a = some (a + s.bytes.length) := by
  have hs := (holdsAt_append.mp hmem).1
  exact ⟨hs.inside, hs.header.1, hs.header.2, hnext s a hs hshort⟩

/-- **The search returns the first structure of the type that is long enough**, or
null if there is none. -/
theorem search_table (hnext : Skips mem mdrSMBIOSSize smbiosNextPtr) {ss : List SmbiosStructure}
    (hmem : HoldsAt mem a (tableBytes ss ++ [0, 0]))
    (hshort : ∀ s ∈ ss, s.bytes.length < mdrSMBIOSSize) :
    Returns (searchStep mem smbiosNextPtr typeId size) a
      (locate (SmbiosStructure.Fits typeId size) a ss) := by
  induction ss generalizing a with
  | nil =>
    have hstep : searchStep mem smbiosNextPtr typeId size a = .inr none :=
      if_neg (not_inside hmem)
    exact (returns_iff_of_done hstep).mpr rfl
  | cons s ss ih =>
    rw [tableBytes, List.flatMap_cons, List.append_assoc] at hmem
    obtain ⟨hin, htype, hlen, hskip⟩ := structure_at hnext hmem (hshort s List.mem_cons_self)
    rw [locate]
    by_cases hfits : s.Fits typeId size
    · have hstep : searchStep mem smbiosNextPtr typeId size a = .inr (some a) := by
        rw [searchStep, if_pos hin, htype, hlen, if_neg (not_not.mpr hfits.1),
          if_neg (not_lt.mpr hfits.2)]
      rw [if_pos hfits]
      exact (returns_iff_of_done hstep).mpr rfl
    · -- of another type, or too short
      have hstep : searchStep mem smbiosNextPtr typeId size a = .inl (a + s.bytes.length) := by
        rw [searchStep, if_pos hin, htype, hlen, hskip]
        split_ifs with hother hless
        · rfl
        · rfl
        · exact absurd ⟨not_not.mp hother, not_lt.mp hless⟩ hfits
      rw [if_neg hfits]
      refine (returns_iff_of_next hstep).mpr (ih (holdsAt_append.mp hmem).2 fun t ht => ?_)
      exact hshort t (List.mem_cons_of_mem _ ht)

/-! ### What the host sent is what the BMC finds -/

/-- **Whatever structures the host sends since its last begin, and however it packs
them into blobs: once its end has published the file and the file is in memory,
with two zero bytes behind it, the search for a type returns the first structure of
that type that is long enough.** -/
theorem lookup_session {temp smbios2 : Option Bytes} {mdrBridge : Bool} {calls : List RomCall}
    {c : RomCall} {rest : Bytes} {ss : List SmbiosStructure} (hend : c.cmd = .finish rest)
    (hfit : ∀ pre, pre <+: calls → (sinceBegin pre).length ≤ maxSmbiosDataSize)
    (hsent : sinceBegin calls = tableBytes ss) (hne : ss ≠ [])
    (hio : c.io.Succeeds (Run.run RomService.next (.boot temp smbios2 mdrBridge)
      (calls.map RomCall.input)).writer) :
    ∃ file, (Run.run RomService.next (.boot temp smbios2 mdrBridge)
        ((calls ++ [c]).map RomCall.input)).writer.smbios2 = some file ∧
      ∀ (mem : ℕ → UInt8) (base mdrSMBIOSSize : ℕ) (smbiosNextPtr : ℕ → Option ℕ)
        (typeId : UInt8) (size : ℕ), HoldsAt mem base (file ++ [0, 0]) →
        Skips mem mdrSMBIOSSize smbiosNextPtr →
        (∀ s ∈ ss, s.bytes.length < mdrSMBIOSSize) →
        Returns (searchStep mem smbiosNextPtr typeId size) (base + 34)
          (locate (SmbiosStructure.Fits typeId size) (base + 34) ss) := by
  have hrecords := records_run (.boot temp smbios2 mdrBridge) rfl calls hfit
  have hsome : tableBytes ss ≠ [] := by
    obtain ⟨s, ss, rfl⟩ := List.exists_cons_of_ne_nil hne
    rw [tableBytes, List.flatMap_cons]
    exact List.append_ne_nil_of_left_ne_nil (List.cons_ne_nil _ _) _
  have hpublished := published_finalize hio (by rwa [hrecords, hsent])
    (by rw [hrecords]; exact hfit calls List.prefix_rfl)
  rw [hrecords, hsent] at hpublished
  obtain ⟨mdr, ep, hfile, hmdr, hep, -⟩ := hpublished
  refine ⟨mdr.bytes ++ (ep.bytes ++ tableBytes ss), ?_, ?_⟩
  · rw [List.map_append, List.map_singleton, Run.run_append, Run.run_cons, Run.run_nil, next_writer,
      hend]
    exact hfile
  · intro mem base mdrSMBIOSSize smbiosNextPtr typeId size hmem hnext hshort
    -- the table starts behind the two headers
    rw [List.append_assoc, List.append_assoc, holdsAt_append, holdsAt_append, hmdr, hep,
      Nat.add_assoc] at hmem
    exact search_table hnext hmem.2.2 hshort

/-- A type 1 structure that is too short, one with a string, and the end of the table. -/
def twoSystems : List SmbiosStructure :=
  [⟨1, [5, 0], [], by decide, by decide, by decide⟩,
    ⟨1, [2, 0, 1, 7], [[0x41, 0x42]], by decide, by decide, by decide⟩,
    ⟨127, [3, 0], [], by decide, by decide, by decide⟩]

/-- A begin, a blob with the first two and a blob with the last. -/
def twoSystemsCalls : List RomCall :=
  let io : FinalizeIo := .flushing 0
  [⟨⟨8, 1, 0, 2, 1⟩, .begin [], [], io⟩,
    ⟨⟨32, 2, 0, 2, 1⟩, .record ⟨[⟨[1, 4, 5, 0, 0, 0], by decide, by decide⟩,
      ⟨[1, 6, 2, 0, 1, 7, 0x41, 0x42, 0, 0], by decide, by decide⟩], by decide, []⟩, [], io⟩,
    ⟨⟨20, 3, 0, 5, 1⟩, .blob ⟨[⟨[127, 4, 3, 0, 0, 0], by decide, by decide⟩], by decide, []⟩, [],
      io⟩]

def twoSystemsEnd : RomCall :=
  ⟨⟨8, 4, 0, 3, 1⟩, .finish [], [],
    { FinalizeIo.flushing 22 with mdr := ⟨10, true⟩, ep := ⟨24, true⟩ }⟩

/-- A file in memory, with zero bytes behind it. -/
def memOf (file : Bytes) (i : ℕ) : UInt8 := ((file ++ [0, 0])[i]?).getD 0

private theorem holdsAt_memOf (file : Bytes) : HoldsAt (memOf file) 0 (file ++ [0, 0]) := by
  intro i hi
  rw [Nat.zero_add, memOf, List.getElem?_eq_getElem hi, Option.getD_some]

theorem lookup_session_twoSystems :
    ∃ file, (Run.run RomService.next (.boot none none false)
        ((twoSystemsCalls ++ [twoSystemsEnd]).map RomCall.input)).writer.smbios2 = some file ∧
      Returns (searchStep (memOf file) (skipEntry (memOf file) 2 0x8000) 1 6) 34 (some 40) := by
  have hpre : ∀ pre ∈ twoSystemsCalls.inits, (sinceBegin pre).length ≤ maxSmbiosDataSize := by
    decide +kernel
  have hshort : ∀ s ∈ twoSystems, s.bytes.length < 0x8000 := by decide
  obtain ⟨file, hfile, hfind⟩ :=
    lookup_session rfl (fun pre h => hpre pre ((List.mem_inits _ _).mpr h))
      (by decide : sinceBegin twoSystemsCalls = tableBytes twoSystems) (by decide)
      (⟨rfl, rfl, rfl, rfl, rfl, rfl, by rw [SmbiosWriter.CloseFails]; decide +kernel⟩ :
        twoSystemsEnd.io.Succeeds (Run.run RomService.next (.boot none none false)
          (twoSystemsCalls.map RomCall.input)).writer)
  exact ⟨file, hfile, hfind _ 0 0x8000 _ 1 6 (holdsAt_memOf file) (skips_skipEntry rfl) hshort⟩

/-! ### The search that gave up -/

/-- What the search found before: a structure that is too short ended it. -/
def locateBefore (typeId : UInt8) (size : ℕ) : ℕ → List SmbiosStructure → Option ℕ
  | _, [] => none
  | a, s :: ss =>
    if s.type = typeId then if size ≤ s.length then some a else none
    else locateBefore typeId size (a + s.bytes.length) ss

/-- The first structure of the type is too short, and a later one is long enough. -/
def Shadowed (typeId : UInt8) (size : ℕ) (ss : List SmbiosStructure) : Prop :=
  ∃ pre s post, ss = pre ++ s :: post ∧ (∀ r ∈ pre, r.type ≠ typeId) ∧ s.type = typeId ∧
    s.length < size ∧ ∃ r ∈ post, r.Fits typeId size

theorem searchBefore_table (hnext : Skips mem mdrSMBIOSSize smbiosNextPtr)
    {ss : List SmbiosStructure} (hmem : HoldsAt mem a (tableBytes ss ++ [0, 0]))
    (hshort : ∀ s ∈ ss, s.bytes.length < mdrSMBIOSSize) :
    Returns (searchStepBefore mem smbiosNextPtr typeId size) a
      (locateBefore typeId size a ss) := by
  induction ss generalizing a with
  | nil =>
    have hstep : searchStepBefore mem smbiosNextPtr typeId size a = .inr none :=
      if_neg (not_inside hmem)
    exact (returns_iff_of_done hstep).mpr rfl
  | cons s ss ih =>
    rw [tableBytes, List.flatMap_cons, List.append_assoc] at hmem
    obtain ⟨hin, htype, hlen, hskip⟩ := structure_at hnext hmem (hshort s List.mem_cons_self)
    rw [locateBefore]
    by_cases hsame : s.type = typeId
    · have hstep : searchStepBefore mem smbiosNextPtr typeId size a =
          .inr (if size ≤ s.length then some a else none) := by
        rw [searchStepBefore, if_pos hin, htype, hlen, if_neg (not_not.mpr hsame)]
        by_cases hfits : size ≤ s.length
        · rw [if_neg (not_lt.mpr hfits), if_pos hfits]
        · rw [if_pos (not_le.mp hfits), if_neg hfits]
      rw [if_pos hsame]
      exact (returns_iff_of_done hstep).mpr rfl
    · have hstep : searchStepBefore mem smbiosNextPtr typeId size a =
          .inl (a + s.bytes.length) := by
        rw [searchStepBefore, if_pos hin, htype, hskip, if_pos hsame]
      rw [if_neg hsame]
      refine (returns_iff_of_next hstep).mpr (ih (holdsAt_append.mp hmem).2 fun t ht => ?_)
      exact hshort t (List.mem_cons_of_mem _ ht)

private theorem locate_eq_none_iff {P : SmbiosStructure → Prop} [DecidablePred P]
    {ss : List SmbiosStructure} : locate P a ss = none ↔ ∀ s ∈ ss, ¬P s := by
  induction ss generalizing a with
  | nil => simp [locate]
  | cons s ss ih =>
    rw [locate, List.forall_mem_cons]
    split
    · next hs => exact iff_of_false (Option.some_ne_none a) fun h => h.1 hs
    · next hs => rw [ih, and_iff_right hs]

private theorem shadowed_cons_of_ne {s : SmbiosStructure} {ss : List SmbiosStructure}
    (hother : s.type ≠ typeId) : Shadowed typeId size (s :: ss) ↔ Shadowed typeId size ss := by
  constructor
  · rintro ⟨pre, t, post, hss, hpre, htype, hless, hlater⟩
    cases pre with
    | nil =>
      obtain ⟨rfl, -⟩ := List.cons_eq_cons.mp hss
      exact absurd htype hother
    | cons r pre =>
      obtain ⟨rfl, rfl⟩ := List.cons_eq_cons.mp hss
      exact ⟨pre, t, post, rfl, fun r hr => hpre r (List.mem_cons_of_mem _ hr), htype, hless,
        hlater⟩
  · rintro ⟨pre, t, post, rfl, hpre, hrest⟩
    refine ⟨s :: pre, t, post, rfl, ?_, hrest⟩
    intro r hr
    rcases List.mem_cons.mp hr with rfl | hr
    · exact hother
    · exact hpre r hr

private theorem shadowed_cons_of_eq {s : SmbiosStructure} {ss : List SmbiosStructure}
    (hsame : s.type = typeId) :
    Shadowed typeId size (s :: ss) ↔ s.length < size ∧ ∃ r ∈ ss, r.Fits typeId size := by
  constructor
  · rintro ⟨pre, t, post, hss, hpre, htype, hless, hlater⟩
    cases pre with
    | nil =>
      obtain ⟨rfl, rfl⟩ := List.cons_eq_cons.mp hss
      exact ⟨hless, hlater⟩
    | cons r pre =>
      obtain ⟨rfl, -⟩ := List.cons_eq_cons.mp hss
      exact absurd hsame (hpre s List.mem_cons_self)
  · rintro ⟨hless, hlater⟩
    exact ⟨[], s, ss, rfl, fun r hr => absurd hr List.not_mem_nil, hsame, hless, hlater⟩

private theorem locateBefore_eq_iff {ss : List SmbiosStructure} :
    locateBefore typeId size a ss = locate (SmbiosStructure.Fits typeId size) a ss ↔
      ¬Shadowed typeId size ss := by
  induction ss generalizing a with
  | nil =>
    refine iff_of_true rfl ?_
    rintro ⟨pre, s, post, hss, -⟩
    exact absurd hss (by simp)
  | cons s ss ih =>
    rw [locateBefore, locate]
    by_cases hsame : s.type = typeId
    · rw [shadowed_cons_of_eq hsame, if_pos hsame]
      by_cases hfits : size ≤ s.length
      · rw [if_pos hfits, if_pos ⟨hsame, hfits⟩]
        exact iff_of_true rfl fun h => absurd hfits (not_le.mpr h.1)
      · -- the search before stops here
        have hunfit : ¬s.Fits typeId size := fun h => hfits h.2
        rw [if_neg hfits, if_neg hunfit, eq_comm, locate_eq_none_iff, not_and, not_exists]
        constructor
        · intro hnone _ r hr
          exact hnone r hr.1 hr.2
        · intro hnone r hr hrfits
          exact hnone (not_le.mp hfits) r ⟨hr, hrfits⟩
    · have hunfit : ¬s.Fits typeId size := fun h => hsame h.1
      rw [if_neg hsame, if_neg hunfit, shadowed_cons_of_ne hsame]
      exact ih

/-- **On every table of structures shorter than `mdrSMBIOSSize`, the search finds
what it found before, unless the first structure of the type is too short and a
later one is not.**  `smbiosNextPtr` skips a structure as the loop it replaces does. -/
theorem agree_iff (hnext : Skips mem mdrSMBIOSSize smbiosNextPtr) {ss : List SmbiosStructure}
    (hmem : HoldsAt mem a (tableBytes ss ++ [0, 0]))
    (hshort : ∀ s ∈ ss, s.bytes.length < mdrSMBIOSSize) :
    (∀ r, Returns (searchStepBefore mem smbiosNextPtr typeId size) a r ↔
        Returns (searchStep mem smbiosNextPtr typeId size) a r) ↔
      ¬Shadowed typeId size ss := by
  have hafter : Returns (searchStep mem smbiosNextPtr typeId size) a _ :=
    search_table hnext hmem hshort
  have hbefore : Returns (searchStepBefore mem smbiosNextPtr typeId size) a _ :=
    searchBefore_table hnext hmem hshort
  rw [← locateBefore_eq_iff]
  constructor
  · intro h
    exact (hafter.iff.mp ((h _).mp hbefore)).symm
  · intro heq r
    rw [hbefore.iff, hafter.iff, heq]

/-- The first system is too short for the search before. -/
theorem agree_iff_twoSystems :
    (∀ r, Returns (searchStepBefore (memOf (tableBytes twoSystems))
          (skipEntry (memOf (tableBytes twoSystems)) 2 0x8000) 1 6) 0 r ↔
        Returns (searchStep (memOf (tableBytes twoSystems))
          (skipEntry (memOf (tableBytes twoSystems)) 2 0x8000) 1 6) 0 r) ↔
      ¬Shadowed 1 6 twoSystems :=
  agree_iff (skips_skipEntry rfl) (holdsAt_memOf _) (by decide)

end Chif.SmbiosLookup
