/-
When the loops of `extractFfsFile` end.

The offsets only grow while the sums that step them do not pass the largest
`size_t`; a length field that carries a sum past it throws the walk back, to an
offset it came from if the lengths since then add up to a multiple of 2^w.

* `endsWithoutReturn_iff` — the loops end, and the volume offset takes no
  value twice, iff the lengths in the headers that are met, of volumes or of the
  files in a volume, nowhere add up so;
* `NoneWraps.noneAddUp` — they do not if no length wraps;
* `not_forall_endsWithoutReturn` — an image on which it steps back for ever.
-/
import Canopy.UefiWalk
import Mathlib.Data.Finite.Prod
import Mathlib.Order.Interval.Finset.Nat

open Bytes WhileLoop

namespace UefiFv

/-- The offset of the volume that the walk is at. -/
def ScanState.fvOffset : ScanState → ℕ
  | .volume _ o => o
  | .file v _ => v.fvOffset

namespace ExtractCall

variable {c : ExtractCall}

/-! ### Statement -/

/-- Both loops end, and the outer offset never returns to an earlier value. -/
def EndsWithoutReturn (c : ExtractCall) : Prop :=
  (∃ fuel bs, c.extractFfsFile fuel = some bs) ∧
    ∀ good good' o t, Reaches c.step start (.volume good o) →
      c.step (.volume good o) = .inl t → ¬Reaches c.step t (.volume good' o)

/-- A round that comes to the next volume meets a length at the last one: its `fvLength`
rounded up to 64 KiB, or 64 KiB where no volume begins. -/
def volumesMet (c : ExtractCall) (s : ScanState) : ScanState → List ℕ
  | .volume _ _ => [c.volumeStep s.fvOffset]
  | .file _ _ => []

/-- A round of the inner loop, from file to file. -/
def fileStep (c : ExtractCall) (v : Volume) (f : ℕ) : ℕ ⊕ Unit :=
  match c.stepFile v f with
  | .inl (.file _ f') => .inl f'
  | _ => .inr ()

/-- The length of a round from `f`: the padding in front of the file there, and the
24-bit size in its header. -/
def fileLength (c : ExtractCall) (f : ℕ) : ℕ :=
  (f + 7) / 8 * 8 - f + (c.fileHdr (c.sz.align8 f)).size

def filesMet (c : ExtractCall) (f _next : ℕ) : List ℕ := [c.fileLength f]

/-- No lengths that are met one after the other, of volumes or of the files in one
volume, add up to a multiple of the number of `size_t` values. -/
structure NoneAddUp (c : ExtractCall) : Prop where
  volumes : ∀ good good' o o' ls, Reaches c.step start (.volume good o) →
    Walk c.step c.volumesMet (.volume good o) ls (.volume good' o') → ls ≠ [] →
      ¬c.sz.modulus ∣ ls.sum
  files : ∀ v f f' ls, Reaches c.step start (.file v f) →
    Walk (c.fileStep v) c.filesMet f ls f' → ls ≠ [] → ¬c.sz.modulus ∣ ls.sum

/-- The length that steps the loop carries its offset past the largest `size_t`. -/
def Wraps (c : ExtractCall) (s : ScanState) : ScanState → Prop
  | .volume _ _ => c.sz.modulus ≤ s.fvOffset + c.volumeStep s.fvOffset
  | .file _ _ =>
    match s with
    | .volume _ _ => False
    | .file _ f => c.sz.modulus ≤ f + c.fileLength f

/-- No length that is met wraps. -/
def NoneWraps (c : ExtractCall) : Prop :=
  ∀ s s', Reaches c.step start s → c.step s = .inl s' → ¬c.Wraps s s'

/-! ### Finitely many loop heads -/

/-- A loop head as three numbers. -/
def code : ScanState → ℕ × ℕ × ℕ
  | .volume true o => (0, o, 0)
  | .volume false o => (1, o, 0)
  | .file v f => (2, v.fvOffset, f)

private theorem code_injOn : Set.InjOn code {t | Wf c t} := by
  intro t ht u hu h
  match t, u with
  | .volume true o, .volume true o' => simpa [code] using h
  | .volume true o, .volume false o' => simp [code] at h
  | .volume false o, .volume true o' => simp [code] at h
  | .volume false o, .volume false o' => simpa [code] using h
  | .volume true o, .file v f => simp [code] at h
  | .volume false o, .file v f => simp [code] at h
  | .file v f, .volume true o => simp [code] at h
  | .file v f, .volume false o => simp [code] at h
  | .file v f, .file v' f' =>
    simp only [code, Prod.mk.injEq, true_and] at h
    rw [Genuine.unique ht.1 hu.1 h.1, h.2]

private theorem code_mem {t : ScanState} (h : Wf c t) :
    code t ∈ Set.Iio 3 ×ˢ (Set.Iio c.sz.modulus ×ˢ Set.Iio c.sz.modulus) := by
  have hpos := c.sz.modulus_pos
  match t with
  | .volume true o => exact ⟨by simp [code], h.1, hpos⟩
  | .volume false o => exact ⟨by simp [code], h.1, hpos⟩
  | .file v f => exact ⟨by simp [code], h.2.1, h.2.2.2⟩

private theorem finite_reaches (c : ExtractCall) : {t | Reaches c.step start t}.Finite := by
  have hbox : (Set.Iio 3 ×ˢ (Set.Iio c.sz.modulus ×ˢ Set.Iio c.sz.modulus)).Finite :=
    (Set.finite_Iio 3).prod ((Set.finite_Iio _).prod (Set.finite_Iio _))
  refine Set.Finite.of_injOn (f := code) (t := _) ?_ ?_ hbox
  · intro t ht
    exact code_mem (wf_of_reaches ht)
  · exact code_injOn.mono fun t ht => wf_of_reaches ht

/-! ### Volumes -/

theorem Genuine.volumeStep_eq {v : Volume} (h : Genuine c v) :
    c.volumeStep v.fvOffset = c.sz.roundUp64K v.hdr.fvLength := by
  have hsig := h.signature
  rw [h.hdr_eq] at hsig ⊢
  exact if_neg (not_not_intro hsig)

/-- A step moves the volume offset by the length it meets. -/
theorem fvOffset_step : ∀ {s s' : ScanState}, Wf c s → c.step s = .inl s' →
    s'.fvOffset = c.sz.wrap (s.fvOffset + (c.volumesMet s s').sum)
  | .volume good o, s', hs, hnext => by
    obtain ⟨-, ⟨good', rfl⟩ | ⟨v, -, rfl, rfl⟩⟩ := stepVolume_cases hnext
    · rw [volumesMet, List.sum_singleton]
      rfl
    · exact (c.sz.wrap_of_lt hs.1).symm
  | .file v f, s', hs, hnext => by
    rcases stepFile_cases hnext with ⟨good', rfl⟩ | ⟨-, rfl⟩
    · rw [volumesMet, List.sum_singleton]
      show c.nextVolume v.fvOffset v.hdr.fvLength = c.sz.wrap (v.fvOffset + c.volumeStep v.fvOffset)
      rw [hs.1.volumeStep_eq]
      rfl
    · exact (c.sz.wrap_of_lt hs.2.1).symm

theorem Wf.fvOffset_lt : ∀ {s : ScanState}, Wf c s → s.fvOffset < c.sz.modulus
  | .volume _ _, h => h.1
  | .file _ _, h => h.2.1

private theorem modEq_wrap (sz : SizeWidth) (x : ℕ) : sz.wrap x ≡ x [MOD sz.modulus] :=
  Nat.mod_modEq x sz.modulus

/-- The lengths met move the volume offset by their sum. -/
theorem modEq_of_walk {s t : ScanState} {ls : List ℕ} (hs : Reaches c.step start s)
    (h : Walk c.step c.volumesMet s ls t) :
    t.fvOffset ≡ s.fvOffset + ls.sum [MOD c.sz.modulus] := by
  refine h.modEq (Wf c) ScanState.fvOffset wf_step (fun a b ha hab => ?_) (wf_of_reaches hs)
  rw [fvOffset_step ha hab]
  exact modEq_wrap c.sz _

/-- On the way back to the outer loop a length is met. -/
theorem ne_nil_of_walk {v : Volume} {f o : ℕ} {good : Bool} {ls : List ℕ}
    (h : Walk c.step c.volumesMet (.file v f) ls (.volume good o)) : ls ≠ [] := by
  generalize hs : ScanState.file v f = s at h
  generalize ht : ScanState.volume good o = t at h
  induction h generalizing v f with
  | nil s =>
    rw [← hs] at ht
    cases ht
  | @cons s s' t ls hnext _ ih =>
    cases s' with
    | volume good' o' => exact List.cons_ne_nil _ _
    | file v' f' => exact ih rfl ht

/-- A way from volume to volume meets a length. -/
theorem exists_walk_volume {o o' : ℕ} {good good' : Bool} {t : ScanState}
    (hnext : c.step (.volume good o) = .inl t) (hreach : Reaches c.step t (.volume good' o')) :
    ∃ ls, Walk c.step c.volumesMet (.volume good o) ls (.volume good' o') ∧ ls ≠ [] := by
  obtain ⟨ls, hwalk⟩ := exists_walk c.volumesMet hreach
  refine ⟨_, .cons hnext hwalk, ?_⟩
  cases t with
  | volume good'' o'' => exact List.cons_ne_nil _ _
  | file v f => exact ne_nil_of_walk hwalk

/-! ### Files -/

theorem step_of_fileStep {v : Volume} {f f' : ℕ} (h : c.fileStep v f = .inl f') :
    c.step (.file v f) = .inl (.file v f') := by
  show c.stepFile v f = _
  rw [fileStep] at h
  split at h
  · next v' f'' hstep =>
    obtain rfl := Sum.inl.inj h
    rcases stepFile_cases hstep with ⟨_, hvol⟩ | ⟨-, hfile⟩
    · cases hvol
    · cases hfile
      exact hstep
  · cases h

theorem fileStep_of_step {v v' : Volume} {f f' : ℕ}
    (h : c.step (.file v f) = .inl (.file v' f')) : v' = v ∧ c.fileStep v f = .inl f' := by
  have hstep : c.stepFile v f = .inl (.file v' f') := h
  rcases stepFile_cases hstep with ⟨_, hvol⟩ | ⟨-, hfile⟩
  · cases hvol
  · refine ⟨(ScanState.file.inj hfile).1, ?_⟩
    rw [fileStep, hstep]

/-- A step moves the file offset by the length it meets, which is positive. -/
theorem offset_fileStep {v : Volume} {f f' : ℕ} (h : c.fileStep v f = .inl f') :
    f' = c.sz.wrap (f + c.fileLength f) ∧ 0 < c.fileLength f := by
  rcases stepFile_cases (step_of_fileStep h) with ⟨_, hvol⟩ | ⟨hsize, hfile⟩
  · cases hvol
  have hheader : fileHeaderSize = 24 := rfl
  refine ⟨?_, by rw [fileLength]; omega⟩
  obtain rfl := (ScanState.file.inj hfile).2
  -- rounding up wraps no differently from the sum
  have halign : c.sz.align8 f ≡ (f + 7) / 8 * 8 [MOD c.sz.modulus] := by
    rw [SizeWidth.align8]
    split
    · next h =>
      rw [show (f + 7) / 8 * 8 = f by omega]
    · rw [show (f + 7) / 8 * 8 = f - f % 8 + 8 by omega]
      exact modEq_wrap c.sz _
  have hsum : f + c.fileLength f = (f + 7) / 8 * 8 + (c.fileHdr (c.sz.align8 f)).size := by
    rw [fileLength]
    omega
  rw [hsum]
  exact halign.add_right _

private theorem reaches_of_fileStep {v : Volume} {f f' : ℕ} (h : Reaches (c.fileStep v) f f') :
    Reaches c.step (.file v f) (.file v f') :=
  h.lift (ScanState.file v) fun _ _ hnext => step_of_fileStep hnext

/-- A way from file to file stays in the volume or comes to the outer loop. -/
theorem reaches_file_cases {v v' : Volume} {f f' : ℕ}
    (h : Reaches c.step (.file v f) (.file v' f')) :
    (v' = v ∧ Reaches (c.fileStep v) f f') ∨
      ∃ good o, Reaches c.step (.file v f) (.volume good o) ∧
        Reaches c.step (.volume good o) (.file v' f') := by
  generalize hs : ScanState.file v f = s at h
  induction h using Relation.ReflTransGen.head_induction_on generalizing v f with
  | refl =>
    cases hs
    exact Or.inl ⟨rfl, Relation.ReflTransGen.refl⟩
  | @head s s' hnext hrest ih =>
    cases hs
    cases s' with
    | volume good o => exact Or.inr ⟨good, o, Relation.ReflTransGen.single hnext, hrest⟩
    | file v'' f'' =>
      obtain ⟨rfl, hfile⟩ := fileStep_of_step hnext
      rcases ih rfl with ⟨hv, hinner⟩ | ⟨good, o, hto, hfrom⟩
      · exact Or.inl ⟨hv, hinner.head hfile⟩
      · exact Or.inr ⟨good, o, hto.head hnext, hfrom⟩

/-- The lengths met move the file offset by their sum. -/
theorem modEq_of_walk_files {v : Volume} {f f' : ℕ} {ls : List ℕ}
    (h : Walk (c.fileStep v) c.filesMet f ls f') : f' ≡ f + ls.sum [MOD c.sz.modulus] := by
  refine h.modEq (fun _ => True) id (fun _ _ _ _ => trivial)
    (fun a b _ hab => ?_) trivial
  rw [id, id, (offset_fileStep hab).1, filesMet, List.sum_singleton]
  exact modEq_wrap c.sz _

theorem dvd_sum_iff {m o : ℕ} {ls : List ℕ} : m ∣ ls.sum ↔ o ≡ o + ls.sum [MOD m] := by
  rw [← Nat.modEq_zero_iff_dvd]
  constructor
  · intro h
    exact (h.symm.add_left o)
  · intro h
    exact (Nat.ModEq.add_left_cancel' o h).symm

/-! ### The exact condition -/

private theorem terminates_iff_extract :
    Terminates c.step start ↔ ∃ fuel bs, c.extractFfsFile fuel = some bs := by
  constructor
  · rintro ⟨r, fuel, hr⟩
    exact ⟨fuel, c.result r, by rw [extractFfsFile, hr, Option.map_some]⟩
  · rintro ⟨fuel, bs, h⟩
    obtain ⟨r, hr, -⟩ := Option.map_eq_some_iff.mp h
    exact ⟨r, fuel, hr⟩

/-- Without lengths that add up the walk comes to no volume offset twice. -/
theorem NoneAddUp.fvOffset_ne (h : c.NoneAddUp) {o o' : ℕ} {good good' : Bool} {t : ScanState}
    (hstart : Reaches c.step start (.volume good o)) (hnext : c.step (.volume good o) = .inl t)
    (hreach : Reaches c.step t (.volume good' o')) : o' ≠ o := by
  rintro rfl
  obtain ⟨ls, hwalk, hls⟩ := exists_walk_volume hnext hreach
  have hmod : o' ≡ o' + ls.sum [MOD c.sz.modulus] := modEq_of_walk hstart hwalk
  exact h.volumes good good' _ _ ls hstart hwalk hls (dvd_sum_iff.mpr hmod)

/-- Nor does it come round through the outer loop. -/
theorem NoneAddUp.no_round (h : c.NoneAddUp) {o : ℕ} {good : Bool} {t t' : ScanState}
    (hstart : Reaches c.step start (.volume good o)) (hto : Reaches c.step (.volume good o) t)
    (hnext : c.step t = .inl t') (hback : Reaches c.step t' (.volume good o)) : False := by
  rcases Relation.ReflTransGen.cases_head hto with rfl | ⟨u, hu, hut⟩
  · exact h.fvOffset_ne hstart hnext hback rfl
  · exact h.fvOffset_ne hstart hu ((hut.tail hnext).trans hback) rfl

theorem NoneAddUp.endsWithoutReturn (h : c.NoneAddUp) : c.EndsWithoutReturn := by
  constructor
  · rw [← terminates_iff_extract, terminates_iff_no_cycle (finite_reaches c)]
    intro t t' ht hnext hback
    cases t with
    | volume good o => exact h.fvOffset_ne ht hnext hback rfl
    | file v f =>
      cases t' with
      | volume good o => exact h.no_round (ht.tail hnext) hback hnext Relation.ReflTransGen.refl
      | file v' f' =>
        obtain ⟨rfl, hfile⟩ := fileStep_of_step hnext
        rcases reaches_file_cases hback with ⟨-, hinner⟩ | ⟨good, o, hto, hfrom⟩
        · obtain ⟨ls, hwalk⟩ := exists_walk c.filesMet hinner
          have hround := Walk.cons hfile hwalk
          exact h.files _ f f _ ht hround (List.cons_ne_nil _ _)
            (dvd_sum_iff.mpr (modEq_of_walk_files hround))
        · exact h.no_round ((ht.tail hnext).trans hto) hfrom hnext hto
  · intro good good' o t ht hnext hback
    exact h.fvOffset_ne ht hnext hback rfl

theorem EndsWithoutReturn.noneAddUp (h : c.EndsWithoutReturn) : c.NoneAddUp := by
  obtain ⟨hends, hnew⟩ := h
  constructor
  · intro good good' o o' ls hstart hwalk hls hdvd
    have hmod := modEq_of_walk hstart hwalk
    obtain rfl : o' = o := (hmod.trans (dvd_sum_iff.mp hdvd).symm).eq_of_lt_of_lt
      (wf_of_reaches (hstart.trans hwalk.reaches)).fvOffset_lt (wf_of_reaches hstart).fvOffset_lt
    obtain ⟨t, hnext, hback⟩ := hwalk.exists_next hls
    exact hnew good good' o' t hstart hnext hback
  · intro v f f' ls hstart hwalk hls hdvd
    have hmod := modEq_of_walk_files hwalk
    have hreach := hstart.trans (reaches_of_fileStep hwalk.reaches)
    obtain rfl : f' = f := (hmod.trans (dvd_sum_iff.mp hdvd).symm).eq_of_lt_of_lt
      (wf_of_reaches hreach).2.2.2 (wf_of_reaches hstart).2.2.2
    obtain ⟨g, hnext, hback⟩ := hwalk.exists_next hls
    exact not_terminates_of_cycle (step_of_fileStep hnext) (reaches_of_fileStep hback)
      ((terminates_iff_of_reaches hstart).mp (terminates_iff_extract.mpr hends))

/-! ### Lengths that do not wrap -/

private theorem sum_pos {ls : List ℕ} (hls : ls ≠ []) (hpos : ∀ l ∈ ls, 0 < l) : 0 < ls.sum := by
  obtain ⟨l, ls, rfl⟩ := List.exists_cons_of_ne_nil hls
  have hl := hpos l List.mem_cons_self
  rw [List.sum_cons]
  omega

/-- Positive lengths that take one `size_t` to another without a wrap do not add up. -/
theorem not_dvd_of_no_wrap {m o o' : ℕ} {ls : List ℕ} (heq : o' = o + ls.sum) (hlt : o' < m)
    (hls : ls ≠ []) (hpos : ∀ l ∈ ls, 0 < l) : ¬m ∣ ls.sum := by
  intro hdvd
  have hle := Nat.le_of_dvd (sum_pos hls hpos) hdvd
  omega

/-- **If no length wraps, none add up.** -/
theorem NoneWraps.noneAddUp (h : c.NoneWraps) : c.NoneAddUp := by
  constructor
  · intro good good' o o' ls hstart hwalk hls
    have hmove : ∀ s s', Reaches c.step start s → c.step s = .inl s' →
        s'.fvOffset ≡ s.fvOffset + (c.volumesMet s s').sum [MOD 0] := by
      intro s s' hs hnext
      rw [Nat.modEq_zero_iff, fvOffset_step (wf_of_reaches hs) hnext]
      have hwraps := h s s' hs hnext
      cases s' with
      | volume good' o' =>
        rw [volumesMet, List.sum_singleton]
        exact c.sz.wrap_of_lt (not_le.mp hwraps)
      | file v f => exact c.sz.wrap_of_lt (wf_of_reaches hs).fvOffset_lt
    have heq := hwalk.modEq (Reaches c.step start) ScanState.fvOffset
      (fun _ _ hs hnext => hs.tail hnext) hmove hstart
    refine not_dvd_of_no_wrap (Nat.modEq_zero_iff.mp heq)
      (wf_of_reaches (hstart.trans hwalk.reaches)).fvOffset_lt hls ?_
    refine hwalk.forall_met fun s s' _ l hl => ?_
    cases s' with
    | volume good' o' =>
      rw [List.mem_singleton.mp hl]
      exact c.volumeStep_pos _
    | file v f => exact absurd hl List.not_mem_nil
  · intro v f f' ls hstart hwalk hls
    have hmove : ∀ a b, Reaches c.step start (.file v a) → c.fileStep v a = .inl b →
        b ≡ a + (c.filesMet a b).sum [MOD 0] := by
      intro a b ha hnext
      rw [Nat.modEq_zero_iff, (offset_fileStep hnext).1, filesMet, List.sum_singleton]
      exact c.sz.wrap_of_lt (not_le.mp (h _ _ ha (step_of_fileStep hnext)))
    have heq := hwalk.modEq (fun a => Reaches c.step start (.file v a)) id
      (fun _ _ ha hnext => ha.tail (step_of_fileStep hnext)) hmove hstart
    refine not_dvd_of_no_wrap (Nat.modEq_zero_iff.mp heq)
      (wf_of_reaches (hstart.trans (reaches_of_fileStep hwalk.reaches))).2.2.2 hls ?_
    refine hwalk.forall_met fun a b hnext l hl => ?_
    rw [List.mem_singleton.mp hl]
    exact (offset_fileStep hnext).2

/-- **The loops end and no volume offset returns** if at every step offset and length
stay below the number of `size_t` values; and **iff no lengths met one after the other
add up to a multiple of that number**. -/
theorem endsWithoutReturn_iff (c : ExtractCall) :
    (c.NoneWraps → c.EndsWithoutReturn) ∧ (c.EndsWithoutReturn ↔ c.NoneAddUp) :=
  ⟨fun h => h.noneAddUp.endsWithoutReturn,
    EndsWithoutReturn.noneAddUp, NoneAddUp.endsWithoutReturn⟩

/-! ### An image on which the walk never ends -/

/-- A volume header with a length that wraps. -/
def wrappingHeader : Bytes :=
  List.replicate 32 0 ++ ofLE 8 (2 ^ 64 - 0x10000) ++ ofLE 4 efiFvhSignature ++
    List.replicate 12 0

/-- A filler block and a volume that points back to it. -/
def wrappingCall : ExtractCall where
  sz := .bits64
  rom := List.replicate 0x10000 0 ++ (wrappingHeader ++ [0])
  romSize := 0x10000 + 57
  romSize_lt := by decide
  fvGuid := allFf
  fileGuid := allFf

private theorem wrappingCall_length : wrappingCall.rom.length = 0x10000 + 57 := by
  rw [wrappingCall, List.length_append, List.length_replicate]
  rfl

private theorem wrappingCall_filler :
    wrappingCall.step (.volume true 0) = .inl (.volume true 0x10000) := by
  have hread : wrappingCall.readAt true 0 fvHeaderSize = some (List.replicate 56 0) := by
    rw [readAt_of_le (by omega) (by rw [wrappingCall_length, fvHeaderSize]; omega),
      wrappingCall]
    simp only
    rw [field_append_left (by rw [List.length_replicate, fvHeaderSize]; omega), field,
      List.drop_zero, List.take_replicate, fvHeaderSize]
    rfl
  show wrappingCall.stepVolume true 0 = _
  rw [stepVolume, hread]
  rfl

private theorem wrappingCall_volume :
    wrappingCall.step (.volume true 0x10000) = .inl (.volume true 0) := by
  have hlength : (List.replicate 0x10000 (0 : UInt8)).length = 0x10000 := List.length_replicate
  have hread : wrappingCall.readAt true 0x10000 fvHeaderSize = some wrappingHeader := by
    rw [readAt_of_le (by omega) (by rw [wrappingCall_length, fvHeaderSize]; omega),
      wrappingCall]
    simp only
    rw [field_block hlength (show wrappingHeader.length = fvHeaderSize by rfl)]
  show wrappingCall.stepVolume true 0x10000 = _
  rw [stepVolume, hread]
  rfl

theorem not_forall_endsWithoutReturn : ¬∀ c : ExtractCall, c.EndsWithoutReturn := by
  intro h
  have hback : Reaches wrappingCall.step (.volume true 0x10000) (.volume true 0) :=
    Relation.ReflTransGen.single wrappingCall_volume
  exact (h wrappingCall).2 true true 0 _ Relation.ReflTransGen.refl wrappingCall_filler hback

end ExtractCall

end UefiFv
