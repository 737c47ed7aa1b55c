/-
The flexible endpoints of the USB device controller.

Sixteen slots, a byte each in shared registers, name the virtual device and the
endpoint that use them.  A slot without an endpoint number is free; the byte of a
free slot and the number of device 0 look alike in the device field.

* `owner_assign` — a written slot decodes to what was written;
* `claimEndpoints_iff` — endpoints are claimed as long as there are free slots;
* `holds_claimEndpoints`, `femapRead_claimEndpoints` — who owns what afterwards;
* `femapRead_releaseEndpoints` — releasing empties the slots of one device.
-/
import Canopy.ByteLanes
import Mathlib.Data.Finset.Card
import Mathlib.Data.List.Range

namespace GxpUdc.Flex

open ByteLanes

/-- Limits of the hardware. -/
def maxNumFlexEp : ℕ := 16
def maxNumVdevice : ℕ := 8
def maxNumFlexEpPerVdev : ℕ := 7

/-- Registers that all virtual devices share. -/
def evgien : ℕ := 0x04
def evfemap : ℕ := 0x10
def evfemapVdevnumMask : BitVec 8 := 0x07
/-- `EVFEMAP_VDEVNUM`. -/
def evfemapVdevnum (val : ℕ) : BitVec 8 := BitVec.ofNat 8 val
def evfemapEpnumMask : BitVec 8 := 0x70
/-- `EVFEMAP_EPNUM`. -/
def evfemapEpnum (val : ℕ) : BitVec 8 := BitVec.ofNat 8 val <<< 4

/-- The registers all virtual devices share (`udcg_map`). -/
abbrev Udcg := ℕ → BitVec 32

/-- The byte of EVFEMAP that belongs to a flexible endpoint. -/
def femapRead (u : Udcg) (fep : ℕ) : BitVec 8 := laneRead u evfemap fep

/-- The byte of EVFEMAP is replaced, by a read and a write of its register. -/
def femapWrite (u : Udcg) (fep : ℕ) (value : BitVec 8) : Udcg := laneWrite u evfemap fep value

/-- The inner loop of `gxp_udc_connect`. -/
def firstFree (u : Udcg) : Option ℕ :=
  (List.range maxNumFlexEp).find? fun i => femapRead u i &&& evfemapEpnumMask = 0

/-- The byte written for endpoint `j`. -/
def assign (femap : BitVec 8) (j vdevnum : ℕ) : BitVec 8 :=
  let femap := (femap &&& ~~~evfemapEpnumMask) ||| evfemapEpnum j
  (femap &&& ~~~evfemapVdevnumMask) ||| evfemapVdevnum vdevnum

/-- The outer loop of `gxp_udc_connect` over the endpoints `js`, and whether it ends
without running out of free slots. -/
def claimEndpoints (vdevnum : ℕ) : List ℕ → Udcg → Bool × Udcg
  | [], u => (true, u)
  | j :: js, u =>
    match firstFree u with
    | none => (false, u)
    | some i => claimEndpoints vdevnum js (femapWrite u i (assign (femapRead u i) j vdevnum))

/-- One turn of the loop of `gxp_udc_disconnect`. -/
def releaseStep (vdevnum : ℕ) (u : Udcg) (i : ℕ) : Udcg :=
  if evfemapVdevnum vdevnum = femapRead u i &&& evfemapVdevnumMask then femapWrite u i 0 else u

/-- The loop of `gxp_udc_disconnect`. -/
def releaseEndpoints (vdevnum : ℕ) (u : Udcg) : Udcg :=
  (List.range maxNumFlexEp).foldl (releaseStep vdevnum) u

/-! ### Slots -/

/-- The device and the endpoint a slot belongs to, if it is not free. -/
def owner (femap : BitVec 8) : Option (ℕ × ℕ) :=
  if femap &&& evfemapEpnumMask = 0 then none
  else some ((femap &&& evfemapVdevnumMask).toNat, ((femap &&& evfemapEpnumMask) >>> 4).toNat)

theorem owner_zero : owner 0 = none := rfl

private theorem owner_eq_none_iff {femap : BitVec 8} :
    owner femap = none ↔ femap &&& evfemapEpnumMask = 0 := by
  rw [owner]
  split
  · next h => exact ⟨fun _ => h, fun _ => rfl⟩
  · next h => exact ⟨fun hnone => absurd hnone (Option.some_ne_none _), fun hzero => absurd hzero h⟩

/-- The device field of a slot with an owner. -/
theorem vdevnum_of_owner {femap : BitVec 8} {v e : ℕ} (h : owner femap = some (v, e)) :
    (femap &&& evfemapVdevnumMask).toNat = v := by
  rw [owner] at h
  split at h
  · exact absurd h.symm (Option.some_ne_none _)
  · exact (Prod.ext_iff.mp (Option.some.inj h)).1

private theorem assign_epnum (femap : BitVec 8) (j : ℕ) {v : ℕ} (hv : v < maxNumVdevice) :
    assign femap j v &&& evfemapEpnumMask = evfemapEpnum j &&& evfemapEpnumMask := by
  refine BitVec.eq_of_getLsbD_eq fun b hb => ?_
  rw [maxNumVdevice] at hv
  rw [assign, evfemapEpnumMask, evfemapVdevnumMask, evfemapVdevnum]
  interval_cases v <;> interval_cases b <;> simp

private theorem assign_vdevnum (femap : BitVec 8) (j v : ℕ) :
    assign femap j v &&& evfemapVdevnumMask = evfemapVdevnum v &&& evfemapVdevnumMask := by
  refine BitVec.eq_of_getLsbD_eq fun b hb => ?_
  rw [assign, evfemapEpnumMask, evfemapVdevnumMask]
  interval_cases b <;> simp

theorem owner_assign (femap : BitVec 8) {j v : ℕ} (hj : 1 ≤ j) (hj' : j ≤ maxNumFlexEpPerVdev)
    (hv : v < maxNumVdevice) : owner (assign femap j v) = some (v, j) := by
  rw [owner, assign_epnum femap j hv, assign_vdevnum]
  rw [maxNumFlexEpPerVdev] at hj'
  rw [maxNumVdevice] at hv
  interval_cases j <;> interval_cases v <;> rfl

/-- The comparison of `gxp_udc_disconnect`. -/
theorem evfemapVdevnum_eq_iff {femap : BitVec 8} {v : ℕ} (hv : v < maxNumVdevice) :
    evfemapVdevnum v = femap &&& evfemapVdevnumMask
      ↔ (femap &&& evfemapVdevnumMask).toNat = v := by
  have hlt : v % 2 ^ 8 = v := Nat.mod_eq_of_lt (by rw [maxNumVdevice] at hv; omega)
  rw [← BitVec.toNat_inj, evfemapVdevnum, BitVec.toNat_ofNat, hlt]
  exact eq_comm

theorem femapRead_femapWrite (u : Udcg) (fep : ℕ) (value : BitVec 8) :
    femapRead (femapWrite u fep value) = Function.update (femapRead u) fep value := by
  funext k
  exact laneRead_laneWrite u evfemap fep k value

/-! ### Free slots -/

def freeSlots (u : Udcg) : Finset ℕ :=
  (Finset.range maxNumFlexEp).filter fun k => owner (femapRead u k) = none

theorem mem_freeSlots {u : Udcg} {k : ℕ} :
    k ∈ freeSlots u ↔ k < maxNumFlexEp ∧ owner (femapRead u k) = none := by
  rw [freeSlots, Finset.mem_filter, Finset.mem_range]

theorem firstFree_mem {u : Udcg} {i : ℕ} (h : firstFree u = some i) : i ∈ freeSlots u := by
  have hmem := List.mem_of_find?_eq_some h
  have hzero := List.find?_some h
  exact mem_freeSlots.mpr ⟨List.mem_range.mp hmem,
    owner_eq_none_iff.mpr (of_decide_eq_true hzero)⟩

private theorem firstFree_eq_none_iff {u : Udcg} : firstFree u = none ↔ freeSlots u = ∅ := by
  rw [firstFree, List.find?_eq_none, Finset.eq_empty_iff_forall_notMem]
  constructor
  · intro h k hk
    obtain ⟨hlt, hfree⟩ := mem_freeSlots.mp hk
    exact h k (List.mem_range.mpr hlt) (decide_eq_true (owner_eq_none_iff.mp hfree))
  · intro h k hk hzero
    exact h k (mem_freeSlots.mpr ⟨List.mem_range.mp hk,
      owner_eq_none_iff.mpr (of_decide_eq_true hzero)⟩)

/-- A claimed slot is not free any more. -/
theorem freeSlots_femapWrite (u : Udcg) (i : ℕ) {value : BitVec 8} (h : owner value ≠ none) :
    freeSlots (femapWrite u i value) = (freeSlots u).erase i := by
  ext k
  rw [Finset.mem_erase, mem_freeSlots, mem_freeSlots, femapRead_femapWrite]
  by_cases hk : k = i
  · subst hk
    rw [Function.update_self]
    exact ⟨fun hfree => absurd hfree.2 h, fun hne => absurd rfl hne.1⟩
  · rw [Function.update_of_ne hk]
    exact ⟨fun hfree => ⟨hk, hfree⟩, fun hfree => hfree.2⟩

/-! ### Claiming -/

/-- The slots of device `v` are one for each of the endpoints 1 to `n`. -/
structure Holds (m : ℕ → BitVec 8) (v n : ℕ) : Prop where
  unique : ∀ e, 1 ≤ e → e ≤ n → ∃! k, k < maxNumFlexEp ∧ owner (m k) = some (v, e)
  range : ∀ k < maxNumFlexEp, ∀ e, owner (m k) = some (v, e) → 1 ≤ e ∧ e ≤ n

section Claim

variable {v : ℕ}

theorem claimEndpoints_cons {u : Udcg} {i : ℕ} (hfree : firstFree u = some i) (j : ℕ)
    (js : List ℕ) : claimEndpoints v (j :: js) u
      = claimEndpoints v js (femapWrite u i (assign (femapRead u i) j v)) := by
  rw [claimEndpoints, hfree]

/-- Slots that are not free stay as they are. -/
theorem femapRead_claimEndpoints (js : List ℕ) (u : Udcg) {k : ℕ}
    (hk : owner (femapRead u k) ≠ none) :
    femapRead (claimEndpoints v js u).2 k = femapRead u k := by
  induction js generalizing u with
  | nil => rfl
  | cons j js ih =>
    cases hfree : firstFree u with
    | none => rw [claimEndpoints, hfree]
    | some i =>
      have hne : k ≠ i := by
        rintro rfl
        exact hk (mem_freeSlots.mp (firstFree_mem hfree)).2
      have hsame : femapRead (femapWrite u i (assign (femapRead u i) j v)) k = femapRead u k := by
        rw [femapRead_femapWrite, Function.update_of_ne hne]
      rw [claimEndpoints_cons hfree, ih _ (by rwa [hsame]), hsame]

/-- The registers below the map are not touched. -/
theorem claimEndpoints_of_lt (js : List ℕ) (u : Udcg) {a : ℕ} (ha : a < evfemap) :
    (claimEndpoints v js u).2 a = u a := by
  induction js generalizing u with
  | nil => rfl
  | cons j js ih =>
    rw [claimEndpoints]
    split
    · rfl
    · rw [ih]
      exact laneWrite_of_lt u ha _ _

variable (hv : v < maxNumVdevice)
include hv

/-- **Running out of slots**: the loop ends well iff there are enough, and otherwise
takes all there are. -/
theorem claimEndpoints_iff {n c : ℕ} (hc : n + c ≤ maxNumFlexEpPerVdev) (u : Udcg) :
    ((claimEndpoints v (List.range' (n + 1) c) u).1 = true ↔ c ≤ (freeSlots u).card) ∧
      (freeSlots (claimEndpoints v (List.range' (n + 1) c) u).2).card
        = (freeSlots u).card - c := by
  induction c generalizing n u with
  | zero => exact ⟨⟨fun _ => Nat.zero_le _, fun _ => rfl⟩, rfl⟩
  | succ c ih =>
    rw [List.range'_succ]
    cases hfree : firstFree u with
    | none =>
      -- no slot is free, and the claim fails at its first endpoint
      have hcard : (freeSlots u).card = 0 :=
        Finset.card_eq_zero.mpr (firstFree_eq_none_iff.mp hfree)
      rw [claimEndpoints, hfree, hcard]
      exact ⟨⟨fun h => absurd h Bool.false_ne_true, fun h => absurd h (Nat.not_succ_le_zero c)⟩,
        (Nat.zero_sub _).symm⟩
    | some i =>
      have hmem := firstFree_mem hfree
      have howner := owner_assign (femapRead u i) (Nat.le_add_left 1 n) (by omega) hv
      -- the claimed slot is one less for the rest
      have hcard : (freeSlots (femapWrite u i (assign (femapRead u i) (n + 1) v))).card
          = (freeSlots u).card - 1 := by
        rw [freeSlots_femapWrite u i (by rw [howner]; exact Option.some_ne_none _),
          Finset.card_erase_of_mem hmem]
      have hpos : 0 < (freeSlots u).card := Finset.card_pos.mpr ⟨i, hmem⟩
      obtain ⟨hok, hleft⟩ := ih (n := n + 1) (by omega)
        (femapWrite u i (assign (femapRead u i) (n + 1) v))
      rw [claimEndpoints_cons hfree, hok, hleft, hcard]
      omega

/-- One more endpoint. -/
theorem holds_assign {m : ℕ → BitVec 8} {n i : ℕ} (h : Holds m v n)
    (hn : n + 1 ≤ maxNumFlexEpPerVdev) (hi : i < maxNumFlexEp) (hfree : owner (m i) = none) :
    Holds (Function.update m i (assign (m i) (n + 1) v)) v (n + 1) := by
  have howner := owner_assign (m i) (Nat.le_add_left 1 n) hn hv
  constructor
  · intro e he hle
    -- an endpoint that had its slot keeps it; the new one has slot `i`
    rcases Nat.lt_or_ge e (n + 1) with hlt | hge
    · obtain ⟨k, ⟨hk, hown⟩, huniq⟩ := h.unique e he (by omega)
      have hki : k ≠ i := by
        rintro rfl
        rw [hfree] at hown
        exact absurd hown.symm (Option.some_ne_none _)
      refine ⟨k, ⟨hk, by rwa [Function.update_of_ne hki]⟩, ?_⟩
      rintro k' ⟨hk', hown'⟩
      have hki' : k' ≠ i := by
        rintro rfl
        rw [Function.update_self, howner] at hown'
        have := (Prod.ext_iff.mp (Option.some.inj hown')).2
        simp only at this
        omega
      rw [Function.update_of_ne hki'] at hown'
      exact huniq k' ⟨hk', hown'⟩
    · have heq : e = n + 1 := by omega
      subst heq
      refine ⟨i, ⟨hi, by rw [Function.update_self, howner]⟩, ?_⟩
      rintro k ⟨hk, hown⟩
      by_contra hki
      rw [Function.update_of_ne hki] at hown
      have := (h.range k hk (n + 1) hown).2
      omega
  · intro k hk e hown
    by_cases hki : k = i
    · subst hki
      rw [Function.update_self, howner] at hown
      have heq : n + 1 = e := (Prod.ext_iff.mp (Option.some.inj hown)).2
      omega
    · rw [Function.update_of_ne hki] at hown
      have := h.range k hk e hown
      omega

/-- **A device that gets its slots** owns one for each endpoint. -/
theorem holds_claimEndpoints {n c : ℕ} (hc : n + c ≤ maxNumFlexEpPerVdev) {u : Udcg}
    (h : Holds (femapRead u) v n)
    (hok : (claimEndpoints v (List.range' (n + 1) c) u).1 = true) :
    Holds (femapRead (claimEndpoints v (List.range' (n + 1) c) u).2) v (n + c) := by
  induction c generalizing n u with
  | zero => exact h
  | succ c ih =>
    rw [List.range'_succ] at hok ⊢
    cases hfree : firstFree u with
    | none =>
      rw [claimEndpoints, hfree] at hok
      exact absurd hok Bool.false_ne_true
    | some i =>
      obtain ⟨hi, hnone⟩ := mem_freeSlots.mp (firstFree_mem hfree)
      rw [claimEndpoints_cons hfree] at hok ⊢
      have hsucc : n + (c + 1) = n + 1 + c := by omega
      rw [hsucc]
      refine ih (by omega) ?_ hok
      rw [femapRead_femapWrite]
      exact holds_assign hv h (by omega) hi hnone

/-- The slots the loop claims are the device's own. -/
theorem owner_claimEndpoints {n c : ℕ} (hc : n + c ≤ maxNumFlexEpPerVdev) (u : Udcg) (k : ℕ) :
    femapRead (claimEndpoints v (List.range' (n + 1) c) u).2 k = femapRead u k ∨
      owner (femapRead u k) = none ∧
        ∃ e, owner (femapRead (claimEndpoints v (List.range' (n + 1) c) u).2 k) = some (v, e) := by
  induction c generalizing n u with
  | zero => exact .inl rfl
  | succ c ih =>
    rw [List.range'_succ]
    cases hfree : firstFree u with
    | none =>
      rw [claimEndpoints, hfree]
      exact .inl rfl
    | some i =>
      obtain ⟨-, hnone⟩ := mem_freeSlots.mp (firstFree_mem hfree)
      have howner := owner_assign (femapRead u i) (Nat.le_add_left 1 n) (by omega) hv
      rw [claimEndpoints_cons hfree]
      by_cases hki : k = i
      · subst hki
        -- once owned, the slot is not claimed again
        have hwritten : owner (femapRead (femapWrite u k (assign (femapRead u k) (n + 1) v)) k)
            = some (v, n + 1) := by
          rw [femapRead_femapWrite, Function.update_self, howner]
        refine .inr ⟨hnone, n + 1, ?_⟩
        rw [femapRead_claimEndpoints _ _ (by rw [hwritten]; exact Option.some_ne_none _),
          hwritten]
      · have hsame : femapRead (femapWrite u i (assign (femapRead u i) (n + 1) v)) k
            = femapRead u k := by
          rw [femapRead_femapWrite, Function.update_of_ne hki]
        rw [← hsame]
        exact ih (by omega) _

/-- A loop that runs out of slots has not got to its last endpoint. -/
theorem owner_claimEndpoints_last {n c : ℕ} (hc : n + c ≤ maxNumFlexEpPerVdev) {u : Udcg}
    {k : ℕ} (hk : owner (femapRead u k) ≠ some (v, n + c))
    (hok : (claimEndpoints v (List.range' (n + 1) c) u).1 = false) :
    owner (femapRead (claimEndpoints v (List.range' (n + 1) c) u).2 k) ≠ some (v, n + c) := by
  induction c generalizing n u with
  | zero => exact absurd hok.symm Bool.false_ne_true
  | succ c ih =>
    rw [List.range'_succ] at hok ⊢
    cases hfree : firstFree u with
    | none =>
      rw [claimEndpoints, hfree]
      exact hk
    | some i =>
      rw [claimEndpoints_cons hfree] at hok ⊢
      have hsucc : n + (c + 1) = n + 1 + c := by omega
      rw [hsucc] at hk ⊢
      refine ih (by omega) ?_ hok
      rw [femapRead_femapWrite]
      by_cases hki : k = i
      · subst hki
        rw [Function.update_self, owner_assign _ (Nat.le_add_left 1 n) (by omega) hv]
        intro hlast
        -- the last endpoint is claimed, and then the loop has ended well
        have hzero : c = 0 := by
          have := (Prod.ext_iff.mp (Option.some.inj hlast)).2
          simp only at this
          omega
        subst hzero
        exact absurd hok.symm Bool.false_ne_true
      · rwa [Function.update_of_ne hki]

/-- So the slots of other devices, and only theirs, belong to them afterwards. -/
theorem owner_claimEndpoints_other {n c : ℕ} (hc : n + c ≤ maxNumFlexEpPerVdev) (u : Udcg)
    {w : ℕ} (hw : w ≠ v) (k e : ℕ) :
    owner (femapRead (claimEndpoints v (List.range' (n + 1) c) u).2 k) = some (w, e)
      ↔ owner (femapRead u k) = some (w, e) := by
  rcases owner_claimEndpoints hv hc u k with hsame | ⟨hnone, e', hown⟩
  · rw [hsame]
  · rw [hnone, hown]
    constructor
    · intro h
      exact absurd (Prod.ext_iff.mp (Option.some.inj h)).1.symm hw
    · intro h
      exact absurd h.symm (Option.some_ne_none _)

end Claim

/-! ### Releasing -/

private theorem releaseStep_eq {v : ℕ} (hv : v < maxNumVdevice) (u : Udcg) (i : ℕ) :
    femapRead (releaseStep v u i) = fun k =>
      if k = i ∧ (femapRead u k &&& evfemapVdevnumMask).toNat = v then 0 else femapRead u k := by
  funext k
  rw [releaseStep]
  by_cases hmatch : (femapRead u i &&& evfemapVdevnumMask).toNat = v
  · rw [if_pos ((evfemapVdevnum_eq_iff hv).mpr hmatch), femapRead_femapWrite]
    by_cases hk : k = i
    · subst hk
      rw [Function.update_self, if_pos ⟨rfl, hmatch⟩]
    · rw [Function.update_of_ne hk, if_neg fun h => hk h.1]
  · rw [if_neg fun h => hmatch ((evfemapVdevnum_eq_iff hv).mp h)]
    rw [if_neg]
    rintro ⟨rfl, h⟩
    exact hmatch h

/-- **Releasing** empties the slots with the number of the device, and no other. -/
theorem femapRead_releaseEndpoints {v : ℕ} (hv : v < maxNumVdevice) (u : Udcg) (k : ℕ) :
    femapRead (releaseEndpoints v u) k =
      if k < maxNumFlexEp ∧ (femapRead u k &&& evfemapVdevnumMask).toNat = v then 0
      else femapRead u k := by
  rw [releaseEndpoints]
  generalize maxNumFlexEp = n
  induction n with
  | zero => simp
  | succ n ih =>
    rw [List.range_succ, List.foldl_append, List.foldl_cons, List.foldl_nil, releaseStep_eq hv]
    show (if k = n ∧ (femapRead ((List.range n).foldl (releaseStep v) u) k
      &&& evfemapVdevnumMask).toNat = v then 0 else _) = _
    rw [ih]
    by_cases hk : k = n
    · subst hk
      have hbefore : ¬(k < k ∧ (femapRead u k &&& evfemapVdevnumMask).toNat = v) :=
        fun h => absurd h.1 (lt_irrefl k)
      rw [if_neg hbefore]
      exact if_congr (and_congr_left fun _ => by omega) rfl rfl
    · rw [if_neg fun h => hk h.1]
      exact if_congr (and_congr_left fun _ => by omega) rfl rfl

section Release

variable {v : ℕ} (hv : v < maxNumVdevice) (u : Udcg)
include hv

/-- Slots of another device stay. -/
theorem femapRead_releaseEndpoints_other {w e k : ℕ} (hw : w ≠ v)
    (hown : owner (femapRead u k) = some (w, e)) :
    femapRead (releaseEndpoints v u) k = femapRead u k := by
  rw [femapRead_releaseEndpoints hv, if_neg]
  rintro ⟨-, h⟩
  exact hw ((vdevnum_of_owner hown).symm.trans h)

theorem owner_releaseEndpoints_other {w : ℕ} (hw : w ≠ v) (k e : ℕ) :
    owner (femapRead (releaseEndpoints v u) k) = some (w, e)
      ↔ owner (femapRead u k) = some (w, e) := by
  constructor
  · intro hown
    rw [femapRead_releaseEndpoints hv] at hown
    split at hown
    · exact absurd hown.symm (Option.some_ne_none _)
    · exact hown
  · intro hown
    rw [femapRead_releaseEndpoints_other hv u hw hown]
    exact hown

/-- The device owns nothing any more. -/
theorem holds_releaseEndpoints : Holds (femapRead (releaseEndpoints v u)) v 0 where
  unique := fun e he hle => absurd (he.trans hle) (Nat.not_succ_le_zero 0)
  range := by
    intro k hk e hown
    rw [femapRead_releaseEndpoints hv] at hown
    split at hown
    · exact absurd hown.symm (Option.some_ne_none _)
    · next h => exact absurd ⟨hk, vdevnum_of_owner hown⟩ h

end Release

/-- What a device holds depends on the slots that are its own. -/
theorem holds_congr {m m' : ℕ → BitVec 8} {v n : ℕ}
    (h : ∀ k e, owner (m' k) = some (v, e) ↔ owner (m k) = some (v, e)) :
    Holds m' v n ↔ Holds m v n := by
  constructor
  · intro hm
    exact ⟨fun e he hle => by simpa only [h] using hm.unique e he hle,
      fun k hk e hown => hm.range k hk e ((h k e).mpr hown)⟩
  · intro hm
    exact ⟨fun e he hle => by simpa only [h] using hm.unique e he hle,
      fun k hk e hown => hm.range k hk e ((h k e).mp hown)⟩

end GxpUdc.Flex
