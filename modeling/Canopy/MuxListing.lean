/-
Mux topologies, and the directories in which sysfs lists them.

A topology says which kernel bus a channel of a mux is.  Sysfs lists a mux as
`ahb@…i2cmux@N`, its channels in there as links `channel-C` to `…/i2c-B`, both
among entries of other names.  None of this is about how the daemon reads names.

* `Lists` — the directories that list a topology;
* `exists_lists` — every topology is listed by some directories;
* `readDecimal_toString` — a number is read back from its decimal digits;
* `muxId_of_names`, `route_of_names` — the daemon reads the names of a listing, and
  passes over the other entries (`muxId_of_foreign`, `route_of_foreign`).
-/
import Canopy.PlatDef
import Mathlib.Data.List.Infix

namespace PlatDef

/-! ### Listings -/

/-- The bus of a channel, by the index of its mux and its number. -/
abbrev MuxTopology := UInt8 → UInt8 → Option ℤ

/-- A link `channel-C` to `…/i2c-B`; the number of a bus is an `int`. -/
def ChannelEntry.Names (entry : ChannelEntry) (channel : UInt8) (bus : ℤ) : Prop :=
  ∃ n : ℕ, n < 2 ^ 31 ∧ bus = n ∧ entry.name = "channel-" ++ toString channel.toNat ∧
    entry.target = some ("i2c-" ++ toString n)

/-- Anything but a link of a channel to a bus. -/
def ChannelEntry.Foreign (entry : ChannelEntry) : Prop :=
  ¬"channel-".toList <+: entry.name.toList ∨
    ∀ target ∈ entry.target, ¬"i2c-".toList <+: target.toList

/-- A directory `ahb@…i2cmux@N`, the first `i2cmux@` of the name being this one. -/
def MuxEntry.Names (entry : MuxEntry) (mux : UInt8) : Prop :=
  ∃ parent : String, ¬"i2cmux@".toList <:+: ("ahb@" ++ parent ++ "i2cmux").toList ∧
    entry.name = "ahb@" ++ parent ++ "i2cmux@" ++ toString mux.toNat

/-- Anything but a mux. -/
def MuxEntry.Foreign (entry : MuxEntry) : Prop :=
  ¬"ahb@".toList <+: entry.name.toList ∨ ¬"i2cmux@".toList <:+: entry.name.toList

/-- The directories `ahb` list the channels of `topology` and no others. -/
structure Lists (ahb : List MuxEntry) (topology : MuxTopology) : Prop where
  muxes : ∀ entry ∈ ahb, entry.Foreign ∨ ∃ mux, entry.Names mux
  channels : ∀ entry ∈ ahb, ∀ mux, entry.Names mux → ∀ link ∈ entry.channels,
    link.Foreign ∨ ∃ channel bus, link.Names channel bus
  routes : ∀ mux channel bus, topology mux channel = some bus ↔
    ∃ entry ∈ ahb, entry.Names mux ∧ ∃ link ∈ entry.channels, link.Names channel bus

/-! ### Decimal numbers -/

private theorem toNat_of_isDigit {c : Char} (h : c.isDigit = true) :
    48 ≤ c.toNat ∧ c.toNat ≤ 57 := by
  rw [Char.isDigit, Bool.and_eq_true, decide_eq_true_eq, decide_eq_true_eq] at h
  exact ⟨UInt32.le_iff_toNat_le.mp h.1, UInt32.le_iff_toNat_le.mp h.2⟩

/-- A number is read back from its digits. -/
theorem readDecimal_toString (n : ℕ) : readDecimal (toString n).toList = some (false, n) := by
  rw [Nat.toString_eq_repr, Nat.toList_repr]
  have hdigit : ∀ c ∈ Nat.toDigits 10 n, c.isDigit = true := fun c hc =>
    Nat.isDigit_of_mem_toDigits (by omega) le_rfl hc
  have hall : (Nat.toDigits 10 n).takeWhile Char.isDigit = Nat.toDigits 10 n :=
    List.takeWhile_eq_self_iff.mpr hdigit
  have hvalue : (Nat.toDigits 10 n).foldl (fun m c => 10 * m + (c.toNat - 48)) 0 = n :=
    Nat.ofDigitChars_ten_toDigits
  obtain ⟨d, ds, hds⟩ := List.exists_cons_of_ne_nil (Nat.toDigits_ne_nil (n := n) (b := 10))
  rw [hds] at hdigit hall hvalue ⊢
  -- the first digit is no blank and no sign
  obtain ⟨hle, hge⟩ := toNat_of_isDigit (hdigit d List.mem_cons_self)
  have hspace : ¬(d = ' ' ∨ (9 ≤ d.toNat ∧ d.toNat ≤ 13)) := by
    rintro (rfl | ⟨-, h⟩)
    · exact absurd hle (by decide)
    · omega
  have hminus : d ≠ '-' := by
    rintro rfl
    exact absurd hle (by decide)
  have hplus : d ≠ '+' := by
    rintro rfl
    exact absurd hle (by decide)
  have hdrop : (d :: ds).dropWhile (fun c => decide (c = ' ' ∨ (9 ≤ c.toNat ∧ c.toNat ≤ 13))) =
      d :: ds := List.dropWhile_cons_of_neg (by rw [decide_eq_true_eq]; exact hspace)
  rw [readDecimal]
  simp only [hdrop, List.head?_cons, Option.some_inj, hminus, hplus, or_self, if_false, hall]
  rw [if_neg (List.cons_ne_nil d ds), hvalue]
  rfl

private theorem stoul_toString {w n : ℕ} (h : n < 2 ^ w) :
    stoul w (toString n).toList = some n := by
  rw [stoul, readDecimal_toString]
  exact if_neg (by omega)

private theorem stoi_toString {n : ℕ} (h : n < 2 ^ 31) :
    stoi (toString n).toList = some (n : ℤ) := by
  rw [stoi, readDecimal_toString]
  exact if_neg (by simp only [Bool.false_eq_true, if_false]; omega)

/-- `unsigned long` has at least 32 bits, so every byte is read back. -/
theorem byteOfDecimal_toString {w : ℕ} (hw : 32 ≤ w) (b : UInt8) :
    byteOfDecimal w (toString b.toNat).toList = some b := by
  have hb : b.toNat < 256 := b.toNat_lt
  have hpow : 2 ^ 32 ≤ 2 ^ w := Nat.pow_le_pow_right (by omega) hw
  rw [byteOfDecimal, stoul_toString (by omega)]
  simp only
  rw [if_neg (by omega), UInt8.ofNat_toNat]

/-! ### Names -/

/-- The text behind the first occurrence of a pattern. -/
theorem afterFirst_append {pat rest : List Char} : ∀ {pre : List Char},
    ¬pat <:+: pre ++ pat.dropLast → afterFirst pat (pre ++ (pat ++ rest)) = some rest
  | [], _ => by
    cases pat with
    | nil => cases rest <;> simp [afterFirst]
    | cons c cs =>
      have hprefix : (c :: cs).isPrefixOf (c :: (cs ++ rest)) = true :=
        List.isPrefixOf_iff_prefix.mpr (List.prefix_append (c :: cs) rest)
      rw [List.nil_append, List.cons_append, afterFirst, if_pos hprefix]
      exact congrArg some (List.drop_left' rfl)
  | x :: pre, h => by
    have hfirst : ¬pat.isPrefixOf (x :: (pre ++ (pat ++ rest))) = true := by
      intro hpre
      -- an occurrence this early ends before the last character of the other
      have hshort : x :: pre ++ pat.dropLast <+: x :: (pre ++ (pat ++ rest)) := by
        rw [← List.cons_append, List.prefix_append_right_inj]
        exact (List.dropLast_prefix pat).trans (List.prefix_append pat rest)
      have hlength : pat.length ≤ (x :: pre ++ pat.dropLast).length := by
        rw [List.length_append, List.length_dropLast, List.length_cons]
        omega
      have hpat := List.isPrefixOf_iff_prefix.mp hpre
      exact h (List.prefix_of_prefix_length_le hpat hshort hlength).isInfix
    rw [List.cons_append, afterFirst, if_neg hfirst]
    exact afterFirst_append fun htail => h (htail.trans (List.suffix_cons x _).isInfix)

/-- Without the pattern there is nothing behind it. -/
theorem afterFirst_eq_none {pat : List Char} : ∀ {s : List Char},
    ¬pat <:+: s → afterFirst pat s = none
  | [], h => by
    rw [afterFirst, if_neg]
    rintro rfl
    exact h List.infix_rfl
  | c :: s, h => by
    have hfirst : ¬pat.isPrefixOf (c :: s) = true := fun hpre =>
      h (List.isPrefixOf_iff_prefix.mp hpre).isInfix
    rw [afterFirst, if_neg hfirst]
    exact afterFirst_eq_none fun htail => h (htail.trans (List.suffix_cons c s).isInfix)

private theorem toList_startsWith (pre s : String) : pre.toList <+: (pre ++ s).toList := by
  rw [String.toList_append]
  exact List.prefix_append _ _

section Read

variable {w : ℕ} {entry : MuxEntry} {link : ChannelEntry} {mux channel : UInt8} {bus : ℤ}

theorem muxId_of_names (hw : 32 ≤ w) (h : entry.Names mux) : entry.muxId w = some mux := by
  obtain ⟨parent, hfirst, hname⟩ := h
  have hsplit : entry.name.toList = ("ahb@" ++ parent).toList ++
      ("i2cmux@".toList ++ (toString mux.toNat).toList) := by
    rw [hname, String.toList_append, String.toList_append, List.append_assoc]
  have hahb : "ahb@".toList.isPrefixOf entry.name.toList = true := by
    rw [List.isPrefixOf_iff_prefix, hname, String.append_assoc, String.append_assoc]
    exact toList_startsWith _ _
  rw [String.toList_append] at hfirst
  rw [MuxEntry.muxId, if_pos hahb, hsplit, afterFirst_append hfirst, Option.bind_some,
    byteOfDecimal_toString hw]

theorem muxId_of_foreign (h : entry.Foreign) : entry.muxId w = none := by
  rw [MuxEntry.muxId]
  rcases h with hahb | hmux
  · rw [if_neg fun hpre => hahb (List.isPrefixOf_iff_prefix.mp hpre)]
  · rw [afterFirst_eq_none hmux]
    exact ite_self none

theorem route_of_names (hw : 32 ≤ w) (h : link.Names channel bus) :
    link.route w = some (channel, bus) := by
  obtain ⟨n, hn, rfl, hname, htarget⟩ := h
  have hchannel : "channel-".toList.isPrefixOf link.name.toList = true := by
    rw [List.isPrefixOf_iff_prefix, hname]
    exact toList_startsWith _ _
  have hi2c : "i2c-".toList.isPrefixOf ("i2c-" ++ toString n).toList = true :=
    List.isPrefixOf_iff_prefix.mpr (toList_startsWith _ _)
  have hnumber : link.name.toList.drop 8 = (toString channel.toNat).toList := by
    rw [hname, String.toList_append]
    exact List.drop_left' rfl
  have hbus : ("i2c-" ++ toString n).toList.drop 4 = (toString n).toList := by
    rw [String.toList_append]
    exact List.drop_left' rfl
  rw [ChannelEntry.route, if_pos hchannel, hnumber, byteOfDecimal_toString hw, htarget]
  simp only
  rw [if_pos hi2c, hbus, stoi_toString hn]
  rfl

theorem route_of_foreign (h : link.Foreign) : link.route w = none := by
  rw [ChannelEntry.route]
  rcases h with hchannel | htarget
  · rw [if_neg fun hpre => hchannel (List.isPrefixOf_iff_prefix.mp hpre)]
  · split
    · split
      · rfl
      · split
        · rfl
        · next target hlink =>
          rw [if_neg fun hpre => htarget target hlink (List.isPrefixOf_iff_prefix.mp hpre)]
    · rfl

end Read

/-! ### Every topology is listed -/

theorem MuxEntry.Names.unique {entry : MuxEntry} {mux mux' : UInt8} (h : entry.Names mux)
    (h' : entry.Names mux') : mux = mux' :=
  Option.some.inj ((muxId_of_names le_rfl h).symm.trans (muxId_of_names le_rfl h'))

theorem ChannelEntry.Names.unique {link : ChannelEntry} {channel channel' : UInt8} {bus bus' : ℤ}
    (h : link.Names channel bus) (h' : link.Names channel' bus') :
    (channel, bus) = (channel', bus') :=
  Option.some.inj ((route_of_names le_rfl h).symm.trans (route_of_names le_rfl h'))

/-- The indices of muxes, and the numbers of channels. -/
def indices : List UInt8 := (List.range 256).map UInt8.ofNat

private theorem mem_indices (b : UInt8) : b ∈ indices :=
  List.mem_map.mpr ⟨b.toNat, List.mem_range.mpr b.toNat_lt, UInt8.ofNat_toNat⟩

/-- The link for a channel. -/
def channelLink (channel : UInt8) (bus : ℤ) : ChannelEntry :=
  ⟨"channel-" ++ toString channel.toNat, some ("i2c-" ++ toString bus.toNat)⟩

/-- The directory of a mux on the bus at 0x80000000. -/
def muxDir (topology : MuxTopology) (mux : UInt8) : MuxEntry where
  name := "ahb@" ++ "80000000:" ++ "i2cmux@" ++ toString mux.toNat
  channels := indices.filterMap fun channel => (topology mux channel).map (channelLink channel)

private theorem names_muxDir (topology : MuxTopology) (mux : UInt8) :
    (muxDir topology mux).Names mux :=
  ⟨"80000000:", by decide, rfl⟩

/-- **Every topology of kernel buses is listed by some directories.** -/
theorem exists_lists {topology : MuxTopology}
    (hbus : ∀ mux channel bus, topology mux channel = some bus → 0 ≤ bus ∧ bus < 2 ^ 31) :
    ∃ ahb, Lists ahb topology := by
  have hnames : ∀ mux, ∀ link ∈ (muxDir topology mux).channels,
      ∃ channel bus, topology mux channel = some bus ∧ link.Names channel bus := by
    intro mux link hlink
    obtain ⟨channel, -, hmap⟩ := List.mem_filterMap.mp hlink
    obtain ⟨bus, htopology, rfl⟩ := Option.map_eq_some_iff.mp hmap
    obtain ⟨hge, hlt⟩ := hbus mux channel bus htopology
    exact ⟨channel, bus, htopology, bus.toNat, by omega, by omega, rfl, rfl⟩
  refine ⟨indices.map (muxDir topology), ?_, ?_, ?_⟩
  · intro entry hentry
    obtain ⟨mux, -, rfl⟩ := List.mem_map.mp hentry
    exact Or.inr ⟨mux, names_muxDir topology mux⟩
  · intro entry hentry _ _ link hlink
    obtain ⟨mux, -, rfl⟩ := List.mem_map.mp hentry
    obtain ⟨channel, bus, -, hlinkNames⟩ := hnames mux link hlink
    exact Or.inr ⟨channel, bus, hlinkNames⟩
  · intro mux channel bus
    constructor
    · intro htopology
      obtain ⟨hge, hlt⟩ := hbus mux channel bus htopology
      refine ⟨muxDir topology mux, List.mem_map_of_mem (mem_indices mux),
        names_muxDir topology mux, channelLink channel bus, ?_, ?_⟩
      · refine List.mem_filterMap.mpr ⟨channel, mem_indices channel, ?_⟩
        rw [htopology, Option.map_some]
      · exact ⟨bus.toNat, by omega, by omega, rfl, rfl⟩
    · rintro ⟨entry, hentry, hentryNames, link, hlink, hlinkNames⟩
      obtain ⟨mux', -, rfl⟩ := List.mem_map.mp hentry
      obtain rfl := hentryNames.unique (names_muxDir topology mux')
      obtain ⟨channel', bus', htopology, hlinkNames'⟩ := hnames mux link hlink
      cases hlinkNames.unique hlinkNames'
      exact htopology

end PlatDef
