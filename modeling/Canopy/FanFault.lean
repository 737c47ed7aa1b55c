/-
Fan fault monitoring of the fan sensor daemon (`FanFault`).

Each poll reads the fault file and, when the state differs from the one cached,
caches the new state and asks the inventory manager to store it.  The cache
follows the polls whatever becomes of the call, and a file without an integer is
read as the value the extraction leaves behind.

* `caught_step` — when a poll leaves the inventory with the state that is cached;
* `mirrors_run` — the polls of a sequence that leave the inventory right.
-/
import Canopy.Bytes
import Canopy.Run

namespace FanSensor

open Run

/-! ### `file >> value` -/

def intMin : ℤ := -2 ^ 31
def intMax : ℤ := 2 ^ 31 - 1

def isSpace (b : UInt8) : Bool := b = 0x20 || (0x09 ≤ b && b ≤ 0x0d)

def isDigit (b : UInt8) : Bool := 0x30 ≤ b && b ≤ 0x39

/-- An optional sign. -/
def takeSign : Bytes → Bool × Bytes
  | 0x2d :: bs => (true, bs)
  | 0x2b :: bs => (false, bs)
  | bs => (false, bs)

def decimal (ds : Bytes) : ℤ := ds.foldl (fun n d => 10 * n + (d.toNat - 0x30 : ℕ)) 0

/-- What `file >> value` assigns to an `int` that is 0, and whether it succeeds: a
number out of range gives the nearest limit and fails, no digits give 0 and fail. -/
def extractInt (content : Bytes) : ℤ × Bool :=
  let (negative, rest) := takeSign (content.dropWhile isSpace)
  match rest.takeWhile isDigit with
  | [] => (0, false)
  | d :: ds =>
    let n := if negative then -decimal (d :: ds) else decimal (d :: ds)
    if n < intMin then (intMin, false)
    else if n > intMax then (intMax, false)
    else (n, true)

example : extractInt [0x20, 0x2d, 0x31, 0x32, 0x0a] = (-12, true) := by decide

/-! ### The daemon -/

structure FanFault where
  inventoryPath : String
  lastFunctional : Option Bool

/-- The daemon as the constructor leaves it. -/
def FanFault.create (inventoryPath : String) : FanFault := ⟨inventoryPath, none⟩

/-- `Functional` of the operational status of an object, as `notify` sends it. -/
structure NotifyCall where
  object : String
  functional : Bool

/-- `FanFault::poll` with the content of the fault file, if it can be opened. -/
def poll (f : FanFault) (file : Option Bytes) : FanFault × Option NotifyCall :=
  match file with
  | none => (f, none)
  | some content =>
    let functional : Bool := (extractInt content).1 = 0
    if f.lastFunctional ≠ some functional then
      ({ f with lastFunctional := some functional }, some ⟨f.inventoryPath, functional⟩)
    else (f, none)

/-- The daemon and the property `Functional` of every inventory object. -/
structure System where
  fan : FanFault
  inventory : String → Option Bool

/-- What a poll finds: the fault file, and whether the inventory manager accepts
calls. -/
structure Poll where
  file : Option Bytes
  accepts : Bool

def System.notified (s : System) (accepts : Bool) : Option NotifyCall → System
  | none => s
  | some call =>
    if accepts then
      { s with inventory := Function.update s.inventory call.object (some call.functional) }
    else s

def step (s : System) (p : Poll) : System :=
  let (fan, call) := poll s.fan p.file
  { s with fan := fan }.notified p.accepts call

/-- The integer a poll reads. -/
def Poll.integer (p : Poll) : Option ℤ :=
  p.file.bind fun content =>
    if (extractInt content).2 then some (extractInt content).1 else none

/-- A poll that reads an integer while the manager accepts calls leaves the inventory
right; one that reads none makes no call. -/
def Mirrors (s : System) (p : Poll) : Prop :=
  (∀ v, p.integer = some v → p.accepts = true →
    (step s p).inventory s.fan.inventoryPath = some (decide (v = 0))) ∧
  (p.integer = none → (poll s.fan p.file).2 = none)

/-- The state a poll that opens the file takes from it. -/
def Poll.seen (p : Poll) : Option Bool :=
  p.file.map fun content => decide ((extractInt content).1 = 0)

/-- A poll that sees another state than the one cached reads an integer, and its call is
accepted unless the inventory has that state already. -/
def Heeded (s : System) (p : Poll) : Prop :=
  ∀ functional, p.seen = some functional → s.fan.lastFunctional ≠ some functional →
    p.integer ≠ none ∧ (p.accepts = true ∨ s.inventory s.fan.inventoryPath = some functional)

instance (s : System) (p : Poll) : Decidable (Heeded s p) :=
  inferInstanceAs (Decidable (∀ _ : Bool, _ → _ → _))

/-! ### One poll -/

section Poll

variable {s : System} {p : Poll}

/-- Nothing is seen, or nothing new. -/
theorem poll_of_same {f : FanFault} (h : p.seen = none ∨ p.seen = f.lastFunctional) :
    poll f p.file = (f, none) := by
  cases hfile : p.file with
  | none => rfl
  | some content =>
    have hseen : p.seen = some (decide ((extractInt content).1 = 0)) := by
      rw [Poll.seen, hfile]
      rfl
    rw [hseen] at h
    have hsame := h.resolve_left (Option.some_ne_none _)
    rw [poll, if_neg (not_not_intro hsame.symm)]

private theorem poll_of_change {f : FanFault} {functional : Bool} (hseen : p.seen = some functional)
    (hne : p.seen ≠ f.lastFunctional) :
    poll f p.file = ({ f with lastFunctional := some functional },
      some ⟨f.inventoryPath, functional⟩) := by
  rw [hseen] at hne
  rw [Poll.seen] at hseen
  obtain ⟨content, hfile, hvalue⟩ := Option.map_eq_some_iff.mp hseen
  rw [hfile, poll, hvalue, if_pos hne.symm]

theorem step_of_same (h : p.seen = none ∨ p.seen = s.fan.lastFunctional) : step s p = s := by
  rw [step, poll_of_same h]
  rfl

private theorem step_of_change {functional : Bool} (hseen : p.seen = some functional)
    (hne : p.seen ≠ s.fan.lastFunctional) :
    step s p = { s with fan := { s.fan with lastFunctional := some functional } }.notified
      p.accepts (some ⟨s.fan.inventoryPath, functional⟩) := by
  rw [step, poll_of_change hseen hne]

private theorem fan_notified (s : System) (accepts : Bool) (call : Option NotifyCall) :
    (s.notified accepts call).fan = s.fan := by
  cases call with
  | none => rfl
  | some call => cases accepts <;> rfl

/-- A poll caches what it saw. -/
theorem fan_step (s : System) (p : Poll) :
    (step s p).fan = { s.fan with lastFunctional := p.seen.or s.fan.lastFunctional } := by
  by_cases hsame : p.seen = none ∨ p.seen = s.fan.lastFunctional
  · rw [step_of_same hsame]
    rcases hsame with hnone | heq
    · rw [hnone]
      rfl
    · rw [heq, Option.or_self]
  · rw [not_or] at hsame
    obtain ⟨functional, hseen⟩ := Option.ne_none_iff_exists'.mp hsame.1
    rw [step_of_change hseen hsame.2, fan_notified, hseen]
    rfl

/-- The inventory takes a state that is new, if the call is accepted. -/
theorem inventory_step_of_change {functional : Bool} (hseen : p.seen = some functional)
    (hne : p.seen ≠ s.fan.lastFunctional) :
    (step s p).inventory s.fan.inventoryPath =
      if p.accepts then some functional else s.inventory s.fan.inventoryPath := by
  rw [step_of_change hseen hne]
  cases p.accepts with
  | false => rfl
  | true => exact Function.update_self _ _ _

/-- A poll makes a call exactly when it sees another state than the one cached. -/
theorem call_eq_none_iff : (poll s.fan p.file).2 = none ↔
    p.seen = none ∨ p.seen = s.fan.lastFunctional := by
  constructor
  · intro hcall
    by_contra hchange
    rw [not_or] at hchange
    obtain ⟨functional, hseen⟩ := Option.ne_none_iff_exists'.mp hchange.1
    rw [poll_of_change hseen hchange.2] at hcall
    exact absurd hcall (Option.some_ne_none _)
  · intro hsame
    rw [poll_of_same hsame]

/-- The integer that is read says what is seen. -/
theorem seen_of_integer {v : ℤ} (h : p.integer = some v) : p.seen = some (decide (v = 0)) := by
  obtain ⟨content, hfile, hread⟩ := Option.bind_eq_some_iff.mp h
  rw [Poll.seen, hfile, Option.map_some]
  split at hread
  · rw [Option.some.inj hread]
  · cases hread

end Poll

/-! ### The cache and the inventory -/

/-- The inventory has the state that is cached. -/
def Caught (s : System) : Prop :=
  ∀ functional, s.fan.lastFunctional = some functional →
    s.inventory s.fan.inventoryPath = some functional

section Caught

variable {s : System} {p : Poll}

/-- **A poll that is heeded keeps the inventory with the cache.** -/
theorem caught_step (hs : Caught s) (hp : Heeded s p) : Caught (step s p) := by
  by_cases hsame : p.seen = none ∨ p.seen = s.fan.lastFunctional
  · rw [step_of_same hsame]
    exact hs
  · rw [not_or] at hsame
    obtain ⟨functional, hseen⟩ := Option.ne_none_iff_exists'.mp hsame.1
    intro cached hcached
    rw [fan_step, hseen, Option.some_or, Option.some_inj] at hcached
    obtain rfl := hcached
    have hpath : (step s p).fan.inventoryPath = s.fan.inventoryPath := by rw [fan_step]
    rw [hpath, inventory_step_of_change hseen hsame.2]
    rw [hseen] at hsame
    -- the call is accepted, or the inventory had the state before
    rcases (hp functional hseen (Ne.symm hsame.2)).2 with haccepts | hstored
    · rw [haccepts]
      rfl
    · rw [hstored, ite_self]

/-- Such a poll leaves the inventory right. -/
theorem mirrors_of_caught (hs : Caught s) (hp : Heeded s p) : Mirrors s p := by
  constructor
  · intro v hv haccepts
    have hseen := seen_of_integer hv
    by_cases hsame : p.seen = s.fan.lastFunctional
    · rw [step_of_same (Or.inr hsame)]
      exact hs _ (hsame.symm.trans hseen)
    · rw [inventory_step_of_change hseen hsame, if_pos haccepts]
  · intro hnone
    rw [call_eq_none_iff]
    by_contra hchange
    rw [not_or] at hchange
    obtain ⟨functional, hseen⟩ := Option.ne_none_iff_exists'.mp hchange.1
    rw [hseen] at hchange
    exact (hp functional hseen (Ne.symm hchange.2)).1 hnone

/-- A poll that is not heeded makes a call without an integer, or leaves behind an
inventory that the same poll, made again and accepted, does not put right. -/
theorem not_mirrors_of_not_heeded (hp : ¬Heeded s p) :
    ¬Mirrors s p ∨ ¬Mirrors (step s p) { p with accepts := true } := by
  simp only [Heeded, not_forall] at hp
  obtain ⟨functional, hseen, hne, hmissed⟩ := hp
  have hchange : p.seen ≠ s.fan.lastFunctional := by
    rw [hseen]
    exact hne.symm
  cases hinteger : p.integer with
  | none =>
    -- the call is made all the same
    left
    intro hmirrors
    rcases call_eq_none_iff.mp (hmirrors.2 hinteger) with hnone | hsame
    · rw [hseen] at hnone
      cases hnone
    · exact hchange hsame
  | some v =>
    right
    have hread : p.integer ≠ none := by
      rw [hinteger]
      exact Option.some_ne_none v
    obtain ⟨hrejected, hstored⟩ := not_or.mp fun h => hmissed ⟨hread, h⟩
    have hv : some functional = some (decide (v = 0)) := hseen.symm.trans (seen_of_integer hinteger)
    intro hmirrors
    -- the state is in the cache now, so the second poll finds nothing new
    have hcached : p.seen = (step s p).fan.lastFunctional := by
      rw [fan_step, hseen]
      rfl
    have hpath : (step s p).fan.inventoryPath = s.fan.inventoryPath := by rw [fan_step]
    have hagain := hmirrors.1 v hinteger rfl
    rw [step_of_same (p := { p with accepts := true }) (Or.inr hcached), hpath,
      inventory_step_of_change hseen hchange, if_neg hrejected] at hagain
    exact hstored (hagain.trans hv.symm)

end Caught

/-- **The inventory and the fault file**: in a sequence of polls that are all heeded, every
poll leaves the inventory right; and a poll that is not heeded does not, or the same poll
made right after it and accepted does not. -/
theorem mirrors_run (inventoryPath : String) (inventory : String → Option Bool)
    (ps : List Poll) :
    ((∀ q ∈ visits step ⟨.create inventoryPath, inventory⟩ ps, Heeded q.1 q.2) →
      ∀ q ∈ visits step ⟨.create inventoryPath, inventory⟩ ps, Mirrors q.1 q.2) ∧
    ∀ q ∈ visits step ⟨.create inventoryPath, inventory⟩ ps, ¬Heeded q.1 q.2 →
      ¬Mirrors q.1 q.2 ∨ ¬Mirrors (step q.1 q.2) { q.2 with accepts := true } := by
  constructor
  · intro hheeded q hq
    have hstart : Caught ⟨.create inventoryPath, inventory⟩ := fun _ h => by cases h
    have hcaught := invariant_of_mem_visits (fun _ _ => caught_step) hstart hheeded q hq
    exact mirrors_of_caught hcaught (hheeded q hq)
  · intro q _
    exact not_mirrors_of_not_heeded

/-- A file that cannot be opened, a healthy fan, a file without an integer, a call that
would not be accepted, a fault and its end. -/
def steadyManager : List Poll :=
  [⟨none, false⟩, ⟨some [0x30, 0x0a], true⟩, ⟨some [0x78], true⟩, ⟨some [0x30, 0x0a], false⟩,
    ⟨some [0x31, 0x0a], true⟩, ⟨some [0x31, 0x0a], false⟩, ⟨some [0x30, 0x0a], true⟩]

theorem mirrors_steadyManager :
    ∀ q ∈ visits step ⟨.create "/system/chassis/fan0", fun _ => none⟩ steadyManager,
      Mirrors q.1 q.2 :=
  (mirrors_run "/system/chassis/fan0" (fun _ => none) steadyManager).1 (by decide)

/-- A healthy fan, polled once before the inventory manager is up and once after. -/
def lateManager : List Poll :=
  [⟨some [0x30, 0x0a], false⟩, ⟨some [0x30, 0x0a], true⟩]

/-- The second poll reads 0 and is accepted, and the inventory still has no state. -/
theorem not_mirrors_lateManager :
    ¬∀ q ∈ visits step ⟨.create "/system/chassis/fan0", fun _ => none⟩ lateManager,
      Mirrors q.1 q.2 := by
  intro h
  have hsecond : none = some true := (h _ (List.mem_cons_of_mem _ List.mem_cons_self)).1 0 rfl rfl
  cases hsecond

end FanSensor
