/-
The request queue of an endpoint of the USB device controller driver.

The hardware works on one transfer at a time: `gxp_udc_start_dma` programs the
request at the head of the queue, and the DONE and SHORT bits say that the
transfer has ended, but not which one it was.  Cancelling takes requests off the
queue without a word to the hardware.

* `Udc.step` — the endpoint operations, the interrupt and the hardware;
* `disciplined_iff_orderly` — the hardware works on the head of the queue, every
  request is given back once, and with status 0 only after its own transfer,
  exactly in the runs where no head is cancelled with requests behind it and no
  completion outlives its request to meet another;
* `not_forall_disciplined` — a run that cancels the head of two requests.

Every request has a completion callback, and what it does counts as happening
after the operation that calls it.  Endpoint 0, whose interrupt is handled
elsewhere, is not part of this.
-/
import Canopy.Run
import Mathlib.Data.Int.Notation
import Mathlib.Data.List.Nodup
import Mathlib.Data.List.Perm.Basic

namespace GxpUdc

def einval : ℤ := 22

def econnreset : ℤ := 104

def eshutdown : ℤ := 108

def einprogress : ℤ := 115

/-- `GXP_UDC_MAX_NUM_EP` -/
def maxNumEp : ℕ := 8

/-- A `usb_request`; queueing it anew makes a new one of it. -/
structure Req where
  id : ℕ
  dma : BitVec 32
  length : BitVec 32
  actual : BitVec 32
  status : ℤ
  deriving DecidableEq

/-- What `gxp_udc_start_dma` programs. -/
structure Transfer where
  id : ℕ
  dma : BitVec 32
  length : BitVec 32
  deriving DecidableEq

def Req.transfer (r : Req) : Transfer := ⟨r.id, r.dma, r.length⟩

/-- A request given back, and the transfer whose end was the reason. -/
structure Giveback where
  req : Req
  transfer : Option ℕ
  deriving DecidableEq

structure Udc where
  driver : Bool
  /-- `gadget.speed` is not `USB_SPEED_UNKNOWN` -/
  speedKnown : Bool
  /-- the endpoint has a descriptor -/
  desc : Bool
  isIn : Bool
  queue : List Req
  nextId : ℕ
  /-- newest first -/
  givenBack : List Giveback
  /-- `EVDEPADDR` -/
  evdepaddr : BitVec 32
  /-- `EVDEPLEN`, what is left of the transfer once it has ended -/
  evdeplen : BitVec 32
  /-- the bits of `EVDEPSTS`, cleared by writing ones -/
  done : Bool
  short : Bool
  stalldet : Bool
  /-- what `gxp_udc_start_dma` programmed last -/
  programmed : Option Transfer
  /-- the hardware works on it -/
  active : Bool
  /-- the transfer DONE or SHORT stands for -/
  doneFor : Option ℕ
  deriving DecidableEq

inductive Event where
  /-- `dma` is what the request is mapped to, or an error -/
  | queue (dma : Except ℤ (BitVec 32)) (length : BitVec 32)
  | dequeue (id : ℕ)
  | enable (num : ℕ) (dirIn : Bool)
  | disable
  | nuke
  /-- `EVDISTAT_PORTEN_CHANGE` -/
  | port (enabled : Bool)
  /-- the hardware has ended the transfer, with `len` bytes left -/
  | finish (isShort : Bool) (len : BitVec 32)
  | stallDetect
  | interrupt

namespace Udc

/-- An endpoint that was just enabled. -/
def boot (driver isIn : Bool) : Udc where
  driver := driver
  speedKnown := true
  desc := true
  isIn := isIn
  queue := []
  nextId := 0
  givenBack := []
  evdepaddr := 0
  evdeplen := 0
  done := false
  short := false
  stalldet := false
  programmed := none
  active := false
  doneFor := none

/-- `gxp_udc_start_dma`. -/
def startDma (s : Udc) (r : Req) : Udc :=
  { s with
    evdepaddr := r.dma
    evdeplen := r.length
    programmed := some r.transfer
    active := true }

/-- `gxp_udc_ep_queue`, for an endpoint other than 0. -/
def epQueue (s : Udc) (dma : Except ℤ (BitVec 32)) (length : BitVec 32) : Udc × ℤ :=
  if s.driver = false ∨ s.speedKnown = false then (s, -eshutdown)
  else
    match dma with
    | .error ret => (s, ret)
    | .ok dma =>
      let req : Req := ⟨s.nextId, dma, length, 0, -einprogress⟩
      let s' := { s with queue := s.queue ++ [req], nextId := s.nextId + 1 }
      (if s.queue.isEmpty then s'.startDma req else s', 0)

/-- `__gxp_udc_ep_dequeue`. -/
def cancel (s : Udc) (r : Req) : Udc :=
  let status := if s.speedKnown then -econnreset else -eshutdown
  { s with
    queue := s.queue.erase r
    givenBack := ⟨{ r with status := status }, none⟩ :: s.givenBack }

/-- `gxp_udc_ep_dequeue`. -/
def epDequeue (s : Udc) (id : ℕ) : Udc × ℤ :=
  match s.queue.find? fun r => r.id = id with
  | none => (s, -einval)
  | some r => (s.cancel r, 0)

/-- The loop of `gxp_udc_ep_disable` and `gxp_udc_ep_nuke`. -/
def drain : List Req → Udc → Udc
  | [], s => s
  | r :: rest, s => drain rest (s.cancel r)

/-- `gxp_udc_ep_enable`.  Its write to `EVDEPSTS` has no ones for the bits it means to clear. -/
def epEnable (s : Udc) (num : ℕ) (dirIn : Bool) : Udc × ℤ :=
  if s.driver = false ∨ s.speedKnown = false then (s, -eshutdown)
  else if num ≥ maxNumEp then (s, -einval)
  else ({ s with desc := true, isIn := dirIn }, 0)

/-- `gxp_udc_ep_disable`. -/
def epDisable (s : Udc) : Udc × ℤ :=
  if s.desc = false then (s, -einval)
  else ({ drain s.queue { s with desc := false } with active := false }, 0)

/-- `gxp_udc_ep_nuke`. -/
def epNuke (s : Udc) : Udc × ℤ :=
  (drain s.queue { s with active := false }, 0)

/-- The hardware ends the transfer it works on. -/
def finish (s : Udc) (isShort : Bool) (len : BitVec 32) : Udc :=
  { s with
    evdeplen := len
    done := if isShort then s.done else true
    short := if isShort then true else s.short
    doneFor := s.programmed.map Transfer.id
    active := false }

/-- The acknowledgement in `gxp_udc_handle_ep_int`. -/
def ack (s : Udc) : Udc :=
  { s with done := false, short := false, stalldet := false, doneFor := none }

/-- `gxp_udc_handle_ep_int`. -/
def handleEpInt (s : Udc) : Udc :=
  if s.done ∨ s.short then
    match s.queue with
    | [] => s.ack
    | r :: rest =>
      let len := s.evdeplen
      let r := { r with actual := r.length - len }
      if len ≠ 0 ∧ s.isIn then
        { s.ack with queue := r :: rest, evdeplen := len, active := true }
      else
        let s' :=
          { s.ack with
            queue := rest
            givenBack := ⟨{ r with status := 0 }, s.doneFor⟩ :: s.givenBack }
        match rest with
        | [] => s'
        | next :: _ => s'.startDma next
  else s.ack

/-- One step. -/
def step (s : Udc) : Event → Udc
  | .queue dma length => (s.epQueue dma length).1
  | .dequeue id => (s.epDequeue id).1
  | .enable num dirIn => (s.epEnable num dirIn).1
  | .disable => s.epDisable.1
  | .nuke => s.epNuke.1
  | .port enabled => { s with speedKnown := enabled }
  | .finish isShort len => if s.active then s.finish isShort len else s
  | .stallDetect => { s with stalldet := true }
  | .interrupt => s.handleEpInt

/-- The discipline of the queue. -/
structure Disciplined (s : Udc) : Prop where
  head : ∀ r ∈ s.queue.head?, s.programmed = some r.transfer ∧ s.evdepaddr = r.dma
  /-- of the requests queued so far each is queued still or was given back, once -/
  once : (s.queue.map Req.id ++ s.givenBack.map fun g => g.req.id).Perm (List.range s.nextId)
  own : ∀ g ∈ s.givenBack, g.req.status = 0 → g.transfer = some g.req.id

/-- The head is not cancelled with requests behind it, and the end of a
transfer whose request was cancelled does not give back another one. -/
def Orderly (s : Udc) : Event → Prop
  | .dequeue id => ∀ r rest, s.queue = r :: rest → r.id = id → rest = []
  | .interrupt =>
    s.done = true ∨ s.short = true → ∀ id ∈ s.doneFor, (∀ r ∈ s.queue, r.id ≠ id) →
      s.queue = [] ∨ s.evdeplen ≠ 0 ∧ s.isIn = true
  | _ => True

/-- What else is known of the hardware. -/
structure Tracked (s : Udc) : Prop where
  stale : ∀ id ∈ s.doneFor, ∀ r ∈ s.queue, r.id = id → s.queue.head? = some r
  doneFor_lt : ∀ id ∈ s.doneFor, id < s.nextId
  programmed_lt : ∀ t ∈ s.programmed, t.id < s.nextId
  latched : s.done = true ∨ s.short = true → s.doneFor ≠ none
  armed : s.active = true → s.programmed ≠ none

variable {s : Udc} {r : Req} {rest : List Req}

theorem mem_queue (hqueue : s.queue = r :: rest) : r ∈ s.queue := by
  rw [hqueue]
  exact List.mem_cons_self

theorem Disciplined.programmed_head (h : s.Disciplined) (hqueue : s.queue = r :: rest) :
    s.programmed = some r.transfer := by
  refine (h.head r ?_).1
  rw [hqueue]
  rfl

/-! ### Requests are given back once -/

/-- The requests queued so far, each once. -/
def Once (s : Udc) : Prop :=
  (s.queue.map Req.id ++ s.givenBack.map fun g => g.req.id).Perm (List.range s.nextId)

theorem Once.nodup (h : s.Once) : (s.queue.map Req.id).Nodup := by
  have hall := h.nodup_iff.mpr List.nodup_range
  exact (List.nodup_append.mp hall).1

theorem Once.lt (h : s.Once) (hr : r ∈ s.queue) : r.id < s.nextId := by
  rw [← List.mem_range, ← h.mem_iff]
  exact List.mem_append_left _ (List.mem_map_of_mem hr)

theorem Once.cancel (h : s.Once) (hr : r ∈ s.queue) : (s.cancel r).Once := by
  refine List.Perm.trans ?_ h
  have hperm := (List.perm_cons_erase hr).map Req.id
  exact List.perm_middle.trans (hperm.symm.append_right _)

/-- The loop empties the queue. -/
theorem drain_spec : ∀ (l : List Req) {s : Udc}, s.queue = l → s.Once →
    (drain l s).queue = [] ∧ (drain l s).Once
  | [], s, hl, h => ⟨hl, h⟩
  | r :: rest, s, hl, h => by
    refine drain_spec rest ?_ (h.cancel (mem_queue hl))
    rw [Udc.cancel, hl]
    exact List.erase_cons_head r rest

/-- A cancelled request is not given back with status 0. -/
theorem own_cancel (h : ∀ g ∈ s.givenBack, g.req.status = 0 → g.transfer = some g.req.id) :
    ∀ g ∈ (s.cancel r).givenBack, g.req.status = 0 → g.transfer = some g.req.id := by
  intro g hg hstatus
  rcases List.mem_cons.mp hg with rfl | hold
  · simp only [econnreset, eshutdown] at hstatus
    split at hstatus
    · exact absurd hstatus (by decide)
    · exact absurd hstatus (by decide)
  · exact h g hold hstatus

private theorem own_drain : ∀ (l : List Req) {s : Udc},
    (∀ g ∈ s.givenBack, g.req.status = 0 → g.transfer = some g.req.id) →
      ∀ g ∈ (drain l s).givenBack, g.req.status = 0 → g.transfer = some g.req.id
  | [], _, h => h
  | _ :: rest, _, h => own_drain rest (own_cancel h)

/-- The hardware is not told. -/
theorem drain_hardware : ∀ (l : List Req) {s : Udc},
    (drain l s).programmed = s.programmed ∧ (drain l s).active = s.active ∧
      (drain l s).doneFor = s.doneFor ∧ (drain l s).done = s.done ∧
      (drain l s).short = s.short ∧ (drain l s).nextId = s.nextId
  | [], _ => ⟨rfl, rfl, rfl, rfl, rfl, rfl⟩
  | r :: rest, s => drain_hardware rest (s := s.cancel r)

/-! ### One operation -/

/-- An empty queue needs no hardware. -/
theorem Disciplined.of_empty (hempty : s.queue = []) (honce : s.Once)
    (hown : ∀ g ∈ s.givenBack, g.req.status = 0 → g.transfer = some g.req.id) :
    s.Disciplined where
  head := by
    rw [hempty]
    intro r hr
    exact absurd hr (Option.not_mem_none r)
  once := honce
  own := hown

theorem Disciplined.drain (h : s.Disciplined) : (drain s.queue s).Disciplined := by
  obtain ⟨hempty, honce⟩ := drain_spec s.queue rfl h.once
  exact .of_empty hempty honce (own_drain s.queue h.own)

theorem Disciplined.epQueue (h : s.Disciplined) (dma : Except ℤ (BitVec 32)) (length : BitVec 32) :
    (s.epQueue dma length).1.Disciplined := by
  rw [Udc.epQueue.eq_def]
  split
  · exact h
  cases dma with
  | error ret => exact h
  | ok dma =>
    let req : Req := ⟨s.nextId, dma, length, 0, -einprogress⟩
    -- the new request has the next id
    have honce : ((s.queue ++ [req]).map Req.id ++ s.givenBack.map fun g => g.req.id).Perm
        (List.range (s.nextId + 1)) := by
      rw [List.range_succ, List.map_append, List.append_assoc]
      refine (List.Perm.append_left _ List.perm_append_comm).trans ?_
      rw [← List.append_assoc]
      exact h.once.append_right _
    simp only
    cases hqueue : s.queue with
    | nil =>
      refine ⟨?_, ?_, h.own⟩
      · intro r hr
        obtain rfl : req = r := Option.some.inj hr
        exact ⟨rfl, rfl⟩
      · rw [hqueue] at honce
        exact honce
    | cons r rest =>
      refine ⟨?_, ?_, h.own⟩
      · intro r' hr'
        refine h.head r' ?_
        rw [hqueue]
        exact hr'
      · rw [hqueue] at honce
        exact honce

/-- A request is the only one of its id. -/
theorem Once.eq_of_id (h : s.Once) {r' : Req} (hr : r ∈ s.queue) (hr' : r' ∈ s.queue)
    (hid : r.id = r'.id) : r = r' :=
  List.inj_on_of_nodup_map h.nodup hr hr' hid

private theorem disciplined_cancel_iff (h : s.Disciplined) (hr : r ∈ s.queue) :
    (s.cancel r).Disciplined ↔ ∀ r' rest, s.queue = r' :: rest → r'.id = r.id → rest = [] := by
  constructor
  · intro hafter r' rest hqueue hid
    obtain rfl : r' = r := Once.eq_of_id h.once (mem_queue hqueue) hr hid
    cases hrest : rest with
    | nil => rfl
    | cons next rest' =>
      -- the hardware is still programmed for the head that is gone
      have hnext : next ∈ (s.cancel r').queue.head? := by
        rw [Udc.cancel, hqueue, hrest, List.erase_cons_head]
        rfl
      have hold := h.programmed_head hqueue
      have hid : r'.id = next.id :=
        congrArg Transfer.id (Option.some.inj (hold.symm.trans (hafter.head next hnext).1))
      have hnodup := Once.nodup h.once
      rw [hqueue, hrest, List.map_cons, List.map_cons, hid] at hnodup
      exact absurd List.mem_cons_self (List.nodup_cons.mp hnodup).1
  · intro horderly
    refine ⟨?_, Once.cancel h.once hr, own_cancel h.own⟩
    intro r' hr'
    cases hqueue : s.queue with
    | nil =>
      rw [hqueue] at hr
      exact absurd hr List.not_mem_nil
    | cons first rest =>
      rw [Udc.cancel, hqueue] at hr'
      by_cases hfirst : first = r
      · subst hfirst
        obtain rfl := horderly first rest hqueue rfl
        rw [List.erase_cons_head] at hr'
        exact absurd hr' (Option.not_mem_none r')
      · rw [List.erase_cons_tail (by simpa using hfirst)] at hr'
        refine h.head r' ?_
        rw [hqueue]
        exact hr'

private theorem disciplined_epDequeue_iff (h : s.Disciplined) (id : ℕ) :
    (s.epDequeue id).1.Disciplined ↔ s.Orderly (.dequeue id) := by
  rw [Udc.epDequeue]
  cases hfind : s.queue.find? fun r => r.id = id with
  | none =>
    refine iff_of_true h ?_
    intro r rest hqueue hid
    have hne := List.find?_eq_none.mp hfind r (mem_queue hqueue)
    exact absurd (decide_eq_true hid) hne
  | some r =>
    have hid : r.id = id := by
      have htrue := List.find?_some hfind
      exact of_decide_eq_true htrue
    subst hid
    exact disciplined_cancel_iff h (List.mem_of_find?_eq_some hfind)

/-- Where the handler gives the head back, an orderly end is the end of its own
transfer. -/
theorem Tracked.orderly_interrupt_iff (ht : s.Tracked) {id : ℕ}
    (hended : s.done = true ∨ s.short = true) (hid : s.doneFor = some id)
    (hqueue : s.queue = r :: rest) (hwhole : ¬(s.evdeplen ≠ 0 ∧ s.isIn = true)) :
    s.Orderly .interrupt ↔ id = r.id := by
  constructor
  · intro horderly
    by_contra hne
    have hgone : ∀ r' ∈ s.queue, r'.id ≠ id := by
      intro r' hr' hsame
      have hhead := ht.stale id hid r' hr' hsame
      rw [hqueue] at hhead
      obtain rfl := Option.some.inj hhead
      exact hne hsame.symm
    rcases horderly hended id hid hgone with hempty | hpartial
    · rw [hqueue] at hempty
      exact List.cons_ne_nil r rest hempty
    · exact hwhole hpartial
  · rintro rfl - id' hid' hgone
    obtain rfl := Option.some.inj (hid.symm.trans hid')
    exact absurd rfl (hgone r (mem_queue hqueue))

/-- The handler gives the head back. -/
theorem disciplined_handleEpInt_iff (h : s.Disciplined) (ht : s.Tracked) :
    s.handleEpInt.Disciplined ↔ s.Orderly .interrupt := by
  rw [Udc.handleEpInt]
  have hack : s.ack.Disciplined := ⟨h.head, h.once, h.own⟩
  split
  · next hended =>
    have hended : s.done = true ∨ s.short = true := hended
    obtain ⟨id, hid⟩ := Option.ne_none_iff_exists'.mp (ht.latched hended)
    cases hqueue : s.queue with
    | nil =>
      refine iff_of_true hack ?_
      intro _ _ _ _
      exact Or.inl hqueue
    | cons r rest =>
      simp only
      split
      · next hpartial =>
        refine iff_of_true ⟨?_, ?_, h.own⟩ fun _ _ _ _ => Or.inr hpartial
        · intro r' hr'
          obtain rfl := Option.some.inj hr'
          refine h.head r ?_
          rw [hqueue]
          rfl
        · have honce := h.once
          rw [hqueue] at honce
          exact honce
      · next hwhole =>
        rw [ht.orderly_interrupt_iff hended hid hqueue hwhole]
        -- the head is given back, as the transfer it is said to have been
        let given : Giveback :=
          ⟨{ r with actual := r.length - s.evdeplen, status := 0 }, s.doneFor⟩
        have honce : (rest.map Req.id ++ (given :: s.givenBack).map fun g => g.req.id).Perm
            (List.range s.nextId) := by
          have honce := h.once
          rw [hqueue] at honce
          exact List.perm_middle.trans honce
        have hown : (∀ g ∈ given :: s.givenBack, g.req.status = 0 → g.transfer = some g.req.id) ↔
            id = r.id := by
          rw [List.forall_mem_cons, and_iff_left h.own]
          show (0 = 0 → s.doneFor = some r.id) ↔ id = r.id
          rw [hid, forall_prop_of_true rfl, Option.some.injEq]
        -- whether another request takes its place makes no difference
        rw [← hown]
        cases rest with
        | nil =>
          constructor
          · intro hafter
            exact hafter.own
          · intro hgiven
            exact .of_empty rfl honce hgiven
        | cons next rest' =>
          constructor
          · intro hafter
            exact hafter.own
          · intro hgiven
            refine ⟨?_, honce, hgiven⟩
            intro r' hr'
            obtain rfl := Option.some.inj hr'
            exact ⟨rfl, rfl⟩
  · next hended =>
    refine iff_of_true hack fun hlatched => ?_
    exact absurd hlatched hended

/-- **An operation is orderly exactly if the discipline survives it.** -/
theorem disciplined_step_iff (h : s.Disciplined) (ht : s.Tracked) (e : Event) :
    (s.step e).Disciplined ↔ s.Orderly e := by
  cases e with
  | queue dma length => exact iff_of_true (h.epQueue dma length) trivial
  | dequeue id => exact disciplined_epDequeue_iff h id
  | enable num dirIn =>
    refine iff_of_true ?_ trivial
    rw [step, epEnable]
    split
    · exact h
    split
    · exact h
    · exact ⟨h.head, h.once, h.own⟩
  | disable =>
    refine iff_of_true ?_ trivial
    rw [step, epDisable]
    split
    · exact h
    · have hdrain := Disciplined.drain (s := { s with desc := false }) ⟨h.head, h.once, h.own⟩
      exact ⟨hdrain.head, hdrain.once, hdrain.own⟩
  | nuke =>
    refine iff_of_true ?_ trivial
    exact Disciplined.drain (s := { s with active := false }) ⟨h.head, h.once, h.own⟩
  | port enabled => exact iff_of_true ⟨h.head, h.once, h.own⟩ trivial
  | finish isShort len =>
    refine iff_of_true ?_ trivial
    rw [step]
    split
    · exact ⟨h.head, h.once, h.own⟩
    · exact h
  | stallDetect => exact iff_of_true ⟨h.head, h.once, h.own⟩ trivial
  | interrupt => exact disciplined_handleEpInt_iff h ht

/-! ### What is known of the hardware -/

theorem Tracked.drain (ht : s.Tracked) (honce : s.Once) : (drain s.queue s).Tracked := by
  obtain ⟨hempty, -⟩ := drain_spec s.queue rfl honce
  obtain ⟨hprogrammed, hactive, hdoneFor, hdone, hshort, hnext⟩ := drain_hardware s.queue (s := s)
  refine ⟨?_, ?_, ?_, ?_, ?_⟩
  · intro id _ r hr
    rw [hempty] at hr
    exact absurd hr List.not_mem_nil
  · rw [hdoneFor, hnext]
    exact ht.doneFor_lt
  · rw [hprogrammed, hnext]
    exact ht.programmed_lt
  · rw [hdone, hshort, hdoneFor]
    exact ht.latched
  · rw [hactive, hprogrammed]
    exact ht.armed

theorem Tracked.epQueue (ht : s.Tracked) (dma : Except ℤ (BitVec 32)) (length : BitVec 32) :
    (s.epQueue dma length).1.Tracked := by
  rw [Udc.epQueue.eq_def]
  split
  · exact ht
  cases dma with
  | error ret => exact ht
  | ok dma =>
    let req : Req := ⟨s.nextId, dma, length, 0, -einprogress⟩
    have hstale : ∀ id ∈ s.doneFor, ∀ r ∈ s.queue ++ [req], r.id = id →
        (s.queue ++ [req]).head? = some r := by
      intro id hid r hr hsame
      rcases List.mem_append.mp hr with hold | hnew
      · exact List.mem_head?_append_of_mem_head? (ht.stale id hid r hold hsame)
      · -- no transfer has ended for a request that was not queued yet
        obtain rfl := List.mem_singleton.mp hnew
        exact absurd hsame.symm (Nat.ne_of_lt (ht.doneFor_lt id hid))
    have hlt : ∀ id ∈ s.doneFor, id < s.nextId + 1 := fun id hid =>
      Nat.lt_succ_of_lt (ht.doneFor_lt id hid)
    simp only
    split
    · refine ⟨hstale, hlt, ?_, ht.latched, fun _ => Option.some_ne_none _⟩
      intro t hprogrammed
      obtain rfl := Option.some.inj hprogrammed
      exact Nat.lt_succ_self _
    · exact ⟨hstale, hlt, fun t hprogrammed => Nat.lt_succ_of_lt (ht.programmed_lt t hprogrammed),
        ht.latched, ht.armed⟩

theorem Tracked.cancel (ht : s.Tracked) (h : s.Disciplined) (hr : r ∈ s.queue) :
    (s.cancel r).Tracked := by
  refine ⟨?_, ht.doneFor_lt, ht.programmed_lt, ht.latched, ht.armed⟩
  intro id hid r' hr' hsame
  have hhead := ht.stale id hid r' (List.mem_of_mem_erase hr') hsame
  cases hqueue : s.queue with
  | nil =>
    rw [hqueue] at hhead
    exact absurd hhead (Option.some_ne_none r').symm
  | cons first rest =>
    rw [hqueue] at hhead
    obtain rfl := Option.some.inj hhead
    have hne : first ≠ r := by
      rintro rfl
      have hnodup : s.queue.Nodup := (Once.nodup h.once).of_map
      exact hnodup.not_mem_erase hr'
    rw [Udc.cancel, hqueue, List.erase_cons_tail (by simpa using hne)]
    rfl

/-- The transfer that ends is the one of the head. -/
theorem Tracked.finish (ht : s.Tracked) (h : s.Disciplined) (hactive : s.active = true)
    (isShort : Bool) (len : BitVec 32) : (s.finish isShort len).Tracked := by
  obtain ⟨t, hprogrammed⟩ := Option.ne_none_iff_exists'.mp (ht.armed hactive)
  have hfor : (s.finish isShort len).doneFor = some t.id := by
    rw [Udc.finish, hprogrammed]
    rfl
  refine ⟨?_, ?_, ht.programmed_lt, ?_, fun hoff => Bool.noConfusion hoff⟩
  · intro id hid r hr hsame
    rw [hfor] at hid
    obtain rfl := Option.some.inj hid
    have hr : r ∈ s.queue := hr
    show s.queue.head? = some r
    cases hqueue : s.queue with
    | nil =>
      rw [hqueue] at hr
      exact absurd hr List.not_mem_nil
    | cons first rest =>
      -- a queued request with the id of the finished transfer is the head
      have hfirst := h.programmed_head hqueue
      have hid : first.id = r.id := by
        rw [hsame, Option.some.inj (hprogrammed.symm.trans hfirst)]
        rfl
      exact congrArg some (Once.eq_of_id h.once (mem_queue hqueue) hr hid)
  · intro id hid
    rw [hfor] at hid
    obtain rfl := Option.some.inj hid
    exact ht.programmed_lt t hprogrammed
  · intro _
    rw [hfor]
    exact Option.some_ne_none _

theorem Tracked.handleEpInt (ht : s.Tracked) (h : s.Disciplined) : s.handleEpInt.Tracked := by
  have hnone : ∀ id ∈ (none : Option ℕ), id < s.nextId := fun id hid =>
    absurd hid (Option.not_mem_none id)
  have hack : s.ack.Tracked :=
    ⟨fun id hid => absurd hid (Option.not_mem_none id), hnone, ht.programmed_lt,
      fun hlatched => absurd hlatched (by simp [Udc.ack]), ht.armed⟩
  rw [Udc.handleEpInt]
  split
  · cases hqueue : s.queue with
    | nil => exact hack
    | cons r rest =>
      simp only
      split
      · refine ⟨fun id hid => absurd hid (Option.not_mem_none id), hnone, ht.programmed_lt,
          hack.latched, fun _ => ?_⟩
        -- a partial transfer goes on with the same request
        show s.programmed ≠ none
        rw [h.programmed_head hqueue]
        exact Option.some_ne_none _
      · cases rest with
        | nil =>
          exact ⟨fun id hid => absurd hid (Option.not_mem_none id), hnone, ht.programmed_lt,
            hack.latched, ht.armed⟩
        | cons next rest' =>
          refine ⟨fun id hid => absurd hid (Option.not_mem_none id), hnone, ?_, hack.latched,
            fun _ => Option.some_ne_none _⟩
          intro t hprogrammed
          obtain rfl := Option.some.inj hprogrammed
          have hmem : next ∈ s.queue := by
            rw [hqueue]
            exact List.mem_cons_of_mem _ List.mem_cons_self
          exact Once.lt (s := s) h.once hmem
  · exact hack

theorem Tracked.step (ht : s.Tracked) (h : s.Disciplined) (e : Event) : (s.step e).Tracked := by
  cases e with
  | queue dma length => exact ht.epQueue dma length
  | dequeue id =>
    rw [Udc.step, Udc.epDequeue]
    cases hfind : s.queue.find? fun r => r.id = id with
    | none => exact ht
    | some r => exact ht.cancel h (List.mem_of_find?_eq_some hfind)
  | enable num dirIn =>
    rw [Udc.step, epEnable]
    split
    · exact ht
    split
    · exact ht
    · exact ⟨ht.stale, ht.doneFor_lt, ht.programmed_lt, ht.latched, ht.armed⟩
  | disable =>
    rw [Udc.step, epDisable]
    split
    · exact ht
    · -- what the disable leaves behind is what a drained queue leaves
      have hdrain := Tracked.drain (s := { s with desc := false })
        ⟨ht.stale, ht.doneFor_lt, ht.programmed_lt, ht.latched, ht.armed⟩ h.once
      exact ⟨hdrain.stale, hdrain.doneFor_lt, hdrain.programmed_lt, hdrain.latched,
        fun hoff => Bool.noConfusion hoff⟩
  | nuke =>
    exact Tracked.drain (s := { s with active := false })
      ⟨ht.stale, ht.doneFor_lt, ht.programmed_lt, ht.latched, fun hoff => Bool.noConfusion hoff⟩
      h.once
  | port enabled => exact ⟨ht.stale, ht.doneFor_lt, ht.programmed_lt, ht.latched, ht.armed⟩
  | finish isShort len =>
    rw [Udc.step]
    split
    · next hactive => exact ht.finish h hactive isShort len
    · exact ht
  | stallDetect => exact ⟨ht.stale, ht.doneFor_lt, ht.programmed_lt, ht.latched, ht.armed⟩
  | interrupt => exact ht.handleEpInt h

/-! ### Runs -/

private theorem disciplined_boot (driver isIn : Bool) : (boot driver isIn).Disciplined :=
  .of_empty rfl List.Perm.rfl fun _ hg => absurd hg List.not_mem_nil

private theorem tracked_boot (driver isIn : Bool) : (boot driver isIn).Tracked where
  stale := fun id hid => absurd hid (Option.not_mem_none id)
  doneFor_lt := fun id hid => absurd hid (Option.not_mem_none id)
  programmed_lt := fun t hprogrammed => absurd hprogrammed (Option.not_mem_none t)
  latched := fun hlatched => absurd hlatched (by simp [boot])
  armed := fun hactive => Bool.noConfusion hactive

/-- **The discipline holds in every state of a run exactly if every operation
of the run is orderly.** -/
theorem disciplined_iff_orderly (driver isIn : Bool) (events : List Event) :
    (∀ es, es <+: events → (Run.run step (boot driver isIn) es).Disciplined) ↔
      ∀ p ∈ Run.visits step (boot driver isIn) events, p.1.Orderly p.2 := by
  rw [Run.forall_prefix_run_iff, and_iff_right (disciplined_boot driver isIn)]
  refine Run.forall_visits_iff (I := fun s : Udc => s.Disciplined ∧ s.Tracked)
    (P := fun s e => (s.step e).Disciplined) ?_ ?_
    ⟨disciplined_boot driver isIn, tracked_boot driver isIn⟩
  · rintro s e ⟨h, ht⟩ hafter
    exact ⟨hafter, ht.step h e⟩
  · rintro s e ⟨h, ht⟩
    exact disciplined_step_iff h ht e

/-- Two requests, and the first is cancelled. -/
def cancelHead : List Event := [.queue (.ok 0x1000) 8, .queue (.ok 0x2000) 8, .dequeue 0]

theorem not_forall_disciplined :
    ¬∀ (driver isIn : Bool) (events : List Event), ∀ es, es <+: events →
      (Run.run step (boot driver isIn) es).Disciplined := by
  intro h
  have hhead := (h true true cancelHead cancelHead List.prefix_rfl).head
  obtain ⟨-, haddr⟩ := hhead ⟨1, 0x2000, 8, 0, -einprogress⟩ rfl
  exact absurd haddr (by decide)

end Udc

end GxpUdc
