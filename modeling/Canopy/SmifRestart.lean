/-
Restarts of the daemon, as the host sees them.

When the daemon is restarted, `main` loads the EV file again.  As long as the
last change of the store has been saved, the host is answered as if the daemon
had run through, and cannot find out later either.  A save that failed does no
harm once a later one has succeeded: it writes the whole store.

* `setDeleteEv_op` — a request to change the store is one mutator call, or none;
* `DaemonHost.synced_step` — what is in the file, request by request;
* `restarts_unobservable` — any sequence of requests and restarts.
-/
import Canopy.SmifObserved
import Canopy.Unwinding

namespace Chif

open Bytes Observation Run Unwinding

/-! ### The mutator call of a request -/

/-- The call `handleSetDeleteEv` makes for a payload, if it makes one. -/
def setDeleteOp (reqPayload : Bytes) : Option EvOp :=
  let flags := reqPayload.getD 0 0
  if flags &&& evFlagDeleteAll ≠ 0 then some .deleteAll
  else if flags &&& evFlagDelete ≠ 0 then
    if reqPayload.length < 4 + maxEvNameLen then none
    else if ((reqPayload.drop 4).take maxEvNameLen).getLastD 0 ≠ 0 then none
    else some (.del (cstr (reqPayload.drop 4)))
  else if flags &&& evFlagSet ≠ 0 then
    let minSetPayload := 4 + maxEvNameLen + 2
    let name := cstr (padTo maxEvNameLen ((reqPayload.drop 4).take (maxEvNameLen - 1)))
    let dataLen := toLE ((reqPayload.drop (4 + maxEvNameLen)).take 2)
    if reqPayload.length < minSetPayload then none
    else if dataLen > maxEvDataSize then none
    else if dataLen = 0 then some (.del name)
    else if reqPayload.length < minSetPayload + dataLen then none
    else some (.set name ((reqPayload.drop minSetPayload).take dataLen))
  else none

/-- The store after an optional call. -/
def EvStorage.mutate? (io : SaveIo) (st : EvStorage) : Option EvOp → EvStorage
  | none => st
  | some op => (st.mutate io op).2

theorem setDeleteEv_op (io : SaveIo) (st : EvStorage) (reqPayload : Bytes) :
    (setDeleteEv io st reqPayload).2 = st.mutate? io (setDeleteOp reqPayload) := by
  rw [setDeleteEv, setDeleteOp]
  dsimp only
  let R : EvError × EvStorage → Option EvOp → Prop := fun r op => r.2 = st.mutate? io op
  show R _ _
  refine ite_rel (fun _ => rfl) fun _ => ?_
  refine ite_rel (fun _ => ?_) fun _ => ?_
  · refine ite_rel (fun _ => rfl) fun _ => ?_
    exact ite_rel (fun _ => rfl) fun _ => rfl
  refine ite_rel (fun _ => ?_) fun _ => rfl
  refine ite_rel (fun _ => rfl) fun _ => ?_
  refine ite_rel (fun _ => rfl) fun _ => ?_
  refine ite_rel (fun _ => rfl) fun _ => ?_
  exact ite_rel (fun _ => rfl) fun _ => rfl

/-- The names of the calls come from C strings. -/
theorem setDeleteOp_nulFree {reqPayload : Bytes} {op : EvOp}
    (h : setDeleteOp reqPayload = some op) : op.NulFree := by
  cases op with
  | set name data =>
    rw [setDeleteOp] at h
    dsimp only at h
    split_ifs at h
    all_goals cases h
    exact nul_notMem_cstr _
  | del name => exact trivial
  | deleteAll => exact trivial

/-- The call a request makes. -/
def SmifService.opOf (c : HostCall) : Option EvOp :=
  if c.request.length < headerBytes ∨ c.response.length < headerBytes + 4 ∨
      (parseHeader c.request).command ≠ smifCmdSetDeleteEv ∨ (payload c.request).length < 4 then
    none
  else setDeleteOp (payload c.request)

/-- A request with another command leaves the service as it is. -/
theorem SmifService.serve_other (svc : SmifService) (c : HostCall)
    (h : (parseHeader c.request).command ≠ smifCmdSetDeleteEv) : svc.serve c = svc := by
  let Q : SmifResult → Prop := fun r => r.service = svc
  have same : ∀ answer i2c, Q ⟨answer, svc, i2c⟩ := fun _ _ => rfl
  show Q (svc.handle c.env c.request c.response)
  rw [handle]
  refine iteInduction (fun _ => same _ _) fun _ => ?_
  refine iteInduction (fun _ => same _ _) fun _ => ?_
  refine iteInduction (fun _ => same _ _) fun _ => ?_
  refine iteInduction (fun hset => absurd hset h) fun _ => ?_
  refine iteInduction (fun _ => same _ _) fun _ => ?_
  refine iteInduction (fun _ => same _ _) fun _ => ?_
  refine iteInduction (fun _ => same _ _) fun _ => ?_
  refine iteInduction (fun _ => same _ _) fun _ => ?_
  refine iteInduction (fun _ => same _ _) fun _ => ?_
  exact iteInduction (fun _ => same _ _) fun _ => same _ _

/-- **A request makes that call and does nothing else to the service.** -/
theorem SmifService.serve_op {svc : SmifService} {st : EvStorage} (hst : svc.evStorage = some st)
    (c : HostCall) :
    svc.serve c = { svc with evStorage := some (st.mutate? c.env.saveIo (opOf c)) } := by
  have hsame : svc = { svc with evStorage := some (st.mutate? c.env.saveIo none) } := by
    rw [EvStorage.mutate?, ← hst]
  rw [opOf]
  by_cases hcommand : (parseHeader c.request).command = smifCmdSetDeleteEv
  · by_cases hrequest : c.request.length < headerBytes
    · rw [if_pos (Or.inl hrequest), ← hsame, serve, handle, if_pos hrequest]
    by_cases hresponse : c.response.length < headerBytes + 4
    · rw [if_pos (Or.inr (Or.inl hresponse)), ← hsame, serve, handle, if_neg hrequest,
        if_pos hresponse]
    have hother : ¬(parseHeader c.request).command = smifCmdGetEvByIndex := by
      rw [hcommand]
      decide
    rw [serve, handle, if_neg hrequest, if_neg hresponse]
    dsimp only
    rw [if_neg hother, if_pos hcommand]
    dsimp only
    rw [hst, handleSetDeleteEv]
    dsimp only
    by_cases hpayload : (payload c.request).length < 4
    · rw [if_pos hpayload, if_pos (Or.inr (Or.inr (Or.inr hpayload)))]
      rfl
    · rw [if_neg hpayload, setDeleteEv_op, if_neg]
      rintro (h | h | h | h)
      · exact hrequest h
      · exact hresponse h
      · exact h hcommand
      · exact hpayload h
  · rw [if_pos (Or.inr (Or.inr (Or.inl hcommand))), ← hsame]
    exact svc.serve_other c hcommand

/-! ### Requests and restarts -/

/-- The service, and whether the last change of its store is not in the file. -/
structure DaemonHost where
  svc : SmifService
  unsaved : Bool

inductive HostEvent where
  | call (c : HostCall)
  | restart (opened : Bool)

namespace DaemonHost

/-- The file the store is saved to. -/
def file (s : DaemonHost) : Option Bytes := s.svc.evStorage.bind EvStorage.file

/-- The request changes the entries, and they are to be saved. -/
def changes (s : DaemonHost) (c : HostCall) : Bool :=
  match s.svc.evStorage, SmifService.opOf c with
  | some st, some op => !decide (refused st.entries op)
  | _, _ => false

/-- A restart loads the file again. -/
def step (s : DaemonHost) : HostEvent → DaemonHost
  | .call c =>
    { svc := s.svc.serve c
      unsaved := if s.changes c then c.env.saveIo ≠ .ok else s.unsaved }
  | .restart opened =>
    { svc := .boot opened s.file s.svc.segmentToBus
      unsaved := !opened }

/-- What the host is answered. -/
def shows (s : DaemonHost) : HostEvent → List (ℤ × Bytes × Option I2cTransfer)
  | .call c => s.svc.shows c
  | .restart _ => []

/-- The daemon as it is started first. -/
def start (opened : Bool) (file : Option Bytes) (segmentToBus : UInt8 → Option ℤ) : DaemonHost :=
  ⟨.boot opened file segmentToBus, !opened⟩

/-- Unless a change is unsaved, the file holds what is in memory. -/
def Synced (s : DaemonHost) : Prop :=
  ∃ st, s.svc.evStorage = some st ∧ Storable st.entries ∧
    (s.unsaved = false → (reload st.file).2 = st.entries)

private theorem synced_boot (opened : Bool) (file : Option Bytes)
    (segmentToBus : UInt8 → Option ℤ) :
    Synced ⟨.boot opened file segmentToBus, !opened⟩ := by
  refine ⟨EvStorage.boot opened file, rfl,
    ⟨bounded_loadFile opened file, nulFree_loadFile opened file⟩, fun hopened => ?_⟩
  obtain rfl : opened = true := by simpa using hopened
  rfl

/-- **What is in the file, request by request.** -/
theorem synced_step (s : DaemonHost) (e : HostEvent) (h : s.Synced) : (s.step e).Synced := by
  obtain ⟨st, hst, hstorable, hsaved⟩ := h
  cases e with
  | restart opened => exact synced_boot opened s.file s.svc.segmentToBus
  | call c =>
    have hserve := SmifService.serve_op hst c
    have hchanges : s.changes c = match SmifService.opOf c with
        | some op => !decide (refused st.entries op)
        | none => false := by
      rw [changes, hst]
      cases SmifService.opOf c with
      | none => rfl
      | some op => rfl
    cases hop : SmifService.opOf c with
    | none =>
      rw [hop] at hserve hchanges
      refine ⟨st, by rw [step, hserve]; rfl, hstorable, ?_⟩
      rw [step, hchanges]
      exact hsaved
    | some op =>
      rw [hop] at hserve hchanges
      have hnul : op.NulFree := by
        rw [SmifService.opOf] at hop
        split_ifs at hop
        exact setDeleteOp_nulFree hop
      refine ⟨(st.mutate c.env.saveIo op).2, by rw [step, hserve]; rfl,
        EvStorage.storable_mutate hstorable c.env.saveIo hnul, ?_⟩
      rw [step, hchanges]
      by_cases hrefused : refused st.entries op
      · rw [EvStorage.mutate_of_refused c.env.saveIo st hrefused]
        simpa [hrefused] using hsaved
      · -- the whole store has been written
        intro hok
        have hio : c.env.saveIo = .ok := by simpa [hrefused] using hok
        have hdone := (EvStorage.mutate_fst c.env.saveIo st op).mpr ⟨hrefused, hio⟩
        rw [EvStorage.reload_of_mutate hstorable hnul hdone]

/-- A restart opens the file, and finds nothing unsaved. -/
def SafeRestart (s : DaemonHost) : HostEvent → Prop
  | .call _ => True
  | .restart opened => opened = true ∧ s.unsaved = false

instance (s : DaemonHost) : (e : HostEvent) → Decidable (s.SafeRestart e)
  | .call _ => .isTrue trivial
  | .restart _ => inferInstanceAs (Decidable (_ ∧ _))

/-- The event is a request. -/
def isCall : HostEvent → Bool
  | .call _ => true
  | .restart _ => false

/-! ### Any sequence of them -/

/-- The two remember the same, and what the first remembers is in its file. -/
def Agree (s t : DaemonHost) : Prop := SameMemory s.svc t.svc ∧ s.Synced

/-- A safe restart brings back what was in memory. -/
theorem agree_restart {s t : DaemonHost} (h : Agree s t) {opened : Bool}
    (hsafe : s.SafeRestart (.restart opened)) : Agree (s.step (.restart opened)) t := by
  obtain ⟨hsame, hsynced⟩ := h
  obtain ⟨rfl, hsaved⟩ := hsafe
  refine ⟨⟨?_, hsame.segmentToBus⟩, synced_step s _ hsynced⟩
  obtain ⟨st, hst, -, hfile⟩ := hsynced
  have hboot : (s.step (.restart true)).svc.memory = some (reload st.file).2 := by
    rw [step, file, hst]
    rfl
  rw [hboot, hfile hsaved, ← hsame.memory, SmifService.memory, hst]
  rfl

private theorem unwinds_calls : Unwinds step isCall shows Agree SafeRestart true where
  respects := by
    intro s t e h hsafe he
    cases e with
    | call c => exact absurd rfl he
    | restart opened => exact agree_restart h hsafe
  emits_eq := by
    intro s t e h _ he
    cases e with
    | call c =>
      have hone := handle_congr h.1 c.env c.request c.response
      rw [shows, shows, SmifService.shows, SmifService.shows, hone.answer, hone.i2c]
    | restart opened => cases he
  consistent := by
    intro s t e h _ he
    cases e with
    | call c =>
      exact ⟨(handle_congr h.1 c.env c.request c.response).service, synced_step s _ h.2⟩
    | restart opened => cases he

/-- Only requests are answered. -/
theorem own_shows : own isCall true shows = shows := by
  funext s e
  cases e with
  | call c => rfl
  | restart opened => rfl

/-- **Restarts are invisible** to the host, in any sequence of requests and
restarts, if each restart opens the file and finds no change unsaved: the
requests are answered as in the run without the restarts, and will be. -/
theorem restarts_unobservable (opened : Bool) (file : Option Bytes)
    (segmentToBus : UInt8 → Option ℤ) (es : List HostEvent)
    (hsafe : ∀ p ∈ visits step (start opened file segmentToBus) es, p.1.SafeRestart p.2) :
    log step shows (start opened file segmentToBus) es =
        log step shows (start opened file segmentToBus) (purge isCall true es) ∧
      Indistinct SmifService.serve SmifService.shows
        (run step (start opened file segmentToBus) es).svc
        (run step (start opened file segmentToBus) (purge isCall true es)).svc := by
  have hagree : Agree (start opened file segmentToBus) (start opened file segmentToBus) :=
    ⟨⟨rfl, rfl⟩, synced_boot opened file segmentToBus⟩
  have hlog := unwinds_calls.log_own es hagree hsafe
  rw [own_shows] at hlog
  exact ⟨hlog, indistinct_of_sameMemory (unwinds_calls.agree_purge es hagree hsafe).1⟩

/-- A request to set the variable `A`. -/
def setCallOf (value : UInt8) (saveIo : SaveIo) : HostCall where
  env := ⟨saveIo, .openFails⟩
  request := (ChifPktHeader.mk 47 1 smifCmdSetDeleteEv 0 0).bytes ++
    ([evFlagSet, 0, 0, 0] ++ padTo maxEvNameLen [65] ++ [1, 0, value])
  response := List.replicate 64 0

/-- A set whose save fails, a restart after the next one, and a set again. -/
theorem restarts_unobservable_failedSave :
    let es := [HostEvent.call (setCallOf 1 .writeFails), .call (setCallOf 2 .ok), .restart true,
      .call (setCallOf 3 .ok)]
    log step shows (start true none fun _ => none) es =
        log step shows (start true none fun _ => none) (purge isCall true es) ∧
      Indistinct SmifService.serve SmifService.shows
        (run step (start true none fun _ => none) es).svc
        (run step (start true none fun _ => none) (purge isCall true es)).svc :=
  restarts_unobservable true none _ _ (by decide +kernel)

end DaemonHost

end Chif
