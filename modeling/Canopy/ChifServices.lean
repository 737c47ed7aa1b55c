/-
The daemon as `main` builds it: the ROM, SMIF and Health services behind one
dispatch loop and one response buffer.

* `romHandler`, `smifHandler`, `healthHandler` — the services keep the contract of
  `ServiceHandler`;
* `main_responses` — the shared buffer is invisible: every packet is answered as
  if its handler had a buffer of its own.
-/
import Canopy.ChifDaemon
import Canopy.HandlerFraming

namespace Chif

open Bytes

def romServiceId : UInt8 := 0x02
def smifServiceId : UInt8 := 0x00
def healthServiceId : UInt8 := 0x10

/-- The services with their stores; the SMIF service is in a state it can reach. -/
structure Services where
  smif : SmifService
  rom : RomService
  reached : smif.Reached

/-- What the outside does during one packet. -/
structure ServicesEnv where
  smif : SmifEnv
  finalize : FinalizeIo

def romHandler : ServiceHandler Services ServicesEnv where
  serviceId := romServiceId
  handle s e request response :=
    ((s.rom.handle e.finalize request response).answer,
      { s with rom := (s.rom.handle e.finalize request response).service })
  length_eq s e request _ := (s.rom.handle_frames _ e.finalize request).length_eq rfl
  size_le s e request _ := (s.rom.handle_frames _ e.finalize request).size_le rfl

def smifHandler : ServiceHandler Services ServicesEnv where
  serviceId := smifServiceId
  handle s e request response :=
    ((s.smif.handle e.smif request response).answer,
      { s with
        smif := (s.smif.handle e.smif request response).service
        reached := s.reached.handle e.smif request response })
  length_eq s e request _ := (SmifService.handle_frames _ s.reached e.smif request).length_eq rfl
  size_le s e request _ := (SmifService.handle_frames _ s.reached e.smif request).size_le rfl

def healthHandler : ServiceHandler Services ServicesEnv where
  serviceId := healthServiceId
  handle s _ request response := (healthHandle request response, s)
  length_eq _ _ request _ := (healthHandle_frames _ request).length_eq rfl
  size_le _ _ request _ := (healthHandle_frames _ request).size_le rfl

/-- The handlers in the order `main` registers them. -/
def mainHandlers : List (ServiceHandler Services ServicesEnv) :=
  [romHandler, smifHandler, healthHandler]

/-! ### The shared buffer -/

/-- A handler whose packets and effects do not depend on what is in the buffer. -/
def ServiceHandler.Clean {σ ε : Type} (h : ServiceHandler σ ε) : Prop :=
  ∀ s e request (response response' : Bytes), response.length = response'.length →
    SamePacket (h.handle s e request response).1 (h.handle s e request response').1 ∧
      (h.handle s e request response).2 = (h.handle s e request response').2

theorem romHandler_clean : romHandler.Clean := by
  intro s e request response response' hlen
  obtain ⟨hret, hsent, heff⟩ := (s.rom.handle_frames _ e.finalize request).sameAnswer hlen rfl
  have hservice := congrArg Prod.fst heff
  exact ⟨⟨hret, hsent⟩, congrArg (fun rom => { s with rom := rom }) hservice⟩

theorem smifHandler_clean : smifHandler.Clean := by
  intro s e request response response' hlen
  obtain ⟨hret, hsent, heff⟩ :=
    (SmifService.handle_frames _ s.reached e.smif request).sameAnswer hlen rfl
  have hservice : (s.smif.handle e.smif request response).service
      = (s.smif.handle e.smif request response').service := congrArg Prod.fst heff
  refine ⟨⟨hret, hsent⟩, ?_⟩
  simp only [smifHandler, hservice]

theorem healthHandler_clean : healthHandler.Clean := by
  intro s e request response response' hlen
  obtain ⟨hret, hsent, -⟩ := (healthHandle_frames _ request).sameAnswer hlen rfl
  exact ⟨⟨hret, hsent⟩, rfl⟩

section Clean

variable {σ ε : Type}

/-- One packet served with a response buffer of its own. -/
def reply (handlers : Handlers σ ε) (s : σ) (p : Bytes × ε) : Option Bytes × σ :=
  ((exchange handlers (s, List.replicate maxPacketSize 0) p).1,
    (exchange handlers (s, List.replicate maxPacketSize 0) p).2.1)

/-- The packets served one after the other, each with a buffer of its own. -/
def replies (handlers : Handlers σ ε) : σ → List (Bytes × ε) → List Bytes
  | _, [] => []
  | s, p :: ps => (reply handlers s p).1.toList ++ replies handlers (reply handlers s p).2 ps

/-- With clean handlers an exchange does not show the buffer. -/
theorem exchange_clean {handlers : Handlers σ ε}
    (h : ∀ id handler, handlers id = some handler → handler.Clean) (s : σ) {buf : Bytes}
    (hbuf : buf.length = maxPacketSize) (p : Bytes × ε) :
    (exchange handlers (s, buf) p).1 = (reply handlers s p).1 ∧
      (exchange handlers (s, buf) p).2.1 = (reply handlers s p).2 ∧
      (exchange handlers (s, buf) p).2.2.length = maxPacketSize := by
  rw [reply, exchange, exchange]
  cases hfind : handlers (serviceIdOf p.1) with
  | none => exact ⟨rfl, rfl, hbuf⟩
  | some handler =>
    have hlen : buf.length = (List.replicate maxPacketSize (0 : UInt8)).length := by
      rw [hbuf, List.length_replicate]
    obtain ⟨⟨hret, hsent⟩, hstate⟩ := h _ handler hfind s p.2 p.1 buf _ hlen
    rw [sent, sent, hret] at hsent
    refine ⟨?_, hstate, (handler.length_eq s p.2 p.1 buf).trans hbuf⟩
    dsimp only
    rw [hret, hsent]

private theorem responses_clean {handlers : Handlers σ ε}
    (h : ∀ id handler, handlers id = some handler → handler.Clean) (ps : List (Bytes × ε)) :
    ∀ (s : σ) (buf : Bytes), buf.length = maxPacketSize →
      responses handlers (s, buf) ps = replies handlers s ps := by
  induction ps with
  | nil =>
    intro s buf _
    rfl
  | cons p ps ih =>
    intro s buf hbuf
    obtain ⟨hpacket, hstate, hlen⟩ := exchange_clean h s hbuf p
    rw [responses, replies, hpacket, ← hstate]
    exact congrArg _ (ih _ _ hlen)

end Clean

/-- **The daemon answers every packet as if its handler had a buffer of its own**,
whatever has gone through the shared buffer before. -/
theorem main_responses (outOfRange : ℤ → ℤ) (services : Services)
    (ts : List (Turn ServicesEnv)) :
    (Run.run (iterate (registered mainHandlers) outOfRange) (.entered services) ts).written.map
        Prod.fst = replies (registered mainHandlers) services (inbound ts) := by
  have hclean : ∀ id handler, registered mainHandlers id = some handler → handler.Clean := by
    intro id handler hfind
    rw [registered_eq] at hfind
    have hmem := List.mem_of_find?_eq_some hfind
    rcases List.mem_cons.mp hmem with rfl | hmem
    · exact healthHandler_clean
    · rcases List.mem_cons.mp hmem with rfl | hmem
      · exact smifHandler_clean
      · obtain rfl := List.mem_singleton.mp hmem
        exact romHandler_clean
  have hrun := run_sees mainHandlers outOfRange ts (.entered services)
    ⟨List.length_replicate, List.length_replicate⟩
  rw [hrun.packets]
  exact responses_clean hclean (inbound ts) services _ List.length_replicate

end Chif
