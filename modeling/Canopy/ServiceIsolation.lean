/-
The services behind the daemon do not see each other.

They share the dispatch loop and the response buffer, and nothing else: what a
service answers and what it keeps depends on the packets addressed to it only.

* `unwinds_main` — one packet;
* `daemon_isolated` — any two runs of the daemon in which a service gets the same
  packets.
-/
import Canopy.ChifServices
import Canopy.Unwinding

namespace Chif

open Bytes Unwinding Run

/-- The service a packet is addressed to. -/
def addressee {ε : Type} (p : Bytes × ε) : UInt8 := serviceIdOf p.1

/-- The packet is served: the services afterwards. -/
def served (s : Services) (p : Bytes × ServicesEnv) : Services :=
  (reply (registered mainHandlers) s p).2

/-- The packet is served: the response, if there is one. -/
def answered (s : Services) (p : Bytes × ServicesEnv) : List Bytes :=
  (reply (registered mainHandlers) s p).1.toList

private theorem replies_eq_log (ps : List (Bytes × ServicesEnv)) :
    ∀ s, replies (registered mainHandlers) s ps = log served answered s ps := by
  induction ps with
  | nil =>
    intro s
    rfl
  | cons p ps ih =>
    intro s
    rw [replies, log_cons, ih]
    rfl

/-- The two states are the same to the service `id`. -/
structure SameFor (id : UInt8) (s t : Services) : Prop where
  rom : id = romServiceId → s.rom = t.rom
  smif : id = smifServiceId → s.smif = t.smif

theorem SameFor.refl (id : UInt8) (s : Services) : SameFor id s s := ⟨fun _ => rfl, fun _ => rfl⟩

theorem SameFor.symm {id : UInt8} {s t : Services} (h : SameFor id s t) : SameFor id t s :=
  ⟨fun hid => (h.rom hid).symm, fun hid => (h.smif hid).symm⟩

theorem SameFor.trans {id : UInt8} {s t u : Services} (h : SameFor id s t)
    (h' : SameFor id t u) : SameFor id s u :=
  ⟨fun hid => (h.rom hid).trans (h'.rom hid), fun hid => (h.smif hid).trans (h'.smif hid)⟩

/-! ### One packet -/

/-- The handlers `main` registers, by service id. -/
theorem registered_main (id : UInt8) :
    registered mainHandlers id =
      if id = romServiceId then some romHandler
      else if id = smifServiceId then some smifHandler
      else if id = healthServiceId then some healthHandler
      else none := by
  rw [registered_eq]
  by_cases hrom : id = romServiceId
  · subst hrom
    rfl
  by_cases hsmif : id = smifServiceId
  · subst hsmif
    rfl
  by_cases hhealth : id = healthServiceId
  · subst hhealth
    rfl
  rw [if_neg hrom, if_neg hsmif, if_neg hhealth]
  refine List.find?_eq_none.mpr fun h hmem => ?_
  have hcases : h = healthHandler ∨ h = smifHandler ∨ h = romHandler := by
    simpa [mainHandlers] using hmem
  rw [decide_eq_true_eq]
  rcases hcases with rfl | rfl | rfl
  · exact hhealth
  · exact hsmif
  · exact hrom

/-- The packet a handler's answer makes. -/
def packetOf (answer : ℤ × Bytes) : List Bytes :=
  (if (headerBytes : ℤ) ≤ answer.1 then some (answer.2.take answer.1.toNat) else none).toList

/-- A response buffer of its own. -/
def freshBuf : Bytes := List.replicate maxPacketSize 0

theorem reply_of_registered {p : Bytes × ServicesEnv} {h : ServiceHandler Services ServicesEnv}
    (hfind : registered mainHandlers (addressee p) = some h) (s : Services) :
    answered s p = packetOf (h.handle s p.2 p.1 freshBuf).1 ∧
      served s p = (h.handle s p.2 p.1 freshBuf).2 := by
  rw [addressee] at hfind
  rw [answered, served, reply, exchange, hfind]
  exact ⟨rfl, rfl⟩

private theorem reply_of_none {p : Bytes × ServicesEnv}
    (hfind : registered mainHandlers (addressee p) = none) (s : Services) :
    answered s p = [] ∧ served s p = s := by
  rw [addressee] at hfind
  rw [answered, served, reply, exchange, hfind]
  exact ⟨rfl, rfl⟩

/-- **A packet changes the service it is addressed to, and no other.** -/
theorem sameFor_served {id : UInt8} {p : Bytes × ServicesEnv} (hp : addressee p ≠ id)
    (s : Services) : SameFor id (served s p) s := by
  have hmain := registered_main (addressee p)
  by_cases hrom : addressee p = romServiceId
  · rw [if_pos hrom] at hmain
    rw [(reply_of_registered hmain s).2]
    refine ⟨?_, fun _ => rfl⟩
    rintro rfl
    exact absurd hrom hp
  by_cases hsmif : addressee p = smifServiceId
  · rw [if_neg hrom, if_pos hsmif] at hmain
    rw [(reply_of_registered hmain s).2]
    refine ⟨fun _ => rfl, ?_⟩
    rintro rfl
    exact absurd hsmif hp
  by_cases hhealth : addressee p = healthServiceId
  · rw [if_neg hrom, if_neg hsmif, if_pos hhealth] at hmain
    rw [(reply_of_registered hmain s).2]
    exact .refl id s
  · rw [if_neg hrom, if_neg hsmif, if_neg hhealth] at hmain
    rw [(reply_of_none hmain s).2]
    exact .refl id s

/-- **It is answered, and that service left, by what the service kept.** -/
theorem served_eq {id : UInt8} {s t : Services} (h : SameFor id s t)
    {p : Bytes × ServicesEnv} (hp : addressee p = id) :
    answered s p = answered t p ∧ SameFor id (served s p) (served t p) := by
  have hmain := registered_main (addressee p)
  by_cases hrom : addressee p = romServiceId
  · rw [if_pos hrom] at hmain
    obtain ⟨hanswer, hserved⟩ := reply_of_registered hmain s
    obtain ⟨hanswer', hserved'⟩ := reply_of_registered hmain t
    have hsame : s.rom = t.rom := h.rom (hp.symm.trans hrom)
    rw [hanswer, hanswer', hserved, hserved']
    simp only [romHandler, hsame]
    exact ⟨trivial, fun _ => rfl, fun hid => h.smif hid⟩
  by_cases hsmif : addressee p = smifServiceId
  · rw [if_neg hrom, if_pos hsmif] at hmain
    obtain ⟨hanswer, hserved⟩ := reply_of_registered hmain s
    obtain ⟨hanswer', hserved'⟩ := reply_of_registered hmain t
    have hsame : s.smif = t.smif := h.smif (hp.symm.trans hsmif)
    rw [hanswer, hanswer', hserved, hserved']
    simp only [smifHandler, hsame]
    exact ⟨trivial, fun hid => h.rom hid, fun _ => rfl⟩
  by_cases hhealth : addressee p = healthServiceId
  · rw [if_neg hrom, if_neg hsmif, if_pos hhealth] at hmain
    obtain ⟨hanswer, hserved⟩ := reply_of_registered hmain s
    obtain ⟨hanswer', hserved'⟩ := reply_of_registered hmain t
    rw [hanswer, hanswer', hserved, hserved']
    exact ⟨rfl, h⟩
  · rw [if_neg hrom, if_neg hsmif, if_neg hhealth] at hmain
    obtain ⟨hanswer, hserved⟩ := reply_of_none hmain s
    obtain ⟨hanswer', hserved'⟩ := reply_of_none hmain t
    rw [hanswer, hanswer', hserved, hserved']
    exact ⟨rfl, h⟩

/-- Whatever the packets are. -/
def anyPacket (_ : Services) (_ : Bytes × ServicesEnv) : Prop := True

theorem anyPacket_visits (s : Services) (ps : List (Bytes × ServicesEnv)) :
    ∀ p ∈ visits served s ps, anyPacket p.1 p.2 := fun _ _ => trivial

theorem unwinds_main (id : UInt8) :
    Unwinds served addressee answered (SameFor id) anyPacket id where
  respects := by
    intro s t p h _ hp
    exact (sameFor_served hp s).trans h
  emits_eq := fun _ _ _ h _ hp => (served_eq h hp).1
  consistent := fun _ _ _ h _ hp => (served_eq h hp).2

/-! ### The daemon -/

private theorem clean_main {id : UInt8} {h : ServiceHandler Services ServicesEnv}
    (hfind : registered mainHandlers id = some h) : h.Clean := by
  rw [registered_main] at hfind
  split at hfind
  · obtain rfl := Option.some_inj.mp hfind
    exact romHandler_clean
  · split at hfind
    · obtain rfl := Option.some_inj.mp hfind
      exact smifHandler_clean
    · split at hfind
      · obtain rfl := Option.some_inj.mp hfind
        exact healthHandler_clean
      · cases hfind

/-- The shared buffer does not reach the services. -/
theorem afterAll_eq_run (ps : List (Bytes × ServicesEnv)) : ∀ (s : Services) (buf : Bytes),
    buf.length = maxPacketSize →
      (afterAll (registered mainHandlers) (s, buf) ps).1 = run served s ps := by
  induction ps with
  | nil =>
    intro s buf _
    rfl
  | cons p ps ih =>
    intro s buf hbuf
    obtain ⟨-, hstate, hlen⟩ :=
      exchange_clean (fun _ _ hfind => clean_main hfind) s hbuf p
    rw [run_cons, served, ← hstate]
    exact ih _ _ hlen

/-- The daemon of `main` after some iterations. -/
def daemonAfter (outOfRange : ℤ → ℤ) (s : Services) (ts : List (Turn ServicesEnv)) :
    ChifDaemon Services :=
  run (iterate (registered mainHandlers) outOfRange) (.entered s) ts

private theorem services_daemonAfter (outOfRange : ℤ → ℤ) (s : Services)
    (ts : List (Turn ServicesEnv)) :
    (daemonAfter outOfRange s ts).services = run served s (inbound ts) := by
  have hrun := run_sees mainHandlers outOfRange ts (.entered s)
    ⟨List.length_replicate, List.length_replicate⟩
  have hstate := congrArg Prod.fst hrun.state
  exact hstate.trans (afterAll_eq_run (inbound ts) s _ List.length_replicate)

/-- What the daemon writes in answer to the packets for service `id`. -/
def answersTo (id : UInt8) (s : Services) (ts : List (Turn ServicesEnv)) : List Bytes :=
  log served (own addressee id answered) s (inbound ts)

/-- They are among the packets written. -/
theorem answersTo_sublist (outOfRange : ℤ → ℤ) (id : UInt8) (s : Services)
    (ts : List (Turn ServicesEnv)) :
    (answersTo id s ts).Sublist ((daemonAfter outOfRange s ts).written.map Prod.fst) := by
  rw [daemonAfter, main_responses, replies_eq_log, answersTo]
  exact log_own_sublist (inbound ts) s

/-- **Two runs of the daemon in which a service gets the same packets**, whatever
the packets to the others, the read errors and the failed writes: the service is
answered for by the same packets, among all that are written, and is left with
the same state. -/
theorem daemon_isolated (outOfRange : ℤ → ℤ) (id : UInt8) {s s' : Services}
    (hstate : SameFor id s s') {ts ts' : List (Turn ServicesEnv)}
    (hsame : purge addressee id (inbound ts) = purge addressee id (inbound ts')) :
    answersTo id s ts = answersTo id s' ts' ∧
      (answersTo id s ts).Sublist ((daemonAfter outOfRange s ts).written.map Prod.fst) ∧
      SameFor id (daemonAfter outOfRange s ts).services
        (daemonAfter outOfRange s' ts').services := by
  have hunwinds := unwinds_main id
  refine ⟨?_, answersTo_sublist outOfRange id s ts, ?_⟩
  · rw [answersTo, answersTo,
      hunwinds.log_own (inbound ts) hstate (anyPacket_visits s _), hsame,
      hunwinds.log_own (inbound ts') (.refl id s') (anyPacket_visits s' _)]
  · rw [services_daemonAfter, services_daemonAfter]
    have hleft := hunwinds.agree_purge (inbound ts) hstate (anyPacket_visits s _)
    have hright := hunwinds.agree_purge (inbound ts') (.refl id s') (anyPacket_visits s' _)
    rw [hsame] at hleft
    exact hleft.trans hright.symm

/-- The services without any files. -/
def emptyServices : Services where
  smif := .boot false none fun _ => none
  rom := ⟨.new none none, false⟩
  reached := SmifService.reached_boot false none fun _ => none

def noEnv : ServicesEnv where
  smif := ⟨.createFails, .openFails⟩
  finalize := ⟨false, false, ⟨0, false⟩, ⟨0, false⟩, ⟨0, false⟩, 0, false, 0⟩

/-- A health request. -/
def healthTurn : Turn ServicesEnv := ⟨.bytes [8, 0, 1, 0, 0, 0, 0x10, 0] (by decide), noEnv, 12⟩

/-- A packet for a service that is not registered. -/
def strayTurn : Turn ServicesEnv := ⟨.bytes [8, 0, 2, 0, 0, 0, 0x77, 0] (by decide), noEnv, 0⟩

/-- The request alone, and behind the stray packet and a failing read. -/
theorem daemon_isolated_health :
    let ts := [healthTurn]
    let ts' := [strayTurn, ⟨.error 5, noEnv, 0⟩, healthTurn]
    answersTo healthServiceId emptyServices ts = answersTo healthServiceId emptyServices ts' ∧
      (answersTo healthServiceId emptyServices ts).Sublist
        ((daemonAfter id emptyServices ts).written.map Prod.fst) ∧
      SameFor healthServiceId (daemonAfter id emptyServices ts).services
        (daemonAfter id emptyServices ts').services :=
  daemon_isolated id healthServiceId (.refl _ emptyServices) (by rfl)

end Chif
