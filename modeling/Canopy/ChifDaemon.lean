/-
The dispatch loop of the CHIF daemon (`chif_daemon.hpp`, `chif_daemon.cpp`).

One iteration of the loop in `run()` reads the channel into the shared receive
buffer and then sleeps, calls a handler and writes its response, or does
nothing.  `afterRead` and `perform` are the statements behind the read;
`iterate` puts them together.

* `iterate_packet`, `iterate_other` — all an iteration does;
* `dispatch_contract` — a whole run writes the responses to the inbound packets
  and nothing else, and calls each handler for the packets addressed to it.

Design notes: the C++ counters are `int`; the model lets them wrap.  The
conversion of `2 ^ errorRetryCounter` to `int` has no defined result from 31 on,
so what the machine makes of it is a parameter.
-/
import Canopy.Packet
import Canopy.Run
import Mathlib.Data.List.Induction

namespace Chif

open Bytes

/-! ### Handlers -/

/-- The interface of a service (`ServiceHandler`).  `σ` is what the services keep
between packets, `ε` what the outside does to a service during one. -/
structure ServiceHandler (σ ε : Type) where
  serviceId : UInt8
  /-- return value, response buffer and state after a request -/
  handle : σ → ε → Bytes → Bytes → (ℤ × Bytes) × σ
  /-- the response is a span, whose size is fixed -/
  length_eq : ∀ s e request response, (handle s e request response).1.2.length = response.length
  /-- the return value is the size of a response inside the span, or negative -/
  size_le : ∀ s e request response, (handle s e request response).1.1 ≤ response.length

/-- `handlers_`. -/
abbrev Handlers (σ ε : Type) := UInt8 → Option (ServiceHandler σ ε)

variable {σ ε : Type}

/-- `ChifDaemon::registerHandler`: the last one for a service id stays. -/
def registerHandler (handlers : Handlers σ ε) (h : ServiceHandler σ ε) : Handlers σ ε :=
  fun id => if id = h.serviceId then some h else handlers id

/-- `handlers_` after the handlers `hs` were registered in this order. -/
def registered (hs : List (ServiceHandler σ ε)) : Handlers σ ε :=
  hs.foldl registerHandler fun _ => none

/-- A handler replaces any prior one for the same id. -/
theorem registered_eq (hs : List (ServiceHandler σ ε)) (id : UInt8) :
    registered hs id = hs.reverse.find? (fun h => id = h.serviceId) := by
  induction hs using List.reverseRecOn with
  | nil => rfl
  | append_singleton hs h ih =>
    rw [registered, List.foldl_append, List.foldl_cons, List.foldl_nil, List.reverse_append,
      List.reverse_singleton, List.singleton_append, List.find?_cons]
    by_cases hid : id = h.serviceId
    · rw [registerHandler, if_pos hid, decide_eq_true hid]
    · rw [registerHandler, if_neg hid, decide_eq_false hid]
      exact ih

private theorem serviceId_of_registered {hs : List (ServiceHandler σ ε)} {id : UInt8}
    {h : ServiceHandler σ ε} (hh : registered hs id = some h) : h.serviceId = id := by
  rw [registered_eq] at hh
  have hfound := List.find?_some hh
  exact (of_decide_eq_true hfound).symm

/-! ### The loop -/

/-- The result of one `channel_->read(recvBuf_)`. -/
inductive ReadResult where
  /-- the bytes are at the start of the buffer and `n` is their number -/
  | bytes (data : Bytes) (fits : data.length ≤ maxPacketSize)
  /-- `n` is negative -/
  | error (errno : ℕ)

/-- The daemon inside `run()`, with what it has done so far. -/
structure ChifDaemon (σ : Type) where
  recvBuf : Bytes
  respBuf : Bytes
  consecutiveErrors : Int32
  errorRetryCounter : Int32
  services : σ
  /-- the handlers called, by service id, each with its request -/
  calls : List (UInt8 × Bytes)
  /-- the packets written, each with what `channel_->write` returned -/
  written : List (Bytes × ℤ)
  /-- the back-off delays, in seconds -/
  slept : List ℤ

/-- What an iteration has still to do. -/
inductive Pending (σ ε : Type) where
  | nothing
  | sleep (delay : ℤ)
  | call (h : ServiceHandler σ ε) (request : Bytes)
  | write (packet : Bytes)

def maxConsecutiveErrors : Int32 := 10

def eintr : ℕ := 4

/-- `min(errorBackoffMaxDelay, errorBackoffBaseDelay * int(pow(2, errorRetryCounter)))`. -/
def backoffDelay (outOfRange : ℤ → ℤ) (errorRetryCounter : Int32) : ℤ :=
  let k := errorRetryCounter.toInt
  min 30 (1 * if k < 0 then 0 else if k < 31 then 2 ^ k.toNat else outOfRange k)

/-- A successful read: the bytes are in the buffer and the error counters reset. -/
def ChifDaemon.received (d : ChifDaemon σ) (data : Bytes) : ChifDaemon σ :=
  { d with
    recvBuf := memcpyAt d.recvBuf 0 data
    consecutiveErrors := 0
    errorRetryCounter := 0 }

/-- `it->second->handle(reqSpan, respSpan)`. -/
def ChifDaemon.called (d : ChifDaemon σ) (h : ServiceHandler σ ε) (env : ε) (request : Bytes) :
    ChifDaemon σ :=
  { d with
    respBuf := (h.handle d.services env request d.respBuf).1.2
    services := (h.handle d.services env request d.respBuf).2
    calls := d.calls ++ [(h.serviceId, request)] }

/-- From the return of `read` to the next sleep, call or end of the iteration. -/
def afterRead (handlers : Handlers σ ε) (outOfRange : ℤ → ℤ) (r : ReadResult)
    (d : ChifDaemon σ) : ChifDaemon σ × Pending σ ε :=
  match r with
  | .error errno =>
    if errno ≠ eintr then
      let d := { d with consecutiveErrors := d.consecutiveErrors + 1 }
      if d.consecutiveErrors ≥ maxConsecutiveErrors then
        (d, .sleep (backoffDelay outOfRange d.errorRetryCounter))
      else (d, .nothing)
    else (d, .nothing)
  | .bytes data _ =>
    let n := data.length
    if n = 0 then (d, .nothing)
    else
      let d := d.received data
      let request := d.recvBuf.take n
      -- the bytes are in the receive buffer even when they are no packet
      if n < headerBytes then (d, .nothing)
      else
        match handlers (parseHeader request).serviceId with
        | none => (d, .nothing)
        | some h => (d, .call h request)

/-- Does what is pending; a failed write is logged and forgotten. -/
def perform (env : ε) (writeResult : ℤ) (d : ChifDaemon σ) :
    Pending σ ε → ChifDaemon σ × Pending σ ε
  | .nothing => (d, .nothing)
  | .sleep delay =>
    ({ d with slept := d.slept ++ [delay], errorRetryCounter := d.errorRetryCounter + 1 },
      .nothing)
  | .call h request =>
    let respSize := (h.handle d.services env request d.respBuf).1.1
    let d := d.called h env request
    if respSize > 0 then
      if respSize < headerBytes then (d, .nothing)
      else (d, .write (d.respBuf.take respSize.toNat))
    else (d, .nothing)
  | .write packet => ({ d with written := d.written ++ [(packet, writeResult)] }, .nothing)

/-- One iteration of the loop and what the outside does in it. -/
structure Turn (ε : Type) where
  read : ReadResult
  env : ε
  writeResult : ℤ

/-- The loop body of `ChifDaemon::run`. -/
def iterate (handlers : Handlers σ ε) (outOfRange : ℤ → ℤ) (d : ChifDaemon σ) (t : Turn ε) :
    ChifDaemon σ :=
  let r := afterRead handlers outOfRange t.read d
  -- at most a call and a write
  let r := perform t.env t.writeResult r.1 r.2
  (perform t.env t.writeResult r.1 r.2).1

/-- The daemon when it enters the loop. -/
def ChifDaemon.entered (services : σ) : ChifDaemon σ where
  recvBuf := List.replicate maxPacketSize 0
  respBuf := List.replicate maxPacketSize 0
  consecutiveErrors := 0
  errorRetryCounter := 0
  services := services
  calls := []
  written := []
  slept := []

/-! ### What a run should do -/

/-- The packet a read delivers: at least a header. -/
def ReadResult.packet : ReadResult → Option Bytes
  | .bytes data _ => if data.length < headerBytes then none else some data
  | .error _ => none

/-- The inbound packets, each with what the outside does while it is served. -/
def inbound (ts : List (Turn ε)) : List (Bytes × ε) :=
  ts.filterMap fun t => t.read.packet.map fun data => (data, t.env)

def serviceIdOf (data : Bytes) : UInt8 := (parseHeader data).serviceId

/-- One packet is served: the response, if there is one, and the services and the
response buffer afterwards. -/
def exchange (handlers : Handlers σ ε) (s : σ × Bytes) (p : Bytes × ε) :
    Option Bytes × (σ × Bytes) :=
  match handlers (serviceIdOf p.1) with
  | none => (none, s)
  | some h =>
    let r := h.handle s.1 p.2 p.1 s.2
    (if (headerBytes : ℤ) ≤ r.1.1 then some (r.1.2.take r.1.1.toNat) else none, (r.2, r.1.2))

/-- The packets are served one after the other. -/
def responses (handlers : Handlers σ ε) : σ × Bytes → List (Bytes × ε) → List Bytes
  | _, [] => []
  | s, p :: ps =>
    (exchange handlers s p).1.toList ++ responses handlers (exchange handlers s p).2 ps

/-- The services and the response buffer after the packets. -/
def afterAll (handlers : Handlers σ ε) (s : σ × Bytes) (ps : List (Bytes × ε)) : σ × Bytes :=
  ps.foldl (fun s p => (exchange handlers s p).2) s

/-- The packets that are addressed to a registered handler. -/
def addressed (handlers : Handlers σ ε) (ps : List (Bytes × ε)) : List (UInt8 × Bytes) :=
  (ps.filter fun p => (handlers (serviceIdOf p.1)).isSome).map fun p => (serviceIdOf p.1, p.1)

/-! ### One iteration -/

/-- The two buffers are arrays of the packet size. -/
structure ChifDaemon.Sized (d : ChifDaemon σ) : Prop where
  recvBuf : d.recvBuf.length = maxPacketSize
  respBuf : d.respBuf.length = maxPacketSize

/-- What the services and the channel see of the daemon. -/
structure ChifDaemon.Sees (d : ChifDaemon σ) (s : σ × Bytes) (calls : List (UInt8 × Bytes))
    (packets : List Bytes) : Prop where
  state : (d.services, d.respBuf) = s
  calls : d.calls = calls
  packets : d.written.map Prod.fst = packets

/-- What follows a call: the response is written if it has at least a header. -/
theorem perform_call (env : ε) (writeResult : ℤ) (d : ChifDaemon σ) (h : ServiceHandler σ ε)
    (request : Bytes) :
    perform env writeResult d (.call h request) =
      (d.called h env request,
        if (headerBytes : ℤ) ≤ (h.handle d.services env request d.respBuf).1.1 then
          .write ((h.handle d.services env request d.respBuf).1.2.take
            (h.handle d.services env request d.respBuf).1.1.toNat)
        else .nothing) := by
  have hheader : (headerBytes : ℤ) = 8 := rfl
  simp only [perform]
  by_cases hbig : (headerBytes : ℤ) ≤ (h.handle d.services env request d.respBuf).1.1
  · rw [if_pos hbig, if_pos (by omega), if_neg (by omega)]
    rfl
  · rw [if_neg hbig]
    split
    · rw [if_pos (by omega)]
    · rfl

theorem ChifDaemon.Sized.called {d : ChifDaemon σ} (hd : d.Sized) (h : ServiceHandler σ ε)
    (env : ε) (request : Bytes) : (d.called h env request).Sized :=
  ⟨hd.recvBuf, (h.length_eq _ _ _ _).trans hd.respBuf⟩

theorem ChifDaemon.Sized.received {d : ChifDaemon σ} (hd : d.Sized) {data : Bytes}
    (fits : data.length ≤ maxPacketSize) : (d.received data).Sized := by
  refine ⟨?_, hd.respBuf⟩
  have hfit : 0 + data.length ≤ d.recvBuf.length := by
    rw [hd.recvBuf]
    omega
  exact (memcpyAt_length hfit).trans hd.recvBuf

/-- The handler gets the bytes the read delivered, whatever the buffer held. -/
theorem received_take (d : ChifDaemon σ) (data : Bytes) :
    (d.received data).recvBuf.take data.length = data := by
  show (memcpyAt d.recvBuf 0 data).take data.length = data
  rw [memcpyAt_zero, List.take_left]

/-- What follows a read that delivered a packet. -/
theorem afterRead_packet (handlers : Handlers σ ε) (outOfRange : ℤ → ℤ) (d : ChifDaemon σ)
    {data : Bytes} (fits : data.length ≤ maxPacketSize) (hlen : headerBytes ≤ data.length) :
    afterRead handlers outOfRange (.bytes data fits) d =
      (d.received data, match handlers (serviceIdOf data) with
        | none => .nothing
        | some h => .call h data) := by
  have hne : data.length ≠ 0 := by
    rw [headerBytes] at hlen
    omega
  simp only [afterRead, if_neg hne, if_neg (Nat.not_lt.mpr hlen), received_take, serviceIdOf]
  cases handlers (parseHeader data).serviceId <;> rfl

/-- What follows any other read: at most a sleep. -/
theorem afterRead_other (handlers : Handlers σ ε) (outOfRange : ℤ → ℤ) {d : ChifDaemon σ}
    (hd : d.Sized) {r : ReadResult} (hr : r.packet = none) :
    ∃ d' p, afterRead handlers outOfRange r d = (d', p) ∧ d'.Sized ∧
      d'.Sees (d.services, d.respBuf) d.calls (d.written.map Prod.fst) ∧
      (p = .nothing ∨ ∃ delay, p = .sleep delay) := by
  cases r with
  | error errno =>
    simp only [afterRead]
    split
    · split
      · exact ⟨_, _, rfl, ⟨hd.recvBuf, hd.respBuf⟩, ⟨rfl, rfl, rfl⟩, Or.inr ⟨_, rfl⟩⟩
      · exact ⟨_, _, rfl, ⟨hd.recvBuf, hd.respBuf⟩, ⟨rfl, rfl, rfl⟩, Or.inl rfl⟩
    · exact ⟨_, _, rfl, hd, ⟨rfl, rfl, rfl⟩, Or.inl rfl⟩
  | bytes data fits =>
    -- fewer bytes than a header are no packet
    have hshort : data.length < headerBytes := by
      by_contra hlen
      rw [ReadResult.packet, if_neg hlen] at hr
      exact (nomatch hr)
    simp only [afterRead, if_pos hshort]
    split
    · exact ⟨_, _, rfl, hd, ⟨rfl, rfl, rfl⟩, Or.inl rfl⟩
    · exact ⟨d.received data, _, rfl, hd.received fits, ⟨rfl, rfl, rfl⟩, Or.inl rfl⟩

/-- **An iteration that reads a packet** serves it. -/
theorem iterate_packet (hs : List (ServiceHandler σ ε)) (outOfRange : ℤ → ℤ) {d : ChifDaemon σ}
    (hd : d.Sized) (t : Turn ε) {data : Bytes} (hpacket : t.read.packet = some data) :
    (iterate (registered hs) outOfRange d t).Sized ∧
      (iterate (registered hs) outOfRange d t).Sees
        (exchange (registered hs) (d.services, d.respBuf) (data, t.env)).2
        (d.calls ++ addressed (registered hs) [(data, t.env)])
        (d.written.map Prod.fst ++
          (exchange (registered hs) (d.services, d.respBuf) (data, t.env)).1.toList) := by
  cases hread : t.read with
  | error errno =>
    rw [hread] at hpacket
    exact (nomatch hpacket)
  | bytes bs fits =>
    rw [hread, ReadResult.packet] at hpacket
    split at hpacket
    · exact (nomatch hpacket)
    next hlen =>
    obtain rfl := Option.some_inj.mp hpacket
    have hrecv := hd.received fits
    rw [iterate, hread, afterRead_packet _ _ _ fits (not_lt.mp hlen), exchange, addressed]
    dsimp only
    cases hfind : registered hs (serviceIdOf bs) with
    | none =>
      refine ⟨hrecv, rfl, ?_, ?_⟩
      · simp [perform, hfind, ChifDaemon.received]
      · simp [perform, ChifDaemon.received]
    | some h =>
      have hid := serviceId_of_registered hfind
      have hcalls : d.calls ++ [(h.serviceId, bs)] = d.calls ++ List.map
          (fun p : Bytes × ε => (serviceIdOf p.1, p.1))
          (List.filter (fun p => (registered hs (serviceIdOf p.1)).isSome) [(bs, t.env)]) := by
        simp [hfind, hid]
      have hsized := hrecv.called h t.env bs
      simp only [perform_call]
      -- only a response of at least a header is written
      by_cases hbig : (headerBytes : ℤ) ≤ (h.handle d.services t.env bs d.respBuf).1.1
      · have hbig' : (headerBytes : ℤ) ≤
            (h.handle (d.received bs).services t.env bs (d.received bs).respBuf).1.1 := hbig
        rw [if_pos hbig, if_pos hbig']
        exact ⟨⟨hsized.recvBuf, hsized.respBuf⟩, rfl, hcalls, List.map_append⟩
      · have hbig' : ¬(headerBytes : ℤ) ≤
            (h.handle (d.received bs).services t.env bs (d.received bs).respBuf).1.1 := hbig
        rw [if_neg hbig, if_neg hbig']
        exact ⟨hsized, rfl, hcalls, (List.append_nil _).symm⟩

/-- **Any other iteration** leaves the services and the channel alone. -/
theorem iterate_other (handlers : Handlers σ ε) (outOfRange : ℤ → ℤ) {d : ChifDaemon σ}
    (hd : d.Sized) (t : Turn ε) (hpacket : t.read.packet = none) :
    (iterate handlers outOfRange d t).Sized ∧
      (iterate handlers outOfRange d t).Sees (d.services, d.respBuf) d.calls
        (d.written.map Prod.fst) := by
  obtain ⟨d', p, hafter, hsized, hsees, hp⟩ := afterRead_other handlers outOfRange hd hpacket
  rw [iterate, hafter]
  rcases hp with rfl | ⟨delay, rfl⟩
  · exact ⟨hsized, hsees⟩
  · exact ⟨⟨hsized.recvBuf, hsized.respBuf⟩, hsees.state, hsees.calls, hsees.packets⟩

/-! ### Runs -/

/-- A run from any iteration on. -/
theorem run_sees (hs : List (ServiceHandler σ ε)) (outOfRange : ℤ → ℤ) (ts : List (Turn ε)) :
    ∀ d : ChifDaemon σ, d.Sized →
      (Run.run (iterate (registered hs) outOfRange) d ts).Sees
        (afterAll (registered hs) (d.services, d.respBuf) (inbound ts))
        (d.calls ++ addressed (registered hs) (inbound ts))
        (d.written.map Prod.fst ++
          responses (registered hs) (d.services, d.respBuf) (inbound ts)) := by
  induction ts with
  | nil =>
    intro d _
    exact ⟨rfl, (List.append_nil _).symm, (List.append_nil _).symm⟩
  | cons t ts ih =>
    intro d hd
    rw [Run.run_cons]
    cases hpacket : t.read.packet with
    | none =>
      obtain ⟨hsized, hsees⟩ := iterate_other (registered hs) outOfRange hd t hpacket
      have hin : inbound (t :: ts) = inbound ts := by simp [inbound, hpacket]
      have hrest := ih _ hsized
      rw [hsees.state, hsees.calls, hsees.packets] at hrest
      rw [hin]
      exact hrest
    | some data =>
      obtain ⟨hsized, hsees⟩ := iterate_packet hs outOfRange hd t hpacket
      have hin : inbound (t :: ts) = (data, t.env) :: inbound ts := by simp [inbound, hpacket]
      -- what this packet contributes comes first
      have haddr : addressed (registered hs) ((data, t.env) :: inbound ts)
          = addressed (registered hs) [(data, t.env)]
            ++ addressed (registered hs) (inbound ts) := by
        rw [addressed, addressed, addressed, ← List.map_append, ← List.filter_append,
          List.singleton_append]
      have hrest := ih _ hsized
      rw [hsees.state, hsees.calls, hsees.packets, List.append_assoc, List.append_assoc] at hrest
      rw [hin, haddr, responses]
      exact hrest

/-- **Dispatch loop contract.**  Whatever the reads and writes return, the packets
written are the responses to the inbound packets, served in order by the
handlers registered last for their service ids, and the handlers are called for
the packets addressed to them and for nothing else. -/
theorem dispatch_contract (hs : List (ServiceHandler σ ε)) (outOfRange : ℤ → ℤ) (services : σ)
    (ts : List (Turn ε)) :
    (∀ id, registered hs id = hs.reverse.find? (fun h => id = h.serviceId)) ∧
      (Run.run (iterate (registered hs) outOfRange) (.entered services) ts).Sees
        (afterAll (registered hs) (services, List.replicate maxPacketSize 0) (inbound ts))
        (addressed (registered hs) (inbound ts))
        (responses (registered hs) (services, List.replicate maxPacketSize 0) (inbound ts)) := by
  refine ⟨registered_eq hs, ?_⟩
  exact run_sees hs outOfRange ts (.entered services)
    ⟨List.length_replicate, List.length_replicate⟩

end Chif
