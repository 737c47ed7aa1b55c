/-
What the video driver and its buffer queue keep up between and inside calls.

* `Holding` — the buffers the driver holds and those videobuf2 has queued, all
  of them with room for a frame;
* `Core` — with the geometry of the frames, what holds inside a call;
* `Inv` — what holds between two calls, and how each operation keeps it.
-/
import Canopy.VideoCapture
import Mathlib.Algebra.Order.Group.Nat
import Mathlib.Data.List.Nodup

namespace GxpVideo

namespace VideoSys

/-! ### The invariant -/

/-- Frames have `F` bytes, and all of them were captured whole. -/
structure Geometry (F : ℕ) (v : Video) (frames : List Frame) : Prop where
  size : v.frameSize = F
  pos : 0 < v.height
  regs : v.streaming = true → v.regs.bytes = F
  fits : ∀ f ∈ frames, f.bytes ≤ f.planeSize ∧ f.payload = f.bytes

/-- Of `n` buffers the driver holds those in `held` and videobuf2 has queued
those in `queued`; all that are prepared have room for `F` bytes. -/
structure Holding (F n : ℕ) (buf : ℕ → Buffer) (held queued : List ℕ) : Prop where
  big : ∀ i, (buf i).state ≠ .dequeued → F ≤ (buf i).planeSize ∧ i < n
  held_nodup : held.Nodup
  held : ∀ i ∈ held, (buf i).state = .active
  queued_nodup : queued.Nodup
  queued : ∀ i ∈ queued, (buf i).state ≠ .dequeued ∧ (buf i).state ≠ .prepared

/-- The invariant that also holds inside a call; `F` is the size of a frame. -/
structure Core (F : ℕ) (s : VideoSys) : Prop where
  geometry : Geometry F s.video s.frames
  holding : Holding F s.numBuffers s.buf s.video.buffers s.queuedList

/-- The invariant between two calls. -/
structure Inv (F : ℕ) (s : VideoSys) : Prop extends Core F s where
  called : s.startStreamingCalled = s.video.streaming
  on : s.startStreamingCalled = true → s.streamOn = true
  idle : s.video.streaming = false → s.video.buffers = []

variable {F : ℕ} {s s' : VideoSys} {i j : ℕ} {st : BufState}

@[simp] theorem setState_buf_self : ((s.setState i st).buf i).state = st := by
  simp [setState]

theorem setState_buf_of_ne (h : j ≠ i) : (s.setState i st).buf j = s.buf j := by
  simp [setState, h]

@[simp] theorem setState_planeSize : ((s.setState i st).buf j).planeSize = (s.buf j).planeSize := by
  by_cases h : j = i
  · subst h
    simp [setState]
  · rw [setState_buf_of_ne h]

/-- The engine writes whole frames once it is configured. -/
theorem configure_bytes {v : Video} (hh : 0 < v.height) :
    v.configure.regs.bytes = v.frameSize := by
  show (v.height - 1 + 1) * (v.width * v.bpp) = v.height * v.width * v.bpp
  rw [Nat.sub_add_cancel hh, Nat.mul_assoc]

section Holding

variable {n : ℕ} {held queued : List ℕ}

/-- A buffer the driver does not hold changes its state. -/
theorem Holding.setState (h : Holding F n s.buf held queued)
    (hbig : st = .dequeued ∨ F ≤ (s.buf i).planeSize ∧ i < n) (hheld : i ∉ held)
    (hqueued : i ∈ queued → st ≠ .dequeued ∧ st ≠ .prepared) :
    Holding F n (s.setState i st).buf held queued where
  big := by
    intro j hj
    rw [setState_planeSize]
    by_cases hji : j = i
    · subst hji
      rw [setState_buf_self] at hj
      exact hbig.resolve_left hj
    · rw [setState_buf_of_ne hji] at hj
      exact h.big j hj
  held_nodup := h.held_nodup
  held := by
    intro j hj
    have hji : j ≠ i := fun hji => hheld (hji ▸ hj)
    rw [setState_buf_of_ne hji]
    exact h.held j hj
  queued_nodup := h.queued_nodup
  queued := by
    intro j hj
    by_cases hji : j = i
    · subst hji
      rw [setState_buf_self]
      exact hqueued hj
    · rw [setState_buf_of_ne hji]
      exact h.queued j hj

/-- An active buffer goes to the driver. -/
theorem Holding.append_held {buf : ℕ → Buffer} (h : Holding F n buf held queued) (hi : i ∉ held)
    (hactive : (buf i).state = .active) : Holding F n buf (held ++ [i]) queued where
  big := h.big
  held_nodup := by
    rw [List.nodup_append]
    refine ⟨h.held_nodup, List.nodup_singleton i, ?_⟩
    intro j hj k hk hjk
    obtain rfl := List.mem_singleton.mp hk
    exact hi (hjk ▸ hj)
  held := by
    intro j hj
    rcases List.mem_append.mp hj with hj | hj
    · exact h.held j hj
    · obtain rfl := List.mem_singleton.mp hj
      exact hactive
  queued_nodup := h.queued_nodup
  queued := h.queued

/-- A buffer enters the queue. -/
theorem Holding.append_queued {buf : ℕ → Buffer} (h : Holding F n buf held queued)
    (hi : i ∉ queued) (hstate : (buf i).state = .queued) :
    Holding F n buf held (queued ++ [i]) where
  big := h.big
  held_nodup := h.held_nodup
  held := h.held
  queued_nodup := by
    rw [List.nodup_append]
    refine ⟨h.queued_nodup, List.nodup_singleton i, ?_⟩
    intro j hj k hk hjk
    obtain rfl := List.mem_singleton.mp hk
    exact hi (hjk ▸ hj)
  queued := by
    intro j hj
    rcases List.mem_append.mp hj with hj | hj
    · exact h.queued j hj
    · obtain rfl := List.mem_singleton.mp hj
      rw [hstate]
      exact ⟨BufState.noConfusion, BufState.noConfusion⟩

/-- The driver is done with its first buffer. -/
theorem Holding.done_head (h : Holding F n s.buf (i :: held) queued) :
    Holding F n (s.setState i .done).buf held queued := by
  obtain ⟨hi, hnodup⟩ := List.nodup_cons.mp h.held_nodup
  have hbig : F ≤ (s.buf i).planeSize ∧ i < n := by
    refine h.big i ?_
    rw [h.held i List.mem_cons_self]
    exact BufState.noConfusion
  have hshort : Holding F n s.buf held queued :=
    ⟨h.big, hnodup, fun j hj => h.held j (List.mem_cons_of_mem _ hj), h.queued_nodup, h.queued⟩
  exact hshort.setState (Or.inr hbig) hi fun _ => ⟨BufState.noConfusion, BufState.noConfusion⟩

/-- Where every buffer is dequeued, no list names one. -/
theorem Holding.of_dequeued {buf : ℕ → Buffer} (h : ∀ i, (buf i).state = .dequeued) :
    Holding F n buf [] [] where
  big := fun i hi => absurd (h i) hi
  held_nodup := List.nodup_nil
  held := fun _ hi => absurd hi List.not_mem_nil
  queued_nodup := List.nodup_nil
  queued := fun _ hi => absurd hi List.not_mem_nil

/-- A buffer of a state other than those of the lists is on neither. -/
theorem Holding.not_mem_held {buf : ℕ → Buffer} (h : Holding F n buf held queued)
    (hstate : (buf i).state ≠ .active) : i ∉ held :=
  fun hi => hstate (h.held i hi)

/-- Buffers that are not dequeued keep what they have. -/
theorem Holding.congr {buf buf' : ℕ → Buffer} {n' : ℕ} (h : Holding F n buf held queued)
    (hlive : ∀ i, (buf i).state ≠ .dequeued → buf' i = buf i)
    (hdeq : ∀ i, (buf i).state = .dequeued → (buf' i).state = .dequeued) (hn : n ≤ n') :
    Holding F n' buf' held queued where
  big := by
    intro i hi
    by_cases hold : (buf i).state = .dequeued
    · exact absurd (hdeq i hold) hi
    · obtain ⟨hplane, hlt⟩ := h.big i hold
      rw [hlive i hold]
      exact ⟨hplane, hlt.trans_le hn⟩
  held_nodup := h.held_nodup
  held := by
    intro i hi
    have hactive := h.held i hi
    rw [hlive i (by rw [hactive]; exact BufState.noConfusion)]
    exact hactive
  queued_nodup := h.queued_nodup
  queued := by
    intro i hi
    have hstate := h.queued i hi
    rw [hlive i hstate.1]
    exact hstate

end Holding

/-! ### Frames -/

/-- A frame is captured into a plane that holds it. -/
theorem Core.startFrame (h : Core F s) (hon : s.video.streaming = true)
    (hstart : s.startFrame = some s') :
    Core F s' ∧ s'.video.streaming = true ∧ s'.startStreamingCalled = s.startStreamingCalled := by
  rw [VideoSys.startFrame] at hstart
  split at hstart
  · cases hstart
  next i rest hbuffers =>
  obtain rfl := Option.some.inj hstart
  have hholding := h.holding
  rw [hbuffers] at hholding
  have hactive := hholding.held i List.mem_cons_self
  have hplane := hholding.big i (by rw [hactive]; exact BufState.noConfusion)
  refine ⟨⟨⟨h.geometry.size, h.geometry.pos, h.geometry.regs, ?_⟩, hholding.done_head⟩, hon, rfl⟩
  intro f hf
  rcases List.mem_cons.mp hf with rfl | hold
  · have hbytes := h.geometry.regs hon
    exact ⟨hbytes.trans_le hplane.1, h.geometry.size.trans hbytes.symm⟩
  · exact h.geometry.fits f hold

theorem Core.startFrames (n : ℕ) : ∀ {s : VideoSys} {captures : List Bool}, Core F s →
    s.video.streaming = true →
      Core F (startFrames n captures s) ∧ (startFrames n captures s).video.streaming = true := by
  induction n with
  | zero =>
    intro s captures h hon
    exact ⟨h, hon⟩
  | succ n ih =>
    intro s captures h hon
    rw [VideoSys.startFrames]
    cases hstart : s.startFrame with
    | none => exact ⟨h, hon⟩
    | some s' =>
      obtain ⟨h', hon', -⟩ := h.startFrame hon hstart
      simp only
      split
      · exact ih h' hon'
      · exact ⟨h', hon'⟩

/-- What streaming leaves alone. -/
def kept (s : VideoSys) : Bool × ℕ × ℕ × ℕ × ℕ × ℕ × ℕ :=
  (s.streamOn, s.opens, s.numBuffers, s.video.maxBufferSize, s.video.width, s.video.height,
    s.video.bpp)

private theorem kept_startFrame (h : s.startFrame = some s') : s'.kept = s.kept := by
  rw [startFrame] at h
  split at h
  · cases h
  · obtain rfl := Option.some.inj h
    rfl

private theorem kept_startFrames (n : ℕ) : ∀ {s : VideoSys} {captures : List Bool},
    (startFrames n captures s).kept = s.kept := by
  induction n with
  | zero =>
    intro s captures
    rfl
  | succ n ih =>
    intro s captures
    rw [startFrames]
    cases hstart : s.startFrame with
    | none => rfl
    | some s' =>
      have hsame := kept_startFrame hstart
      simp only
      split
      · rw [ih, hsame]
      · exact hsame

/-! ### Buffers on their way to the driver -/

theorem Core.hold (h : Core F s) (hheld : i ∉ s.video.buffers)
    (hbig : F ≤ (s.buf i).planeSize ∧ i < s.numBuffers) : Core F (s.hold i) := by
  have hset : Holding F s.numBuffers (s.setState i .active).buf s.video.buffers s.queuedList :=
    h.holding.setState (Or.inr hbig) hheld fun _ => ⟨BufState.noConfusion, BufState.noConfusion⟩
  exact ⟨⟨h.geometry.size, h.geometry.pos, h.geometry.regs, h.geometry.fits⟩,
    hset.append_held hheld setState_buf_self⟩

/-- `buf_queue` for a buffer the driver does not hold. -/
theorem Core.bufQueue (h : Core F s) (hheld : i ∉ s.video.buffers)
    (hbig : F ≤ (s.buf i).planeSize ∧ i < s.numBuffers) :
    Core F (s.bufQueue i) ∧ (s.bufQueue i).video.streaming = s.video.streaming ∧
      (s.bufQueue i).startStreamingCalled = s.startStreamingCalled := by
  have hcore := h.hold hheld hbig
  rw [VideoSys.bufQueue]
  split
  · next hon =>
    cases hstart : (s.hold i).startFrame with
    | none => exact ⟨hcore, rfl, rfl⟩
    | some s' =>
      obtain ⟨h', hon', hcalled⟩ := hcore.startFrame hon hstart
      exact ⟨h', hon'.trans hon.symm, hcalled⟩
  · exact ⟨hcore, rfl, rfl⟩

/-- While the driver is idle, `buf_queue` only appends. -/
theorem bufQueue_of_idle (hoff : s.video.streaming = false) : s.bufQueue i = s.hold i := by
  have hif : ¬(s.hold i).video.streaming = true := by
    show ¬s.video.streaming = true
    rw [hoff]
    exact Bool.false_ne_true
  rw [VideoSys.bufQueue, if_neg hif]

theorem kept_bufQueue : (s.bufQueue i).kept = s.kept := by
  rw [VideoSys.bufQueue]
  split
  · cases hstart : (s.hold i).startFrame with
    | none => rfl
    | some s' =>
      rw [Option.getD_some, kept_startFrame hstart]
      rfl
  · rfl

private theorem kept_handOver : ∀ (l : List ℕ) {s : VideoSys},
    (l.foldl VideoSys.bufQueue s).kept = s.kept
  | [], _ => rfl
  | i :: l, s => by rw [List.foldl_cons, kept_handOver l, kept_bufQueue]

/-- Handing over a list of distinct buffers to an idle driver. -/
theorem Core.handOver : ∀ (l : List ℕ) {s : VideoSys}, Core F s → s.video.streaming = false →
    l.Nodup → (∀ i ∈ l, i ∉ s.video.buffers) →
    (∀ i ∈ l, F ≤ (s.buf i).planeSize ∧ i < s.numBuffers) →
      Core F (l.foldl VideoSys.bufQueue s) ∧
        (l.foldl VideoSys.bufQueue s).video.streaming = false
  | [], _, h, hoff, _, _, _ => ⟨h, hoff⟩
  | i :: l, s, h, hoff, hnodup, hheld, hbig => by
    rw [List.nodup_cons] at hnodup
    have hi := List.mem_cons_self (a := i) (l := l)
    rw [List.foldl_cons, bufQueue_of_idle hoff]
    refine Core.handOver l (h.hold (hheld i hi) (hbig i hi)) hoff hnodup.2 ?_ ?_
    · intro j hj hmem
      rcases List.mem_append.mp hmem with hmem | hmem
      · exact hheld j (List.mem_cons_of_mem _ hj) hmem
      · exact hnodup.1 (List.mem_singleton.mp hmem ▸ hj)
    · intro j hj
      show F ≤ ((s.setState i .active).buf j).planeSize ∧ j < s.numBuffers
      rw [setState_planeSize]
      exact hbig j (List.mem_cons_of_mem _ hj)

/-- Giving all buffers back to videobuf2. -/
theorem Core.bufsDone (h : Core F s) (hst : st ≠ .dequeued ∧ st ≠ .prepared) :
    Core F (s.bufsDone st) := by
  have hplane (i : ℕ) : ((s.bufsDone st).buf i).planeSize = (s.buf i).planeSize := by
    rw [VideoSys.bufsDone]
    simp only
    split
    · rfl
    · rfl
  refine ⟨⟨h.geometry.size, h.geometry.pos, h.geometry.regs, h.geometry.fits⟩, ?_,
    List.nodup_nil, ?_, h.holding.queued_nodup, ?_⟩
  · intro i hi
    rw [hplane]
    refine h.holding.big i ?_
    -- a buffer the driver held was not dequeued before, the others keep their state
    by_cases hmem : i ∈ s.video.buffers
    · rw [h.holding.held i hmem]
      exact BufState.noConfusion
    · rw [VideoSys.bufsDone] at hi
      simp only [if_neg hmem] at hi
      exact hi
  · intro i hi
    exact absurd hi List.not_mem_nil
  · intro i hi
    rw [VideoSys.bufsDone]
    simp only
    split
    · exact hst
    · exact h.holding.queued i hi

/-! ### Starting and stopping -/

theorem Core.startStreaming (h : Core F s) (hoff : s.video.streaming = false) (idle : Bool)
    (captures : List Bool) :
    Core F (s.startStreaming idle captures).1 ∧
      (s.startStreaming idle captures).1.video.streaming = (s.startStreaming idle captures).2 ∧
      ((s.startStreaming idle captures).2 = false →
        (s.startStreaming idle captures).1.video.buffers = []) := by
  rw [VideoSys.startStreaming]
  cases idle with
  | false =>
    have hzero : Core F { s with video := { s.video with sequence := 0 } } :=
      ⟨⟨h.geometry.size, h.geometry.pos, h.geometry.regs, h.geometry.fits⟩, h.holding⟩
    exact ⟨hzero.bufsDone ⟨BufState.noConfusion, BufState.noConfusion⟩, hoff, fun _ => rfl⟩
  | true =>
    let v : Video := { s.video with sequence := 0 }
    have hbytes : v.configure.regs.bytes = F :=
      (configure_bytes h.geometry.pos).trans h.geometry.size
    have hready : Core F { s with video := { v.configure with streaming := true } } :=
      ⟨⟨h.geometry.size, h.geometry.pos, fun _ => hbytes, h.geometry.fits⟩, h.holding⟩
    obtain ⟨hcore, hon⟩ : Core F (VideoSys.startFrames _ captures _) ∧ _ :=
      hready.startFrames (s.video.buffers.length + 1) rfl
    exact ⟨hcore, hon, fun hfalse => absurd hfalse (by simp)⟩

theorem kept_vb2StartStreaming {idle : Bool} {captures : List Bool} :
    (s.vb2StartStreaming idle captures).kept = s.kept := by
  rw [VideoSys.vb2StartStreaming]
  show (VideoSys.startStreaming _ idle captures).1.kept = _
  rw [VideoSys.startStreaming]
  cases idle with
  | false => exact kept_handOver s.queuedList
  | true => exact (kept_startFrames _).trans (kept_handOver s.queuedList)

/-- A start, whether it succeeds or not. -/
theorem Inv.vb2StartStreaming (h : Inv F s) (hoff : s.video.streaming = false) (idle : Bool)
    (captures : List Bool) {on : Bool}
    (hon : (s.vb2StartStreaming idle captures).startStreamingCalled = true → on = true) :
    Inv F { s.vb2StartStreaming idle captures with streamOn := on } := by
  have hbig : ∀ i ∈ s.queuedList, F ≤ (s.buf i).planeSize ∧ i < s.numBuffers := fun i hi =>
    h.holding.big i (h.holding.queued i hi).1
  have hheld : ∀ i ∈ s.queuedList, i ∉ s.video.buffers := by
    intro i _
    rw [h.idle hoff]
    exact List.not_mem_nil
  obtain ⟨hcore, hoff'⟩ := h.toCore.handOver s.queuedList hoff h.holding.queued_nodup hheld hbig
  obtain ⟨hstart, hok, hempty⟩ := hcore.startStreaming hoff' idle captures
  refine ⟨⟨hstart.geometry, hstart.holding⟩, hok.symm, hon, ?_⟩
  intro hfalse
  exact hempty (hok.symm.trans hfalse)

private theorem queueCancel_state : (s.queueCancel.buf i).state = .dequeued := rfl

/-- All buffers are back and the driver is idle. -/
theorem Inv.queueCancel (h : Inv F s) : Inv F s.queueCancel := by
  rw [VideoSys.queueCancel]
  split
  · have hoff : Geometry F (VideoSys.stopStreaming s).video s.frames :=
      ⟨h.geometry.size, h.geometry.pos, fun hon => absurd hon Bool.false_ne_true, h.geometry.fits⟩
    exact ⟨⟨hoff, .of_dequeued fun _ => rfl⟩, rfl, fun hon => absurd hon Bool.false_ne_true,
      fun _ => rfl⟩
  · next hcalled =>
    have hoff : s.video.streaming = false := by
      rw [← h.called]
      exact Bool.eq_false_iff.mpr hcalled
    have hempty : Holding F s.numBuffers (fun i => { s.buf i with state := .dequeued })
        s.video.buffers [] := by
      rw [h.idle hoff]
      exact .of_dequeued fun _ => rfl
    exact ⟨⟨h.geometry, hempty⟩, hoff.symm, fun hon => absurd hon Bool.false_ne_true, h.idle⟩

/-- All buffers freed. -/
theorem Inv.free (h : Inv F s) : Inv F { s.queueCancel with numBuffers := 0 } := by
  have hcancel := h.queueCancel
  refine ⟨⟨hcancel.geometry, ?_, hcancel.holding.held_nodup, hcancel.holding.held,
    hcancel.holding.queued_nodup, hcancel.holding.queued⟩, hcancel.called, hcancel.on,
    hcancel.idle⟩
  intro i hi
  exact absurd queueCancel_state hi

/-- New buffers are dequeued, whatever their size. -/
theorem Inv.allocate (h : Inv F s) (size : ℕ) (extra : List ℕ) :
    Inv F (s.allocate size extra) := by
  have hholding : Holding F (s.numBuffers + extra.length) (s.allocate size extra).buf
      s.video.buffers s.queuedList := by
    refine h.holding.congr ?_ ?_ (Nat.le_add_right _ _)
    · intro i hi
      exact if_pos (h.holding.big i hi).2
    · intro i hi
      rw [VideoSys.allocate]
      simp only
      split
      · exact hi
      · rfl
  exact ⟨⟨h.geometry, hholding⟩, h.called, h.on, h.idle⟩

/-- Preparing a buffer that holds a whole frame, if it passes. -/
theorem Inv.prepare (h : Inv F s) (hi : i < s.numBuffers) (hdeq : (s.buf i).state = .dequeued)
    (hwhole : s.video.maxBufferSize ≤ (s.buf i).planeSize →
      s.video.frameSize ≤ (s.buf i).planeSize) : Inv F (s.prepare i) := by
  rw [VideoSys.prepare]
  split
  · exact h
  · next hlarge =>
    have hframe : F ≤ (s.buf i).planeSize := by
      rw [← h.geometry.size]
      exact hwhole (not_lt.mp hlarge)
    have hheld : i ∉ s.video.buffers := by
      refine h.holding.not_mem_held ?_
      rw [hdeq]
      exact BufState.noConfusion
    have hqueued : i ∉ s.queuedList := fun hmem => (h.holding.queued i hmem).1 hdeq
    have hset : Holding F s.numBuffers (s.setState i .prepared).buf s.video.buffers s.queuedList :=
      h.holding.setState (Or.inr ⟨hframe, hi⟩) hheld fun hmem => absurd hmem hqueued
    exact ⟨⟨h.geometry, hset⟩, h.called, h.on, h.idle⟩

/-- A prepared buffer enters the queue, and the driver. -/
theorem Inv.enqueue (h : Inv F s) (hprep : (s.buf i).state = .prepared) (idle : Bool)
    (captures : List Bool) : Inv F (s.enqueue i idle captures) := by
  have hbig := h.holding.big i (by rw [hprep]; exact BufState.noConfusion)
  have hheld : i ∉ s.video.buffers := by
    refine h.holding.not_mem_held ?_
    rw [hprep]
    exact BufState.noConfusion
  have hqueued : i ∉ s.queuedList := fun hmem => (h.holding.queued i hmem).2 hprep
  have hset : Holding F s.numBuffers (s.setState i .queued).buf s.video.buffers s.queuedList :=
    h.holding.setState (Or.inr hbig) hheld fun hmem => absurd hmem hqueued
  have hlist : Inv F { s.setState i .queued with queuedList := s.queuedList ++ [i] } :=
    ⟨⟨h.geometry, hset.append_queued hqueued setState_buf_self⟩, h.called, h.on, h.idle⟩
  rw [VideoSys.enqueue]
  simp only
  split
  · next hcalled =>
    -- the driver has started and takes the buffer at once
    have hplane : F ≤ ((s.setState i .queued).buf i).planeSize ∧ i < s.numBuffers := by
      rw [setState_planeSize]
      exact hbig
    obtain ⟨hcore, hon, hcall⟩ := hlist.toCore.bufQueue hheld hplane
    refine ⟨hcore, ?_, ?_, ?_⟩
    · rw [hcall, hon]
      exact h.called
    · intro _
      have hkept := kept_bufQueue (i := i)
        (s := { s.setState i .queued with queuedList := s.queuedList ++ [i] })
      exact (congrArg Prod.fst hkept).trans (h.on hcalled)
    · intro hoff
      rw [hon] at hoff
      have hstreaming : s.video.streaming = true := h.called ▸ hcalled
      exact absurd (hstreaming.symm.trans hoff) (by simp)
  · next hcalled =>
    -- the driver has not started; it may with this buffer
    have hoff : s.video.streaming = false := by
      rw [← h.called]
      exact Bool.eq_false_iff.mpr hcalled
    split
    · next hon =>
      have hstart := hlist.vb2StartStreaming hoff idle captures fun _ => hon.1
      have hkept : (VideoSys.vb2StartStreaming _ idle captures).kept = _ :=
        kept_vb2StartStreaming
          (s := { s.setState i .queued with queuedList := s.queuedList ++ [i] })
      exact ⟨⟨hstart.geometry, hstart.holding⟩, hstart.called,
        fun hcall => (congrArg Prod.fst hkept).trans (hstart.on hcall), hstart.idle⟩
    · exact hlist

/-- The geometry copies play no part in the invariant. -/
theorem Inv.withVideo {v : Video} (h : Inv F s) (n : ℕ) (hsize : v.frameSize = s.video.frameSize)
    (hheight : v.height = s.video.height) (hstreaming : v.streaming = s.video.streaming)
    (hbuffers : v.buffers = s.video.buffers) (hregs : v.regs = s.video.regs) :
    Inv F { s with video := v, opens := n } := by
  have hgeometry : Geometry F v s.frames := by
    refine ⟨hsize.trans h.geometry.size, hheight ▸ h.geometry.pos, ?_, h.geometry.fits⟩
    intro hon
    rw [hregs]
    exact h.geometry.regs (hstreaming ▸ hon)
  have hholding : Holding F s.numBuffers s.buf v.buffers s.queuedList := by
    rw [hbuffers]
    exact h.holding
  refine ⟨⟨hgeometry, hholding⟩, h.called.trans hstreaming.symm, h.on, ?_⟩
  intro hoff
  exact hbuffers.trans (h.idle (hstreaming ▸ hoff))

end VideoSys

end GxpVideo
