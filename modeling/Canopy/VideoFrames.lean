/-
Every frame fits into its buffer.

* `fits_of_preparesWhole` — every frame is captured into a buffer that holds
  it, in every run that prepares no buffer below the size of a frame;
* `fits_of_wholeTimings` — in particular if no smaller timings are set;
* `not_forall_fits` — a run that sets them.
-/
import Canopy.Run
import Canopy.VideoBuffers

namespace GxpVideo

namespace VideoSys

variable {F : ℕ} {s s' : VideoSys} {i j : ℕ}

/-! ### The calls -/

/-- New timings leave the engine and the frame size alone. -/
theorem Inv.setDvTimings (h : Inv F s) (busy : Bool) (t : Timings) :
    Inv F { s with video := s.video.setDvTimings busy t } := by
  rw [Video.setDvTimings]
  split
  · exact h
  split
  · exact h
  split
  · exact h
  · exact h.withVideo s.opens rfl rfl rfl rfl rfl

/-- Userspace hands in a plane for a buffer that it has. -/
theorem Inv.importPlane (h : Inv F s) (hi : (s.buf i).state = .dequeued) (size : ℕ) :
    Inv F { s with buf := Function.update s.buf i { s.buf i with planeSize := size } } := by
  have hholding : Holding F s.numBuffers (Function.update s.buf i
      { s.buf i with planeSize := size }) s.video.buffers s.queuedList := by
    refine h.holding.congr ?_ ?_ le_rfl
    · intro j hj
      have hji : j ≠ i := by
        rintro rfl
        exact hj hi
      exact Function.update_of_ne hji _ _
    · intro j hj
      by_cases hji : j = i
      · subst hji
        rw [Function.update_self]
        exact hj
      · rw [Function.update_of_ne hji]
        exact hj
  exact ⟨⟨h.geometry, hholding⟩, h.called, h.on, h.idle⟩

/-- Userspace takes a finished buffer. -/
theorem Inv.takeDone (h : Inv F s) (hi : (s.buf i).state = .done) :
    Inv F { s.setState i .dequeued with queuedList := s.queuedList.erase i } := by
  have hheld : i ∉ s.video.buffers := by
    refine h.holding.not_mem_held ?_
    rw [hi]
    exact BufState.noConfusion
  have hnotin : i ∉ s.queuedList.erase i := h.holding.queued_nodup.not_mem_erase
  have hshort : Holding F s.numBuffers s.buf s.video.buffers (s.queuedList.erase i) :=
    ⟨h.holding.big, h.holding.held_nodup, h.holding.held, h.holding.queued_nodup.erase i,
      fun j hj => h.holding.queued j (List.mem_of_mem_erase hj)⟩
  have hset := hshort.setState (Or.inl rfl) hheld fun hmem => absurd hmem hnotin
  exact ⟨⟨h.geometry, hset⟩, h.called, h.on, h.idle⟩

theorem Inv.streamon (h : Inv F s) (idle : Bool) (captures : List Bool) :
    Inv F (s.serve (.streamon idle captures)) := by
  rw [VideoSys.serve]
  split
  · exact h
  next hguard =>
  have hcalled : s.startStreamingCalled = false := by
    cases hcall : s.startStreamingCalled with
    | false => rfl
    | true => exact absurd (Or.inl (h.on hcall)) hguard
  have hoff : s.video.streaming = false := h.called.symm.trans hcalled
  simp only
  split
  · refine h.vb2StartStreaming hoff idle captures fun hcall => ?_
    rw [hcall]
    simp
  · refine ⟨⟨h.geometry, h.holding⟩, h.called, fun hcall => ?_, h.idle⟩
    exact absurd (hcall.symm.trans hcalled) (by simp)

/-- `VIDIOC_QBUF` prepares a buffer that is not prepared yet, then queues it. -/
theorem Inv.qbuf (h : Inv F s) {i : ℕ} (idle : Bool) (captures : List Bool)
    (hc : s.PreparesWhole (.qbuf i idle captures)) :
    Inv F (s.serve (.qbuf i idle captures)) := by
  rw [VideoSys.serve]
  split
  · next hi =>
    have hprepared : Inv F (if (s.buf i).state = .dequeued then s.prepare i else s) := by
      split
      · next hdeq => exact h.prepare hi hdeq (hc hi hdeq)
      · exact h
    simp only
    generalize (if (s.buf i).state = .dequeued then s.prepare i else s) = s' at hprepared ⊢
    split
    · next hprep => exact hprepared.enqueue hprep idle captures
    · exact hprepared
  · exact h

/-! ### Runs -/

/-- **A call that prepares no buffer below the size of a frame keeps the
invariant.** -/
theorem Inv.serve (s : VideoSys) (c : Call) (h : Inv F s) (hc : s.PreparesWhole c) :
    Inv F (s.serve c) := by
  cases c with
  | «open» =>
    rw [VideoSys.serve]
    by_cases hfirst : s.opens = 0
    · rw [if_pos hfirst]
      exact h.withVideo _ rfl rfl rfl rfl rfl
    · rw [if_neg hfirst]
      exact h.withVideo _ rfl rfl rfl rfl rfl
  | release owner =>
    rw [VideoSys.serve]
    -- the last close, or the one by the owner, frees the buffers
    have hclosed : Inv F { s with opens := s.opens - 1 } := h.withVideo _ rfl rfl rfl rfl rfl
    simp only
    split
    · exact hclosed.free
    · exact hclosed
  | setDvTimings t => exact h.setDvTimings _ t
  | setFormat => exact h
  | queryDvTimings => exact h.withVideo s.opens rfl rfl rfl rfl rfl
  | reqbufs extra =>
    rw [VideoSys.serve]
    split
    · exact h
    · exact h.free.allocate _ _
  | createBufs size extra =>
    rw [VideoSys.serve]
    split
    · exact h
    · exact h.allocate _ _
  | importPlane i extra =>
    rw [VideoSys.serve]
    split
    · next hi => exact h.importPlane hi.2 _
    · exact h
  | prepareBuf i =>
    rw [VideoSys.serve]
    split
    · next hi => exact h.prepare hi.1 hi.2 (hc hi.1 hi.2)
    · exact h
  | qbuf i idle captures => exact h.qbuf idle captures hc
  | dqbuf i =>
    rw [VideoSys.serve]
    split
    · next hi => exact h.takeDone hi.2
    · exact h
  | streamon idle captures => exact h.streamon idle captures
  | streamoff => exact h.queueCancel

theorem Inv.step (s : VideoSys) (c : Call) (h : Inv F s) (hc : s.PreparesWhole c) :
    Inv F (s.step c) := by
  rw [VideoSys.step]
  split
  · exact h
  · exact h.serve s c hc

theorem inv_boot (bitsPerPixel : ℕ) :
    Inv (boot bitsPerPixel).video.frameSize (boot bitsPerPixel) := by
  have hpos : 0 < maxHeight := by
    rw [maxHeight]
    omega
  have hgeometry : Geometry (boot bitsPerPixel).video.frameSize (boot bitsPerPixel).video [] :=
    ⟨rfl, hpos, fun hon => absurd hon Bool.false_ne_true, fun _ hf => absurd hf List.not_mem_nil⟩
  exact ⟨⟨hgeometry, .of_dequeued fun _ => rfl⟩, rfl, fun hon => absurd hon Bool.false_ne_true,
    fun _ => rfl⟩

/-- **In a run that prepares no buffer below the size of a frame, every frame
is captured into a buffer that holds it.** -/
theorem fits_of_preparesWhole (bitsPerPixel : ℕ) (calls : List Call)
    (h : ∀ p ∈ Run.visits step (boot bitsPerPixel) calls, p.1.PreparesWhole p.2) :
    (Run.run step (boot bitsPerPixel) calls).Fits :=
  (Run.run_invariant_of_visits Inv.step (inv_boot bitsPerPixel) h).geometry.fits

/-- A call that sets no timings with fewer pixels than the engine writes. -/
def WholeTimings : Call → Prop
  | .setDvTimings t => maxWidth * maxHeight ≤ t.width * t.height
  | _ => True

/-- Buffers are sized for whole frames. -/
structure Sized (s : VideoSys) : Prop where
  closed : s.opens = 0 → s.numBuffers = 0
  sized : s.opens ≠ 0 → s.video.maxBufferSize = s.video.frameSize
  full : s.video.width = maxWidth ∧ s.video.height = maxHeight

theorem Sized.of_kept (h : Sized s) (hkept : s'.kept = s.kept) : Sized s' := by
  simp only [kept, Prod.mk.injEq] at hkept
  obtain ⟨-, hopens, hnum, hmax, hwidth, hheight, hbpp⟩ := hkept
  have hframe : s'.video.frameSize = s.video.frameSize := by
    rw [Video.frameSize, Video.frameSize, hwidth, hheight, hbpp]
  refine ⟨?_, ?_, ?_⟩
  · rw [hopens, hnum]
    exact h.closed
  · rw [hopens, hmax, hframe]
    exact h.sized
  · rw [hwidth, hheight]
    exact h.full

/-- With open files, only the sizes matter. -/
theorem Sized.of_open (h : Sized s) (hold : s.opens ≠ 0) (hopens : s'.opens ≠ 0)
    (hmax : s'.video.maxBufferSize = s.video.maxBufferSize)
    (hwidth : s'.video.width = s.video.width) (hheight : s'.video.height = s.video.height)
    (hbpp : s'.video.bpp = s.video.bpp) : Sized s' := by
  have hframe : s'.video.frameSize = s.video.frameSize := by
    rw [Video.frameSize, Video.frameSize, hwidth, hheight, hbpp]
  refine ⟨fun hzero => absurd hzero hopens, fun _ => ?_, ?_⟩
  · rw [hmax, hframe]
    exact h.sized hold
  · rw [hwidth, hheight]
    exact h.full

private theorem kept_prepare : (s.prepare i).kept = s.kept := by
  rw [VideoSys.prepare]
  split
  · rfl
  · rfl

private theorem kept_enqueue {idle : Bool} {captures : List Bool} :
    (s.enqueue i idle captures).kept = s.kept := by
  rw [VideoSys.enqueue]
  simp only
  split
  · exact kept_bufQueue
  split
  · exact kept_vb2StartStreaming
  · rfl

private theorem queueCancel_kept : s.queueCancel.video.maxBufferSize = s.video.maxBufferSize ∧
    s.queueCancel.video.width = s.video.width ∧ s.queueCancel.video.height = s.video.height ∧
    s.queueCancel.video.bpp = s.video.bpp ∧ s.queueCancel.opens = s.opens ∧
    s.queueCancel.numBuffers = s.numBuffers := by
  rw [VideoSys.queueCancel]
  split
  · exact ⟨rfl, rfl, rfl, rfl, rfl, rfl⟩
  · exact ⟨rfl, rfl, rfl, rfl, rfl, rfl⟩

/-- Timings with as many pixels as the engine writes leave the size alone. -/
theorem Sized.setDvTimings (h : Sized s) {t : Timings}
    (ht : maxWidth * maxHeight ≤ t.width * t.height) (busy : Bool) :
    Sized { s with video := s.video.setDvTimings busy t } := by
  rw [Video.setDvTimings]
  split
  · exact h
  split
  · exact h
  split
  · exact h
  next hrange =>
  push Not at hrange
  obtain ⟨hwidth, -, hheight, -⟩ := hrange
  -- no mode in range has more pixels
  have hsize : t.width * t.height = maxWidth * maxHeight :=
    le_antisymm (Nat.mul_le_mul hwidth hheight) ht
  refine ⟨h.closed, fun _ => ?_, h.full⟩
  show t.width * t.height * s.video.bpp = s.video.height * s.video.width * s.video.bpp
  rw [hsize, h.full.1, h.full.2, Nat.mul_comm maxWidth]

/-- The last close drops the size with the buffers; the mode stays as it is. -/
theorem Sized.release (h : Sized s) (hopens : s.opens ≠ 0) (owner : Bool) :
    Sized (s.serve (.release owner)) := by
  rw [VideoSys.serve]
  simp only
  obtain ⟨hmax, hwidth, hheight, hbpp, hcount, -⟩ :=
    queueCancel_kept (s := { s with opens := s.opens - 1 })
  split
  · refine ⟨fun _ => rfl, fun _ => ?_, ?_⟩
    · refine (hmax.trans (h.sized hopens)).trans ?_
      show s.video.frameSize = (VideoSys.queueCancel _).video.height *
        (VideoSys.queueCancel _).video.width * (VideoSys.queueCancel _).video.bpp
      rw [hheight, hwidth, hbpp]
      rfl
    · show (VideoSys.queueCancel _).video.width = _ ∧ (VideoSys.queueCancel _).video.height = _
      rw [hheight, hwidth]
      exact h.full
  · next hlast =>
    push Not at hlast
    exact h.of_open hopens hlast.2 rfl rfl rfl rfl

theorem Sized.streamoff (h : Sized s) (hopens : s.opens ≠ 0) : Sized s.queueCancel := by
  obtain ⟨hmax, hwidth, hheight, hbpp, hcount, -⟩ := queueCancel_kept (s := s)
  exact h.of_open hopens (hcount.trans_ne hopens) hmax hwidth hheight hbpp

theorem Sized.qbuf (h : Sized s) (i : ℕ) (idle : Bool) (captures : List Bool) :
    Sized (s.serve (.qbuf i idle captures)) := by
  rw [VideoSys.serve]
  split
  · have hprepared : Sized (if (s.buf i).state = .dequeued then s.prepare i else s) := by
      split
      · exact h.of_kept kept_prepare
      · exact h
    simp only
    generalize (if (s.buf i).state = .dequeued then s.prepare i else s) = s' at hprepared ⊢
    split
    · exact hprepared.of_kept kept_enqueue
    · exact hprepared
  · exact h

theorem Sized.streamon (h : Sized s) (idle : Bool) (captures : List Bool) :
    Sized (s.serve (.streamon idle captures)) := by
  rw [VideoSys.serve]
  split
  · exact h
  simp only
  split
  · have hstart : Sized (s.vb2StartStreaming idle captures) := h.of_kept kept_vb2StartStreaming
    exact ⟨hstart.closed, hstart.sized, hstart.full⟩
  · exact ⟨h.closed, h.sized, h.full⟩

/-- **A call whose timings have as many pixels as the engine writes keeps the size of a
whole frame.** -/
theorem Sized.serve (c : Call) (h : Sized s) (hopens : s.opens ≠ 0) (hc : WholeTimings c) :
    Sized (s.serve c) := by
  cases c with
  | «open» =>
    rw [VideoSys.serve, if_neg hopens]
    exact h.of_open hopens (Nat.succ_ne_zero _) rfl rfl rfl rfl
  | release owner => exact h.release hopens owner
  | setDvTimings t => exact h.setDvTimings hc _
  | setFormat => exact h
  | queryDvTimings => exact h.of_kept rfl
  | reqbufs extra =>
    rw [VideoSys.serve]
    split
    · exact h
    · obtain ⟨hmax, hwidth, hheight, hbpp, hcount, -⟩ := queueCancel_kept (s := s)
      exact h.of_open hopens (hcount.trans_ne hopens) hmax hwidth hheight hbpp
  | createBufs size extra =>
    rw [VideoSys.serve]
    split
    · exact h
    · exact h.of_open hopens hopens rfl rfl rfl rfl
  | importPlane i extra =>
    rw [VideoSys.serve]
    split
    · exact h.of_kept rfl
    · exact h
  | prepareBuf i =>
    rw [VideoSys.serve]
    split
    · exact h.of_kept kept_prepare
    · exact h
  | qbuf i idle captures => exact h.qbuf i idle captures
  | dqbuf i =>
    rw [VideoSys.serve]
    split
    · exact h.of_kept rfl
    · exact h
  | streamon idle captures => exact h.streamon idle captures
  | streamoff => exact h.streamoff hopens

theorem Sized.step (s : VideoSys) (c : Call) (h : Sized s) (hc : WholeTimings c) :
    Sized (s.step c) := by
  rw [VideoSys.step]
  split
  · exact h
  next hguard =>
  by_cases hopens : s.opens = 0
  · have hopen : c = .open := by
      by_contra hne
      exact hguard ⟨hopens, hne⟩
    subst hopen
    rw [VideoSys.serve, if_pos hopens]
    refine ⟨fun hzero => absurd hzero (Nat.succ_ne_zero _), fun _ => ?_, h.full⟩
    show s.video.width * s.video.height * s.video.bpp = s.video.height * s.video.width * s.video.bpp
    rw [Nat.mul_comm s.video.width]
  · exact h.serve c hopens hc

/-- Buffers sized for whole frames are the only ones that are prepared. -/
theorem Sized.preparesWhole (h : Sized s) (c : Call) : s.PreparesWhole c := by
  have hmain : ∀ i, i < s.numBuffers → s.video.maxBufferSize ≤ (s.buf i).planeSize →
      s.video.frameSize ≤ (s.buf i).planeSize := by
    intro i hi hle
    have hopens : s.opens ≠ 0 := by
      intro hzero
      rw [h.closed hzero] at hi
      exact absurd hi (Nat.not_lt_zero i)
    rw [← h.sized hopens]
    exact hle
  cases c with
  | prepareBuf i => exact fun hi _ hle => hmain i hi hle
  | qbuf i idle captures => exact fun hi _ hle => hmain i hi hle
  | _ => trivial

/-- In particular every frame fits if no smaller timings are asked for. -/
theorem fits_of_wholeTimings (bitsPerPixel : ℕ) (calls : List Call)
    (h : ∀ c ∈ calls, WholeTimings c) : (Run.run step (boot bitsPerPixel) calls).Fits := by
  have hsized : Sized (boot bitsPerPixel) :=
    ⟨fun _ => rfl, fun hopens => absurd rfl hopens, rfl, rfl⟩
  refine (Run.run_invariant_of_visits (I := fun s => Inv (boot bitsPerPixel).video.frameSize s ∧
    Sized s) (P := fun _ c => WholeTimings c) ?_ ⟨inv_boot bitsPerPixel, hsized⟩ ?_).1.geometry.fits
  · rintro s c ⟨hinv, hs⟩ hc
    exact ⟨hinv.step s c (hs.preparesWhole c), hs.step s c hc⟩
  · intro p hp
    exact h p.2 (Run.event_mem_of_mem_visits hp)

/-- Streaming three buffers of the size the driver asks for. -/
theorem fits_wholeFrames :
    (Run.run step (boot 32)
      [.open, .reqbufs [0, 0, 0], .qbuf 0 true [], .qbuf 1 true [], .qbuf 2 true [],
        .streamon true []]).Fits :=
  fits_of_preparesWhole 32 _ (by decide +kernel)

/-- Streaming three buffers allocated for a smaller mode. -/
def smallMode : List Call :=
  [.open, .setDvTimings ⟨minWidth, minHeight⟩, .reqbufs [0, 0, 0], .qbuf 0 true [],
    .qbuf 1 true [], .qbuf 2 true [], .streamon true []]

theorem not_forall_fits :
    ¬∀ (bitsPerPixel : ℕ) (calls : List Call), (Run.run step (boot bitsPerPixel) calls).Fits := by
  intro h
  have hframes : (⟨1920000, 3145728, 3145728⟩ : Frame) ∈
      (Run.run step (boot 32) smallMode).frames := by
    decide +kernel
  obtain ⟨hle, -⟩ := h 32 smallMode _ hframes
  exact absurd hle (by decide)

end VideoSys

end GxpVideo
