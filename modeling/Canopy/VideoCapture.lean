/-
The thumbnail video driver and the buffer queue it is driven by.

The driver keeps the geometry of a frame three times: `width`/`height`, which
program the engine, the active timings with the pixel format, and
`maxBufferSize`, which sizes buffers.  The part of videobuf2 that calls the
driver is modelled with it: allocation, preparing, queueing, streaming.

* `Video` and its operations — the driver;
* `VideoSys.step` — one call by user space;
* `Fits` — frames are captured into buffers that hold them.
-/
import Mathlib.Data.List.Basic
import Mathlib.Logic.Function.Basic

namespace GxpVideo

/-! ### The driver -/

def maxWidth : ℕ := 1024

def maxHeight : ℕ := 768

def minWidth : ℕ := 800

def minHeight : ℕ := 600

structure Timings where
  width : ℕ
  height : ℕ
  deriving DecidableEq

structure PixFormat where
  width : ℕ
  height : ℕ
  sizeimage : ℕ
  bytesperline : ℕ
  deriving DecidableEq

/-- The registers that say what the engine writes. -/
structure EngineRegs where
  horizSize : ℕ
  vertSize : ℕ
  destPitch : ℕ
  deriving DecidableEq

structure Video where
  width : ℕ
  height : ℕ
  bpp : ℕ
  bytesperline : ℕ
  pixFmt : PixFormat
  activeTimings : Timings
  detectedTimings : Timings
  maxBufferSize : ℕ
  /-- `VIDEO_STREAMING` -/
  streaming : Bool
  /-- the queue indices of the buffers the driver holds -/
  buffers : List ℕ
  sequence : ℕ
  regs : EngineRegs

namespace Video

/-- The size of a whole frame. -/
def frameSize (v : Video) : ℕ := v.height * v.width * v.bpp

/-- The device after `gxp_video_probe`, for a `hpe,bits-per-pixel` property. -/
def probe (bitsPerPixel : ℕ) : Video :=
  let bpp := if bitsPerPixel = 16 then 2 else 4
  { width := maxWidth
    height := maxHeight
    bpp := bpp
    bytesperline := maxWidth * bpp
    pixFmt := ⟨0, 0, 0, 0⟩
    activeTimings := ⟨0, 0⟩
    detectedTimings := ⟨0, 0⟩
    maxBufferSize := 0
    streaming := false
    buffers := []
    sequence := 0
    regs := ⟨0, 0, 0⟩ }

/-- `gxp_video_get_resolution`. -/
def getResolution (v : Video) : Video :=
  { v with
    detectedTimings :=
      if v.width = 0 ∨ v.height = 0 then ⟨minWidth, minHeight⟩ else ⟨v.width, v.height⟩ }

/-- `gxp_video_start`, on the first open. -/
def start (v : Video) : Video :=
  let v := v.getResolution
  let size := v.width * v.height * v.bpp
  { v with
    activeTimings := v.detectedTimings
    maxBufferSize := size
    pixFmt := ⟨v.detectedTimings.width, v.detectedTimings.height, size, v.bytesperline⟩ }

/-- `gxp_video_set_dv_timings`; a refusal leaves everything as it is. -/
def setDvTimings (v : Video) (busy : Bool) (t : Timings) : Video :=
  if t = v.activeTimings then v
  else if busy then v
  else if t.width > maxWidth ∨ t.width < minWidth ∨ t.height > maxHeight ∨ t.height < minHeight
  then v
  else
    let size := t.width * t.height * v.bpp
    { v with
      activeTimings := t
      pixFmt := ⟨t.width, t.height, size, t.width * v.bpp⟩
      maxBufferSize := size }

/-- `gxpvd_configure` once the engine is idle. -/
def configure (v : Video) : Video :=
  { v with regs := ⟨v.width - 1, v.height - 1, v.width * v.bpp⟩ }

end Video

/-- The number of bytes the engine writes for a frame. -/
def EngineRegs.bytes (r : EngineRegs) : ℕ := (r.vertSize + 1) * r.destPitch

/-! ### The buffer queue -/

inductive BufState where
  | dequeued
  | prepared
  | queued
  | active
  | done
  deriving DecidableEq

/-- A buffer of one plane; an imported plane has at least `minLength` bytes. -/
structure Buffer where
  minLength : ℕ
  planeSize : ℕ
  state : BufState
  deriving DecidableEq

/-- A frame the engine was started on. -/
structure Frame where
  planeSize : ℕ
  bytes : ℕ
  payload : ℕ
  deriving DecidableEq

structure VideoSys where
  video : Video
  numBuffers : ℕ
  buf : ℕ → Buffer
  queuedList : List ℕ
  /-- `q->streaming` -/
  streamOn : Bool
  startStreamingCalled : Bool
  opens : ℕ
  /-- every frame so far, newest first -/
  frames : List Frame

namespace VideoSys

def minQueuedBuffers : ℕ := 3

def boot (bitsPerPixel : ℕ) : VideoSys where
  video := .probe bitsPerPixel
  numBuffers := 0
  buf := fun _ => ⟨0, 0, .dequeued⟩
  queuedList := []
  streamOn := false
  startStreamingCalled := false
  opens := 0
  frames := []

def setState (s : VideoSys) (i : ℕ) (st : BufState) : VideoSys :=
  { s with buf := Function.update s.buf i { s.buf i with state := st } }

/-- `gxp_video_start_frame`; nothing where it returns `-EPROTO`. -/
def startFrame (s : VideoSys) : Option VideoSys :=
  match s.video.buffers with
  | [] => none
  | i :: rest =>
    let frame : Frame := ⟨(s.buf i).planeSize, s.video.regs.bytes, s.video.frameSize⟩
    some
      { s.setState i .done with
        video := { s.video with buffers := rest, sequence := s.video.sequence + 1 }
        frames := frame :: s.frames }

/-- The loop of `gxp_video_start_streaming`; `captures` are the outcomes of the
waits for the engine, successes once they run out. -/
def startFrames : ℕ → List Bool → VideoSys → VideoSys
  | 0, _, s => s
  | n + 1, captures, s =>
    match s.startFrame with
    | none => s
    | some s' => if captures.headD true then startFrames n captures.tail s' else s'

/-- `gxp_video_bufs_done`. -/
def bufsDone (s : VideoSys) (st : BufState) : VideoSys :=
  { s with
    video := { s.video with buffers := [] }
    buf := fun i => if i ∈ s.video.buffers then { s.buf i with state := st } else s.buf i }

/-- `gxp_video_start_streaming`; `idle` says whether the engine becomes idle in
time, and the second component whether the call succeeds. -/
def startStreaming (s : VideoSys) (idle : Bool) (captures : List Bool) : VideoSys × Bool :=
  let s := { s with video := { s.video with sequence := 0 } }
  if idle then
    let s := { s with video := { s.video.configure with streaming := true } }
    (startFrames (s.video.buffers.length + 1) captures s, true)
  else (s.bufsDone .queued, false)

/-- `gxp_video_stop_streaming`. -/
def stopStreaming (s : VideoSys) : VideoSys :=
  { s with video := { s.video with streaming := false } }.bufsDone .done

/-- A buffer at the end of the list of the driver. -/
def hold (s : VideoSys) (i : ℕ) : VideoSys :=
  { s.setState i .active with video := { s.video with buffers := s.video.buffers ++ [i] } }

/-- `gxp_video_buf_queue`. -/
def bufQueue (s : VideoSys) (i : ℕ) : VideoSys :=
  if (s.hold i).video.streaming then (s.hold i).startFrame.getD (s.hold i) else s.hold i

/-- videobuf2 hands the queued buffers to the driver and starts it. -/
def vb2StartStreaming (s : VideoSys) (idle : Bool) (captures : List Bool) : VideoSys :=
  let s := s.queuedList.foldl bufQueue s
  let (s, ok) := s.startStreaming idle captures
  { s with startStreamingCalled := ok }

/-- videobuf2 takes every buffer back. -/
def queueCancel (s : VideoSys) : VideoSys :=
  let s := if s.startStreamingCalled then s.stopStreaming else s
  { s with
    streamOn := false
    startStreamingCalled := false
    queuedList := []
    buf := fun i => { s.buf i with state := .dequeued } }

/-- Buffers of `size` bytes and more, one for each element of `extra`. -/
def allocate (s : VideoSys) (size : ℕ) (extra : List ℕ) : VideoSys :=
  { s with
    numBuffers := s.numBuffers + extra.length
    buf := fun i =>
      if i < s.numBuffers then s.buf i
      else ⟨size, size + extra.getD (i - s.numBuffers) 0, .dequeued⟩ }

/-- `gxp_video_buf_prepare` for a dequeued buffer. -/
def prepare (s : VideoSys) (i : ℕ) : VideoSys :=
  if (s.buf i).planeSize < s.video.maxBufferSize then s else s.setState i .prepared

/-- What user space does. -/
inductive Call where
  | open
  | release (owner : Bool)
  | setDvTimings (t : Timings)
  | setFormat
  | queryDvTimings
  | reqbufs (extra : List ℕ)
  | createBufs (size : ℕ) (extra : List ℕ)
  | importPlane (i extra : ℕ)
  | prepareBuf (i : ℕ)
  | qbuf (i : ℕ) (idle : Bool) (captures : List Bool)
  | dqbuf (i : ℕ)
  | streamon (idle : Bool) (captures : List Bool)
  | streamoff
  deriving DecidableEq

/-- A prepared buffer enters the queue. -/
def enqueue (s : VideoSys) (i : ℕ) (idle : Bool) (captures : List Bool) : VideoSys :=
  let s := { s.setState i .queued with queuedList := s.queuedList ++ [i] }
  if s.startStreamingCalled then s.bufQueue i
  else if s.streamOn ∧ minQueuedBuffers ≤ s.queuedList.length then
    s.vb2StartStreaming idle captures
  else s

/-- One call on an open file. -/
def serve (s : VideoSys) : Call → VideoSys
  | .open =>
    { s with
      opens := s.opens + 1
      video := if s.opens = 0 then s.video.start else s.video }
  | .release owner =>
    let s := { s with opens := s.opens - 1 }
    -- the file that owns the buffers is among the open ones
    if owner ∨ s.opens = 0 then { s.queueCancel with numBuffers := 0 } else s
  | .setDvTimings t => { s with video := s.video.setDvTimings (decide (0 < s.numBuffers)) t }
  | .setFormat => s
  | .queryDvTimings => { s with video := s.video.getResolution }
  | .reqbufs extra =>
    if s.streamOn then s
    else { s.queueCancel with numBuffers := 0 }.allocate s.video.maxBufferSize extra
  | .createBufs size extra =>
    if size < s.video.maxBufferSize then s else s.allocate size extra
  | .importPlane i extra =>
    if i < s.numBuffers ∧ (s.buf i).state = .dequeued then
      { s with
        buf := Function.update s.buf i
          { s.buf i with planeSize := (s.buf i).minLength + extra } }
    else s
  | .prepareBuf i =>
    if i < s.numBuffers ∧ (s.buf i).state = .dequeued then s.prepare i else s
  | .qbuf i idle captures =>
    if i < s.numBuffers then
      let s := if (s.buf i).state = .dequeued then s.prepare i else s
      if (s.buf i).state = .prepared then s.enqueue i idle captures else s
    else s
  | .dqbuf i =>
    if i < s.numBuffers ∧ (s.buf i).state = .done then
      { s.setState i .dequeued with queuedList := s.queuedList.erase i }
    else s
  | .streamon idle captures =>
    if s.streamOn ∨ s.numBuffers < minQueuedBuffers then s
    else
      let s := if minQueuedBuffers ≤ s.queuedList.length then s.vb2StartStreaming idle captures
        else s
      -- a start that fails leaves the queue off
      { s with
        streamOn := s.startStreamingCalled ∨ s.queuedList.length < minQueuedBuffers }
  | .streamoff => s.queueCancel

/-- One call; all but the first `open` need a file that is open. -/
def step (s : VideoSys) (c : Call) : VideoSys :=
  if s.opens = 0 ∧ c ≠ .open then s else s.serve c

/-! ### What the driver must keep to -/

/-- Every frame so far was captured into a plane that holds what the engine
writes, and that many bytes were reported. -/
def Fits (s : VideoSys) : Prop :=
  ∀ f ∈ s.frames, f.bytes ≤ f.planeSize ∧ f.payload = f.bytes

/-- A buffer that is prepared now, though its plane may be as small as
`maxBufferSize`, holds a whole frame. -/
def PreparesWhole (s : VideoSys) : Call → Prop
  | .prepareBuf i | .qbuf i _ _ =>
    i < s.numBuffers → (s.buf i).state = .dequeued →
      s.video.maxBufferSize ≤ (s.buf i).planeSize → s.video.frameSize ≤ (s.buf i).planeSize
  | _ => True

instance (s : VideoSys) (c : Call) : Decidable (s.PreparesWhole c) := by
  cases c <;> unfold PreparesWhole <;> infer_instance

end VideoSys

end GxpVideo
