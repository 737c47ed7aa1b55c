/-
`std::ofstream` on an in-memory file.

A stream is what has reached the file, what is still in the buffer, and the
`good()` flag.  Each write says how many of the bytes buffered so far it pushes
out early and whether that works; the destructor pushes out the rest, and
nobody hears of it when that fails.

* `write_good_iff` — a stream is good exactly if no write failed;
* `content_write` — nothing is lost while the stream is good;
* `close_eq_iff` — a closed file is complete exactly if the last flush was.
-/
import Canopy.Bytes
import Mathlib.Data.List.TakeDrop

/-- What becomes of one `write`. -/
structure WriteOutcome where
  /-- how many of the bytes buffered so far reach the file at once -/
  flushed : ℕ
  ok : Bool
  deriving DecidableEq, Repr

structure OutputStream where
  file : Bytes
  buffer : Bytes
  good : Bool
  deriving DecidableEq

namespace OutputStream

/-- A stream opened with `trunc`. -/
def opened : OutputStream := ⟨[], [], true⟩

/-- `out.write(src, src.size())`; a stream that is not good writes nothing. -/
def write (src : Bytes) (outcome : WriteOutcome) (s : OutputStream) : OutputStream :=
  if s.good then
    { file := s.file ++ (s.buffer ++ src).take outcome.flushed
      buffer := (s.buffer ++ src).drop outcome.flushed
      good := outcome.ok }
  else s

/-- The file after the destructor, whose flush gets `n` bytes out. -/
def close (n : ℕ) (s : OutputStream) : Bytes := s.file ++ s.buffer.take n

/-- Everything written so far, wherever it is. -/
def content (s : OutputStream) : Bytes := s.file ++ s.buffer

theorem write_good_iff (src : Bytes) (outcome : WriteOutcome) (s : OutputStream) :
    (s.write src outcome).good = true ↔ s.good = true ∧ outcome.ok = true := by
  rw [write]
  split
  · next h => simp [h]
  · next h => simp [h]

/-- A good write appends its bytes. -/
theorem content_write {src : Bytes} {outcome : WriteOutcome} {s : OutputStream}
    (h : (s.write src outcome).good = true) :
    (s.write src outcome).content = s.content ++ src := by
  have hgood := ((write_good_iff src outcome s).mp h).1
  rw [write, if_pos hgood, content, content, List.append_assoc, List.take_append_drop,
    List.append_assoc]

/-- **A closed file is complete exactly if the last flush got everything out.** -/
theorem close_eq_iff (n : ℕ) (s : OutputStream) :
    s.close n = s.content ↔ s.buffer.length ≤ n := by
  rw [close, content, List.append_cancel_left_eq]
  exact List.take_eq_self_iff s.buffer

end OutputStream
