/-
`std::ifstream::read` on an in-memory byte string.

A stream is what is left to read together with its `good()` flag.  A read
that finds too few bytes stores the ones there are and clears the flag; once
the flag is clear every later read stores nothing.
-/
import Canopy.Bytes

structure InputStream where
  rest : Bytes
  good : Bool
  deriving DecidableEq

namespace InputStream

/-- A freshly opened stream. -/
def ofBytes (bs : Bytes) : InputStream := ⟨bs, true⟩

/-- `file.read(dst, n)`: the bytes stored in `dst` and the stream afterwards. -/
def read (n : ℕ) (s : InputStream) : Bytes × InputStream :=
  if s.good then (s.rest.take n, ⟨s.rest.drop n, n ≤ s.rest.length⟩) else ([], s)

/-- A read that is served in full. -/
theorem read_append {n : ℕ} {bs : Bytes} (h : bs.length = n) (tail : Bytes) :
    read n ⟨bs ++ tail, true⟩ = (bs, ⟨tail, true⟩) := by
  subst h
  simp [read]

/-- A read past the end of the data. -/
theorem read_short {n : ℕ} {bs : Bytes} (h : bs.length < n) :
    read n ⟨bs, true⟩ = (bs, ⟨[], false⟩) := by
  have htake : bs.take n = bs := List.take_of_length_le (by omega)
  have hdrop : bs.drop n = [] := List.drop_of_length_le (by omega)
  simp only [read, if_true, htake, hdrop, show ¬n ≤ bs.length by omega, decide_false]

theorem read_of_not_good {n : ℕ} {s : InputStream} (h : s.good = false) :
    read n s = ([], s) := by
  simp [read, h]

/-- A stream never becomes good again. -/
theorem good_of_read_good {n : ℕ} {s : InputStream} (h : (read n s).2.good = true) :
    s.good = true := by
  cases hs : s.good with
  | true => rfl
  | false =>
    rw [read_of_not_good hs] at h
    exact absurd h (by simp [hs])

/-- After a read that leaves the stream good, exactly `n` bytes were stored. -/
theorem read_length {n : ℕ} {s : InputStream} (h : (read n s).2.good = true) :
    (read n s).1.length = n := by
  have hs := good_of_read_good h
  simp only [read, hs, if_true, decide_eq_true_eq] at h ⊢
  rw [List.length_take]
  omega

/-- A read that leaves the stream good was served in full. -/
theorem exists_append_of_read_good {n : ℕ} {s : InputStream} (h : (read n s).2.good = true) :
    ∃ bs tail, s = ⟨bs ++ tail, true⟩ ∧ bs.length = n := by
  have hs := good_of_read_good h
  have hlength := read_length h
  obtain ⟨rest, good⟩ := s
  obtain rfl : good = true := hs
  exact ⟨rest.take n, rest.drop n, by rw [List.take_append_drop], hlength⟩

end InputStream
