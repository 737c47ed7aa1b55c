/-
The directory version over a sequence of publications.

`finalize` counts `directoryVersion_` up once the directory exists, before it
opens, writes and renames the file, and nothing takes that back.

* `finalize_directoryVersion` — when a call counts;
* `head_publishes` — the first byte of a published file;
* `dirVers_step_one` — the versions of consecutive files differ by one where no
  counted call fails;
* `counts_publications_iff` — that is exactly when the writer counts
  publications.
-/
import Canopy.Run
import Canopy.SmbiosFile
import Mathlib.Data.List.Chain

namespace Chif

open Bytes Run

/-- A call of the writer; `finalize` with what its file operations do. -/
inductive SmbiosCall where
  | begin
  | addRecord (record : Bytes)
  | finalize (io : FinalizeIo)

namespace SmbiosWriter

/-- The writer after a call. -/
def next (w : SmbiosWriter) : SmbiosCall → SmbiosWriter
  | .begin => w.begin
  | .addRecord record => w.addRecord record
  | .finalize io => (w.finalize io).2

/-- The file that a call publishes, if it reports success. -/
def publishes (w : SmbiosWriter) : SmbiosCall → Option Bytes
  | .finalize io => if (w.finalize io).1 then (w.finalize io).2.smbios2 else none
  | _ => none

/-- The `dirVer` bytes of the files published; nothing for a file that has
none. -/
def dirVers (w : SmbiosWriter) (calls : List SmbiosCall) : List (Option UInt8) :=
  ((visits next w calls).filterMap fun p => p.1.publishes p.2).map List.head?

/-- Consecutive files have consecutive versions. -/
def CountsPublications (w : SmbiosWriter) (calls : List SmbiosCall) : Prop :=
  (w.dirVers calls).IsChain fun ver ver' => ∀ v ∈ ver, ∀ v' ∈ ver', v' = v + 1

/-- A call that returns false leaves the members of the writer as they were. -/
def FailureKeeps (w : SmbiosWriter) : SmbiosCall → Prop
  | .finalize io => (w.finalize io).1 = false →
      (w.finalize io).2.records = w.records ∧
        (w.finalize io).2.directoryVersion = w.directoryVersion
  | _ => True

/-- A call of `finalize` with records and a directory goes through: the file is
opened, written and renamed. -/
def GoesThrough (w : SmbiosWriter) : SmbiosCall → Prop
  | .finalize io => w.records ≠ [] → io.dirOk = true →
      io.openOk = true ∧ io.mdr.ok = true ∧ io.ep.ok = true ∧ io.records.ok = true ∧
        io.renameOk = true
  | _ => True

/-! ### One call -/

/-- **When a call counts.** -/
theorem finalize_directoryVersion (io : FinalizeIo) (w : SmbiosWriter) :
    (w.finalize io).2.directoryVersion =
      if w.records ≠ [] ∧ io.dirOk = true then w.directoryVersion + 1
      else w.directoryVersion := by
  by_cases hempty : w.records = []
  · rw [finalize, if_pos hempty, if_neg fun h => h.1 hempty]
  by_cases hdir : io.dirOk = false
  · rw [finalize, if_neg hempty, if_pos hdir, if_neg fun h => by simp [hdir] at h]
  · have hcounts : w.records ≠ [] ∧ io.dirOk = true :=
      ⟨hempty, Bool.eq_true_of_not_eq_false hdir⟩
    rw [if_pos hcounts, finalize, if_neg hempty, if_neg hdir]
    dsimp only
    split
    · rfl
    · split
      · rfl
      · split
        · rfl
        · rfl

private theorem addRecord_directoryVersion (w : SmbiosWriter) (record : Bytes) :
    (w.addRecord record).directoryVersion = w.directoryVersion := by
  rw [addRecord]
  split
  · rfl
  · rfl

/-- A failing call keeps the members iff it did not count. -/
theorem failureKeeps_iff (w : SmbiosWriter) (call : SmbiosCall) :
    w.FailureKeeps call ↔ w.GoesThrough call := by
  cases call with
  | begin => exact Iff.rfl
  | addRecord record => exact Iff.rfl
  | finalize io =>
    have hversion := finalize_directoryVersion io w
    rcases finalize_cases io w with ⟨hreach, heq⟩ | ⟨hfail, hret, -, hrecords⟩
    · refine iff_of_true (fun h => ?_) fun _ _ => hreach.2.2
      rw [heq] at h
      cases h
    · constructor
      · intro h hne hdir
        have hsame := (h hret).2
        rw [hversion, if_pos ⟨hne, hdir⟩] at hsame
        exact absurd hsame (by simp)
      · intro h _
        refine ⟨hrecords, ?_⟩
        rw [hversion, if_neg]
        rintro ⟨hne, hdir⟩
        exact hfail ⟨hne, hdir, h hne hdir⟩

/-- The first byte of a published file is the version it was counted for. -/
theorem head_publishes {w : SmbiosWriter} {call : SmbiosCall} {file : Bytes}
    (h : w.publishes call = some file) :
    (w.next call).directoryVersion = w.directoryVersion + 1 ∧
      ∀ v ∈ file.head?, v = w.directoryVersion + 1 := by
  cases call with
  | begin => cases h
  | addRecord record => cases h
  | finalize io =>
    rw [publishes] at h
    rcases finalize_cases io w with ⟨hreach, heq⟩ | ⟨-, hret, -⟩
    · rw [heq, if_pos rfl] at h
      obtain rfl := Option.some.inj h
      refine ⟨by rw [next, heq], fun v hv => ?_⟩
      -- what the closed stream leaves is a part of the new file from its start
      have hgood := (stream_good_iff io w).mpr ⟨hreach.2.2.2.1, hreach.2.2.2.2.1,
        hreach.2.2.2.2.2.1⟩
      have hprefix : (w.stream io).close io.closed <+: w.newFile io := by
        rw [← stream_content hgood, OutputStream.close, OutputStream.content]
        exact (List.prefix_append_right_inj _).mpr (List.take_prefix _ _)
      obtain ⟨rest, hrest⟩ := hprefix
      obtain ⟨tail, htail⟩ := List.head?_eq_some_iff.mp hv
      rw [htail, newFile, MdrHeader.bytes] at hrest
      exact (List.cons.inj hrest).1
    · rw [hret] at h
      cases h

/-- A call that publishes nothing and goes through leaves the version alone. -/
theorem next_directoryVersion {w : SmbiosWriter} {call : SmbiosCall}
    (hgo : w.GoesThrough call) (h : w.publishes call = none) :
    (w.next call).directoryVersion = w.directoryVersion := by
  cases call with
  | begin => rfl
  | addRecord record => exact addRecord_directoryVersion w record
  | finalize io =>
    rw [publishes] at h
    rcases finalize_cases io w with ⟨hreach, heq⟩ | ⟨hfail, hret, -⟩
    · rw [heq, if_pos rfl] at h
      cases h
    · exact ((failureKeeps_iff w (.finalize io)).mpr hgo hret).2

/-! ### Sequences of calls -/

private theorem dirVers_cons (w : SmbiosWriter) (call : SmbiosCall) (calls : List SmbiosCall) :
    w.dirVers (call :: calls) =
      (w.publishes call).toList.map List.head? ++ (w.next call).dirVers calls := by
  rw [dirVers, visits, List.filterMap_cons, dirVers]
  cases w.publishes call with
  | none => rfl
  | some file => rfl

/-- **Consecutive versions differ by one where every call goes through**, and
the first one is next to the version the writer starts with. -/
theorem dirVers_step_one (calls : List SmbiosCall) : ∀ w : SmbiosWriter,
    (∀ p ∈ visits next w calls, GoesThrough p.1 p.2) →
      w.CountsPublications calls ∧
        ∀ ver ∈ (w.dirVers calls).head?, ∀ v ∈ ver, v = w.directoryVersion + 1 := by
  induction calls with
  | nil =>
    intro w _
    exact ⟨List.IsChain.nil, fun ver hver => by cases hver⟩
  | cons call calls ih =>
    intro w h
    rw [visits, List.forall_mem_cons] at h
    obtain ⟨hgo, hrest⟩ := h
    obtain ⟨hchain, hhead⟩ := ih _ hrest
    rw [CountsPublications, dirVers_cons]
    -- the version moves with the files only
    cases hpub : w.publishes call with
    | none =>
      rw [next_directoryVersion hgo hpub] at hhead
      exact ⟨hchain, hhead⟩
    | some file =>
      obtain ⟨hversion, hfile⟩ := head_publishes hpub
      rw [hversion] at hhead
      refine ⟨List.isChain_cons.mpr ⟨fun ver hver v hv v' hv' => ?_, hchain⟩, ?_⟩
      · rw [hfile v hv]
        exact hhead ver hver v' hv'
      · intro ver hver
        obtain rfl := Option.some.inj hver
        exact hfile

/-- **The writer counts publications iff every call of `finalize` with records
and a directory goes through.** -/
theorem counts_publications_iff (temp smbios2 : Option Bytes) (calls : List SmbiosCall) :
    ((new temp smbios2).CountsPublications calls ∧
        ∀ p ∈ visits next (new temp smbios2) calls, FailureKeeps p.1 p.2) ↔
      ∀ p ∈ visits next (new temp smbios2) calls, GoesThrough p.1 p.2 := by
  have hkeeps : (∀ p ∈ visits next (new temp smbios2) calls, FailureKeeps p.1 p.2) ↔
      ∀ p ∈ visits next (new temp smbios2) calls, GoesThrough p.1 p.2 :=
    forall₂_congr fun p _ => failureKeeps_iff p.1 p.2
  rw [hkeeps]
  exact and_iff_right_of_imp fun h => (dirVers_step_one calls _ h).1

/-- A record of six bytes, published; then a `finalize` that cannot open the
file, and one that can. -/
def failedOpen : List SmbiosCall :=
  let io : FinalizeIo := .flushing 40
  [.addRecord [1, 0, 0, 0, 6, 0, 1, 4, 1, 0, 0, 0], .finalize io,
    .finalize { io with openOk := false }, .finalize io]

theorem not_countsPublications_failedOpen :
    ¬((new none none).CountsPublications failedOpen ∧
      ∀ p ∈ visits next (new none none) failedOpen, FailureKeeps p.1 p.2) := by
  rintro ⟨hchain, -⟩
  have hvers : (new none none).dirVers failedOpen = [some 1, some 3] := by decide +kernel
  rw [CountsPublications, hvers, List.isChain_pair] at hchain
  exact absurd (hchain 1 rfl 3 rfl) (by decide)

end SmbiosWriter

end Chif
