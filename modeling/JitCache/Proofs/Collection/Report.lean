/-
  JitCache.Proofs.Collection.Report
  ─────────────────────────────────
  **What a pass counts, and how far the counts can come.**

  A pass counts blob by blob, and a count that has come to the largest word stays
  there.  Counts only grow, so clipping at every addition is clipping once, at
  the end: a whole loop adds one portion to a report, whatever was counted
  before it.

  Handles and code space are finite.  There are no more registered blobs than
  attempts to make one, so of all that is counted only the bytes can leave the
  word.

  Main statements:
    `PassReport.reclaim_reclaim`, `PassReport.relocate_relocate`
                               — two portions are one
    `Sound.size_registered_le` — how many blobs there can be
-/
import JitCache.Proofs.Session.Sound

namespace JitCache

namespace PassReport

/-! ## §1. Portions. -/

/-- The counts that a pass goes on adding to are words. -/
structure Fits (report : PassReport) : Prop where
  blobsReclaimed : report.blobsReclaimed ≤ Word.maxValue
  bytesReclaimed : report.bytesReclaimed ≤ Word.maxValue
  blobsRelocated : report.blobsRelocated ≤ Word.maxValue
  relocationFailures : report.relocationFailures ≤ Word.maxValue

/-- The report after so many more blobs, with so much code, were reclaimed. -/
def reclaim (report : PassReport) (blobs bytes : Nat) : PassReport :=
  { report with
    blobsReclaimed := Word.add report.blobsReclaimed blobs
    bytesReclaimed := Word.add report.bytesReclaimed bytes }

/-- The report after some more blobs were moved and some more found no room. -/
def relocate (report : PassReport) (moved stuck : Nat) : PassReport :=
  { report with
    blobsRelocated := Word.add report.blobsRelocated moved
    relocationFailures := Word.add report.relocationFailures stuck }

/-- The reports of two passes, added up. -/
def plus (first second : PassReport) : PassReport where
  zombiesMarked := Word.add first.zombiesMarked second.zombiesMarked
  blobsReclaimed := Word.add first.blobsReclaimed second.blobsReclaimed
  bytesReclaimed := Word.add first.bytesReclaimed second.bytesReclaimed
  blobsRelocated := Word.add first.blobsRelocated second.blobsRelocated
  relocationFailures := Word.add first.relocationFailures second.relocationFailures

variable {report : PassReport} {blobs bytes moved stuck : Nat}

/-- A pass that has only marked so far. -/
theorem fits_marked (marked : Nat) : Fits { zombiesMarked := marked } :=
  ⟨Nat.zero_le _, Nat.zero_le _, Nat.zero_le _, Nat.zero_le _⟩

theorem Fits.reclaim (h : report.Fits) (blobs bytes : Nat) : (report.reclaim blobs bytes).Fits :=
  ⟨Word.add_le _ _, Word.add_le _ _, h.blobsRelocated, h.relocationFailures⟩

theorem Fits.relocate (h : report.Fits) (moved stuck : Nat) : (report.relocate moved stuck).Fits :=
  ⟨h.blobsReclaimed, h.bytesReclaimed, Word.add_le _ _, Word.add_le _ _⟩

theorem Fits.reclaim_zero (h : report.Fits) : report.reclaim 0 0 = report := by
  unfold PassReport.reclaim
  rw [Word.add_zero h.blobsReclaimed, Word.add_zero h.bytesReclaimed]

theorem Fits.relocate_zero (h : report.Fits) : report.relocate 0 0 = report := by
  unfold PassReport.relocate
  rw [Word.add_zero h.blobsRelocated, Word.add_zero h.relocationFailures]

theorem Fits.relocate_moved (h : report.Fits) :
    report.relocate 1 0 = { report with blobsRelocated := Word.add report.blobsRelocated 1 } := by
  unfold PassReport.relocate
  rw [Word.add_zero h.relocationFailures]

theorem Fits.relocate_stuck (h : report.Fits) :
    report.relocate 0 1
      = { report with relocationFailures := Word.add report.relocationFailures 1 } := by
  unfold PassReport.relocate
  rw [Word.add_zero h.blobsRelocated]

theorem reclaim_reclaim (report : PassReport) (blobs bytes blobs' bytes' : Nat) :
    (report.reclaim blobs bytes).reclaim blobs' bytes'
      = report.reclaim (blobs + blobs') (bytes + bytes') := by
  unfold reclaim
  simp only [Word.add_add]

theorem relocate_relocate (report : PassReport) (moved stuck moved' stuck' : Nat) :
    (report.relocate moved stuck).relocate moved' stuck'
      = report.relocate (moved + moved') (stuck + stuck') := by
  unfold relocate
  simp only [Word.add_add]

/-- Blobs after none are counted exactly, their bytes up to the largest word. -/
theorem reclaim_eq (hblobs : report.blobsReclaimed = 0) (hbytes : report.bytesReclaimed = 0)
    (hfew : blobs ≤ Word.maxValue) :
    report.reclaim blobs bytes
      = { report with blobsReclaimed := blobs, bytesReclaimed := min bytes Word.maxValue } := by
  unfold reclaim
  rw [hblobs, hbytes, Word.add_of_le (by omega), Word.add, Nat.zero_add, Nat.zero_add]

/-- Few moves after none are counted exactly. -/
theorem relocate_eq (hmoved : report.blobsRelocated = 0) (hstuck : report.relocationFailures = 0)
    (hfew : moved + stuck ≤ Word.maxValue) :
    report.relocate moved stuck
      = { report with blobsRelocated := moved, relocationFailures := stuck } := by
  unfold relocate
  rw [hmoved, hstuck, Word.add_of_le (by omega), Word.add_of_le (by omega), Nat.zero_add,
    Nat.zero_add]

end PassReport

namespace Cache

/-! ## §2. How many blobs there can be. -/

variable {cache : Cache} {made : Nat}

/-- **There are no more registered blobs than attempts to make one**: each has a handle of its own. -/
theorem Sound.size_registered_le (h : cache.Sound made) : cache.registered.size ≤ made := by
  have hnodup : (cache.registered.keys.map number).Nodup :=
    List.pairwise_map.mpr
      (cache.registered.nodup_keys.imp fun hne heq => hne (Table.number_eq_iff.mp heq))
  have hsub : cache.registered.keys.map number ⊆ List.range' 1 made := by
    intro handle hmem
    obtain ⟨id, hid, rfl⟩ := List.mem_map.mp hmem
    obtain ⟨blob, hblob⟩ := Table.contains_iff.mp (Table.mem_keys_iff.mp hid)
    obtain ⟨hpos, hle⟩ := h.handles.dealt (held?_of_registered hblob)
    rw [List.mem_range'_1]
    show 1 ≤ id.number.toNat ∧ id.number.toNat < 1 + made
    omega
  have hle := (hnodup.subperm hsub).length_le
  rwa [List.length_map, Table.length_keys, List.length_range'] at hle

/-- As long as there are handles to deal out, the blobs at one stage of life can be counted. -/
theorem Sound.length_atStage_le (h : cache.Sound made) (hroom : made < UInt64.size)
    (liveness : Liveness) : (cache.atStage liveness).length ≤ Word.maxValue := by
  have hlength : cache.registered.values.length = cache.registered.size := List.length_map _
  have hsome : (cache.atStage liveness).length ≤ cache.registered.values.length :=
    List.length_filter_le _ _
  have hsize := h.size_registered_le
  have hword : made ≤ Word.maxValue := Nat.le_pred_of_lt hroom
  omega

end Cache

end JitCache
