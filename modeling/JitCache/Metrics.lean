/-
  JitCache.Metrics
  ────────────────
  **What has happened so far, counted.**

  Each field counts one kind of event since the cache was made or the counters
  were last reset.  The counters are machine words and go round at the end.
-/

namespace JitCache

/-- Event counters. -/
structure Metrics where
  /-- Blobs that a finished compilation put into a slot. -/
  installs : UInt64 := 0
  /-- Blobs made again from the code of the one they replaced. -/
  replacements : UInt64 := 0
  /-- Slots emptied. -/
  deoptimizations : UInt64 := 0
  /-- Blobs closed to new calls. -/
  closed : UInt64 := 0
  /-- Blobs given up for reclamation. -/
  zombiesMarked : UInt64 := 0
  /-- Blobs removed. -/
  blobsReclaimed : UInt64 := 0
  /-- Bytes of code in the blobs removed. -/
  bytesReclaimed : UInt64 := 0
  /-- Blobs moved from one region to another. -/
  relocations : UInt64 := 0
  /-- Blobs placed in another region than the first choice. -/
  regionFallbacks : UInt64 := 0
  /-- Blobs that no region had room for. -/
  allocationFailures : UInt64 := 0
  /-- Compilations that failed. -/
  compileFailures : UInt64 := 0
  /-- Collections brought to their end. -/
  collections : UInt64 := 0
  deriving DecidableEq

instance : Inhabited Metrics := ⟨{}⟩

end JitCache
