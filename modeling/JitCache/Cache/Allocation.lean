/-
  JitCache.Cache.Allocation
  ─────────────────────────
  **Making a blob: which regions are asked, and what is dealt out.**

  A new artifact goes to the region its level prefers, then to the sibling,
  then, if the settings allow it, to the non-method region.  A replacement goes
  to a method region other than that of the blob it replaces, if one has room,
  so that the two are told apart by their region too.

  Every attempt uses up a blob handle, also when it fails.
-/
import JitCache.Cache.Basic

namespace JitCache

namespace Settings

/-- The non-method region, where the settings let method code spill into it. -/
def spillRegion (settings : Settings) : List RegionKind :=
  if settings.allowNonMethodFallback then [.nonMethod] else []

/-- The regions asked for room for a new artifact, in order. -/
def installOrder (settings : Settings) (level : Level) : List RegionKind :=
  let preferred := level.homeRegion
  preferred :: preferred.sibling?.toList ++ settings.spillRegion

/-- The regions asked for room for a replacement of a blob in `current`, in
order: the other method regions first, then `current` itself, each once. -/
def replacementOrder (settings : Settings) (current : RegionKind) (level : Level) :
    List RegionKind :=
  let preferred := level.homeRegion
  let others := (preferred :: preferred.sibling?.toList).filter (· ≠ current)
  others ++ current :: settings.spillRegion.filter (· ≠ current)

end Settings

namespace Cache

/-- Makes a blob of an artifact, placed in the first candidate region with
room, and registers it.  Without room nothing is registered. -/
def makeBlob (cache : Cache) (method : MethodId) (artifact : Artifact) (slot : Slot)
    (candidates : List RegionKind) : Attempt Blob :=
  let id := cache.nextBlob
  let size := artifact.code.size
  let noRoom := CacheError.regionFull (candidates.headD .nonMethod) size 0
  match cache.regions.firstFit id size noRoom candidates with
  | (.error error, regions) =>
    (.error error,
      { cache with
        regions
        nextBlob := id.next
        -- only want of room counts as a failed allocation
        metrics :=
          if error.mayFitElsewhere then
            { cache.metrics with allocationFailures := cache.metrics.allocationFailures + 1 }
          else cache.metrics })
  | (.ok placement, regions) =>
    let blob : Blob :=
      { id, method, entry := cache.nextEntry, slot, level := artifact.level,
        code := artifact.code, placement }
    (.ok blob,
      { cache with
        regions
        registered := cache.registered.insert id blob
        nextBlob := id.next
        nextEntry := cache.nextEntry.advance placement.span.length
        -- placed elsewhere than where it was wanted most
        metrics :=
          if candidates.head? = some placement.region then cache.metrics
          else { cache.metrics with regionFallbacks := cache.metrics.regionFallbacks + 1 } })

end Cache

end JitCache
