/-
  JitCache.Collection.Pass
  ────────────────────────
  **One collection pass: mark, reclaim, consolidate.**

  A pass that is refused half-way keeps what it has done so far and is not
  counted; the next one goes on from there.
-/
import JitCache.Collection.Consolidation
import JitCache.Collection.Reclamation

namespace JitCache.Cache

/-- Runs a pass against a snapshot of the call stacks. -/
def collect (cache : Cache) (policy : CollectionPolicy) (frames : FrameSnapshot) :
    Attempt PassReport :=
  let (marked, cache) := cache.markZombies frames
  -- zombies that an earlier pass failed to reclaim are tried again
  match cache.reclaimZombies { zombiesMarked := marked } with
  | (.error error, cache) => (.error error, cache)
  | (.ok report, cache) =>
    match cache.consolidate policy report with
    | (.error error, cache) => (.error error, cache)
    | (.ok report, cache) =>
      (.ok report,
        { cache with
          metrics := { cache.metrics with collections := cache.metrics.collections + 1 } })

end JitCache.Cache
