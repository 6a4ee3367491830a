/-
  JitCache.Collection.Policy
  ──────────────────────────
  **How a collection pass is to proceed, and what it reports.**
-/
import JitCache.Regions

namespace JitCache

/-- What a collection pass may do beyond reclaiming. -/
structure CollectionPolicy where
  /-- Whether nearly empty method regions are drained. -/
  consolidate : Bool
  /-- How much of a region may be used, in percent, for it to be drained. -/
  drainPercent : UInt8
  /-- Whether the non-method region may take what is drained. -/
  allowNonMethod : Bool
  deriving DecidableEq

/-- What one collection pass did.  No count exceeds a word: at the largest word it
stays there. -/
structure PassReport where
  zombiesMarked : Nat := 0
  blobsReclaimed : Nat := 0
  bytesReclaimed : Nat := 0
  blobsRelocated : Nat := 0
  relocationFailures : Nat := 0
  deriving DecidableEq

namespace CollectionPolicy

/-- The policy that settings call for. -/
def ofSettings (settings : Settings) : CollectionPolicy where
  consolidate := settings.consolidateOnCollect
  drainPercent := settings.consolidationPercent
  allowNonMethod := settings.allowNonMethodFallback

/-- Whether a region holds something and is nearly empty. -/
def drains (policy : CollectionPolicy) (region : Region) : Bool :=
  region.residentCount ≠ 0 ∧ region.percentUsed ≤ policy.drainPercent.toNat

/-- The regions that may take a blob drained from `source`, in order: only such
as are fuller than `source` at that moment. -/
def destinations (policy : CollectionPolicy) (regions : Regions) (source : RegionKind) :
    List RegionKind :=
  let candidates := source.sibling?.toList ++ if policy.allowNonMethod then [.nonMethod] else []
  candidates.filter fun kind => (regions.get kind).isFullerThan (regions.get source)

/-- Whatever may take a blob is fuller than where it comes from. -/
theorem isFullerThan_of_mem_destinations {policy : CollectionPolicy} {regions : Regions}
    {source kind : RegionKind} (h : kind ∈ policy.destinations regions source) :
    (regions.get kind).isFullerThan (regions.get source) = true :=
  (List.mem_filter.mp h).2

end CollectionPolicy

end JitCache
