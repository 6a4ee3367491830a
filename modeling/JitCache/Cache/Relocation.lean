/-
  JitCache.Cache.Relocation
  ─────────────────────────
  **Moving code between regions, and the regions' own books.**

  `move` relocates a registered blob, which keeps its handle and its entry
  address.  The other operations work on the regions directly, past the blob
  table: they exist for whoever maintains a region by hand, and can leave the
  books in disagreement (`JitCache.Cache.Audit` finds out).
-/
import JitCache.Cache.Basic

namespace JitCache.Cache

/-- Changes where a blob is placed, be it registered or reclaimed. -/
def setPlacement (cache : Cache) (id : BlobId) (placement : Placement) : Cache :=
  cache.modifyHeld id ({ · with placement })

/-- Carries a blob's bytes from one region to another and places the blob there. -/
def carry (cache : Cache) (source target : RegionKind) (blob : Blob) : Attempt Placement :=
  match cache.regions.transfer source target blob.id blob.size blob.placement with
  | (.error error, regions) => (.error error, { cache with regions })
  | (.ok placement, regions) =>
    (.ok placement, { cache with regions }.setPlacement blob.id placement)

/-- Moves a registered blob to a region.  Where it is already, nothing happens. -/
def move (cache : Cache) (id : BlobId) (target : RegionKind) : Attempt Unit :=
  match cache.find id with
  | .error error => (.error error, cache)
  | .ok blob =>
    if cache.hasRecord blob.method = false then (.error (.unknownBlob id), cache)
    -- looked up again, in case a pass has reclaimed the blob meanwhile
    else if cache.registered.contains id = false then (.error (.unknownBlob id), cache)
    else if blob.region = target then (.ok (), cache)
    else
      match cache.carry blob.region target blob with
      | (.error error, cache) => (.error error, cache)
      | (.ok _, cache) =>
        (.ok (),
          { cache with
            metrics := { cache.metrics with relocations := cache.metrics.relocations + 1 } })

/-! ## The regions directly. -/

/-- Reserves room in a region under any handle. -/
def reserveIn (cache : Cache) (kind : RegionKind) (id : BlobId) (size : Nat) : Attempt Placement :=
  let (outcome, region) := (cache.region kind).reserve id size
  (outcome, { cache with regions := cache.regions.set kind region })

/-- Releases what a region holds under a handle. -/
def releaseIn (cache : Cache) (kind : RegionKind) (id : BlobId) : Attempt Placement :=
  let (outcome, region) := (cache.region kind).release id
  (outcome, { cache with regions := cache.regions.set kind region })

/-- Carries a registered blob from a region, not necessarily the one it is
placed in, to another. -/
def transfer (cache : Cache) (source target : RegionKind) (id : BlobId) : Attempt Placement :=
  match cache.find id with
  | .error error => (.error error, cache)
  | .ok blob => cache.carry source target blob

/-- The same for a blob that someone holds on to, registered or reclaimed. -/
def transferHeld (cache : Cache) (source target : RegionKind) (id : BlobId) : Attempt Placement :=
  match cache.held? id with
  | none => (.error (.unknownBlob id), cache)
  | some blob => cache.carry source target blob

end JitCache.Cache
