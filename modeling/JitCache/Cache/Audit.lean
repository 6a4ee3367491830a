/-
  JitCache.Cache.Audit
  ────────────────────
  **Do the books agree?**

  `violation?` goes through the regions in order.  In each, the used bytes must
  be the sum over the residents, and every resident must be a registered blob
  placed there with the same size.  Last, there must be as many residents as
  registered blobs.  The first disagreement is reported.
-/
import JitCache.Cache.Basic

namespace JitCache.Cache

/-- The first of these residents that is not a registered blob of the region
and the size noted for it. -/
def strangeResident? (cache : Cache) (kind : RegionKind) :
    List (BlobId × Nat) → Option Violation
  | [] => none
  | (id, size) :: rest =>
    match cache.registered.get? id with
    | none => some (.unregistered id kind)
    | some blob =>
      if blob.region = kind ∧ blob.size = size then strangeResident? cache kind rest
      else some (.misplaced id kind)

/-- What is wrong with the books of a region. -/
def regionViolation? (cache : Cache) (region : Region) : Option Violation :=
  if region.residentBytes = region.used then
    cache.strangeResident? region.kind region.sizes
  else some (.usedDiffers region.kind region.used region.residentBytes)

/-- The first disagreement between the books. -/
def violation? (cache : Cache) : Option Violation :=
  match cache.regions.toList.findSome? cache.regionViolation? with
  | some violation => some violation
  | none =>
    if cache.regions.residentCount = cache.registered.size then none
    else some (.countsDiffer cache.registered.size cache.regions.residentCount)

/-- Passes if the books agree. -/
def audit (cache : Cache) : Except CacheError Unit :=
  match cache.violation? with
  | none => .ok ()
  | some violation => .error (.inconsistent violation)

end JitCache.Cache
