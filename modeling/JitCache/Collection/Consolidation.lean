/-
  JitCache.Collection.Consolidation
  ─────────────────────────────────
  **Draining nearly empty method regions into fuller ones.**

  The method regions are drained one after the other, each blob by blob in
  ascending order.  Only entrant blobs move, the others are left for
  reclamation.  Which regions may take a blob is asked again for each: every
  move makes the source sparser.
-/
import JitCache.Cache.Relocation
import JitCache.Collection.Policy

namespace JitCache.Cache

/-- Moves a blob to the first of the given regions that has room.  Answers
whether it found one; a blob that vanished meanwhile counts as not moved. -/
def moveToFirst (cache : Cache) (id : BlobId) : List RegionKind → Attempt Bool
  | [] => (.ok false, cache)
  | target :: rest =>
    match cache.move id target with
    | (.ok (), cache) => (.ok true, cache)
    | (.error error, cache) =>
      match error with
      -- the next one may have room
      | .regionFull .. => moveToFirst cache id rest
      | .unknownBlob _ => (.ok false, cache)
      | error => (.error error, cache)

/-- Moves each of these blobs out of a region, as far as it is entrant and
some fuller region has room. -/
def drainEach (policy : CollectionPolicy) (source : RegionKind) :
    List BlobId → PassReport → Cache → Attempt PassReport
  | [], report, cache => (.ok report, cache)
  | id :: rest, report, cache =>
    let entrant := ((cache.registered.get? id).map Blob.isEntrant).getD false
    let destinations := policy.destinations cache.regions source
    if entrant = false ∨ destinations = [] then drainEach policy source rest report cache
    else
      match cache.moveToFirst id destinations with
      | (.error error, cache) => (.error error, cache)
      | (.ok true, cache) =>
        drainEach policy source rest
          { report with blobsRelocated := Word.add report.blobsRelocated 1 } cache
      | (.ok false, cache) =>
        drainEach policy source rest
          { report with relocationFailures := Word.add report.relocationFailures 1 } cache

/-- Drains one region, if it is nearly empty. -/
def drain (cache : Cache) (policy : CollectionPolicy) (source : RegionKind)
    (report : PassReport) : Attempt PassReport :=
  let region := cache.region source
  if policy.drains region then drainEach policy source region.residents.keys report cache
  else (.ok report, cache)

/-- Drains the regions in turn, up to the first refusal. -/
def drainAll (policy : CollectionPolicy) :
    List RegionKind → PassReport → Cache → Attempt PassReport
  | [], report, cache => (.ok report, cache)
  | source :: rest, report, cache =>
    match cache.drain policy source report with
    | (.error error, cache) => (.error error, cache)
    | (.ok report, cache) => drainAll policy rest report cache

/-- Drains both method regions, if the policy asks for it. -/
def consolidate (cache : Cache) (policy : CollectionPolicy) (report : PassReport) :
    Attempt PassReport :=
  if policy.consolidate then
    drainAll policy (RegionKind.all.filter RegionKind.holdsMethods) report cache
  else (.ok report, cache)

end JitCache.Cache
