/-
  JitCache.Collection.Reclamation
  ───────────────────────────────
  **Giving up blobs that nothing executes, and taking back their code space.**

  A non-entrant blob becomes a zombie when no slot holds it and no frame
  executes it.  A zombie is reclaimed by releasing its span first: if its
  region does not know it, it stays registered and the pass stops there.

  Both phases go through a list that is read off the register before.  When a
  blob has its turn, everything is looked up again, and it is passed over if the
  list is not right any more.
-/
import JitCache.Cache.Basic
import JitCache.Collection.FrameSnapshot
import JitCache.Collection.Policy

namespace JitCache.Cache

/-- Whether nothing can execute the blob any more. -/
def isUnreferenced (cache : Cache) (frames : FrameSnapshot) (blob : Blob) : Bool :=
  !(cache.status blob.method).holds blob.id && !frames.contains blob.entry

/-- Gives up one blob. -/
def markZombie (cache : Cache) (blob : Blob) : Cache :=
  { cache with
    registered := cache.registered.insert blob.id blob.giveUp
    metrics := { cache.metrics with zombiesMarked := cache.metrics.zombiesMarked + 1 } }

/-- Gives up a blob that is non-entrant, if its method has a record and nothing
can execute it.  Answers whether it was given up. -/
def markIfUnreferenced (cache : Cache) (frames : FrameSnapshot) (blob : Blob) : Bool × Cache :=
  match cache.registered.get? blob.id with
  -- who has left the register is a zombie already
  | none => (false, cache)
  | some blob =>
    if cache.hasRecord blob.method = false then (false, cache)
    else if cache.isUnreferenced frames blob = false then (false, cache)
    else if blob.liveness = .nonEntrant then (true, cache.markZombie blob)
    else (false, cache)

/-- Gives up those of these blobs that can be, and counts them. -/
def markEach (frames : FrameSnapshot) : List Blob → Nat → Cache → Nat × Cache
  | [], count, cache => (count, cache)
  | blob :: rest, count, cache =>
    match cache.markIfUnreferenced frames blob with
    | (false, cache) => markEach frames rest count cache
    | (true, cache) => markEach frames rest (Word.add count 1) cache

/-- Gives up all non-entrant blobs that nothing can execute.  Answers how many. -/
def markZombies (cache : Cache) (frames : FrameSnapshot) : Nat × Cache :=
  markEach frames (cache.atStage .nonEntrant) 0 cache

/-- Takes back the code space of a zombie and strikes it from the register.
Answers with its size, or with nothing if there is no record of its method, or
it is no registered zombie. -/
def reclaim (cache : Cache) (blob : Blob) : Attempt (Option Nat) :=
  match cache.registered.get? blob.id with
  | none => (.ok none, cache)
  | some blob =>
    if cache.hasRecord blob.method = false then (.ok none, cache)
    else if blob.liveness ≠ .zombie then (.ok none, cache)
    else
      match (cache.region blob.region).release blob.id with
      | (.error error, region) =>
        (.error error, { cache with regions := cache.regions.set blob.region region })
      | (.ok _, region) =>
        (.ok (some blob.size),
          { cache with
            regions := cache.regions.set blob.region region
            registered := cache.registered.erase blob.id
            reclaimed := cache.reclaimed.insert blob.id blob
            metrics :=
              { cache.metrics with
                blobsReclaimed := cache.metrics.blobsReclaimed + 1
                bytesReclaimed := cache.metrics.bytesReclaimed + UInt64.ofNat blob.size } })

/-- Reclaims these blobs one after the other, up to the first refusal. -/
def reclaimEach : List Blob → PassReport → Cache → Attempt PassReport
  | [], report, cache => (.ok report, cache)
  | blob :: rest, report, cache =>
    match cache.reclaim blob with
    | (.error error, cache) => (.error error, cache)
    | (.ok none, cache) => reclaimEach rest report cache
    | (.ok (some size), cache) =>
      reclaimEach rest
        { report with
          blobsReclaimed := Word.add report.blobsReclaimed 1
          bytesReclaimed := Word.add report.bytesReclaimed size } cache

/-- Reclaims all zombies, ascending, up to the first refusal. -/
def reclaimZombies (cache : Cache) (report : PassReport) : Attempt PassReport :=
  reclaimEach (cache.atStage .zombie) report cache

end JitCache.Cache
