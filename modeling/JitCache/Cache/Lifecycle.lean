/-
  JitCache.Cache.Lifecycle
  ────────────────────────
  **Filling and emptying slots.**

    install    — a finished artifact becomes what calls of the slot enter
    replace    — the slot's code is made again, under a new handle and address
    deoptimize — the slot is emptied, and the method interpreted again

  Whoever leaves a slot is closed to new calls but stays registered and
  resident: frames may still be executing it.
-/
import JitCache.Cache.Allocation

namespace JitCache.Cache

/-- Closes a blob to new calls. -/
def closeBlob (cache : Cache) (id : BlobId) : Cache :=
  { cache.modifyHeld id Blob.close with
    metrics := { cache.metrics with closed := cache.metrics.closed + 1 } }

/-- Closes whatever occupies a slot. -/
def closeOccupant (cache : Cache) (method : MethodId) (slot : Slot) : Cache :=
  match (cache.status method).occupant? slot with
  | some id => cache.closeBlob id
  | none => cache

/-- Puts a blob into its slot and notes the installation; the occupant so far
is closed first. -/
def enter (cache : Cache) (blob : Blob) : Cache :=
  let status := cache.status blob.method
  (cache.closeOccupant blob.method blob.slot).setStatus blob.method <|
    (status.setOccupant blob.slot (some blob.id)).note ⟨blob.id, blob.level, blob.slot⟩

/-- Says whether a method waits for compilation. -/
def setQueued (cache : Cache) (method : MethodId) (queued : Bool) : Cache :=
  cache.setStatus method { cache.status method with queued }

/-- Installs a finished artifact in a slot.  Refused if the artifact has no
compiled level, if the slot holds code of a higher level, or if there is no
room; in the last case the method may have a record now.  An installation ends
the wait for compilation. -/
def install (cache : Cache) (method : MethodId) (artifact : Artifact) (slot : Slot) :
    Attempt BlobId :=
  if artifact.level = .interpreted then (.error (.uncompiledLevel artifact.level), cache)
  else
    let cache := cache.ensureRecord method
    let current := cache.level method slot
    if artifact.level < current then
      (.error (.downgrade method slot current artifact.level), cache)
    else
      match cache.makeBlob method artifact slot (cache.settings.installOrder artifact.level) with
      | (.error error, cache) => (.error error, cache)
      | (.ok blob, cache) =>
        -- whichever slot it is for, the method waits no longer
        let cache := (cache.enter blob).setQueued method false
        (.ok blob.id,
          { cache with
            metrics := { cache.metrics with installs := cache.metrics.installs + 1 } })

/-- Makes the code of a slot again, at the given level (by default its own) and
in the given region (by default chosen by `Settings.replacementOrder`). -/
def replace (cache : Cache) (method : MethodId) (slot : Slot) (level : Option Level)
    (region : Option RegionKind) : Attempt BlobId :=
  match cache.entrant method slot with
  | .error error => (.error error, cache)
  | .ok old =>
    let level := level.getD old.level
    if level = .interpreted then (.error (.uncompiledLevel level), cache)
    else
      let candidates :=
        match region with
        -- asked for one region, it looks at no other
        | some region => [region]
        | none => cache.settings.replacementOrder old.region level
      match cache.makeBlob method ⟨level, old.code⟩ slot candidates with
      | (.error error, cache) => (.error error, cache)
      | (.ok blob, cache) =>
        let cache := cache.enter blob
        (.ok blob.id,
          { cache with
            metrics := { cache.metrics with replacements := cache.metrics.replacements + 1 } })

/-- Empties a slot.  With the standard slot, the method's invocations are
counted anew. -/
def deoptimize (cache : Cache) (method : MethodId) (slot : Slot) : Attempt BlobId :=
  match (cache.status method).occupant? slot with
  | none => (.error (.noEntrantBlob method slot), cache)
  | some id =>
    let status := cache.status method
    let cache := (cache.closeBlob id).setStatus method (status.setOccupant slot none)
    (.ok id,
      { cache with
        invocations :=
          if slot = .standard then cache.invocations.reset method else cache.invocations
        metrics := { cache.metrics with deoptimizations := cache.metrics.deoptimizations + 1 } })

end JitCache.Cache
