/-
  JitCache.Operation
  ──────────────────
  **Everything that changes a cache, as data.**

  An `Operation` names one call of the cache's interface together with its
  arguments, `Cache.perform` carries it out, and an `Outcome` is what the caller
  learns.  A session is a list of operations performed one after the other, so
  that what holds after every session is proved step by step.

  Main statement:
    `runAll_append` — a session can be cut anywhere
-/
import JitCache.Cache.Relocation
import JitCache.Cache.Tiering
import JitCache.Collection.Pass

namespace JitCache

/-- One call that may change a cache. -/
inductive Operation where
  /-- Install a finished artifact in a slot. -/
  | install (method : MethodId) (artifact : Artifact) (slot : Slot)
  /-- Make the code of a slot again. -/
  | replace (method : MethodId) (slot : Slot) (level : Option Level) (region : Option RegionKind)
  /-- Empty a slot. -/
  | deoptimize (method : MethodId) (slot : Slot)
  /-- Move a registered blob to a region. -/
  | move (blob : BlobId) (target : RegionKind)
  /-- Queue a method for compilation. -/
  | queue (method : MethodId)
  /-- Note that a compilation failed. -/
  | compileFailed (method : MethodId)
  /-- Count an invocation by the interpreter. -/
  | invoke (method : MethodId)
  /-- Act on a report of the compiler. -/
  | handle (report : CompilerReport)
  /-- Run a collection pass. -/
  | collect (policy : CollectionPolicy) (frames : FrameSnapshot)
  /-- Reserve room in a region directly. -/
  | reserveIn (region : RegionKind) (blob : BlobId) (size : Nat)
  /-- Release a resident of a region directly. -/
  | releaseIn (region : RegionKind) (blob : BlobId)
  /-- Carry a registered blob between regions directly. -/
  | transfer (source target : RegionKind) (blob : BlobId)
  /-- Carry a blob someone holds on to between regions directly. -/
  | transferHeld (source target : RegionKind) (blob : BlobId)
  /-- Let all counters start over. -/
  | resetMetrics

/-- What the caller of an operation learns. -/
inductive Outcome where
  /-- It is done, and there is nothing to tell. -/
  | done
  /-- The blob that was made or taken out of its slot. -/
  | blob (id : BlobId)
  /-- A report that led to no blob. -/
  | noBlob
  /-- Whether the invocation queued the method. -/
  | counted (queued : Bool)
  /-- What the pass did. -/
  | collected (report : PassReport)
  /-- The span that was reserved, released or carried to. -/
  | placed (placement : Placement)
  /-- It was refused. -/
  | refused (error : CacheError)
  deriving DecidableEq

/-- The outcome of an attempt, told in one way or the other. -/
def Outcome.ofAttempt {α : Type} (tell : α → Outcome) : Attempt α → Outcome × Cache
  | (.ok value, cache) => (tell value, cache)
  | (.error error, cache) => (.refused error, cache)

namespace Cache

/-- Carries out one operation. -/
def perform (cache : Cache) : Operation → Outcome × Cache
  | .install method artifact slot => Outcome.ofAttempt .blob (cache.install method artifact slot)
  | .replace method slot level region => Outcome.ofAttempt .blob (cache.replace method slot level region)
  | .deoptimize method slot => Outcome.ofAttempt .blob (cache.deoptimize method slot)
  | .move blob target => Outcome.ofAttempt (fun _ => .done) (cache.move blob target)
  | .queue method => (.done, cache.queue method)
  | .compileFailed method => (.done, cache.compileFailed method)
  | .invoke method =>
    let (queued, cache) := cache.invoke method
    (.counted queued, cache)
  | .handle report =>
    match cache.handle report with
    | (some id, cache) => (.blob id, cache)
    | (none, cache) => (.noBlob, cache)
  | .collect policy frames => Outcome.ofAttempt .collected (cache.collect policy frames)
  | .reserveIn region blob size => Outcome.ofAttempt .placed (cache.reserveIn region blob size)
  | .releaseIn region blob => Outcome.ofAttempt .placed (cache.releaseIn region blob)
  | .transfer source target blob => Outcome.ofAttempt .placed (cache.transfer source target blob)
  | .transferHeld source target blob => Outcome.ofAttempt .placed (cache.transferHeld source target blob)
  | .resetMetrics => (.done, cache.resetMetrics)

/-- Performs operations one after the other; answers with all outcomes. -/
def runAll (cache : Cache) : List Operation → List Outcome × Cache
  | [] => ([], cache)
  | operation :: rest =>
    let (outcome, cache) := cache.perform operation
    let (outcomes, cache) := cache.runAll rest
    (outcome :: outcomes, cache)

theorem runAll_append (cache : Cache) (first second : List Operation) :
    cache.runAll (first ++ second)
      = ((cache.runAll first).1 ++ ((cache.runAll first).2.runAll second).1,
          ((cache.runAll first).2.runAll second).2) := by
  induction first generalizing cache with
  | nil => rfl
  | cons operation rest ih => simp [runAll, ih]

end Cache

end JitCache
