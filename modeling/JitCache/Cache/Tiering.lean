/-
  JitCache.Cache.Tiering
  ──────────────────────
  **From interpreted to compiled: counting, queueing, and what compilers report.**

  A method that is invoked often enough is queued for compilation, once, unless
  its standard slot is compiled already.  What the compiler then reports ends
  the wait, whatever it reports.
-/
import JitCache.Cache.Lifecycle

namespace JitCache

/-- A report of the compiler. -/
inductive CompilerReport where
  /-- The code of a method slot is finished. -/
  | finished (method : MethodId) (artifact : Artifact) (slot : Slot)
  /-- The compiler gave up on a method. -/
  | gaveUp (method : MethodId) (reason : String)

/-- The method a report is about. -/
def CompilerReport.method : CompilerReport → MethodId
  | finished method _ _ => method
  | gaveUp method _ => method

namespace Cache

/-- Queues a method for compilation. -/
def queue (cache : Cache) (method : MethodId) : Cache := cache.setQueued method true

/-- Notes that the compilation of a method failed, which ends its wait.  A method
without a record does not get one for that. -/
def compileFailed (cache : Cache) (method : MethodId) : Cache :=
  let cache := if cache.hasRecord method then cache.setQueued method false else cache
  { cache with
    metrics := { cache.metrics with compileFailures := cache.metrics.compileFailures + 1 } }

/-- Counts an invocation of a method by the interpreter.  Answers whether this
invocation queued the method. -/
def invoke (cache : Cache) (method : MethodId) : Bool × Cache :=
  let ordinal := cache.invocations.ordinal method
  let cache := { cache with invocations := cache.invocations.increment method }
  if ordinal < cache.settings.compileThreshold then (false, cache)
  -- hot, but somebody is or has been at it
  else if (cache.status method).queued ∨ (cache.entrant? method .standard).isSome then (false, cache)
  else (true, cache.queue method)

/-- Acts on a report of the compiler.  An artifact that cannot be installed
counts as a failed compilation.  Answers with the blob installed, if any. -/
def handle (cache : Cache) : CompilerReport → Option BlobId × Cache
  | .finished method artifact slot =>
    match cache.install method artifact slot with
    | (.ok id, cache) => (some id, cache)
    | (.error _, cache) => (none, cache.compileFailed method)
  | .gaveUp method _ => (none, cache.compileFailed method)

end Cache

end JitCache
