/-
  JitCache.CacheError
  ───────────────────
  **Why an operation is refused.**

  Every refusal is a value that names its cause.  The wording of all messages
  is here, in `SettingsFault.message`, `Violation.message` and
  `CacheError.message`.  Only one cause is *about room*: a caller may try
  another region after `regionFull`, and after no other.

  An operation that can be refused answers with an `AttemptOn` its state: the
  outcome together with the state afterwards, because it may be refused when
  part of its work is done.
-/
import JitCache.Id
import JitCache.Level
import JitCache.Slot

namespace JitCache

/-- What is wrong with settings, or with a number that stands for a level. -/
inductive SettingsFault where
  /-- A method region would hold nothing. -/
  | noMethodRoom
  /-- Methods would be queued before their first invocation. -/
  | zeroThreshold
  /-- The free list would never be looked at. -/
  | zeroProbes
  /-- More than the whole of a region. -/
  | percentTooLarge (percent : UInt8)
  /-- A number that no level has. -/
  | unknownLevel (rank : Nat)
  /-- The text is not a settings document: it is malformed, or a value has the
  wrong type or does not fit. -/
  | unreadable
  deriving DecidableEq

/-- A disagreement between the books of the cache. -/
inductive Violation where
  /-- A blob was to be placed in a region that holds it already. -/
  | alreadyResident (blob : BlobId) (region : RegionKind)
  /-- A region's count of used bytes is not the sum over its residents. -/
  | usedDiffers (region : RegionKind) (used sum : Nat)
  /-- A resident that the blob table does not know. -/
  | unregistered (blob : BlobId) (region : RegionKind)
  /-- A resident whose blob is placed elsewhere or has another size. -/
  | misplaced (blob : BlobId) (region : RegionKind)
  /-- Not every registered blob is resident. -/
  | countsDiffer (registered resident : Nat)
  deriving DecidableEq

/-- The cause of a refusal. -/
inductive CacheError where
  /-- The slot holds no entrant blob. -/
  | noEntrantBlob (method : MethodId) (slot : Slot)
  /-- The region has no room. -/
  | regionFull (region : RegionKind) (requested available : Nat)
  /-- The blob is not there, or no longer. -/
  | unknownBlob (blob : BlobId)
  /-- The slot already holds code of a higher level. -/
  | downgrade (method : MethodId) (slot : Slot) (current requested : Level)
  /-- Code cannot have this level. -/
  | uncompiledLevel (level : Level)
  /-- The settings are not usable. -/
  | badSettings (fault : SettingsFault)
  /-- The books of the cache disagree. -/
  | inconsistent (violation : Violation)
  deriving DecidableEq

/-- The wording of a settings fault. -/
def SettingsFault.message : SettingsFault → String
  | noMethodRoom => "method region capacities must be > 0"
  | zeroThreshold => "compile_threshold must be > 0"
  | zeroProbes => "max_fit_probes must be > 0"
  | percentTooLarge percent =>
    "consolidation_occupancy_percent must be in [0, 100], got " ++ toString percent.toNat
  | unknownLevel rank => "unknown compilation level " ++ toString rank
  | unreadable => "not a settings document"

/-- The wording of a violation. -/
def Violation.message : Violation → String
  | alreadyResident blob region =>
    blob.text ++ " is already resident in the " ++ region.name ++ " region"
  | usedDiffers region used sum =>
    region.name ++ " region reports " ++ toString used ++ " used bytes but residents sum to "
      ++ toString sum
  | unregistered blob region =>
    blob.text ++ " is resident in the " ++ region.name ++ " region but not registered"
  | misplaced blob region =>
    blob.text ++ " placement disagrees with the " ++ region.name ++ " region"
  | countsDiffer registered resident =>
    toString registered ++ " registered blobs but " ++ toString resident ++ " resident"

namespace CacheError

/-- The wording of a refusal. -/
def message : CacheError → String
  | noEntrantBlob method slot => method.text ++ " has no entrant " ++ slot.name ++ " blob"
  | regionFull region requested available =>
    region.name ++ " region cannot fit " ++ toString requested ++ " bytes ("
      ++ toString available ++ " bytes free)"
  | unknownBlob blob => "invalid blob reference: " ++ blob.text
  | downgrade method slot current requested =>
    "cannot install level " ++ requested.text ++ " over level " ++ current.text ++ " in "
      ++ slot.name ++ " slot of " ++ method.text
  | uncompiledLevel level => "invalid compilation level for an artifact: " ++ level.text
  | badSettings fault => "invalid configuration: " ++ fault.message
  | inconsistent violation => "invariant violated: " ++ violation.message

/-- Whether another region might still have room. -/
def mayFitElsewhere : CacheError → Bool
  | regionFull .. => true
  | _ => false

theorem mayFitElsewhere_iff {error : CacheError} :
    error.mayFitElsewhere = true ↔
      ∃ region requested available, error = regionFull region requested available := by
  cases error <;> simp [mayFitElsewhere]

end CacheError

/-- The outcome of an operation on a state and the state it leaves behind. -/
abbrev AttemptOn (State α : Type) := Except CacheError α × State

/-- The level of a number, refused when there is none. -/
def Level.read (rank : Nat) : Except CacheError Level :=
  match Level.ofRank? rank with
  | some level => .ok level
  | none => .error (.badSettings (.unknownLevel rank))

end JitCache
