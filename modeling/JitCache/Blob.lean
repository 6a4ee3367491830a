/-
  JitCache.Blob
  ─────────────
  **Compiled code and its way through life.**

  A blob is the machine code of one method at one level, with what the cache
  needs to dispatch to it and to reclaim it.  Only its liveness and its
  placement ever change.  Liveness goes forward one stage at a time:

    entrant → non-entrant → zombie

  New calls enter an entrant blob; frames may still be executing a non-entrant
  one; nothing executes a zombie.
-/
import JitCache.Region.Basic

namespace JitCache

/-- How far a blob is on its way out. -/
inductive Liveness where
  /-- New calls of the method enter here. -/
  | entrant
  /-- No new calls enter; frames may still execute the code. -/
  | nonEntrant
  /-- No frame executes the code; it waits to be reclaimed. -/
  | zombie
  deriving DecidableEq, Inhabited

namespace Liveness

/-- The stages in order. -/
def stage : Liveness → Nat
  | entrant => 0
  | nonEntrant => 1
  | zombie => 2

/-- The name of a stage. -/
def name : Liveness → String
  | entrant => "entrant"
  | nonEntrant => "non-entrant"
  | zombie => "zombie"

/-- Closes an entrant blob to new calls; other stages stay. -/
def close : Liveness → Liveness
  | entrant => nonEntrant
  | other => other

/-- Gives up a non-entrant blob; other stages stay. -/
def giveUp : Liveness → Liveness
  | nonEntrant => zombie
  | other => other

end Liveness

/-- Equality of code is decided on its bytes. -/
local instance (priority := 2000) decidableEqCode : DecidableEq ByteArray :=
  fun left right =>
    decidable_of_iff (left.data = right.data) ByteArray.ext_iff.symm

/-- What a compiler delivers: code, and the level it was compiled at. -/
structure Artifact where
  level : Level
  code : ByteArray
  deriving DecidableEq

/-- Machine code with the facts the cache keeps about it. -/
structure Blob where
  id : BlobId
  method : MethodId
  entry : EntryAddress
  slot : Slot
  level : Level
  code : ByteArray
  liveness : Liveness := .entrant
  placement : Placement
  deriving DecidableEq

namespace Blob

/-- The bytes of code. -/
def size (blob : Blob) : Nat := blob.code.size

/-- The region the blob is placed in. -/
def region (blob : Blob) : RegionKind := blob.placement.region

/-- Whether new calls enter the blob. -/
def isEntrant (blob : Blob) : Bool := blob.liveness = .entrant

/-- Closes the blob to new calls. -/
def close (blob : Blob) : Blob :=
  { blob with liveness := blob.liveness.close }

/-- Gives the blob up for reclamation. -/
def giveUp (blob : Blob) : Blob :=
  { blob with liveness := blob.liveness.giveUp }

end Blob

end JitCache
