/-
  JitCache.Cache.Basic
  ────────────────────
  **The code cache: its parts, and what can be asked of it.**

  A cache consists of the three regions, the status of each method it has heard
  of, the registered blobs, the blobs that were reclaimed (whoever holds on to
  one may still look at it), the next handles to deal out, the invocation counts
  and the metrics.

  A method without a record is in its initial state, so `status` is total; where
  it matters whether there is a record, `hasRecord` tells.  Operations that can
  be refused answer with an `Attempt`: the outcome together with the cache
  afterwards, because a refused operation may leave traces.
-/
import JitCache.Blob
import JitCache.Invocations
import JitCache.MethodStatus
import JitCache.Metrics
import JitCache.Regions

namespace JitCache

/-- A code cache. -/
structure Cache where
  settings : Settings
  regions : Regions
  methods : Table MethodId MethodStatus := ∅
  /-- The blobs that are in use or may still be executed. -/
  registered : Table BlobId Blob := ∅
  /-- The blobs that have been reclaimed. -/
  reclaimed : Table BlobId Blob := ∅
  /-- The handle of the next blob. -/
  nextBlob : BlobId := ⟨1⟩
  /-- The entry address of the next blob. -/
  nextEntry : EntryAddress := .base
  invocations : Invocations := {}
  metrics : Metrics := {}
  deriving DecidableEq

/-- The outcome of an operation and the cache it leaves behind. -/
abbrev Attempt (α : Type) := AttemptOn Cache α

namespace Cache

/-- An empty cache, whatever the settings. -/
def ofSettings (settings : Settings) : Cache where
  settings := settings
  regions := .new settings

/-- An empty cache with usable settings. -/
def new (settings : Settings) : Except CacheError Cache :=
  settings.validate.map ofSettings

instance : Inhabited Cache := ⟨ofSettings {}⟩

/-! ## §1. Blobs. -/

/-- A registered blob. -/
def find (cache : Cache) (id : BlobId) : Except CacheError Blob :=
  match cache.registered.get? id with
  | some blob => .ok blob
  | none => .error (.unknownBlob id)

/-- A blob that is registered or was reclaimed: what a holder of its handle sees. -/
def held? (cache : Cache) (id : BlobId) : Option Blob :=
  (cache.registered.get? id).or (cache.reclaimed.get? id)

/-- Changes a blob, be it registered or reclaimed: whoever holds on to it sees the change. -/
def modifyHeld (cache : Cache) (id : BlobId) (change : Blob → Blob) : Cache :=
  { cache with
    registered := cache.registered.modify id change
    reclaimed := cache.reclaimed.modify id change }

/-- The registered blobs at one stage of life, ascending. -/
def atStage (cache : Cache) (liveness : Liveness) : List Blob :=
  cache.registered.values.filter fun blob => blob.liveness = liveness

/-! ## §2. Methods and slots. -/

/-- The status of a method. -/
def status (cache : Cache) (method : MethodId) : MethodStatus :=
  (cache.methods.get? method).getD {}

/-- Replaces the status of a method. -/
def setStatus (cache : Cache) (method : MethodId) (status : MethodStatus) : Cache :=
  { cache with methods := cache.methods.insert method status }

/-- Whether there is a record of a method. -/
def hasRecord (cache : Cache) (method : MethodId) : Bool := cache.methods.contains method

/-- Makes sure that there is a record of a method. -/
def ensureRecord (cache : Cache) (method : MethodId) : Cache :=
  cache.setStatus method (cache.status method)

/-- The blob that calls of the slot enter: a slot holds on to its blob, registered or not. -/
def entrant? (cache : Cache) (method : MethodId) (slot : Slot) : Option Blob :=
  (((cache.status method).occupant? slot).bind cache.held?).filter Blob.isEntrant

/-- The same, refused where calls enter nothing. -/
def entrant (cache : Cache) (method : MethodId) (slot : Slot) : Except CacheError Blob :=
  match cache.entrant? method slot with
  | some blob => .ok blob
  | none => .error (.noEntrantBlob method slot)

/-- The level of a slot. -/
def level (cache : Cache) (method : MethodId) (slot : Slot) : Level :=
  ((cache.entrant? method slot).map Blob.level).getD .interpreted

/-- What is reported of a slot. -/
def slotState (cache : Cache) (method : MethodId) (slot : Slot) : SlotState where
  queued := (cache.status method).queued
  compiled := (cache.entrant? method slot).isSome
  level := cache.level method slot

/-! ## §3. Regions and metrics. -/

/-- The region of a kind. -/
def region (cache : Cache) (kind : RegionKind) : Region := cache.regions.get kind

/-- Lets all counters start over. -/
def resetMetrics (cache : Cache) : Cache := { cache with metrics := {} }

/-! ## §4. How the questions hang together. -/

theorem status_setStatus (cache : Cache) (method other : MethodId) (status : MethodStatus) :
    (cache.setStatus method status).status other
      = if method = other then status else cache.status other := by
  unfold setStatus Cache.status
  rw [Table.get?_insert]
  split <;> rfl

theorem hasRecord_setStatus {cache : Cache} {method other : MethodId} (status : MethodStatus) :
    (cache.setStatus method status).hasRecord other = true
      ↔ method = other ∨ cache.hasRecord other = true := by
  unfold setStatus hasRecord Table.contains
  rw [Table.get?_insert]
  split
  · next heq => simp [heq]
  · next hne => simp [hne]

@[simp] theorem status_ensureRecord (cache : Cache) (method other : MethodId) :
    (cache.ensureRecord method).status other = cache.status other := by
  unfold ensureRecord
  rw [status_setStatus]
  split
  · next heq => rw [heq]
  · rfl

/-- A record that exists stays as it is. -/
theorem ensureRecord_of_hasRecord {cache : Cache} {method : MethodId}
    (h : cache.hasRecord method = true) : cache.ensureRecord method = cache := by
  obtain ⟨record, hrecord⟩ := Table.contains_iff.mp h
  have hmethods : cache.methods.insert method (cache.status method) = cache.methods := by
    apply Table.ext
    intro other
    rw [Table.get?_insert]
    split
    · next heq =>
      rw [← heq, hrecord, status, hrecord, Option.getD_some]
    · rfl
  unfold ensureRecord setStatus
  rw [hmethods]

/-- A method without a record has nothing in its slots. -/
theorem hasRecord_of_occupant? {cache : Cache} {method : MethodId} {slot : Slot} {id : BlobId}
    (h : (cache.status method).occupant? slot = some id) : cache.hasRecord method = true := by
  unfold status at h
  cases hrecord : cache.methods.get? method with
  | some record => exact Table.contains_iff.mpr ⟨record, hrecord⟩
  | none =>
    rw [hrecord] at h
    cases slot <;> cases h

/-- Looking for what calls of a slot enter finds just that. -/
theorem entrant_eq_ok_iff {cache : Cache} {method : MethodId} {slot : Slot} {blob : Blob} :
    cache.entrant method slot = .ok blob ↔ cache.entrant? method slot = some blob := by
  unfold entrant
  cases cache.entrant? method slot <;> simp

/-- Calls of a slot enter a blob exactly if looking for it is not refused. -/
theorem isSome_entrant?_iff {cache : Cache} {method : MethodId} {slot : Slot} :
    (cache.entrant? method slot).isSome ↔ ∃ blob, cache.entrant method slot = .ok blob := by
  unfold entrant
  cases cache.entrant? method slot <;> simp

end Cache

end JitCache
