/-
  JitCache.Region.Basic
  ─────────────────────
  **A region: an arena, its residents and its books.**

  A region places blobs in its arena and remembers, for each resident, the span
  and the exact size.  `used` counts the exact sizes, not the span lengths.
  Both operations check everything before they change anything.

    reserve — places a blob that is not yet resident
    release — gives up a resident's span

  Main statements:
    `reserve_eq_error_iff`, `release_eq_error_iff`
      — when, and why, each refuses; the region is then as it was
    `get?_residents_reserve`, `get?_residents_release` — who is resident afterwards
-/
import JitCache.CacheError
import JitCache.Region.Arena
import JitCache.Table.Lemmas

namespace JitCache

/-- Where a blob is placed. -/
structure Placement where
  region : RegionKind
  span : Span
  deriving DecidableEq, Inhabited

/-- What a region knows of a blob it holds. -/
structure Resident where
  span : Span
  /-- The exact size of the code. -/
  size : Nat
  deriving DecidableEq

/-- One region of code space. -/
structure Region where
  kind : RegionKind
  /-- The bytes of its code space. -/
  capacity : UInt64
  /-- How many free spans an allocation looks at. -/
  probes : Nat
  /-- The sizes of all residents, summed. -/
  used : Nat := 0
  arena : Arena := {}
  residents : Table BlobId Resident := ∅
  deriving DecidableEq

/-- The books of a region at a glance. -/
structure RegionBooks where
  region : RegionKind
  usedBytes : Nat
  capacityBytes : Nat
  residentCount : Nat
  deriving DecidableEq

namespace Region

/-- A region without residents.  At least one free span is always looked at. -/
def new (kind : RegionKind) (capacity maxFitProbes : UInt64) : Region :=
  { kind, capacity, probes := max maxFitProbes.toNat 1 }

/-- The bytes not counted as used. -/
def available (region : Region) : Nat := region.capacity.toNat - region.used

/-- How many blobs are resident. -/
def residentCount (region : Region) : Nat := region.residents.size

/-- The residents with their sizes, ascending by blob. -/
def sizes (region : Region) : List (BlobId × Nat) :=
  region.residents.entries.map fun (blob, resident) => (blob, resident.size)

/-- The sizes of the residents, added up. -/
def residentBytes (region : Region) : Nat := region.residents.total Resident.size

/-- The books of the region at a glance. -/
def books (region : Region) : RegionBooks where
  region := region.kind
  usedBytes := region.used
  capacityBytes := region.capacity.toNat
  residentCount := region.residentCount

/-! ## §1. Reserving and releasing. -/

/-- The span a blob of this size would get, with the arena left over. -/
def place? (region : Region) (size : Nat) : Option (Span × Arena) :=
  if region.available < size then none
  else
    match Span.lengthFor? size with
    | some length => region.arena.take? region.capacity.toNat region.probes length
    | none => none

/-- Places a blob.  Refused if it is resident already, or if there is no room. -/
def reserve (region : Region) (blob : BlobId) (size : Nat) : AttemptOn Region Placement :=
  if region.residents.contains blob then
    (.error (.inconsistent (.alreadyResident blob region.kind)), region)
  else
    match region.place? size with
    | none => (.error (.regionFull region.kind size region.available), region)
    | some (span, arena) =>
      (.ok ⟨region.kind, span⟩,
        { region with
          arena
          used := Word.add region.used size
          residents := region.residents.insert blob ⟨span, size⟩ })

/-- Gives up a resident's span. -/
def release (region : Region) (blob : BlobId) : AttemptOn Region Placement :=
  match region.residents.get? blob with
  | none => (.error (.unknownBlob blob), region)
  | some resident =>
    (.ok ⟨region.kind, resident.span⟩,
      { region with
        arena := region.arena.give resident.span
        used := region.used - resident.size
        residents := region.residents.erase blob })

/-! ## §2. When they refuse. -/

theorem reserve_eq_error_iff {region after : Region} {blob : BlobId} {size : Nat}
    {error : CacheError} :
    region.reserve blob size = (.error error, after) ↔
      ((region.residents.contains blob = true
          ∧ error = .inconsistent (.alreadyResident blob region.kind))
        ∨ (region.residents.contains blob = false ∧ region.place? size = none
          ∧ error = .regionFull region.kind size region.available))
      ∧ after = region := by
  unfold reserve
  split
  · next hres => simp [hres, eq_comm]
  · next hres =>
    split
    · next hplace => simp [hres, hplace, eq_comm]
    · next hplace => simp [hres, hplace]

theorem release_eq_error_iff {region after : Region} {blob : BlobId} {error : CacheError} :
    region.release blob = (.error error, after) ↔
      (region.residents.get? blob = none ∧ error = .unknownBlob blob) ∧ after = region := by
  unfold release
  split
  · next hres => simp [hres, eq_comm]
  · next hres => simp [hres]

/-! ## §3. Who is resident afterwards. -/

theorem get?_residents_reserve {region after : Region} {blob other : BlobId} {size : Nat}
    {placement : Placement} (h : region.reserve blob size = (.ok placement, after)) :
    after.residents.get? other
      = if blob = other then some ⟨placement.span, size⟩ else region.residents.get? other := by
  unfold reserve at h
  split at h
  · cases h
  · split at h
    · cases h
    · cases h
      exact Table.get?_insert ..

theorem get?_residents_release {region after : Region} {blob other : BlobId}
    {placement : Placement} (h : region.release blob = (.ok placement, after)) :
    after.residents.get? other = if blob = other then none else region.residents.get? other := by
  unfold release at h
  split at h
  · cases h
  · cases h
    exact Table.get?_erase ..

end Region

end JitCache
