/-
  JitCache.Regions
  ────────────────
  **The three regions of one cache.**

  One region of each kind, read with `get` and replaced with `set`, and the two
  operations that involve more than one of them: placing a blob in the first of
  several regions that has room, and carrying a blob's bytes from one region to
  another.  Whatever a region answers, it is put back as the call has left it.

  Main statements:
    `get_set_same`, `get_set_of_ne` — replacing a region touches no other
    `firstFit_cons`                 — how the search goes on after a refusal
    `firstFit_error`, `transfer_error`
      — a refusal leaves the regions as they were
-/
import JitCache.Region.Fullness
import JitCache.Settings

namespace JitCache

/-- One region of each kind. -/
structure Regions where
  profiled : Region
  nonProfiled : Region
  nonMethod : Region
  deriving DecidableEq

namespace Regions

/-- Empty regions with the configured capacities. -/
def new (settings : Settings) : Regions where
  profiled := .new .profiled settings.profiledCapacity settings.maxFitProbes
  nonProfiled := .new .nonProfiled settings.nonProfiledCapacity settings.maxFitProbes
  nonMethod := .new .nonMethod settings.nonMethodCapacity settings.maxFitProbes

/-- The region of a kind. -/
def get (regions : Regions) : RegionKind → Region
  | .profiled => regions.profiled
  | .nonProfiled => regions.nonProfiled
  | .nonMethod => regions.nonMethod

/-- Puts another region in place of the one of a kind. -/
def set (regions : Regions) (kind : RegionKind) (region : Region) : Regions :=
  match kind with
  | .profiled => { regions with profiled := region }
  | .nonProfiled => { regions with nonProfiled := region }
  | .nonMethod => { regions with nonMethod := region }

/-- The regions in order. -/
def toList (regions : Regions) : List Region := RegionKind.all.map regions.get

/-- How many blobs are resident, all regions together. -/
def residentCount (regions : Regions) : Nat :=
  regions.profiled.residentCount + regions.nonProfiled.residentCount + regions.nonMethod.residentCount

@[simp] theorem get_set_same (regions : Regions) (kind : RegionKind) (region : Region) :
    (regions.set kind region).get kind = region := by
  cases kind <;> rfl

theorem get_set_of_ne (regions : Regions) {kind other : RegionKind} (region : Region)
    (h : kind ≠ other) : (regions.set kind region).get other = regions.get other := by
  cases kind <;> cases other <;> simp_all [get, set]

@[simp] theorem set_get (regions : Regions) (kind : RegionKind) :
    regions.set kind (regions.get kind) = regions := by
  cases kind <;> rfl

theorem ext_get {a b : Regions} (h : ∀ kind, a.get kind = b.get kind) : a = b := by
  have hp := h .profiled
  have hn := h .nonProfiled
  have hm := h .nonMethod
  cases a
  cases b
  simp_all [get]

/-! ## Operations on several regions. -/

/-- Places a blob in the first of the given regions that has room.  If none
has, the last refusal stands, `refusal` when there was no region to ask.  A
refusal for another reason than room ends the search. -/
def firstFit (regions : Regions) (blob : BlobId) (size : Nat) (refusal : CacheError) :
    List RegionKind → AttemptOn Regions Placement
  | [] => (.error refusal, regions)
  | kind :: rest =>
    match (regions.get kind).reserve blob size with
    | (.ok placement, region) => (.ok placement, regions.set kind region)
    | (.error error, region) =>
      let regions := regions.set kind region
      if error.mayFitElsewhere then firstFit regions blob size error rest
      else (.error error, regions)

/-- Carries a resident's bytes from one region to another; within one region
there is nothing to do, and the given placement stands. -/
def transfer (regions : Regions) (source target : RegionKind) (blob : BlobId) (size : Nat)
    (current : Placement) : AttemptOn Regions Placement :=
  if source = target then (.ok current, regions)
  else if (regions.get source).residents.contains blob then
    -- the new room is reserved before the old is given up
    match (regions.get target).reserve blob size with
    | (.error error, region) => (.error error, regions.set target region)
    | (.ok placement, region) =>
      let regions := regions.set target region
      match (regions.get source).release blob with
      | (.error error, region) => (.error error, regions.set source region)
      | (.ok _, region) => (.ok placement, regions.set source region)
  else (.error (.unknownBlob blob), regions)

/-! ## Refusals. -/

variable {regions after : Regions} {source target kind : RegionKind} {blob : BlobId} {size : Nat}
  {error : CacheError}

/-- A region that has refused is put back as it was. -/
theorem set_of_reserve_error {region : Region}
    (h : (regions.get kind).reserve blob size = (.error error, region)) :
    regions.set kind region = regions := by
  rw [(Region.reserve_eq_error_iff.mp h).2, set_get]

theorem set_of_release_error {region : Region}
    (h : (regions.get kind).release blob = (.error error, region)) :
    regions.set kind region = regions := by
  rw [(Region.release_eq_error_iff.mp h).2, set_get]

theorem firstFit_cons (regions : Regions) (blob : BlobId) (size : Nat) (refusal : CacheError)
    (kind : RegionKind) (rest : List RegionKind) :
    regions.firstFit blob size refusal (kind :: rest)
      = match (regions.get kind).reserve blob size with
        | (.ok placement, region) => (.ok placement, regions.set kind region)
        | (.error error, _) =>
          if error.mayFitElsewhere then regions.firstFit blob size error rest
          else (.error error, regions) := by
  rw [firstFit]
  split
  · rfl
  · next hrefused =>
    simp only [set_of_reserve_error hrefused]

/-- A search without success leaves the regions as they were. -/
theorem firstFit_error {refusal : CacheError} {kinds : List RegionKind}
    (h : regions.firstFit blob size refusal kinds = (.error error, after)) : after = regions := by
  induction kinds generalizing refusal with
  | nil =>
    cases h
    rfl
  | cons kind rest ih =>
    rw [firstFit_cons] at h
    split at h
    · cases h
    · split at h
      · exact ih h
      · cases h
        rfl

/-- **A refused transfer leaves the regions as they were.**  Once the target has reserved, the source
is known to hold the blob, and is as it was: it does not refuse to release. -/
theorem transfer_error {current : Placement}
    (h : regions.transfer source target blob size current = (.error error, after)) :
    after = regions := by
  unfold transfer at h
  split at h
  · cases h
  · next hne =>
    split at h
    · next hresident =>
      split at h
      · next hrefused =>
        cases h
        exact set_of_reserve_error hrefused
      · next placement targetAfter hreserved =>
        simp only [get_set_of_ne regions targetAfter (Ne.symm hne)] at h
        split at h
        · next hrefused =>
          obtain ⟨⟨hgone, -⟩, -⟩ := Region.release_eq_error_iff.mp hrefused
          rw [Table.contains_eq_false_iff.mpr hgone] at hresident
          cases hresident
        · cases h
    · cases h
      rfl

end Regions

end JitCache
