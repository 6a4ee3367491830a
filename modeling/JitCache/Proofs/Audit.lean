/-
  JitCache.Proofs.Audit
  ─────────────────────
  **The audit passes exactly if the books agree.**

  The audit looks each resident up in the register and compares two counts.  It
  never asks whether a registered blob is resident, nor whether a blob is
  resident twice.  Yet it catches both: what it has looked up makes the
  residents of each region a part of what the register has there, and if the
  counts are equal besides, no part can be smaller than its whole.  So it can be
  trusted in any state, also when regions were called behind the cache's back.

  Main statements:
    `audit_eq_ok_iff`     — what the audit checks
    `Listed.matches_iff`  — why two counts are enough
    `audit_decides`       — after every session, whatever was called
-/
import JitCache.Cache.Audit
import JitCache.Proofs.Session.Sound
import JitCache.Proofs.Space.Packing

namespace JitCache

/-- The size that the region of a kind should have noted for a blob. -/
def Blob.sizeIn (kind : RegionKind) (blob : Blob) : Option Nat :=
  if blob.region = kind then some blob.size else none

namespace Cache

/-- The map from each registered blob to its region and size is what the regions list. -/
def ListingsCoincide (cache : Cache) : Prop :=
  ∀ id kind size,
    (∃ blob, cache.registered.get? id = some blob ∧ blob.region = kind ∧ blob.size = size)
      ↔ ∃ resident, (cache.regions.get kind).residents.get? id = some resident
          ∧ resident.size = size

/-- Every resident is a registered blob of the region, with the size that is noted. -/
def Listed (cache : Cache) : Prop :=
  ∀ kind id resident, (cache.regions.get kind).residents.get? id = some resident →
    ∃ blob, cache.registered.get? id = some blob ∧ blob.region = kind ∧ blob.size = resident.size

/-- Register and regions agree, blob by blob. -/
structure RegisterMatches (cache : Cache) : Prop where
  listed : cache.Listed
  /-- Nobody is resident in two regions. -/
  once : ∀ id first second, (cache.regions.get first).residents.contains id = true →
    (cache.regions.get second).residents.contains id = true → first = second
  /-- Every registered blob is resident in the region of its placement. -/
  resident : ∀ id blob, cache.registered.get? id = some blob →
    (cache.regions.get blob.region).residents.contains id = true

variable {cache : Cache}

theorem listingsCoincide_iff : cache.ListingsCoincide ↔ cache.RegisterMatches := by
  constructor
  · intro h
    have hlisted : cache.Listed := fun kind id resident hget =>
      (h id kind resident.size).mpr ⟨resident, hget, rfl⟩
    refine ⟨hlisted, ?_, ?_⟩
    · intro id first second hfirst hsecond
      obtain ⟨resident, hget⟩ := Table.contains_iff.mp hfirst
      obtain ⟨other, hother⟩ := Table.contains_iff.mp hsecond
      -- the blob is registered once only, so for one region only
      obtain ⟨blob, hblob, rfl, -⟩ := hlisted _ _ _ hget
      obtain ⟨same, hsame, rfl, -⟩ := hlisted _ _ _ hother
      rw [Option.some.inj (hblob.symm.trans hsame)]
    · intro id blob hblob
      obtain ⟨resident, hget, -⟩ := (h id blob.region blob.size).mp ⟨blob, hblob, rfl, rfl⟩
      exact Table.contains_iff.mpr ⟨resident, hget⟩
  · intro h id kind size
    constructor
    · rintro ⟨blob, hblob, rfl, rfl⟩
      obtain ⟨resident, hget⟩ := Table.contains_iff.mp (h.resident id blob hblob)
      obtain ⟨same, hsame, -, hsize⟩ := h.listed _ _ _ hget
      rw [← Option.some.inj (hblob.symm.trans hsame)] at hsize
      exact ⟨resident, hget, hsize.symm⟩
    · rintro ⟨resident, hget, rfl⟩
      exact h.listed _ _ _ hget

/-! ## §1. What the audit checks. -/

theorem strangeResident?_eq_none_iff {kind : RegionKind} {sizes : List (BlobId × Nat)} :
    cache.strangeResident? kind sizes = none ↔
      ∀ entry ∈ sizes, ∃ blob, cache.registered.get? entry.1 = some blob
        ∧ blob.region = kind ∧ blob.size = entry.2 := by
  -- the audit looks at one listed resident after the other
  induction sizes with
  | nil => simp [strangeResident?]
  | cons entry rest ih =>
    obtain ⟨id, size⟩ := entry
    rw [strangeResident?, List.forall_mem_cons, ← ih]
    cases hget : cache.registered.get? id with
    | none => simp
    | some blob =>
      by_cases hplaced : blob.region = kind ∧ blob.size = size
      · simp [hplaced]
      · simp only [hplaced, if_false, reduceCtorEq, false_iff, not_and]
        rintro ⟨same, hsame, hregion, hsize⟩
        rw [← Option.some.inj hsame] at hregion hsize
        exact absurd ⟨hregion, hsize⟩ hplaced

/-- In a sound region the used bytes are never what the audit objects to. -/
theorem regionViolation?_eq_none_iff (hregions : cache.regions.Sound) (kind : RegionKind) :
    cache.regionViolation? (cache.regions.get kind) = none ↔
      ∀ id resident, (cache.regions.get kind).residents.get? id = some resident →
        ∃ blob, cache.registered.get? id = some blob ∧ blob.region = kind
          ∧ blob.size = resident.size := by
  rw [regionViolation?, if_pos (hregions.region kind).used_eq.symm, hregions.kind kind,
    strangeResident?_eq_none_iff]
  constructor
  · intro h id resident hget
    have hlisted := Table.mem_entries_iff.mpr hget
    exact h (id, resident.size) (List.mem_map.mpr ⟨(id, resident), hlisted, rfl⟩)
  · intro h entry hentry
    obtain ⟨⟨id, resident⟩, hlisted, rfl⟩ := List.mem_map.mp hentry
    exact h id resident (Table.mem_entries_iff.mp hlisted)

/-- The audit passes if the residents are found in the register, and there are as many of them
as there are registered blobs. -/
theorem audit_eq_ok_iff (hregions : cache.regions.Sound) :
    cache.audit = .ok () ↔
      cache.Listed ∧ cache.regions.residentCount = cache.registered.size := by
  have hall : cache.regions.toList.findSome? cache.regionViolation? = none ↔ cache.Listed := by
    rw [List.findSome?_eq_none_iff, Regions.toList, List.forall_mem_map]
    constructor
    · exact fun h kind =>
        (regionViolation?_eq_none_iff hregions kind).mp (h kind (RegionKind.mem_all kind))
    · exact fun h kind _ => (regionViolation?_eq_none_iff hregions kind).mpr (h kind)
  rw [← hall]
  unfold audit violation?
  cases cache.regions.toList.findSome? cache.regionViolation? with
  | some violation => simp
  | none =>
    by_cases hcount : cache.regions.residentCount = cache.registered.size
    · simp [hcount]
    · simp [hcount]

/-- An audit that does not pass reports an inconsistency. -/
theorem exists_violation_of_audit (h : cache.audit ≠ .ok ()) :
    ∃ violation, cache.audit = .error (.inconsistent violation) := by
  unfold audit at h ⊢
  cases hviolation : cache.violation? with
  | none =>
    rw [hviolation] at h
    exact absurd rfl h
  | some violation => exact ⟨violation, rfl⟩

/-! ## §2. Why two counts are enough. -/

/-- What the register has in a region. -/
def registeredIn (cache : Cache) (kind : RegionKind) : Table BlobId Nat :=
  cache.registered.filterMap (Blob.sizeIn kind)

theorem contains_registeredIn_iff {kind : RegionKind} {id : BlobId} :
    (cache.registeredIn kind).contains id = true ↔
      ∃ blob, cache.registered.get? id = some blob ∧ blob.region = kind := by
  rw [Table.contains_iff, registeredIn, Table.get?_filterMap]
  unfold Blob.sizeIn
  constructor
  · rintro ⟨size, hget⟩
    obtain ⟨blob, hblob, hsize⟩ := Option.bind_eq_some_iff.mp hget
    split at hsize
    · next hregion => exact ⟨blob, hblob, hregion⟩
    · cases hsize
  · rintro ⟨blob, hblob, hregion⟩
    exact ⟨blob.size, by rw [hblob, Option.bind_some, if_pos hregion]⟩

/-- Each registered blob is counted in one region. -/
theorem size_registered (cache : Cache) :
    (cache.registeredIn .profiled).size + (cache.registeredIn .nonProfiled).size
      + (cache.registeredIn .nonMethod).size = cache.registered.size := by
  rw [registeredIn, registeredIn, registeredIn, Table.size_filterMap, Table.size_filterMap,
    Table.size_filterMap, Table.total_add, Table.total_add, Table.size_eq_total]
  congr 1
  funext blob
  unfold Blob.sizeIn
  cases blob.region <;> rfl

theorem residentCount_eq (cache : Cache) :
    cache.regions.residentCount
      = (cache.regions.get .profiled).residents.size
        + (cache.regions.get .nonProfiled).residents.size
        + (cache.regions.get .nonMethod).residents.size := rfl

/-- Who is resident in a region is among those whom the register has there. -/
theorem Listed.contains_registeredIn (h : cache.Listed) {kind : RegionKind} {id : BlobId}
    (hresident : (cache.regions.get kind).residents.contains id = true) :
    (cache.registeredIn kind).contains id = true := by
  obtain ⟨resident, hget⟩ := Table.contains_iff.mp hresident
  obtain ⟨blob, hblob, hregion, -⟩ := h kind id resident hget
  exact contains_registeredIn_iff.mpr ⟨blob, hblob, hregion⟩

/-- **As many residents as registered blobs leave nobody out.** -/
theorem Listed.matches_iff (h : cache.Listed) :
    cache.RegisterMatches ↔ cache.regions.residentCount = cache.registered.size := by
  have hle : ∀ kind, (cache.regions.get kind).residents.size ≤ (cache.registeredIn kind).size :=
    fun kind => Table.size_le_of_contains fun _ => h.contains_registeredIn
  rw [residentCount_eq, ← size_registered]
  constructor
  · intro hmatches
    have hge : ∀ kind,
        (cache.registeredIn kind).size ≤ (cache.regions.get kind).residents.size := by
      intro kind
      refine Table.size_le_of_contains fun id hin => ?_
      obtain ⟨blob, hblob, rfl⟩ := contains_registeredIn_iff.mp hin
      exact hmatches.resident id blob hblob
    have heq : ∀ kind, (cache.regions.get kind).residents.size = (cache.registeredIn kind).size :=
      fun kind => Nat.le_antisymm (hle kind) (hge kind)
    rw [heq, heq, heq]
  · intro hcount
    -- three parts, none larger than its whole, are together as large: each is its whole
    have heq : ∀ kind,
        (cache.regions.get kind).residents.size = (cache.registeredIn kind).size := by
      have hprofiled := hle .profiled
      have hnonProfiled := hle .nonProfiled
      have hnonMethod := hle .nonMethod
      intro kind
      cases kind <;> omega
    have hresident : ∀ id blob, cache.registered.get? id = some blob →
        (cache.regions.get blob.region).residents.contains id = true := by
      intro id blob hblob
      exact Table.contains_of_size_eq (fun _ => h.contains_registeredIn) (heq blob.region)
        (contains_registeredIn_iff.mpr ⟨blob, hblob, rfl⟩)
    refine ⟨h, ?_, hresident⟩
    intro id first second hfirst hsecond
    obtain ⟨blob, hblob, rfl⟩ := contains_registeredIn_iff.mp (h.contains_registeredIn hfirst)
    obtain ⟨same, hsame, rfl⟩ := contains_registeredIn_iff.mp (h.contains_registeredIn hsecond)
    rw [Option.some.inj (hblob.symm.trans hsame)]

theorem audit_eq_ok_iff_matches (hregions : cache.regions.Sound) :
    cache.audit = .ok () ↔ cache.RegisterMatches := by
  rw [audit_eq_ok_iff hregions]
  constructor
  · rintro ⟨hlisted, hcount⟩
    exact hlisted.matches_iff.mpr hcount
  · intro hmatches
    exact ⟨hmatches.listed, hmatches.listed.matches_iff.mp hmatches⟩

/-! ## §3. What it adds up. -/

/-- The sizes of a region's residents add up to a word. -/
theorem residentBytes_le (hregions : cache.regions.Sound) (kind : RegionKind) :
    (cache.regions.get kind).residentBytes ≤ Word.maxValue := by
  have hused := (hregions.region kind).used_le
  rw [(hregions.region kind).used_eq] at hused
  exact Nat.le_trans hused (Word.toNat_le_maxValue _)

/-- So does the number of residents: each takes a unit of some region. -/
theorem residentCount_le (hregions : cache.regions.Sound) :
    cache.regions.residentCount ≤ Word.maxValue := by
  have hcount : ∀ kind, Span.unit * (cache.regions.get kind).residents.size ≤ Word.maxValue :=
    fun kind => Nat.le_trans (hregions.region kind).unit_mul_residentCount_le
      (Word.toNat_le_maxValue _)
  have hprofiled := hcount .profiled
  have hnonProfiled := hcount .nonProfiled
  have hnonMethod := hcount .nonMethod
  rw [residentCount_eq]
  unfold Span.unit at hprofiled hnonProfiled hnonMethod
  omega

end Cache

open Cache in
/-- **The audit decides whether the books agree**, after every session, also one that calls the
regions directly.  It passes exactly if the regions list the registered blobs with their regions
and sizes; otherwise it reports an inconsistency.  Nothing it adds up leaves the word. -/
theorem audit_decides {settings : Settings} {start : Cache} (hnew : Cache.new settings = .ok start)
    (operations : List Operation) :
    let cache := start.after operations
    (cache.audit = .ok () ↔ cache.ListingsCoincide)
      ∧ (cache.ListingsCoincide ↔ cache.RegisterMatches)
      ∧ (¬ cache.ListingsCoincide → ∃ violation, cache.audit = .error (.inconsistent violation))
      ∧ (∀ kind, (cache.regions.get kind).residentBytes ≤ Word.maxValue)
      ∧ cache.regions.residentCount ≤ Word.maxValue := by
  intro cache
  have hregions : cache.regions.Sound := regions_after hnew operations
  have hpasses : cache.audit = .ok () ↔ cache.ListingsCoincide :=
    (audit_eq_ok_iff_matches hregions).trans listingsCoincide_iff.symm
  refine ⟨hpasses, listingsCoincide_iff, ?_, residentBytes_le hregions, residentCount_le hregions⟩
  intro hdiffer
  exact exists_violation_of_audit (mt hpasses.mp hdiffer)

/-- A blob is made, room is reserved directly for a handle nobody has, and the blob's own room is
released directly. -/
def exchange : List Operation :=
  [.install ⟨1⟩ ⟨.tier4, ⟨#[1, 2, 3]⟩⟩ .standard, .reserveIn .nonMethod ⟨7⟩ 3,
    .releaseIn .nonProfiled ⟨1⟩]

/-- The counts are equal, but not the blobs counted. -/
theorem audit_decides_after_exchange :
    ((Cache.ofSettings {}).after exchange).regions.residentCount
        = ((Cache.ofSettings {}).after exchange).registered.size
      ∧ ((Cache.ofSettings {}).after exchange).audit
        = .error (.inconsistent (.unregistered ⟨7⟩ .nonMethod))
      ∧ ¬ ((Cache.ofSettings {}).after exchange).ListingsCoincide := by
  have hnew : Cache.new {} = .ok (Cache.ofSettings {}) := rfl
  have hpasses := (audit_decides hnew exchange).1
  exact ⟨by decide, by decide, mt hpasses.mpr (by decide)⟩

end JitCache
