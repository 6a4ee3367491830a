/-
  JitCache.Proofs.Selection
  ─────────────────────────
  **New code goes to the first region of its order that has room.**

  Installing asks the method region that the level prefers, then the other one;
  replacing first asks for a method region other than that of the code it
  replaces, or one region only if that was asked for by name.  Either may go on
  to the non-method region if the settings say so.  What matters is where the
  blob ends up: a region is *fitting* if it would take in a blob of the size
  under a handle nobody has, and the new blob is placed in the first fitting
  region of the order, where that region on its own would have placed it.  The
  regions asked in vain are as they were.

  Main statements:
    `installOrder_eq`, `replacementOrder_eq` — the orders, each region once
    `firstFit_of_fits`, `firstFit_of_full`   — where the search ends
    `Consistent.selects`                     — one search for room, whatever it is for
    `regions_are_selected_in_order`          — installing and replacing, after every session
-/
import JitCache.Proofs.Collection.Reclaiming

namespace JitCache

/-! ## §1. The orders. -/

/-- The method regions, that of the level first. -/
def Level.methodRegions : Level → List RegionKind
  | .tier2 | .tier3 => [.profiled, .nonProfiled]
  | .tier1 | .tier4 | .interpreted => [.nonProfiled, .profiled]

namespace Settings

/-- The non-method region, if method code may fall back on it. -/
def fallback (settings : Settings) : List RegionKind :=
  if settings.allowNonMethodFallback then [.nonMethod] else []

/-- Where new code of a level may go, best first. -/
def whereToInstall (settings : Settings) (level : Level) : List RegionKind :=
  level.methodRegions ++ settings.fallback

/-- Where code of a level may go in place of code in `current`, best first: to another method
region, to the same region, or to the one to fall back on. -/
def whereToReplace (settings : Settings) (current : RegionKind) (level : Level) :
    List RegionKind :=
  (level.methodRegions.filter (· ≠ current) ++ [current] ++ settings.fallback).eraseDups

/-- Where a replacement may go: only to the region that was asked for, if one was. -/
def whereAsked (settings : Settings) (asked : Option RegionKind) (current : RegionKind)
    (level : Level) : List RegionKind :=
  match asked with
  | some region => [region]
  | none => settings.whereToReplace current level

theorem installOrder_eq (settings : Settings) (level : Level) :
    settings.installOrder level = settings.whereToInstall level := by
  unfold installOrder whereToInstall spillRegion fallback
  cases level <;> rfl

theorem replacementOrder_eq (settings : Settings) (current : RegionKind) (level : Level) :
    settings.replacementOrder current level = settings.whereToReplace current level := by
  unfold replacementOrder whereToReplace spillRegion fallback
  cases settings.allowNonMethodFallback <;> cases level <;> cases current <;> rfl

theorem nodup_whereToInstall (settings : Settings) (level : Level) :
    (settings.whereToInstall level).Nodup := by
  unfold whereToInstall fallback
  cases settings.allowNonMethodFallback <;> cases level <;> decide

theorem nodup_whereAsked (settings : Settings) (asked : Option RegionKind) (current : RegionKind)
    (level : Level) : (settings.whereAsked asked current level).Nodup := by
  unfold whereAsked whereToReplace fallback
  cases asked with
  | some region => exact List.nodup_singleton region
  | none => cases settings.allowNonMethodFallback <;> cases level <;> cases current <;> decide

theorem whereAsked_ne_nil (settings : Settings) (asked : Option RegionKind) (current : RegionKind)
    (level : Level) : settings.whereAsked asked current level ≠ [] := by
  unfold whereAsked whereToReplace fallback
  cases asked with
  | some region => exact List.cons_ne_nil _ _
  | none => cases settings.allowNonMethodFallback <;> cases level <;> cases current <;> decide

end Settings

theorem Cache.replacementRegions_eq (cache : Cache) (asked : Option RegionKind)
    (current : RegionKind) (level : Level) :
    cache.replacementRegions asked current level
      = cache.settings.whereAsked asked current level := by
  unfold Cache.replacementRegions Settings.whereAsked
  cases asked with
  | some region => rfl
  | none => exact cache.settings.replacementOrder_eq current level

/-! ## §2. Where a search ends. -/

namespace Region

variable {region after : Region} {blob other : BlobId} {size : Nat} {placement : Placement}

/-- Where a blob is placed does not depend on who it is. -/
theorem reserve_of_reserve (hres : region.reserve blob size = (.ok placement, after))
    (hnone : region.residents.get? other = none) :
    ∃ alone, region.reserve other size = (.ok placement, alone) := by
  obtain ⟨-, hroom, hkind, length, arena, hlength, htake, -⟩ := reserve_eq_ok_iff.mp hres
  exact ⟨_, reserve_eq_ok_iff.mpr ⟨hnone, hroom, hkind, length, arena, hlength, htake, rfl⟩⟩

end Region

namespace Regions

variable {regions : Regions} {blob : BlobId} {size : Nat} {placement : Placement}
  {region : Region} {kind : RegionKind} {tried rest order : List RegionKind}

/-- Whether none of these regions takes the blob in. -/
def Full (regions : Regions) (blob : BlobId) (size : Nat) (order : List RegionKind) : Prop :=
  ∀ kind ∈ order, ∀ placement after, (regions.get kind).reserve blob size ≠ (.ok placement, after)

theorem Full.head (h : regions.Full blob size (kind :: rest)) (hsound : regions.Sound)
    (hnone : ∀ kind, (regions.get kind).residents.get? blob = none) :
    (regions.get kind).reserve blob size
      = (.error (.regionFull kind size (regions.get kind).available), regions.get kind) := by
  rcases hres : (regions.get kind).reserve blob size with ⟨error | placement, after⟩
  · obtain ⟨herror, hsame⟩ := Region.refusal_of_not_resident (hnone kind) hres
    rw [herror, hsame, hsound.kind kind]
  · exact absurd hres (h kind List.mem_cons_self placement after)

theorem Full.tail (h : regions.Full blob size (kind :: rest)) : regions.Full blob size rest :=
  fun other hmem => h other (List.mem_cons_of_mem _ hmem)

/-- A search passes over the regions that are full and stops at the first that is not. -/
theorem firstFit_of_fits {refusal : CacheError} (hsound : regions.Sound)
    (hnone : ∀ kind, (regions.get kind).residents.get? blob = none)
    (hfull : regions.Full blob size tried)
    (hres : (regions.get kind).reserve blob size = (.ok placement, region)) :
    regions.firstFit blob size refusal (tried ++ kind :: rest)
      = (.ok placement, regions.set kind region) := by
  -- on the regions tried, each of which leaves its own refusal
  induction tried generalizing refusal with
  | nil => rw [List.nil_append, firstFit_cons, hres]
  | cons other tried ih =>
    rw [List.cons_append, firstFit_cons, hfull.head hsound hnone]
    exact ih hfull.tail

/-- If all are full, the last one's refusal stands. -/
theorem firstFit_of_full {refusal : CacheError} (hsound : regions.Sound)
    (hnone : ∀ kind, (regions.get kind).residents.get? blob = none)
    (hfull : regions.Full blob size (order ++ [kind])) :
    regions.firstFit blob size refusal (order ++ [kind])
      = (.error (.regionFull kind size (regions.get kind).available), regions) := by
  induction order generalizing refusal with
  | nil =>
    rw [List.nil_append, firstFit_cons, hfull.head hsound hnone]
    rfl
  | cons other order ih =>
    rw [List.cons_append, firstFit_cons, hfull.head hsound hnone]
    exact ih hfull.tail

end Regions

/-! ## §3. What an attempt to place a blob does. -/

namespace Cache

/-- Nobody has the handle, and no region knows of it. -/
structure Fresh (cache : Cache) (id : BlobId) : Prop where
  unheld : cache.held? id = none
  unlisted : ∀ kind, (cache.regions.get kind).residents.get? id = none

/-- A region that would take in a blob of this size under a fresh handle. -/
def Fitting (cache : Cache) (size : Nat) (kind : RegionKind) : Prop :=
  ∃ id, cache.Fresh id ∧
    ∃ placement region, (cache.regions.get kind).reserve id size = (.ok placement, region)

/-- The first fitting region of an order, and those that are tried before it. -/
structure FirstFitting (cache : Cache) (size : Nat) (order tried : List RegionKind)
    (kind : RegionKind) : Prop where
  splits : ∃ rest, order = tried ++ kind :: rest
  fits : cache.Fitting size kind
  full : ∀ other ∈ tried, ¬ cache.Fitting size other

/-- A new blob is where the region of this kind places it, and the other regions are as they
were. -/
structure PlacedIn (cache : Cache) (size : Nat) (kind : RegionKind) (after : Cache) (id : BlobId) :
    Prop where
  fresh : cache.Fresh id
  placed : ∃ blob region, after.registered.get? id = some blob ∧ blob.region = kind
    ∧ (cache.regions.get kind).reserve id size = (.ok blob.placement, region)
    ∧ ∀ other, after.regions.get other = if other = kind then region else cache.regions.get other
  /-- Any other fresh handle would have been given the same place. -/
  alone : ∀ blob, after.registered.get? id = some blob → ∀ other, cache.Fresh other →
    ∃ region, (cache.regions.get kind).reserve other size = (.ok blob.placement, region)

/-- An attempt looks for room of this size in these regions, in this order, for code of a method. -/
structure Selects (cache : Cache) (method : MethodId) (order : List RegionKind) (size : Nat)
    (attempt : Attempt BlobId) : Prop where
  /-- No region is asked twice. -/
  nodup : order.Nodup
  granted_iff : (∃ id, attempt.1 = .ok id) ↔ ∃ kind ∈ order, cache.Fitting size kind
  /-- The first fitting region gets the blob.  It is counted if that is not the first of all. -/
  granted : ∀ id, attempt.1 = .ok id →
    ∃ tried kind, cache.FirstFitting size order tried kind ∧ cache.PlacedIn size kind attempt.2 id
      ∧ attempt.2.metrics.regionFallbacks
        = cache.metrics.regionFallbacks + if tried = [] then 0 else 1
  /-- Without any, the last region's refusal stands, and but for a handle, a count and a record of
  the method nothing has changed. -/
  refused : ∀ error, attempt.1 = .error error →
    ∃ last, order.getLast? = some last
      ∧ error = .regionFull last size (cache.regions.get last).available
      ∧ attempt.2 = { cache.ensureRecord method with
          nextBlob := cache.nextBlob.next
          metrics :=
            { cache.metrics with allocationFailures := cache.metrics.allocationFailures + 1 } }

variable {cache : Cache} {size made : Nat} {kind : RegionKind} {id : BlobId}
  {order tried : List RegionKind} {method : MethodId} {slot : Slot} {artifact : Artifact}
  {blob : Blob} {region : Region}

/-- In a consistent cache the handle dealt next is fresh. -/
theorem Consistent.fresh (h : cache.Consistent made) : cache.Fresh cache.nextBlob := by
  have hunheld := h.sound.handles.fresh h.room
  refine ⟨hunheld, fun kind => ?_⟩
  rw [held?, Option.or_eq_none_iff] at hunheld
  rw [h.booked kind, hunheld.1]
  rfl

/-- One fresh handle is as good as another. -/
theorem Fresh.fitting_iff (h : cache.Fresh id) :
    cache.Fitting size kind ↔
      ∃ placement region, (cache.regions.get kind).reserve id size = (.ok placement, region) := by
  constructor
  · intro hfits
    obtain ⟨other, -, placement, region, hres⟩ := hfits
    exact ⟨placement, Region.reserve_of_reserve hres (h.unlisted kind)⟩
  · intro hres
    exact ⟨id, h, hres⟩

theorem Fresh.full (h : cache.Fresh id) (hfull : ∀ kind ∈ order, ¬ cache.Fitting size kind) :
    cache.regions.Full id size order := by
  intro kind hmem placement after hres
  exact hfull kind hmem (h.fitting_iff.mpr ⟨placement, after, hres⟩)

/-- An order has a first fitting region if it has any. -/
theorem exists_firstFitting (h : ∃ kind ∈ order, cache.Fitting size kind) :
    ∃ tried kind, cache.FirstFitting size order tried kind := by
  classical
  obtain ⟨kind, hmem, hfits⟩ := h
  have hsome : (order.find? fun kind => cache.Fitting size kind).isSome := by
    rw [List.find?_isSome]
    exact ⟨kind, hmem, decide_eq_true hfits⟩
  obtain ⟨first, hfound⟩ := Option.isSome_iff_exists.mp hsome
  obtain ⟨hfirst, tried, rest, rfl, htried⟩ := List.find?_eq_some_iff_append.mp hfound
  refine ⟨tried, first, ⟨rest, rfl⟩, of_decide_eq_true hfirst, fun other hother => ?_⟩
  simpa using htried other hother

/-- With a first fitting region, the blob is made there. -/
theorem Consistent.makeBlob_of_fits (h : cache.Consistent made)
    (hfirst : cache.FirstFitting size order tried kind) (hsize : artifact.code.size = size) :
    ∃ placement region,
      (cache.regions.get kind).reserve cache.nextBlob size = (.ok placement, region)
        ∧ (cache.ensureRecord method).makeBlob method artifact slot order
          = (.ok (cache.newBlob method slot artifact.level artifact.code placement),
              { (cache.ensureRecord method).lodge kind region
                  (cache.newBlob method slot artifact.level artifact.code placement) with
                metrics :=
                  if tried = [] then cache.metrics
                  else { cache.metrics with
                    regionFallbacks := cache.metrics.regionFallbacks + 1 } }) := by
  subst hsize
  obtain ⟨⟨rest, rfl⟩, hfits, hfull⟩ := hfirst
  obtain ⟨placement, region, hres⟩ := h.fresh.fitting_iff.mp hfits
  have hplaced := region_of_reserve h.sound.regions hres
  refine ⟨placement, region, hres, ?_⟩
  -- whether there is a record does not matter to the regions, nor to what is dealt next
  unfold makeBlob ensureRecord setStatus
  simp only
  rw [Regions.firstFit_of_fits h.sound.regions h.fresh.unlisted (h.fresh.full hfull) hres]
  -- whoever was tried before is not fitting, so it is not the region of the placement
  cases tried with
  | nil =>
    simp only [List.nil_append, List.head?_cons, hplaced, ↓reduceIte]
    rfl
  | cons first tried =>
    have hne : first ≠ kind := fun heq => hfull first List.mem_cons_self (heq ▸ hfits)
    simp only [List.cons_append, List.head?_cons, hplaced, Option.some.injEq, hne, if_false,
      reduceCtorEq]
    rfl

/-- Without any, none is made. -/
theorem Consistent.makeBlob_of_full (h : cache.Consistent made)
    (hfull : ∀ other ∈ order ++ [kind], ¬ cache.Fitting size other)
    (hsize : artifact.code.size = size) :
    (cache.ensureRecord method).makeBlob method artifact slot (order ++ [kind])
      = (.error (.regionFull kind size (cache.regions.get kind).available),
          { cache.ensureRecord method with
            nextBlob := cache.nextBlob.next
            metrics :=
              { cache.metrics with
                allocationFailures := cache.metrics.allocationFailures + 1 } }) := by
  subst hsize
  unfold makeBlob ensureRecord setStatus
  simp only
  rw [Regions.firstFit_of_full h.sound.regions h.fresh.unlisted (h.fresh.full hfull)]
  rfl

/-- An entrance counts no fallback. -/
theorem regionFallbacks_enter (cache : Cache) (blob : Blob) :
    (cache.enter blob).metrics.regionFallbacks = cache.metrics.regionFallbacks := by
  unfold enter closeOccupant
  cases (cache.status blob.method).occupant? blob.slot <;> rfl

/-- A blob that was lodged and has entered is registered where it was lodged. -/
theorem exists_registered_enter (cache : Cache) (kind : RegionKind) (region : Region) (blob : Blob)
    (metrics : Metrics) :
    ∃ entered, ({ cache.lodge kind region blob with metrics }.enter blob).registered.get? blob.id
        = some entered ∧ entered.placement = blob.placement := by
  have hlodged : ({ cache.lodge kind region blob with metrics }).registered.get? blob.id
      = some blob := Table.get?_insert_self ..
  rw [get?_registered_enter, hlodged]
  split
  · exact ⟨blob.close, rfl, rfl⟩
  · exact ⟨blob, rfl, rfl⟩

/-- What an attempt to make a blob and let it enter leaves to be said of regions and counts. -/
structure EntersAs (attempt : Attempt BlobId) (after : Cache) (blob : Blob) : Prop where
  granted : attempt.1 = .ok blob.id
  regions : attempt.2.regions = (after.enter blob).regions
  registered : attempt.2.registered = (after.enter blob).registered
  metrics : attempt.2.metrics.regionFallbacks = (after.enter blob).metrics.regionFallbacks

theorem Consistent.placedIn {attempt : Attempt BlobId} {metrics : Metrics}
    (h : cache.Consistent made) (hid : blob.id = cache.nextBlob)
    (hres : (cache.regions.get kind).reserve cache.nextBlob size = (.ok blob.placement, region))
    (henters : EntersAs attempt
      { (cache.ensureRecord method).lodge kind region blob with metrics } blob) :
    cache.PlacedIn size kind attempt.2 blob.id := by
  obtain ⟨entered, hentered, hplacement⟩ :=
    exists_registered_enter (cache.ensureRecord method) kind region blob metrics
  rw [← henters.registered] at hentered
  rw [← hid] at hres
  refine ⟨hid ▸ h.fresh, ⟨entered, region, hentered, ?_, hplacement ▸ hres, ?_⟩, ?_⟩
  · show entered.placement.region = kind
    rw [hplacement]
    exact region_of_reserve h.sound.regions hres
  · intro other
    rw [henters.regions, regions_enter]
    show (cache.regions.set kind region).get other = _
    rw [Regions.get_set]
    exact if_congr eq_comm rfl rfl
  · intro same hsame other hother
    obtain rfl := Option.some.inj (hentered.symm.trans hsame)
    rw [hplacement]
    exact Region.reserve_of_reserve hres (hother.unlisted kind)

/-- **Whatever makes a blob and lets it enter looks for room in the given order.** -/
theorem Consistent.selects (method : MethodId) (slot : Slot) (artifact : Artifact)
    {attempt : Attempt BlobId} (h : cache.Consistent made) (hnodup : order.Nodup)
    (hnonempty : order ≠ [])
    (henters : ∀ {blob after},
      (cache.ensureRecord method).makeBlob method artifact slot order = (.ok blob, after) →
        EntersAs attempt after blob)
    (hrefused : ∀ {error after},
      (cache.ensureRecord method).makeBlob method artifact slot order = (.error error, after) →
        attempt = (.error error, after)) :
    cache.Selects method order artifact.code.size attempt := by
  by_cases hany : ∃ kind ∈ order, cache.Fitting artifact.code.size kind
  · obtain ⟨tried, kind, hfirst⟩ := exists_firstFitting hany
    obtain ⟨placement, region, hres, hmake⟩ := h.makeBlob_of_fits hfirst rfl
    have hattempt := henters hmake
    refine ⟨hnodup, iff_of_true ⟨_, hattempt.granted⟩ hany, ?_, ?_⟩
    · intro id hid
      obtain rfl := Except.ok.inj (hattempt.granted.symm.trans hid)
      refine ⟨tried, kind, hfirst, h.placedIn rfl hres hattempt, ?_⟩
      rw [hattempt.metrics, regionFallbacks_enter]
      show (if tried = [] then _ else _ : Metrics).regionFallbacks = _
      split
      · exact (UInt64.add_zero _).symm
      · rfl
    · intro error herror
      cases hattempt.granted.symm.trans herror
  · obtain ⟨asked, last, rfl⟩ : ∃ asked last, order = asked ++ [last] :=
      ⟨_, _, (List.dropLast_append_getLast hnonempty).symm⟩
    have hfull : ∀ other ∈ asked ++ [last], ¬ cache.Fitting artifact.code.size other :=
      fun other hmem hfits => hany ⟨other, hmem, hfits⟩
    have hattempt := hrefused (h.makeBlob_of_full hfull rfl)
    refine ⟨hnodup, iff_of_false ?_ hany, ?_, ?_⟩
    · rw [hattempt]
      rintro ⟨id, hid⟩
      cases hid
    · intro id hid
      rw [hattempt] at hid
      cases hid
    · intro error herror
      rw [hattempt] at herror ⊢
      cases herror
      exact ⟨last, List.getLast?_concat, rfl, rfl⟩

/-! ## §4. Installing and replacing. -/

theorem Consistent.selects_install (h : cache.Consistent made)
    (hlevel : artifact.level ≠ .interpreted) (hdown : ¬ artifact.level < cache.level method slot) :
    cache.Selects method (cache.settings.whereToInstall artifact.level) artifact.code.size
      (cache.install method artifact slot) := by
  have horder := cache.settings.installOrder_eq artifact.level
  refine h.selects method slot artifact (cache.settings.nodup_whereToInstall _) ?_ ?_ ?_
  · rw [← horder]
    exact List.cons_ne_nil _ _
  · intro blob after hmake
    rw [install_eq hlevel hdown, horder, hmake]
    exact ⟨rfl, rfl, rfl, rfl⟩
  · intro error after hmake
    rw [install_eq hlevel hdown, horder, hmake]

theorem Consistent.selects_replace {level : Option Level} {region : Option RegionKind} {old : Blob}
    (h : cache.Consistent made) (hold : cache.entrant method slot = .ok old)
    (hlevel : level.getD old.level ≠ .interpreted) :
    cache.Selects method (cache.settings.whereAsked region old.region (level.getD old.level))
      old.code.size (cache.replace method slot level region) := by
  -- what is replaced was installed, so there is a record already
  have hentrant := entrant_eq_ok_iff.mp hold
  have hrecord : cache.ensureRecord method = cache :=
    ensureRecord_of_hasRecord (hasRecord_of_entrant? hentrant)
  refine h.selects method slot ⟨level.getD old.level, old.code⟩
    (cache.settings.nodup_whereAsked _ _ _) (cache.settings.whereAsked_ne_nil _ _ _) ?_ ?_
  · intro blob after hmake
    rw [hrecord] at hmake
    rw [replace_eq hentrant hlevel, replacementRegions_eq, hmake]
    exact ⟨rfl, rfl, rfl, rfl⟩
  · intro error after hmake
    rw [hrecord] at hmake
    rw [replace_eq hentrant hlevel, replacementRegions_eq, hmake]

end Cache

open Cache in
/-- **New code goes to the first region of its order that has room**, after every session that
leaves the regions to the cache.  Installing and replacing find room exactly if some region of
their order is fitting. -/
theorem regions_are_selected_in_order {settings : Settings} {start : Cache}
    {operations : List Operation} (hnew : Cache.new settings = .ok start)
    (hmanaged : ∀ operation ∈ operations, operation.isDirect = false)
    (hroom : start.attemptsIn operations < UInt64.size) :
    let cache := start.after operations
    (∀ method artifact slot, artifact.level ≠ .interpreted →
        ¬ artifact.level < cache.level method slot →
          cache.Selects method (settings.whereToInstall artifact.level) artifact.code.size
            (cache.install method artifact slot))
      ∧ ∀ method slot level region old, cache.entrant method slot = .ok old →
          level.getD old.level ≠ .interpreted →
            cache.Selects method (settings.whereAsked region old.region (level.getD old.level))
              old.code.size (cache.replace method slot level region) := by
  intro cache
  have h : cache.Consistent (start.attemptsIn operations) := consistent_after hnew hmanaged hroom
  have hsettings : cache.settings = settings := settings_after hnew operations
  rw [← hsettings]
  exact ⟨fun _ _ _ => h.selects_install, fun _ _ _ _ _ => h.selects_replace⟩

/-- Method regions of one unit each. -/
def oneUnitEach : Settings := { profiledCapacity := 32, nonProfiledCapacity := 32 }

/-- One blob fills the region that its level prefers. -/
def crowding : List Operation := [.install ⟨1⟩ ⟨.tier4, ⟨#[1, 2, 3]⟩⟩ .standard]

/-- The next blob of that level has to go elsewhere, and the same code made again would go there
at once. -/
theorem regions_are_selected_in_order_after_crowding :
    let cache := (Cache.ofSettings oneUnitEach).after crowding
    let installed := cache.install ⟨2⟩ ⟨.tier4, ⟨#[4, 5]⟩⟩ .standard
    let replaced := cache.replace ⟨1⟩ .standard none none
    (installed.2.held? ⟨2⟩).map Blob.region = some .profiled
      ∧ installed.2.metrics.regionFallbacks = 1
      ∧ cache.Selects ⟨2⟩ [.nonProfiled, .profiled, .nonMethod] 2 installed
      ∧ (replaced.2.held? ⟨2⟩).map Blob.region = some .profiled
      ∧ replaced.2.metrics.regionFallbacks = 0
      ∧ cache.Selects ⟨1⟩ [.profiled, .nonProfiled, .nonMethod] 3 replaced := by
  have hnew : Cache.new oneUnitEach = .ok (Cache.ofSettings oneUnitEach) := rfl
  obtain ⟨hinstall, hreplace⟩ := regions_are_selected_in_order hnew
    (show ∀ operation ∈ crowding, operation.isDirect = false by decide) (by decide)
  refine ⟨by decide, by decide, ?_, by decide, by decide, ?_⟩
  · exact hinstall ⟨2⟩ ⟨.tier4, ⟨#[4, 5]⟩⟩ .standard (by decide) (by decide)
  · exact hreplace ⟨1⟩ .standard none none _ rfl (by decide)

end JitCache
