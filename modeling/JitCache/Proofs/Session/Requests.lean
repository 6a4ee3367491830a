/-
  JitCache.Proofs.Session.Requests
  ────────────────────────────────
  **Requests about methods, blobs and regions, step by step.**

  Each function of the cache is followed through its branches once, here and,
  for collection passes, in `JitCache.Proofs.Session.Operation`.  What it leaves
  behind is reached from the cache before by steps of the operation it is part
  of, and the handles it uses up are those that `Cache.attempts` counts.

  Main statements:
    `install_cases`, `replace_cases`, `carry_cases`, `move_cases`
                                                      — all that these requests can come to
    `install_step`, `replace_step`, `deoptimize_step` — filling and emptying slots
    `move_steps`, `transfer_steps`                    — moving and carrying
-/
import JitCache.Proofs.Session.Lookup
import JitCache.Proofs.Space.Regions

namespace JitCache

namespace Cache

variable {cache after : Cache} {operation : Operation} {method : MethodId} {slot : Slot}

/-! ## §1. Blobs that are made. -/

/-- A refused attempt uses up a handle. -/
theorem makeBlob_error {artifact : Artifact} {candidates : List RegionKind} {error : CacheError}
    (h : cache.makeBlob method artifact slot candidates = (.error error, after)) :
    SameHoldings { cache with nextBlob := cache.nextBlob.next } after := by
  unfold makeBlob at h
  simp only at h
  split at h
  · next hfit =>
    cases h
    rw [Regions.firstFit_error hfit]
    exact sameHoldings_metrics _ _
  · cases h

/-- A granted attempt lodges the new blob in a region that has reserved its room. -/
theorem makeBlob_ok {artifact : Artifact} {candidates : List RegionKind} {blob : Blob}
    (h : cache.makeBlob method artifact slot candidates = (.ok blob, after)) :
    ∃ kind placement region metrics,
      (cache.regions.get kind).reserve cache.nextBlob artifact.code.size = (.ok placement, region)
        ∧ blob = cache.newBlob method slot artifact.level artifact.code placement
        ∧ after = { cache.lodge kind region blob with metrics } := by
  unfold makeBlob at h
  simp only at h
  split at h
  · cases h
  · next placement regions hfit =>
    obtain ⟨kind, -, region, hreserve, rfl⟩ := Regions.firstFit_eq_ok hfit
    cases h
    exact ⟨kind, placement, region, _, hreserve, rfl, rfl⟩

theorem SameHoldings.next (h : SameHoldings cache after) :
    SameHoldings { cache with nextBlob := cache.nextBlob.next }
      { after with nextBlob := after.nextBlob.next } :=
  ⟨h.settings, h.regions, h.registered, h.reclaimed, congrArg BlobId.next h.nextBlob, h.nextEntry,
    h.occupant, h.history, h.recorded⟩

theorem SameHoldings.lodge (h : SameHoldings cache after) (kind : RegionKind) (region : Region)
    (blob : Blob) : SameHoldings (cache.lodge kind region blob) (after.lodge kind region blob) where
  settings := h.settings
  regions := congrArg (fun regions => regions.set kind region) h.regions
  registered := congrArg (fun table => table.insert blob.id blob) h.registered
  reclaimed := h.reclaimed
  nextBlob := congrArg BlobId.next h.nextBlob
  nextEntry := congrArg (fun entry => entry.advance blob.placement.span.length) h.nextEntry
  occupant := h.occupant
  history := h.history
  recorded := h.recorded

theorem SameHoldings.closeOccupant (h : SameHoldings cache after) (method : MethodId)
    (slot : Slot) :
    SameHoldings (cache.closeOccupant method slot) (after.closeOccupant method slot) := by
  unfold Cache.closeOccupant
  rw [h.occupant]
  cases (cache.status method).occupant? slot with
  | none => exact h
  | some id =>
    exact ⟨h.settings, h.regions, congrArg (fun table => table.modify id Blob.close) h.registered,
      congrArg (fun table => table.modify id Blob.close) h.reclaimed, h.nextBlob, h.nextEntry,
      h.occupant, h.history, h.recorded⟩

theorem SameHoldings.setStatus (h : SameHoldings cache after) {status status' : MethodStatus}
    (hoccupant : ∀ slot, status'.occupant? slot = status.occupant? slot)
    (hhistory : status'.history = status.history) :
    SameHoldings (cache.setStatus method status) (after.setStatus method status') where
  settings := h.settings
  regions := h.regions
  registered := h.registered
  reclaimed := h.reclaimed
  nextBlob := h.nextBlob
  nextEntry := h.nextEntry
  occupant other slot := by
    rw [status_setStatus, status_setStatus]
    split
    · exact hoccupant slot
    · exact h.occupant other slot
  history other := by
    rw [status_setStatus, status_setStatus]
    split
    · exact hhistory
    · exact h.history other
  recorded other := by
    rw [hasRecord_setStatus, hasRecord_setStatus]
    exact Or.imp_right (h.recorded other)

/-- Flags, counts and metrics do not matter for an entrance. -/
theorem SameHoldings.enter (h : SameHoldings cache after) (blob : Blob) :
    SameHoldings (cache.enter blob) (after.enter blob) := by
  refine (h.closeOccupant blob.method blob.slot).setStatus ?_ ?_
  · intro slot
    have hslot := h.occupant blob.method slot
    unfold MethodStatus.note MethodStatus.setOccupant
    cases blob.slot <;> cases slot <;> first | rfl | exact hslot
  · have hhistory := h.history blob.method
    unfold MethodStatus.note MethodStatus.setOccupant
    cases blob.slot <;> exact congrArg (· ++ _) hhistory

/-- What `makeBlob` has made enters its slot in one step, whatever was noted before. -/
theorem entered_of_makeBlob {artifact : Artifact} {candidates : List RegionKind} {blob : Blob}
    {noted last : Cache} (hslot : operation.slot? = some (method, slot))
    (hlevel : artifact.level ≠ .interpreted) (hnoted : SameHoldings cache noted)
    (h : noted.makeBlob method artifact slot candidates = (.ok blob, after))
    (hlast : SameHoldings (after.enter blob) last) : StepAndNote operation cache 1 last := by
  obtain ⟨kind, placement, region, metrics, hreserve, rfl, rfl⟩ := makeBlob_ok h
  rw [hnoted.regions, hnoted.nextBlob] at hreserve
  have hblob : noted.newBlob method slot artifact.level artifact.code placement
      = cache.newBlob method slot artifact.level artifact.code placement := by
    unfold newBlob
    rw [hnoted.nextBlob, hnoted.nextEntry]
  rw [hblob] at hlast
  refine ⟨_, .entered hslot hlevel hreserve, ((hnoted.lodge kind region _).enter _).trans ?_⟩
  exact ((sameHoldings_metrics _ metrics).enter _).trans hlast

/-! ## §2. Slots that are filled and emptied. -/

/-- Code of a level above interpretation is that of an occupant, so there is a record. -/
theorem hasRecord_of_lt_level {level : Level} (h : level < cache.level method slot) :
    cache.hasRecord method = true := by
  unfold Cache.level entrant? at h
  cases hoccupant : (cache.status method).occupant? slot with
  | some id => exact hasRecord_of_occupant? hoccupant
  | none =>
    -- nothing is below interpretation
    rw [hoccupant] at h
    exact absurd h (Nat.not_lt_zero _)

theorem hasRecord_of_entrant? {blob : Blob} (h : cache.entrant? method slot = some blob) :
    cache.hasRecord method = true := by
  unfold entrant? at h
  cases hoccupant : (cache.status method).occupant? slot with
  | some id => exact hasRecord_of_occupant? hoccupant
  | none =>
    rw [hoccupant] at h
    cases h

@[simp] theorem level_ensureRecord (cache : Cache) (method other : MethodId) (slot : Slot) :
    (cache.ensureRecord method).level other slot = cache.level other slot := by
  unfold Cache.level entrant?
  rw [status_ensureRecord]
  rfl

/-- An artifact that passes both checks is made a blob of, if there is room, and enters its slot. -/
theorem install_eq {artifact : Artifact} (hlevel : artifact.level ≠ .interpreted)
    (hdown : ¬ artifact.level < cache.level method slot) :
    cache.install method artifact slot
      = match (cache.ensureRecord method).makeBlob method artifact slot
          (cache.settings.installOrder artifact.level) with
        | (.error error, after) => (.error error, after)
        | (.ok blob, made) =>
          (.ok blob.id,
            { (made.enter blob).setQueued method false with
              metrics :=
                { (made.enter blob).metrics with
                  installs := (made.enter blob).metrics.installs + 1 } }) := by
  unfold install
  rw [if_neg hlevel]
  simp only [level_ensureRecord]
  rw [if_neg hdown]
  rfl

/-- What installing comes to.  Only the last two ask for room, and by then there is a record. -/
theorem install_cases (cache : Cache) (method : MethodId) (artifact : Artifact) (slot : Slot) :
    (∃ error, cache.install method artifact slot = (.error error, cache)
      ∧ cache.installAttempts method artifact.level slot = 0)
    ∨ artifact.level ≠ .interpreted ∧ ¬ artifact.level < cache.level method slot
      ∧ cache.installAttempts method artifact.level slot = 1
      ∧ ((∃ error after,
            (cache.ensureRecord method).makeBlob method artifact slot
                (cache.settings.installOrder artifact.level) = (.error error, after)
              ∧ cache.install method artifact slot = (.error error, after))
          ∨ ∃ blob made,
            (cache.ensureRecord method).makeBlob method artifact slot
                (cache.settings.installOrder artifact.level) = (.ok blob, made)
              ∧ cache.install method artifact slot
                = (.ok blob.id,
                    { (made.enter blob).setQueued method false with
                      metrics :=
                        { (made.enter blob).metrics with
                          installs := (made.enter blob).metrics.installs + 1 } })) := by
  unfold installAttempts
  by_cases hlevel : artifact.level = .interpreted
  · rw [if_pos (.inl hlevel)]
    exact .inl ⟨_, if_pos hlevel, rfl⟩
  by_cases hdown : artifact.level < cache.level method slot
  · rw [if_pos (.inr hdown)]
    unfold install
    rw [if_neg hlevel, ensureRecord_of_hasRecord (hasRecord_of_lt_level hdown)]
    exact .inl ⟨_, if_pos hdown, rfl⟩
  rw [if_neg fun h => h.elim hlevel hdown, install_eq hlevel hdown]
  refine .inr ⟨hlevel, hdown, rfl, ?_⟩
  rcases (cache.ensureRecord method).makeBlob method artifact slot
    (cache.settings.installOrder artifact.level) with ⟨error | blob, made⟩
  · exact .inl ⟨error, made, rfl, rfl⟩
  · exact .inr ⟨blob, made, rfl, rfl⟩

theorem install_step {artifact : Artifact} (hslot : operation.slot? = some (method, slot)) :
    StepAndNote operation cache (cache.installAttempts method artifact.level slot)
      (cache.install method artifact slot).2 := by
  have hrecord := sameHoldings_ensureRecord cache method
  rcases cache.install_cases method artifact slot with
    ⟨error, hinstall, hattempts⟩ | ⟨hlevel, -, hattempts, hmakes⟩
  · rw [hinstall, hattempts]
    exact .refl cache
  rw [hattempts]
  rcases hmakes with ⟨error, after, hmake, hinstall⟩ | ⟨blob, made, hmake, hinstall⟩
  · rw [hinstall]
    exact ⟨_, .unplaced, hrecord.next.trans (makeBlob_error hmake)⟩
  · rw [hinstall]
    -- a granted installation also takes the method off the queue and counts
    refine entered_of_makeBlob hslot hlevel hrecord hmake ?_
    exact (sameHoldings_setQueued _ method false).trans (sameHoldings_metrics _ _)

/-- The regions asked for room for a replacement: the one asked for, or those fit for the level. -/
def replacementRegions (cache : Cache) (asked : Option RegionKind) (current : RegionKind)
    (level : Level) : List RegionKind :=
  match asked with
  | some region => [region]
  | none => cache.settings.replacementOrder current level

/-- The code of an occupant is made again at a compiled level, if there is room. -/
theorem replace_eq {level : Option Level} {region : Option RegionKind} {old : Blob}
    (hold : cache.entrant? method slot = some old) (hlevel : level.getD old.level ≠ .interpreted) :
    cache.replace method slot level region
      = match cache.makeBlob method ⟨level.getD old.level, old.code⟩ slot
          (cache.replacementRegions region old.region (level.getD old.level)) with
        | (.error error, after) => (.error error, after)
        | (.ok blob, made) =>
          (.ok blob.id,
            { made.enter blob with
              metrics :=
                { (made.enter blob).metrics with
                  replacements := (made.enter blob).metrics.replacements + 1 } }) := by
  unfold replace
  rw [entrant_eq_ok_iff.mpr hold]
  simp only
  rw [if_neg hlevel]
  rfl

/-- What replacing comes to.  Only the last two ask for room. -/
theorem replace_cases (cache : Cache) (method : MethodId) (slot : Slot) (level : Option Level)
    (region : Option RegionKind) :
    (∃ error, cache.replace method slot level region = (.error error, cache)
      ∧ cache.replaceAttempts method slot level = 0)
    ∨ ∃ old, cache.entrant? method slot = some old ∧ level.getD old.level ≠ .interpreted
      ∧ cache.replaceAttempts method slot level = 1
      ∧ ((∃ error after,
            cache.makeBlob method ⟨level.getD old.level, old.code⟩ slot
                (cache.replacementRegions region old.region (level.getD old.level))
              = (.error error, after)
              ∧ cache.replace method slot level region = (.error error, after))
          ∨ ∃ blob made,
            cache.makeBlob method ⟨level.getD old.level, old.code⟩ slot
                (cache.replacementRegions region old.region (level.getD old.level))
              = (.ok blob, made)
              ∧ cache.replace method slot level region
                = (.ok blob.id,
                    { made.enter blob with
                      metrics :=
                        { (made.enter blob).metrics with
                          replacements := (made.enter blob).metrics.replacements + 1 } })) := by
  unfold replaceAttempts
  cases hold : cache.entrant? method slot with
  | none =>
    unfold replace entrant
    rw [hold]
    exact .inl ⟨_, rfl, rfl⟩
  | some old =>
    simp only
    by_cases hlevel : level.getD old.level = .interpreted
    · unfold replace
      rw [entrant_eq_ok_iff.mpr hold, if_pos hlevel]
      exact .inl ⟨_, if_pos hlevel, rfl⟩
    rw [if_neg hlevel, replace_eq hold hlevel]
    refine .inr ⟨old, rfl, hlevel, rfl, ?_⟩
    rcases cache.makeBlob method ⟨level.getD old.level, old.code⟩ slot
      (cache.replacementRegions region old.region (level.getD old.level)) with ⟨error | blob, made⟩
    · exact .inl ⟨error, made, rfl, rfl⟩
    · exact .inr ⟨blob, made, rfl, rfl⟩

theorem replace_step {level : Option Level} {region : Option RegionKind}
    (hslot : operation.slot? = some (method, slot)) :
    StepAndNote operation cache (cache.replaceAttempts method slot level)
      (cache.replace method slot level region).2 := by
  rcases cache.replace_cases method slot level region with
    ⟨error, hreplace, hattempts⟩ | ⟨old, -, hlevel, hattempts, hmakes⟩
  · rw [hreplace, hattempts]
    exact .refl cache
  rw [hattempts]
  rcases hmakes with ⟨error, after, hmake, hreplace⟩ | ⟨blob, made, hmake, hreplace⟩
  · rw [hreplace]
    exact ⟨_, .unplaced, makeBlob_error hmake⟩
  · rw [hreplace]
    exact entered_of_makeBlob hslot hlevel (sameHoldings_refl cache) hmake
      (sameHoldings_metrics _ _)

theorem deoptimize_step (hslot : operation.slot? = some (method, slot)) :
    StepAndNote operation cache 0 (cache.deoptimize method slot).2 := by
  unfold deoptimize
  split
  · exact .refl cache
  · next id hoccupant =>
    refine ⟨_, .vacated hslot hoccupant, ?_⟩
    -- beside the step only counts change
    unfold vacate closeOccupant
    rw [hoccupant]
    exact ⟨rfl, rfl, rfl, rfl, rfl, rfl, fun _ _ => rfl, fun _ => rfl, fun _ h => h⟩

/-! ## §3. Flags and counts. -/

theorem compileFailed_of_hasRecord (h : cache.hasRecord method = true) :
    cache.compileFailed method
      = { cache.setQueued method false with
          metrics :=
            { cache.metrics with compileFailures := cache.metrics.compileFailures + 1 } } := by
  unfold compileFailed
  rw [if_pos h]
  rfl

theorem compileFailed_of_not_hasRecord (h : ¬ cache.hasRecord method = true) :
    cache.compileFailed method
      = { cache with
          metrics :=
            { cache.metrics with compileFailures := cache.metrics.compileFailures + 1 } } := by
  unfold compileFailed
  rw [if_neg h]

theorem sameHoldings_compileFailed (cache : Cache) (method : MethodId) :
    SameHoldings cache (cache.compileFailed method) := by
  unfold compileFailed
  split
  · exact (sameHoldings_setQueued cache method false).trans (sameHoldings_metrics _ _)
  · exact sameHoldings_metrics _ _

theorem sameHoldings_invoke (cache : Cache) (method : MethodId) :
    SameHoldings cache (cache.invoke method).2 := by
  have hcounted : ∀ invocations, SameHoldings cache { cache with invocations } :=
    fun _ => ⟨rfl, rfl, rfl, rfl, rfl, rfl, fun _ _ => rfl, fun _ => rfl, fun _ h => h⟩
  unfold invoke
  simp only
  -- queued already, not yet hot, or hot just now
  split
  · exact hcounted _
  · split
    · exact hcounted _
    · exact (hcounted _).trans (sameHoldings_setQueued _ method true)

/-- A report of finished code is an installation, after which a refusal is noted. -/
theorem handle_finished_step {artifact : Artifact}
    (hslot : operation.slot? = some (method, slot)) :
    StepAndNote operation cache (cache.installAttempts method artifact.level slot)
      (cache.handle (.finished method artifact slot)).2 := by
  obtain ⟨middle, hstep, hinstall⟩ : StepAndNote operation cache
      (cache.installAttempts method artifact.level slot) (cache.install method artifact slot).2 :=
    install_step hslot
  refine ⟨middle, hstep, ?_⟩
  unfold handle
  simp only
  split
  · next heq =>
    rw [heq] at hinstall
    exact hinstall
  · next heq =>
    rw [heq] at hinstall
    exact hinstall.trans (sameHoldings_compileFailed _ method)

/-! ## §4. Blobs that are moved, and the regions directly. -/

theorem find_eq_ok_iff {id : BlobId} {blob : Blob} :
    cache.find id = .ok blob ↔ cache.registered.get? id = some blob := by
  unfold find
  split
  · next found hget => rw [hget, Except.ok.injEq, Option.some.injEq]
  · next hget => simp [hget]

/-- What carrying comes to: it is refused with the transfer and changes nothing, or the blob is
placed where the transfer was granted. -/
theorem carry_cases (cache : Cache) (source target : RegionKind) (blob : Blob) :
    (∃ error,
      cache.regions.transfer source target blob.id blob.size blob.placement
          = (.error error, cache.regions)
        ∧ cache.carry source target blob = (.error error, cache))
    ∨ ∃ placement regions,
        cache.regions.transfer source target blob.id blob.size blob.placement
            = (.ok placement, regions)
          ∧ cache.carry source target blob
            = (.ok placement, { cache with regions }.setPlacement blob.id placement) := by
  unfold carry
  rcases htransfer : cache.regions.transfer source target blob.id blob.size blob.placement with
    ⟨error | placement, regions⟩
  · obtain rfl := Regions.transfer_error htransfer
    exact .inl ⟨error, rfl, rfl⟩
  · exact .inr ⟨placement, regions, rfl, rfl⟩

/-- What a move comes to: it is refused and changes nothing, the blob is where it should be, or it
is carried there. -/
theorem move_cases (cache : Cache) (id : BlobId) (target : RegionKind) :
    (∃ error, cache.move id target = (.error error, cache))
    ∨ ∃ blob, cache.registered.get? id = some blob
        ∧ (blob.region = target ∧ cache.move id target = (.ok (), cache)
          ∨ blob.region ≠ target ∧ ∃ placement regions,
              cache.regions.transfer blob.region target blob.id blob.size blob.placement
                  = (.ok placement, regions)
                ∧ cache.move id target
                  = (.ok (),
                      { { cache with regions }.setPlacement blob.id placement with
                        metrics :=
                          { cache.metrics with
                            relocations := cache.metrics.relocations + 1 } })) := by
  unfold move find
  cases hblob : cache.registered.get? id with
  | none => exact .inl ⟨_, rfl⟩
  | some blob =>
    simp only
    by_cases hrecord : cache.hasRecord blob.method = false
    · rw [if_pos hrecord]
      exact .inl ⟨_, rfl⟩
    -- the blob was found, and looking again finds it
    rw [if_neg hrecord, if_neg (by rw [Table.contains_iff.mpr ⟨blob, hblob⟩]; nofun)]
    by_cases hregion : blob.region = target
    · rw [if_pos hregion]
      exact .inr ⟨blob, rfl, .inl ⟨hregion, rfl⟩⟩
    rw [if_neg hregion]
    rcases cache.carry_cases blob.region target blob with
      ⟨error, -, hcarry⟩ | ⟨placement, regions, htransfer, hcarry⟩
    · rw [hcarry]
      exact .inl ⟨error, rfl⟩
    · rw [hcarry]
      exact .inr ⟨blob, rfl, .inr ⟨hregion, placement, regions, htransfer, rfl⟩⟩

/-- A refused carriage leaves everything as it was. -/
theorem carry_error {source target : RegionKind} {blob : Blob} {error : CacheError}
    (h : cache.carry source target blob = (.error error, after)) : after = cache := by
  rcases cache.carry_cases source target blob with ⟨_, -, hcarry⟩ | ⟨_, _, -, hcarry⟩
  all_goals
    rw [hcarry] at h
    cases h
  rfl

/-- A refused move leaves everything as it was. -/
theorem move_error {id : BlobId} {target : RegionKind} {error : CacheError}
    (h : cache.move id target = (.error error, after)) : after = cache := by
  rcases cache.move_cases id target with
    ⟨_, hmove⟩ | ⟨_, -, ⟨-, hmove⟩ | ⟨-, _, _, -, hmove⟩⟩
  all_goals
    rw [hmove] at h
    cases h
  rfl

theorem move_steps {id : BlobId} {target : RegionKind} (hfiled : cache.Filed)
    (hwhy : ∀ {blob}, cache.registered.get? id = some blob → operation.Moves cache blob target) :
    Steps operation cache 0 (cache.move id target).2 := by
  rcases cache.move_cases id target with
    ⟨error, hmove⟩ | ⟨blob, hblob, ⟨-, hmove⟩ | ⟨hregion, placement, regions, htransfer, hmove⟩⟩
  · rw [hmove]
    exact .refl
  · rw [hmove]
    exact .refl
  · rw [hmove]
    obtain rfl := hfiled.registered hblob
    exact (Steps.single (.moved (hwhy hblob) hblob hregion htransfer)).note
      (sameHoldings_metrics _ _)

theorem carry_steps {source target : RegionKind} {blob : Blob}
    (hdirect : operation.isDirect = true) (hblob : cache.held? blob.id = some blob) :
    Steps operation cache 0 (cache.carry source target blob).2 := by
  rcases cache.carry_cases source target blob with
    ⟨error, -, hcarry⟩ | ⟨placement, regions, htransfer, hcarry⟩
  · rw [hcarry]
    exact .refl
  · rw [hcarry]
    exact .single (.carried hdirect hblob htransfer)

theorem transfer_steps {source target : RegionKind} {id : BlobId} (hfiled : cache.Filed)
    (hdirect : operation.isDirect = true) :
    Steps operation cache 0 (cache.transfer source target id).2 := by
  unfold transfer
  split
  · exact .refl
  · next blob hfind =>
    have hblob := find_eq_ok_iff.mp hfind
    refine carry_steps hdirect (held?_of_registered ?_)
    rw [hfiled.registered hblob]
    exact hblob

theorem transferHeld_steps {source target : RegionKind} {id : BlobId} (hfiled : cache.Filed)
    (hdirect : operation.isDirect = true) :
    Steps operation cache 0 (cache.transferHeld source target id).2 := by
  unfold transferHeld
  split
  · exact .refl
  · next blob hheld =>
    refine carry_steps hdirect ?_
    rw [hfiled.held hheld]
    exact hheld

/-- A region that is called directly and refuses is left as it was. -/
theorem reserveIn_error {kind : RegionKind} {id : BlobId} {size : Nat} {error : CacheError}
    (h : cache.reserveIn kind id size = (.error error, after)) : after = cache := by
  unfold reserveIn region at h
  rcases hreserve : (cache.regions.get kind).reserve id size with ⟨outcome, region⟩
  rw [hreserve] at h
  cases h
  rw [Regions.set_of_reserve_error hreserve]

theorem releaseIn_error {kind : RegionKind} {id : BlobId} {error : CacheError}
    (h : cache.releaseIn kind id = (.error error, after)) : after = cache := by
  unfold releaseIn region at h
  rcases hrelease : (cache.regions.get kind).release id with ⟨outcome, region⟩
  rw [hrelease] at h
  cases h
  rw [Regions.set_of_release_error hrelease]

theorem reserveIn_steps {kind : RegionKind} {id : BlobId} {size : Nat}
    (hdirect : operation.isDirect = true) :
    Steps operation cache 0 (cache.reserveIn kind id size).2 := by
  unfold reserveIn region
  rcases hreserve : (cache.regions.get kind).reserve id size with ⟨error | placement, region⟩
  · dsimp only
    rw [Regions.set_of_reserve_error hreserve]
    exact .refl
  · exact .single (.reserved hdirect hreserve)

theorem releaseIn_steps {kind : RegionKind} {id : BlobId}
    (hdirect : operation.isDirect = true) :
    Steps operation cache 0 (cache.releaseIn kind id).2 := by
  unfold releaseIn region
  rcases hrelease : (cache.regions.get kind).release id with ⟨error | placement, region⟩
  · dsimp only
    rw [Regions.set_of_release_error hrelease]
    exact .refl
  · exact .single (.released hdirect hrelease)

end Cache

end JitCache
