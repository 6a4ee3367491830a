/-
  JitCache.Proofs.Conservation.Counters
  ─────────────────────────────────────
  **What each operation does to the counters.**

  The counters are bumped one by one, where something happens, and some of them
  only if a slot held something or a move found room.  Seen from outside, an
  operation does a deed, and the counters note it and who left the slot; or it
  does none, and they note whom it has reclaimed, how often it has relocated a
  blob, and whether it was a pass.

  Refused requests bump other counters at most: `Metrics.audited` leaves those
  out.

  Main statements:
    `Does.audited`           — the counters after a deed
    `Consistent.shifts`      — the counters after every other operation
    `Consistent.collect_counts` — a pass reports what it counts
-/
import JitCache.Proofs.Collection.Clearing
import JitCache.Proofs.Collection.Pass
import JitCache.Proofs.Conservation.Census

namespace JitCache

/-- Whether an operation lets the counters start over. -/
def Operation.isReset : Operation → Bool
  | resetMetrics => true
  | _ => false

namespace Metrics

/-- The counters of blobs and of passes; those of requests start over. -/
def audited (metrics : Metrics) : Metrics :=
  { metrics with
    deoptimizations := 0, regionFallbacks := 0, allocationFailures := 0, compileFailures := 0 }

/-- The counters after so many more blobs were closed. -/
def closing (metrics : Metrics) (count : Nat) : Metrics :=
  { metrics with closed := metrics.closed + .ofNat count }

/-- The counters after a deed, but for who left the slot. -/
def noting (metrics : Metrics) : Deed → Metrics
  | .installed _ => { metrics with installs := metrics.installs + 1 }
  | .replaced _ => { metrics with replacements := metrics.replacements + 1 }
  | .emptied _ => metrics

/-- The counters after so many more relocations and passes. -/
def shifted (metrics : Metrics) (relocations passes : Nat) : Metrics :=
  { metrics with
    relocations := metrics.relocations + .ofNat relocations
    collections := metrics.collections + .ofNat passes }

/-- The counters of who was closed and reclaimed, of relocations and of passes are the same. -/
structure KeepsRest (before after : Metrics) : Prop where
  closed : after.closed = before.closed
  zombiesMarked : after.zombiesMarked = before.zombiesMarked
  blobsReclaimed : after.blobsReclaimed = before.blobsReclaimed
  bytesReclaimed : after.bytesReclaimed = before.bytesReclaimed
  relocations : after.relocations = before.relocations
  collections : after.collections = before.collections

theorem keeps_noting (metrics : Metrics) (deed : Deed) : metrics.KeepsRest (metrics.noting deed) := by
  cases deed <;> exact ⟨rfl, rfl, rfl, rfl, rfl, rfl⟩

theorem closing_zero (metrics : Metrics) : metrics.closing 0 = metrics := by
  simp [closing]

theorem shifted_zero (metrics : Metrics) : metrics.shifted 0 0 = metrics := by
  simp [shifted]

theorem shifted_shifted (metrics : Metrics) (relocations passes relocations' passes' : Nat) :
    (metrics.shifted relocations passes).shifted relocations' passes'
      = metrics.shifted (relocations + relocations') (passes + passes') := by
  simp [shifted, UInt64.ofNat_add, UInt64.add_assoc]

theorem cleared_zero (metrics : Metrics) : metrics.cleared 0 0 = metrics := by
  simp [cleared]

end Metrics

namespace Cache

variable {cache before after : Cache} {made : Nat} {operation : Operation} {method : MethodId}
  {slot : Slot} {id : BlobId} {blob : Blob} {target : RegionKind} {error : CacheError}
  {policy : CollectionPolicy}

/-! ## §1. Deeds. -/

/-- An attempt to make a blob counts its fallbacks and failures only. -/
theorem audited_makeBlob {artifact : Artifact} {candidates : List RegionKind}
    {outcome : Except CacheError Blob}
    (h : cache.makeBlob method artifact slot candidates = (outcome, after)) :
    after.metrics.audited = cache.metrics.audited := by
  unfold makeBlob at h
  simp only at h
  split at h
  · cases h
    dsimp only
    split <;> rfl
  · cases h
    dsimp only
    split <;> rfl

/-- Whoever leaves the slot is counted as closed. -/
theorem metrics_closeOccupant (cache : Cache) (method : MethodId) (slot : Slot) :
    (cache.closeOccupant method slot).metrics = cache.metrics.closing (cache.leavers method slot) := by
  unfold closeOccupant leavers
  cases (cache.status method).occupant? slot with
  | none => exact (Metrics.closing_zero _).symm
  | some id => rfl

/-- A blob that was made for a slot enters it. -/
theorem audited_enter {artifact : Artifact} {candidates : List RegionKind}
    (h : cache.makeBlob method artifact slot candidates = (.ok blob, after)) :
    (after.enter blob).metrics.audited
      = (cache.metrics.closing (cache.leavers method slot)).audited := by
  have hmake := audited_makeBlob h
  obtain ⟨kind, placement, region, metrics, -, rfl, rfl⟩ := makeBlob_ok h
  show (Cache.closeOccupant _ method slot).metrics.audited = _
  rw [metrics_closeOccupant]
  -- being made touches no slot, so the same blob leaves it
  exact congrArg (fun counted => counted.closing (cache.leavers method slot)) hmake

theorem audited_install {artifact : Artifact}
    (h : cache.install method artifact slot = (.ok id, after)) (blob : Blob) :
    after.metrics.audited
      = ((cache.metrics.closing (cache.leavers method slot)).noting (.installed blob)).audited := by
  have hleavers : (cache.ensureRecord method).leavers method slot = cache.leavers method slot := by
    unfold leavers
    rw [status_ensureRecord]
  rcases cache.install_cases method artifact slot with
    ⟨error, hinstall, -⟩ | ⟨-, -, -, ⟨error, left, -, hinstall⟩ | ⟨made, last, hmake, hinstall⟩⟩
  · rw [hinstall] at h
    cases h
  · rw [hinstall] at h
    cases h
  · rw [hinstall] at h
    cases h
    rw [← hleavers]
    exact congrArg (fun counted => counted.noting (.installed blob)) (audited_enter hmake)

theorem audited_replace {level : Option Level} {region : Option RegionKind}
    (h : cache.replace method slot level region = (.ok id, after)) (blob : Blob) :
    after.metrics.audited
      = ((cache.metrics.closing (cache.leavers method slot)).noting (.replaced blob)).audited := by
  rcases cache.replace_cases method slot level region with ⟨error, hreplace, -⟩
    | ⟨old, -, -, -, ⟨error, left, -, hreplace⟩ | ⟨made, last, hmake, hreplace⟩⟩
  · rw [hreplace] at h
    cases h
  · rw [hreplace] at h
    cases h
  · rw [hreplace] at h
    cases h
    exact congrArg (fun counted => counted.noting (.replaced blob)) (audited_enter hmake)

theorem audited_deoptimize (h : cache.deoptimize method slot = (.ok id, after)) :
    after.metrics.audited = (cache.metrics.closing (cache.leavers method slot)).audited := by
  unfold deoptimize at h
  unfold leavers
  split at h
  · cases h
  · next hin =>
    cases h
    rw [hin]
    rfl

theorem eq_ok_of_ofAttempt {attempt : Attempt BlobId}
    (h : Outcome.ofAttempt .blob attempt = (.blob id, after)) : attempt = (.ok id, after) := by
  obtain ⟨outcome | value, last⟩ := attempt
  · cases h
  · cases h
    rfl

theorem eq_ok_of_handle {artifact : Artifact}
    (h : cache.perform (.handle (.finished method artifact slot)) = (.blob id, after)) :
    cache.install method artifact slot = (.ok id, after) := by
  rcases hinstall : cache.install method artifact slot with ⟨error | value, last⟩
  · rw [perform_handle_of_refused hinstall] at h
    cases h
  · rw [perform, handle, hinstall] at h
    cases h
    rfl

/-- **A deed is counted**, and who left the slot is. -/
theorem Does.audited {deed : Deed} {outcome : Outcome}
    (hdoes : Does operation before (some deed) outcome after)
    (hperform : before.perform operation = (outcome, after)) :
    after.metrics.audited
      = ((before.metrics.closing (before.leavers deed.blob.method deed.blob.slot)).noting
          deed).audited := by
  cases hdoes with
  | installed hasked =>
    cases operation with
    | install method artifact slot =>
      cases hasked
      exact audited_install (eq_ok_of_ofAttempt hperform) _
    | handle report =>
      cases report with
      | finished method artifact slot =>
        cases hasked
        exact audited_install (eq_ok_of_handle hperform) _
      | gaveUp => cases hasked
    | _ => cases hasked
  | replaced hasked =>
    subst hasked
    exact audited_replace (eq_ok_of_ofAttempt hperform) _
  | emptied hasked =>
    subst hasked
    exact audited_deoptimize (eq_ok_of_ofAttempt hperform)

/-! ## §2. Relocations. -/

/-- How often an operation relocates a blob. -/
def relocations (cache : Cache) : Operation → Nat
  | .move id target =>
    if ((cache.move id target).2.registered.get? id).map Blob.region
        = (cache.registered.get? id).map Blob.region then 0
    else 1
  | .collect policy frames => ((cache.cleared frames).consolidateTrail policy).length
  | _ => 0

/-- How often a session relocates a blob. -/
def relocationsIn (cache : Cache) : List Operation → Nat
  | [] => 0
  | operation :: rest => cache.relocations operation + (cache.perform operation).2.relocationsIn rest

theorem relocationsIn_append (cache : Cache) (first second : List Operation) :
    cache.relocationsIn (first ++ second)
      = cache.relocationsIn first + (cache.after first).relocationsIn second := by
  induction first generalizing cache with
  | nil => exact (Nat.zero_add _).symm
  | cons operation rest ih =>
    rw [List.cons_append, relocationsIn, relocationsIn, ih, after_cons, Nat.add_assoc]

theorem metrics_move (hblob : cache.registered.get? blob.id = some blob)
    (hne : blob.region ≠ target) (hmove : cache.move blob.id target = (.ok (), after)) :
    after.metrics = cache.metrics.shifted 1 0 := by
  rcases cache.move_cases blob.id target with
    ⟨error, hcase⟩ | ⟨found, hfound, ⟨hregion, -⟩ | ⟨-, placement, regions, -, hcase⟩⟩
  · rw [hcase] at hmove
    cases hmove
  · obtain rfl := Option.some.inj (hblob.symm.trans hfound)
    exact absurd hregion hne
  · rw [hcase] at hmove
    cases hmove
    simp [Metrics.shifted]

theorem Turn.metrics {source : RegionKind} {trail : List Change} {stuck : Nat}
    (hturn : Turn policy source cache blob trail stuck after)
    (hblob : cache.registered.get? blob.id = some blob) (hsource : blob.region = source) :
    after.metrics = cache.metrics.shifted trail.length 0 := by
  cases hturn with
  | passed | stuck => exact (Metrics.shifted_zero _).symm
  | moved _ htarget hmove =>
    exact metrics_move hblob (hsource ▸ ne_of_mem_destinations htarget) hmove

theorem Turns.metrics {source : RegionKind} {ids : List BlobId} {trail : List Change} {stuck : Nat}
    (hturns : Turns policy source cache ids trail stuck after) :
    after.metrics = cache.metrics.shifted trail.length 0 := by
  induction hturns with
  | nil => exact (Metrics.shifted_zero _).symm
  | cons hblob hsource hturn _ ih =>
    rw [ih, hturn.metrics hblob hsource, Metrics.shifted_shifted, List.length_append]

/-- Draining counts every relocation it makes. -/
theorem Rounds.metrics {sources : List RegionKind} {trail : List Change} {stuck : Nat}
    (hrounds : Rounds policy cache sources trail stuck after) :
    after.metrics = cache.metrics.shifted trail.length 0 := by
  induction hrounds with
  | nil => exact (Metrics.shifted_zero _).symm
  | cons hround _ ih =>
    obtain ⟨_, hturns⟩ := hround.exists_turns
    rw [ih, List.length_append, hturns.metrics, Metrics.shifted_shifted]

/-! ## §3. Passes. -/

/-- **A pass reports what it counts.** -/
theorem Consistent.collect_counts (h : cache.Consistent made) (hswept : cache.Swept)
    (policy : CollectionPolicy) (frames : FrameSnapshot) :
    ∃ report after, cache.collect policy frames = (.ok report, after)
      ∧ report.zombiesMarked = (cache.leaving frames).size
      ∧ report.blobsReclaimed = (cache.leaving frames).size
      ∧ report.bytesReclaimed = min ((cache.leaving frames).total Blob.size) Word.maxValue
      ∧ report.blobsRelocated = cache.relocations (.collect policy frames)
      ∧ after.metrics
          = (cache.metrics.cleared (cache.leaving frames).size
              ((cache.leaving frames).total Blob.size)).shifted
              (cache.relocations (.collect policy frames)) 1 := by
  obtain ⟨hclear, hcleared, -⟩ := h.clear hswept frames
  obtain ⟨stuck, last, hrounds, -, hfew, hconsolidate⟩ := hcleared.consolidate policy
  have hcollect : cache.collect policy frames
      = (.ok { cache.clearReport frames with
            blobsRelocated := cache.relocations (.collect policy frames)
            relocationFailures := stuck },
          { last with metrics := last.metrics.shifted 0 1 }) := by
    unfold Cache.collect
    dsimp only
    rw [hclear]
    dsimp only
    rw [hconsolidate _ (h.fits_clearReport frames), PassReport.relocate_eq rfl rfl hfew]
    simp [Metrics.shifted, relocations]
  refine ⟨_, _, hcollect, rfl, rfl, rfl, rfl, ?_⟩
  show last.metrics.shifted 0 1 = _
  rw [hrounds.metrics, (h.clears hswept frames).metrics, Metrics.shifted_shifted]
  rfl

/-! ## §4. Operations that do no deed. -/

/-- The census is as before, and the counters note who was reclaimed, and the relocations and passes. -/
structure Shifts (before : Cache) (leaving : Table BlobId Blob) (relocations passes : Nat)
    (after : Cache) : Prop where
  census : ∀ {measure}, Blob.LastingMeasure measure → after.census measure = before.census measure
  reclaimed : ∀ {measure}, Blob.CodeMeasure measure →
    after.reclaimed.total measure = before.reclaimed.total measure + leaving.total measure
  metrics : after.metrics.audited
    = ((before.metrics.cleared leaving.size (leaving.total Blob.size)).shifted
        relocations passes).audited

theorem Shifts.size_reclaimed {leaving : Table BlobId Blob} {relocations passes : Nat}
    (h : before.Shifts leaving relocations passes after) :
    after.reclaimed.size = before.reclaimed.size + leaving.size := by
  rw [Table.size_eq_total, Table.size_eq_total, Table.size_eq_total]
  exact h.reclaimed Blob.codeMeasure_one

/-- Both tables are as before, and requests are counted at most. -/
structure SameBooks (before after : Cache) : Prop where
  registered : after.registered = before.registered
  reclaimed : after.reclaimed = before.reclaimed
  metrics : after.metrics.audited = before.metrics.audited

theorem SameBooks.trans {last : Cache} (h : before.SameBooks after) (h' : after.SameBooks last) :
    before.SameBooks last :=
  ⟨h'.registered.trans h.registered, h'.reclaimed.trans h.reclaimed, h'.metrics.trans h.metrics⟩

theorem sameBooks_refl (cache : Cache) : cache.SameBooks cache := ⟨rfl, rfl, rfl⟩

theorem sameBooks_compileFailed (cache : Cache) (method : MethodId) :
    cache.SameBooks (cache.compileFailed method) := by
  unfold compileFailed
  split <;> exact ⟨rfl, rfl, rfl⟩

theorem sameBooks_invoke (cache : Cache) (method : MethodId) :
    cache.SameBooks (cache.invoke method).2 := by
  unfold invoke
  dsimp only
  split
  · exact ⟨rfl, rfl, rfl⟩
  · split
    · exact ⟨rfl, rfl, rfl⟩
    · exact ⟨rfl, rfl, rfl⟩

theorem Refused.sameBooks (h : before.Refused operation error after) : before.SameBooks after := by
  cases h with
  | untouched | noRoom | taken => exact ⟨rfl, rfl, rfl⟩

theorem SameBooks.shifts (h : before.SameBooks after) : before.Shifts ∅ 0 0 after where
  census _ := census_congr h.registered h.reclaimed _
  reclaimed _ := by
    rw [h.reclaimed]
    rfl
  metrics := by
    show _ = ((before.metrics.cleared 0 0).shifted 0 0).audited
    rw [Metrics.cleared_zero, Metrics.shifted_zero, h.metrics]

/-- A move that leaves the cache as it is relocates nobody. -/
theorem shifts_of_unmoved (hsame : (cache.move id target).2 = cache) :
    cache.Shifts ∅ (cache.relocations (.move id target)) 0 (cache.move id target).2 := by
  have hnone : cache.relocations (.move id target) = 0 := by
    unfold relocations
    dsimp only
    rw [hsame, if_pos rfl]
  rw [hnone, hsame]
  exact (sameBooks_refl cache).shifts

/-- A move out of the blob's region relocates it. -/
theorem Consistent.shifts_of_moved (h : cache.Consistent made)
    (hblob : cache.registered.get? blob.id = some blob) (hne : blob.region ≠ target)
    (hmove : cache.move blob.id target = (.ok (), after)) :
    cache.Shifts ∅ (cache.relocations (.move blob.id target)) 0 after := by
  have hone : cache.relocations (.move blob.id target) = 1 := by
    obtain ⟨placement, hregion, hget⟩ := h.registered_move hblob hne hmove
    unfold relocations
    dsimp only
    rw [hmove, hget, if_pos rfl, hblob, if_neg]
    intro heq
    exact hne ((Option.some.inj heq).symm.trans hregion)
  obtain ⟨carried, regions, metrics, -, hafter⟩ := exists_transfer_of_move hblob hne hmove
  rw [hone]
  constructor
  case census =>
    intro measure hmeasure
    rw [hafter]
    exact census_setPlacement hmeasure cache regions blob.id carried
  case reclaimed =>
    intro measure _
    rw [hafter]
    -- who is registered is not among the reclaimed
    show (cache.reclaimed.modify blob.id _).total measure = _
    rw [Table.modify_of_none (h.sound.retired.get?_reclaimed hblob)]
    rfl
  case metrics =>
    rw [metrics_move hblob hne hmove]
    show _ = ((cache.metrics.cleared 0 0).shifted 1 0).audited
    rw [Metrics.cleared_zero]

theorem Consistent.shifts_move (h : cache.Consistent made) (id : BlobId) (target : RegionKind) :
    cache.Shifts ∅ (cache.relocations (.move id target)) 0 (cache.move id target).2 := by
  rcases hmove : cache.move id target with ⟨error | ⟨⟩, after⟩
  · rw [← hmove]
    exact shifts_of_unmoved (by rw [hmove, move_error hmove])
  · cases hblob : cache.registered.get? id with
    | none =>
      unfold Cache.move find at hmove
      rw [hblob] at hmove
      cases hmove
    | some blob =>
      obtain rfl := h.sound.filed.registered hblob
      by_cases hhere : blob.region = target
      · rcases cache.move_cases blob.id target with
          ⟨error, hcase⟩ | ⟨found, hfound, ⟨-, hcase⟩ | ⟨haway, -⟩⟩
        · rw [hcase] at hmove
          cases hmove
        · rw [← hmove]
          exact shifts_of_unmoved (by rw [hcase])
        · obtain rfl := Option.some.inj (hblob.symm.trans hfound)
          exact absurd hhere haway
      · exact h.shifts_of_moved hblob hhere hmove

theorem Consistent.shifts_collect (h : cache.Consistent made) (hswept : cache.Swept)
    (policy : CollectionPolicy) (frames : FrameSnapshot) :
    cache.Shifts (cache.leaving frames) (cache.relocations (.collect policy frames)) 1
      (cache.collect policy frames).2 := by
  have hcensus : ∀ {measure}, Blob.LastingMeasure measure →
      (cache.collect policy frames).2.census measure = cache.census measure := by
    intro measure hmeasure
    have hsteps : Steps (.collect policy frames) cache 0 (cache.collect policy frames).2 :=
      collect_steps h.sound.filed rfl
    exact census_steps hmeasure h.sound h.room rfl hsteps
  constructor
  case census => exact hcensus
  case reclaimed =>
    intro measure hmeasure
    -- the census stays, and the register loses who leaves
    have hall := hcensus hmeasure.lasting
    have hleft := h.total_collect (fun blob => hmeasure ⟨rfl, rfl, rfl, rfl, rfl, rfl⟩) hswept
      policy frames
    unfold census at hall
    omega
  case metrics =>
    obtain ⟨report, after, hcollect, -, -, -, -, hmetrics⟩ := h.collect_counts hswept policy frames
    rw [hcollect, hmetrics]

/-- A request that tells of no blob was refused. -/
theorem refused_of_not_told {attempt : Attempt BlobId}
    (hperform : cache.perform operation = Outcome.ofAttempt .blob attempt)
    (htold : ∀ id, (cache.perform operation).1 ≠ .blob id) :
    ∃ error after, cache.perform operation = (.refused error, after) := by
  obtain ⟨error | id, after⟩ := attempt
  · exact ⟨error, after, hperform⟩
  · exact absurd (congrArg Prod.fst hperform) (htold id)

/-- **An operation that does no deed** leaves the census, and is counted. -/
theorem Consistent.shifts (h : cache.Consistent made) (hswept : cache.Swept)
    (hmanaged : operation.isDirect = false) (hcounting : operation.isReset = false)
    (htold : ∀ id, (cache.perform operation).1 ≠ .blob id) :
    ∃ leaving, cache.Shifts leaving (cache.relocations operation)
      (if operation.isPass then 1 else 0) (cache.perform operation).2 := by
  cases operation with
  | install | replace | deoptimize =>
    obtain ⟨error, after, hrefused⟩ := refused_of_not_told rfl htold
    rw [hrefused]
    exact ⟨∅, (refused_of_perform rfl hrefused).sameBooks.shifts⟩
  | move id target =>
    rw [perform, ofAttempt_snd]
    exact ⟨∅, h.shifts_move id target⟩
  | queue method =>
    have hqueued : cache.SameBooks (cache.queue method) := ⟨rfl, rfl, rfl⟩
    exact ⟨∅, hqueued.shifts⟩
  | compileFailed method => exact ⟨∅, (sameBooks_compileFailed cache method).shifts⟩
  | invoke method => exact ⟨∅, (sameBooks_invoke cache method).shifts⟩
  | handle report =>
    cases report with
    | gaveUp method => exact ⟨∅, (sameBooks_compileFailed cache method).shifts⟩
    | finished method artifact slot =>
      rcases hinstall : cache.install method artifact slot with ⟨error | id, after⟩
      · have hrefused : cache.Refused (.install method artifact slot) error after :=
          refused_of_install rfl rfl hinstall
        rw [perform_handle_of_refused hinstall]
        exact ⟨∅, (hrefused.sameBooks.trans (sameBooks_compileFailed after method)).shifts⟩
      · exact absurd (by rw [perform, handle, hinstall]) (htold id)
  | collect policy frames =>
    rw [perform, ofAttempt_snd]
    exact ⟨_, h.shifts_collect hswept policy frames⟩
  | resetMetrics => cases hcounting
  | _ => cases hmanaged

end Cache

end JitCache
