/-
  JitCache.Proofs.Collection.Interruption
  ───────────────────────────────────────
  **A pass that fails half-way leaves nothing half-done.**

  When regions are called behind the cache's back, a zombie may be missing from
  the region its placement names; it may be resident elsewhere, or twice.  The
  pass stops at the first such zombie.  Whoever comes before it is gone from the
  register and from his region and is counted; it and whoever comes after are as
  the marking phase left them.  Nothing is moved, and the pass is not counted.

  Reclaiming looks at one blob at a time and at its own region only, so the list
  of zombies can be cut where the first is missing: what is before the cut is
  reclaimed as if there were nothing after it.

  Main statements:
    `Sound.marks`               — the first phase, part by part
    `reclaimZombies_of_missing` — the second phase up to the first missing zombie
    `reclaimZombies_of_all`     — and with none missing
    `failing_reclamation_stops_cleanly` — whole passes, after every session
-/
import JitCache.Proofs.Collection.Clearing

namespace JitCache

namespace Cache

/-! ## §1. What the phases do. -/

/-- What the first phase of a pass does: it gives up the non-entrant blobs that no frame executes,
and counts them. -/
structure Marks (before : Cache) (frames : FrameSnapshot) (after : Cache) : Prop where
  registered : after.registered = before.registered.filterMap fun blob => some (blob.marked frames)
  rest : after = { before with
    registered := after.registered
    metrics := { before.metrics with
      zombiesMarked := before.metrics.zombiesMarked
        + UInt64.ofNat (before.registered.total fun blob => if blob.Doomed frames then 1 else 0) } }

/-- The third phase: consolidation, if the policy asks for it, and the count of passes brought to
their end. -/
def conclude (cache : Cache) (policy : CollectionPolicy) (report : PassReport) :
    Attempt PassReport :=
  match cache.consolidate policy report with
  | (.error error, cache) => (.error error, cache)
  | (.ok report, cache) =>
    (.ok report,
      { cache with metrics := { cache.metrics with collections := cache.metrics.collections + 1 } })

/-- The blob is registered as it was and resident wherever it was, be it the right place or not. -/
structure Spares (before : Cache) (blob : Blob) (after : Cache) : Prop where
  registered : after.registered.get? blob.id = some blob
  resident : ∀ kind, (after.regions.get kind).residents.get? blob.id
    = (before.regions.get kind).residents.get? blob.id

variable {cache after : Cache} {made : Nat} {frames : FrameSnapshot} {policy : CollectionPolicy}
  {blob stuck : Blob} {blobs : List Blob}

theorem Sound.marks (h : cache.Sound made) (hroom : made < UInt64.size) (frames : FrameSnapshot) :
    cache.Marks frames (cache.markZombies frames).2 where
  registered := registered_markZombies h frames
  rest := by
    have hrest := h.snd_markZombies_eq hroom frames
    rw [fst_markZombies h hroom] at hrest
    exact hrest

/-- A pass is its three phases. -/
theorem collect_eq (cache : Cache) (policy : CollectionPolicy) (frames : FrameSnapshot) :
    cache.collect policy frames
      = match (cache.markZombies frames).2.reclaimZombies
          { zombiesMarked := (cache.markZombies frames).1 } with
        | (.error error, after) => (.error error, after)
        | (.ok report, after) => after.conclude policy report := rfl

/-! ## §2. Zombies in order. -/

/-- Cutting an ascending list at one of its blobs. -/
theorem exists_cut (hascending : blobs.Pairwise fun a b => number a.id < number b.id)
    (hmem : stuck ∈ blobs) :
    ∃ later, blobs
      = (blobs.filter fun blob => number blob.id < number stuck.id) ++ stuck :: later := by
  obtain ⟨earlier, later, rfl⟩ := List.append_of_mem hmem
  obtain ⟨-, hrest, hbefore⟩ := List.pairwise_append.mp hascending
  obtain ⟨hbehind, -⟩ := List.pairwise_cons.mp hrest
  refine ⟨later, ?_⟩
  have hearlier : earlier.filter (fun blob => number blob.id < number stuck.id) = earlier :=
    List.filter_eq_self.mpr fun blob hblob => by
      simpa using hbefore blob hblob stuck List.mem_cons_self
  have hlater : (stuck :: later).filter (fun blob => number blob.id < number stuck.id) = [] := by
    refine List.filter_eq_nil_iff.mpr (List.forall_mem_cons.mpr ⟨by simp, ?_⟩)
    intro blob hblob
    have hlt := hbehind blob hblob
    simp only [decide_eq_true_eq]
    omega
  rw [List.filter_append, hearlier, hlater, List.append_nil]

/-! ## §3. The second phase. -/

/-- Who is not removed is spared. -/
theorem Removes.spares (h : cache.Removes blobs after)
    (hblob : cache.registered.get? blob.id = some blob)
    (hother : ∀ other ∈ blobs, other.id ≠ blob.id) : cache.Spares blob after where
  registered := (h.registered blob.id fun other hmem => hother other hmem).trans hblob
  resident kind := h.resident kind blob.id fun other hmem heq => absurd heq (hother other hmem)

/-- **The second phase stops at the first zombie that is missing** from its region: who comes
before it is reclaimed, and the others are spared. -/
theorem reclaimZombies_of_missing (hfiled : cache.Filed) (hrecorded : cache.Recorded)
    (hstuck : stuck ∈ cache.atStage .zombie) (hmissing : ¬ cache.IsResident stuck)
    (hresident : ∀ blob ∈ cache.atStage .zombie, number blob.id < number stuck.id →
      cache.IsResident blob) {report : PassReport} (hfits : report.Fits) :
    ∃ after, cache.reclaimZombies report = (.error (.unknownBlob stuck.id), after)
      ∧ cache.Reclaims
          ((cache.atStage .zombie).filter fun blob => number blob.id < number stuck.id) after
      ∧ ∀ blob ∈ cache.atStage .zombie, number stuck.id ≤ number blob.id →
          cache.Spares blob after := by
  have hascending := hfiled.ascending_atStage .zombie
  have hall := hfiled.allAt_atStage .zombie
  obtain ⟨later, hcut⟩ := exists_cut hascending hstuck
  have hearlier : ∀ blob ∈ (cache.atStage .zombie).filter fun blob => number blob.id < number stuck.id,
      cache.IsResident blob := by
    intro blob hmem
    obtain ⟨hzombie, hlt⟩ := List.mem_filter.mp hmem
    exact hresident blob hzombie (of_decide_eq_true hlt)
  obtain ⟨after, hreclaims, happend⟩ := reclaimEach_append (hall.filter _) hrecorded hearlier
  have hspares : ∀ blob ∈ cache.atStage .zombie, number stuck.id ≤ number blob.id →
      cache.Spares blob after := by
    intro blob hmem hle
    refine hreclaims.removes.spares (hall.registered blob hmem) fun other hother heq => ?_
    have hlt := (List.mem_filter.mp hother).2
    rw [heq, decide_eq_true_eq] at hlt
    omega
  -- spared, the missing zombie is still missing when its turn comes
  have hspared := hspares stuck hstuck (Nat.le_refl _)
  have hstill : ¬ after.IsResident stuck := by
    unfold IsResident Table.contains
    rw [hspared.resident]
    exact hmissing
  have hrefused := reclaim_of_not_resident (hreclaims.recorded hrecorded) hspared.registered
    (hall.stage stuck hstuck) hstill
  refine ⟨after, ?_, hreclaims, hspares⟩
  unfold reclaimZombies
  rw [hcut, happend _ _ hfits, reclaimEach, hrefused]

/-- With none missing, all are reclaimed. -/
theorem reclaimZombies_of_all (hfiled : cache.Filed) (hrecorded : cache.Recorded)
    (hresident : ∀ blob ∈ cache.atStage .zombie, cache.IsResident blob) {report : PassReport}
    (hfits : report.Fits) :
    ∃ after, cache.reclaimZombies report
        = (.ok (report.reclaim (cache.atStage .zombie).length
            ((cache.atStage .zombie).map Blob.size).sum), after)
      ∧ cache.Reclaims (cache.atStage .zombie) after := by
  obtain ⟨after, hreclaims, happend⟩ :=
    reclaimEach_append (hfiled.allAt_atStage .zombie) hrecorded hresident
  have hok := happend [] report hfits
  rw [List.append_nil] at hok
  exact ⟨after, hok, hreclaims⟩

end Cache

/-! ## §4. Whole passes. -/

open Cache in
/-- **Failing reclamation stops cleanly**, after every session, also one that calls the regions
directly.  A pass first marks.  If a zombie is missing from the region that its placement names, the
pass is refused at the first such zombie: those with smaller handles are reclaimed, and nothing else
has happened.  If none is missing, all are reclaimed and the pass goes on. -/
theorem failing_reclamation_stops_cleanly {settings : Settings} {start : Cache}
    {operations : List Operation} (hnew : Cache.new settings = .ok start)
    (hroom : start.attemptsIn operations < UInt64.size) (policy : CollectionPolicy)
    (frames : FrameSnapshot) :
    let cache := start.after operations
    let marked := (cache.markZombies frames).2
    let zombies := marked.atStage .zombie
    cache.Marks frames marked
      ∧ (zombies.Pairwise fun a b => number a.id < number b.id)
      ∧ (∀ blob, blob ∈ zombies ↔
          marked.registered.get? blob.id = some blob ∧ blob.liveness = .zombie)
      ∧ (∀ stuck ∈ zombies, ¬ marked.IsResident stuck →
          (∀ blob ∈ zombies, number blob.id < number stuck.id → marked.IsResident blob) →
            ∃ after, cache.collect policy frames = (.error (.unknownBlob stuck.id), after)
              ∧ marked.Reclaims (zombies.filter fun blob => number blob.id < number stuck.id) after
              ∧ ∀ blob ∈ zombies, number stuck.id ≤ number blob.id → marked.Spares blob after)
      ∧ ((∀ blob ∈ zombies, marked.IsResident blob) →
          ∃ after, marked.Reclaims zombies after
            ∧ cache.collect policy frames
              = after.conclude policy
                  { zombiesMarked := (cache.markZombies frames).1
                    blobsReclaimed := zombies.length
                    bytesReclaimed := min (zombies.map Blob.size).sum Word.maxValue }) := by
  intro cache marked zombies
  have h : cache.Sound (start.attemptsIn operations) := sound_after hnew hroom
  have hmark : Steps (.collect policy frames) cache 0 marked := markZombies_steps h.filed rfl
  have hmarked : marked.Sound (start.attemptsIn operations) := sound_steps h hroom hmark
  have hfiled := hmarked.filed
  refine ⟨h.marks hroom frames, hfiled.ascending_atStage .zombie, fun _ => hfiled.mem_atStage_iff, ?_, ?_⟩
  · intro stuck hstuck hmissing hresident
    obtain ⟨after, hrefused, hleft⟩ := reclaimZombies_of_missing hfiled hmarked.recorded hstuck
      hmissing hresident (PassReport.fits_marked (cache.markZombies frames).1)
    exact ⟨after, by rw [collect_eq, hrefused], hleft⟩
  · intro hresident
    obtain ⟨after, hreclaimed, hreclaims⟩ := reclaimZombies_of_all hfiled hmarked.recorded hresident
      (PassReport.fits_marked (cache.markZombies frames).1)
    have hfew : zombies.length ≤ Word.maxValue := hmarked.length_atStage_le hroom .zombie
    refine ⟨after, hreclaims, ?_⟩
    rw [collect_eq, hreclaimed, PassReport.reclaim_eq rfl rfl hfew]

/-- Three blobs are made and leave their slots, and the second one's room is released directly. -/
def stranding : List Operation :=
  [.install ⟨1⟩ ⟨.tier4, ⟨#[1, 2, 3]⟩⟩ .standard, .install ⟨2⟩ ⟨.tier2, ⟨#[4, 5]⟩⟩ .standard,
    .install ⟨3⟩ ⟨.tier4, ⟨#[6]⟩⟩ .standard, .deoptimize ⟨1⟩ .standard,
    .deoptimize ⟨2⟩ .standard, .deoptimize ⟨3⟩ .standard, .releaseIn .profiled ⟨2⟩]

/-- The first blob is reclaimed; the second is registered still, and so is the third, which is not
missing. -/
theorem failing_reclamation_stops_cleanly_after_stranding :
    let cache := (Cache.ofSettings {}).after stranding
    let marked := (cache.markZombies {}).2
    let last := (cache.collect ⟨true, 25, true⟩ {}).2
    last.registered.keys = [⟨2⟩, ⟨3⟩] ∧ last.metrics.zombiesMarked = 3
      ∧ last.metrics.blobsReclaimed = 1 ∧ last.metrics.collections = 0
      ∧ (cache.collect ⟨true, 25, true⟩ {}).1 = .error (.unknownBlob ⟨2⟩)
      ∧ marked.Reclaims ((marked.atStage .zombie).filter fun blob => number blob.id < 2) last := by
  intro cache marked last
  have hnew : Cache.new {} = .ok (Cache.ofSettings {}) := rfl
  obtain ⟨-, -, -, hstops, -⟩ := failing_reclamation_stops_cleanly hnew
    (show (Cache.ofSettings {}).attemptsIn stranding < UInt64.size by decide) ⟨true, 25, true⟩ {}
  have hmissing : ∃ stuck ∈ marked.atStage .zombie, number stuck.id = 2 ∧ stuck.id = ⟨2⟩
      ∧ ¬ marked.IsResident stuck
      ∧ ∀ blob ∈ marked.atStage .zombie, number blob.id < 2 → marked.IsResident blob := by
    decide
  obtain ⟨stuck, hstuck, htwo, hid, hnot, hbefore⟩ := hmissing
  obtain ⟨after, hcollect, hreclaims, -⟩ := hstops stuck hstuck hnot (htwo ▸ hbefore)
  have hlast : last = after := congrArg Prod.snd hcollect
  rw [htwo] at hreclaims
  exact ⟨by decide, by decide, by decide, by decide, by decide, hlast ▸ hreclaims⟩

end JitCache
