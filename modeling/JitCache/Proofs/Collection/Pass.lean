/-
  JitCache.Proofs.Collection.Pass
  ───────────────────────────────
  **A collection pass does exactly what it reports, and is never refused.**

  As long as nobody calls the regions past the blob table, no zombie is left
  over between passes: only a pass makes one, and the same pass reclaims it.  So
  the zombies a pass reclaims are those it has marked, and who is registered
  afterwards was entrant or on a call stack.  Relocating changes none of this:
  it moves used bytes from one region to another.

  Main statements:
    `swept_after`         — no zombie waits between operations
    `collection_is_exact` — the pass, its report and what is left
-/
import JitCache.Proofs.Collection.Draining

namespace JitCache

namespace Cache

/-- The bytes of code in all regions together. -/
def usedBytes (cache : Cache) : Nat :=
  (RegionKind.all.map fun kind => (cache.regions.get kind).used).sum

/-- The blobs registered in the one cache that are not registered in the other. -/
def removed (before after : Cache) : List Blob :=
  before.registered.values.filter fun blob => !after.registered.contains blob.id

/-- What a pass has done to a cache, and what it reports. -/
structure Collected (before : Cache) (frames : FrameSnapshot) (report : PassReport)
    (after : Cache) : Prop where
  kept : ∀ {id old}, before.registered.get? id = some old →
    (old.liveness = .entrant ∨ frames.contains old.entry = true) →
      ∃ new, after.registered.get? id = some new ∧ old.SameCode new ∧ new.liveness = old.liveness
  only : ∀ {id new}, after.registered.get? id = some new →
    ∃ old, before.registered.get? id = some old
      ∧ (old.liveness = .entrant ∨ frames.contains old.entry = true)
  no_zombie : ∀ {id blob}, after.registered.get? id = some blob → blob.liveness ≠ .zombie
  marked : report.zombiesMarked = (before.removed after).length
  reclaimed : report.blobsReclaimed = (before.removed after).length
  /-- The sum of the code lengths, or the largest word. -/
  bytes : report.bytesReclaimed = min ((before.removed after).map Blob.size).sum Word.maxValue
  used : after.usedBytes + ((before.removed after).map Blob.size).sum = before.usedBytes
  /-- What fits a word is reported exactly, and that is what the used bytes drop by. -/
  exact : ((before.removed after).map Blob.size).sum ≤ Word.maxValue →
    report.bytesReclaimed = ((before.removed after).map Blob.size).sum
      ∧ after.usedBytes + report.bytesReclaimed = before.usedBytes

variable {cache after : Cache} {made : Nat} {operation : Operation} {policy : CollectionPolicy}
  {frames : FrameSnapshot} {id : BlobId}

/-! ## §1. One pass. -/

/-- **A pass is never refused.**  It takes out of the register who is not kept, then relocates. -/
theorem Consistent.collect (h : cache.Consistent made) (hswept : cache.Swept)
    (policy : CollectionPolicy) (frames : FrameSnapshot) :
    ∃ stuck last metrics,
      cache.collect policy frames
        = (.ok { cache.clearReport frames with
            blobsRelocated := ((cache.cleared frames).consolidateTrail policy).length
            relocationFailures := stuck }, { last with metrics })
      ∧ Draining made (cache.cleared frames) ((cache.cleared frames).consolidateTrail policy) last
      ∧ Rounds policy (cache.cleared frames) policy.sources
          ((cache.cleared frames).consolidateTrail policy) stuck last := by
  obtain ⟨hclear, hcleared, -⟩ := h.clear hswept frames
  obtain ⟨stuck, last, hrounds, hdraining, hfew, hconsolidate⟩ := hcleared.consolidate policy
  refine ⟨stuck, last, { last.metrics with collections := last.metrics.collections + 1 }, ?_,
    hdraining, hrounds⟩
  unfold Cache.collect
  dsimp only
  rw [hclear]
  dsimp only
  rw [hconsolidate _ (h.fits_clearReport frames), PassReport.relocate_eq rfl rfl hfew]

theorem Consistent.after_collect (h : cache.Consistent made) (policy : CollectionPolicy)
    (frames : FrameSnapshot) : (cache.collect policy frames).2.Consistent made := by
  have hsteps : Steps (.collect policy frames) cache 0 (cache.collect policy frames).2 :=
    collect_steps h.sound.filed rfl
  exact h.steps rfl hsteps

/-- Who is registered after a pass, wherever he is placed now. -/
theorem Consistent.codes_collect (h : cache.Consistent made) (hswept : cache.Swept)
    (policy : CollectionPolicy) (frames : FrameSnapshot) :
    (cache.collect policy frames).2.codes
      = cache.registered.filterMap fun blob =>
          if frames.keeps blob then some blob.unplaced else none := by
  obtain ⟨stuck, last, metrics, hcollect, hdraining, -⟩ := h.collect hswept policy frames
  obtain ⟨-, -, -, hregistered⟩ := h.clear hswept frames
  rw [hcollect]
  show last.codes = _
  rw [hdraining.drained.codes]
  unfold codes
  rw [hregistered, Table.filterMap_filterMap]
  refine Table.filterMap_congr fun _ blob _ => ?_
  cases frames.keeps blob <;> rfl

/-- The same for one handle. -/
theorem Consistent.registered_collect (h : cache.Consistent made) (hswept : cache.Swept)
    (hcollect : (cache.collect policy frames).2 = after) (id : BlobId) :
    (after.registered.get? id).map Blob.unplaced
      = (cache.registered.get? id).bind fun blob =>
          if frames.keeps blob then some blob.unplaced else none := by
  have hcodes := congrArg (fun table => table.get? id) (h.codes_collect hswept policy frames)
  unfold codes at hcodes
  rw [hcollect] at hcodes
  simp only [Table.get?_filterMap] at hcodes
  rw [← hcodes]
  cases after.registered.get? id <;> rfl

/-- Who is registered after a pass was so before, and kept. -/
theorem Consistent.exists_old_of_collect (h : cache.Consistent made) (hswept : cache.Swept)
    (hcollect : (cache.collect policy frames).2 = after) {new : Blob}
    (hnew : after.registered.get? id = some new) :
    ∃ old, cache.registered.get? id = some old ∧ frames.keeps old = true
      ∧ new.unplaced = old.unplaced := by
  have hget := h.registered_collect hswept hcollect id
  rw [hnew, Option.map_some] at hget
  obtain ⟨old, hold, hkept⟩ := Option.bind_eq_some_iff.mp hget.symm
  split at hkept
  · next hkeeps => exact ⟨old, hold, hkeeps, (Option.some.inj hkept).symm⟩
  · cases hkept

/-- Who is kept is registered after the pass. -/
theorem Consistent.exists_new_of_collect (h : cache.Consistent made) (hswept : cache.Swept)
    (hcollect : (cache.collect policy frames).2 = after) {old : Blob}
    (hold : cache.registered.get? id = some old) (hkeeps : frames.keeps old = true) :
    ∃ new, after.registered.get? id = some new ∧ new.unplaced = old.unplaced := by
  have hget := h.registered_collect hswept hcollect id
  rw [hold, Option.bind_some, if_pos hkeeps] at hget
  exact Option.map_eq_some_iff.mp hget

/-- Who is not kept is not registered after the pass. -/
theorem Consistent.contains_collect (h : cache.Consistent made) (hswept : cache.Swept)
    (hcollect : (cache.collect policy frames).2 = after) {old : Blob}
    (hold : cache.registered.get? id = some old) :
    after.registered.contains id = frames.keeps old := by
  cases hkeeps : frames.keeps old with
  | true =>
    obtain ⟨new, hnew, -⟩ := h.exists_new_of_collect hswept hcollect hold hkeeps
    exact Table.contains_iff.mpr ⟨new, hnew⟩
  | false =>
    have hget := h.registered_collect hswept hcollect id
    rw [hold, Option.bind_some, hkeeps] at hget
    exact Table.contains_eq_false_iff.mpr (Option.map_eq_none_iff.mp hget)

/-! ## §2. No zombie waits. -/

/-- Blobs that differ in their placement only. -/
theorem same_of_unplaced {old new : Blob} (h : new.unplaced = old.unplaced) :
    old.SameCode new ∧ new.liveness = old.liveness := by
  obtain ⟨id, method, entry, slot, level, code, liveness, -⟩ := Blob.mk.inj h
  exact ⟨⟨id, method, entry, slot, level, code⟩, liveness⟩

theorem Consistent.swept_collect (h : cache.Consistent made) (hswept : cache.Swept)
    (policy : CollectionPolicy) (frames : FrameSnapshot) :
    (cache.collect policy frames).2.Swept := by
  intro id new hnew
  obtain ⟨old, hold, -, hsame⟩ := h.exists_old_of_collect hswept rfl hnew
  rw [(same_of_unplaced hsame).2]
  exact hswept id old hold

/-- Only a pass makes a zombie, and it leaves none. -/
theorem Consistent.swept_perform (h : cache.Consistent made) (hswept : cache.Swept)
    (operation : Operation) (hroom : made + cache.attempts operation < UInt64.size) :
    (cache.perform operation).2.Swept := by
  by_cases hpass : ∃ policy frames, operation = .collect policy frames
  · obtain ⟨policy, frames, rfl⟩ := hpass
    rw [perform, ofAttempt_snd]
    exact h.swept_collect hswept policy frames
  · intro id new hnew
    have hheld := held?_of_registered hnew
    cases hwas : cache.held? id with
    | none =>
      rw [(born_perform h.sound hroom hwas hheld).1]
      rintro ⟨⟩
    | some old =>
      obtain rfl := h.sound.filed.held hwas
      obtain ⟨found, hfound, hfollows⟩ := follows_perform h.sound hroom hwas
      obtain rfl := Option.some.inj (hfound.symm.trans hheld)
      cases hregistered : cache.registered.get? old.id with
      | none =>
        -- who is out of the register stays out
        rw [hfollows.stays.gone hregistered] at hnew
        cases hnew
      | some other =>
        obtain rfl := Option.some.inj ((held?_of_registered hregistered).symm.trans hwas)
        cases hfollows.ages with
        | stays hsame =>
          rw [hsame]
          exact hswept _ _ hregistered
        | closed _ _ his =>
          rw [his]
          rintro ⟨⟩
        | givenUp his => exact absurd ⟨_, _, his⟩ hpass

theorem swept_session {operations : List Operation} (h : cache.Consistent made)
    (hswept : cache.Swept) (hroom : made + cache.attemptsIn operations < UInt64.size)
    (hmanaged : ∀ operation ∈ operations, operation.isDirect = false) :
    (cache.after operations).Swept := by
  induction operations generalizing cache made with
  | nil => exact hswept
  | cons operation rest ih =>
    rw [attemptsIn, ← Nat.add_assoc] at hroom
    have hroom' : made + cache.attempts operation < UInt64.size := by omega
    have hnow := hmanaged operation List.mem_cons_self
    have hnext : (cache.perform operation).2.Consistent (made + cache.attempts operation) := by
      refine ⟨hroom', sound_perform h.sound operation hroom', ?_⟩
      exact booked_steps h.booked h.sound hroom' hnow (perform_steps h.sound.filed operation)
    rw [after_cons]
    exact ih hnext (h.swept_perform hswept operation hroom') hroom
      fun other hmem => hmanaged other (List.mem_cons_of_mem _ hmem)

/-- **No zombie waits after a session** that leaves the regions to the cache. -/
theorem swept_after {settings : Settings} {start : Cache} {operations : List Operation}
    (hnew : Cache.new settings = .ok start)
    (hmanaged : ∀ operation ∈ operations, operation.isDirect = false)
    (hroom : start.attemptsIn operations < UInt64.size) : (start.after operations).Swept := by
  rw [eq_of_new hnew] at hroom ⊢
  have hstart : (ofSettings settings).Consistent 0 :=
    ⟨by decide, sound_ofSettings settings, booked_ofSettings settings⟩
  exact swept_session hstart nofun (by rwa [Nat.zero_add]) hmanaged

/-! ## §3. What is left, and the used bytes. -/

/-- The code of all registered blobs is in some region. -/
theorem Consistent.usedBytes_eq (h : cache.Consistent made) :
    cache.usedBytes = cache.registered.total Blob.size := by
  have hused := h.booked.used_eq h.sound.regions
  show (cache.regions.get .profiled).used
    + ((cache.regions.get .nonProfiled).used + ((cache.regions.get .nonMethod).used + 0)) = _
  rw [hused, hused, hused, Nat.add_zero, Table.total_add, Table.total_add]
  congr 1
  funext blob
  cases blob.region <;> simp

theorem total_codes {measure : Blob → Nat} (hmeasure : ∀ blob, measure blob.unplaced = measure blob)
    (cache : Cache) : cache.codes.total measure = cache.registered.total measure := by
  unfold codes
  rw [Table.total_filterMap]
  congr 1
  funext blob
  exact hmeasure blob

/-- A pass removes the blobs it does not keep. -/
theorem Consistent.sum_removed (h : cache.Consistent made) (hswept : cache.Swept)
    (hcollect : (cache.collect policy frames).2 = after) (measure : Blob → Nat) :
    ((cache.removed after).map measure).sum = (cache.leaving frames).total measure := by
  unfold removed
  rw [Table.sum_filter_values, total_leaving]
  refine Table.total_congr fun id blob hblob => ?_
  rw [h.sound.filed.registered hblob, h.contains_collect hswept hcollect hblob]
  cases frames.keeps blob <;> rfl

/-- A sum over the register loses what leaves, wherever the others are placed now. -/
theorem Consistent.total_collect {measure : Blob → Nat}
    (hmeasure : ∀ blob, measure blob.unplaced = measure blob) (h : cache.Consistent made)
    (hswept : cache.Swept) (policy : CollectionPolicy) (frames : FrameSnapshot) :
    (cache.collect policy frames).2.registered.total measure + (cache.leaving frames).total measure
      = cache.registered.total measure := by
  rw [← total_codes hmeasure, h.codes_collect hswept policy frames, Table.total_filterMap,
    total_leaving, Table.total_add]
  congr 1
  funext blob
  cases frames.keeps blob with
  | true => exact hmeasure blob
  | false => exact Nat.zero_add (measure blob)

theorem Consistent.usedBytes_collect (h : cache.Consistent made) (hswept : cache.Swept)
    (policy : CollectionPolicy) (frames : FrameSnapshot) :
    (cache.collect policy frames).2.usedBytes + (cache.leaving frames).total Blob.size
      = cache.usedBytes := by
  rw [(h.after_collect policy frames).usedBytes_eq, h.usedBytes_eq]
  exact h.total_collect (fun _ => rfl) hswept policy frames

theorem keeps_iff {blob : Blob} :
    frames.keeps blob = true ↔ blob.liveness = .entrant ∨ frames.contains blob.entry = true := by
  unfold FrameSnapshot.keeps Blob.isEntrant
  rw [Bool.or_eq_true, decide_eq_true_eq]

/-- A pass on a consistent cache does what it reports. -/
theorem Consistent.collected (h : cache.Consistent made) (hswept : cache.Swept)
    (policy : CollectionPolicy) (frames : FrameSnapshot) :
    ∃ report after, cache.collect policy frames = (.ok report, after)
      ∧ cache.Collected frames report after := by
  obtain ⟨stuck, last, metrics, hcollect, -, -⟩ := h.collect hswept policy frames
  refine ⟨_, _, hcollect, ?_⟩
  have hafter : (cache.collect policy frames).2 = { last with metrics } :=
    congrArg Prod.snd hcollect
  have hremoved := h.sum_removed hswept hafter
  have hbytes : (cache.clearReport frames).bytesReclaimed
      = min ((cache.removed { last with metrics }).map Blob.size).sum Word.maxValue := by
    rw [hremoved]
    rfl
  have hused : ({ last with metrics } : Cache).usedBytes
      + ((cache.removed { last with metrics }).map Blob.size).sum = cache.usedBytes := by
    rw [hremoved, ← hafter]
    exact h.usedBytes_collect hswept policy frames
  have hlength : (cache.removed { last with metrics }).length = (cache.leaving frames).size := by
    rw [Table.size_eq_total, ← hremoved, List.map_const', List.sum_replicate_nat, Nat.mul_one]
  constructor
  case kept =>
    intro id old hold hlive
    obtain ⟨new, hnew, hsame⟩ := h.exists_new_of_collect hswept hafter hold (keeps_iff.mpr hlive)
    exact ⟨new, hnew, same_of_unplaced hsame⟩
  case only =>
    intro id new hnew
    obtain ⟨old, hold, hkeeps, -⟩ := h.exists_old_of_collect hswept hafter hnew
    exact ⟨old, hold, keeps_iff.mp hkeeps⟩
  case no_zombie =>
    intro id blob hblob
    rw [← hafter] at hblob
    exact h.swept_collect hswept policy frames id blob hblob
  case marked => exact hlength.symm
  case reclaimed => exact hlength.symm
  case bytes => exact hbytes
  case used => exact hused
  case exact =>
    intro hword
    have hexact := hbytes.trans (Nat.min_eq_left hword)
    exact ⟨hexact, hexact ▸ hused⟩

end Cache

/-- A blob is replaced twice while a frame executes the first version; a second method is small. -/
def upgrades : List Operation :=
  [.install ⟨1⟩ ⟨.tier2, ⟨#[1, 2, 3]⟩⟩ .standard, .replace ⟨1⟩ .standard none none,
    .replace ⟨1⟩ .standard none none, .install ⟨2⟩ ⟨.tier4, ⟨#[4]⟩⟩ .standard]

end JitCache
