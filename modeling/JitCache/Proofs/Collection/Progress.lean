/-
  JitCache.Proofs.Collection.Progress
  ───────────────────────────────────
  **Passes do not go round in circles.**

  Passes that follow each other, whatever their policies and frames, change the
  layout one relocation or reclamation at a time.  Every change raises the
  potential, so no layout comes back, and there are only so many layouts: three
  regions for each blob that stays registered, or four places for each that was
  registered to begin with, the fourth being out of the register.

  Main statements:
    `Consistent.traced`          — passes as a list of changes
    `Table.length_le_of_nodup`   — how many tables with these keys there are
    `consolidation_never_cycles` — no layout comes back
-/
import JitCache.Proofs.Collection.Pass
import JitCache.Proofs.Collection.Potential

namespace JitCache

/-! ## §1. Counting tables. -/

namespace Table

variable {K V : Type} [Numbered K]

/-- Among different tables with keys from this list there are only as many as there are ways to
answer for its keys. -/
theorem length_le_of_nodup [DecidableEq V] {tables : List (Table K V)} (keys : List K)
    (answers : Finset (Option V)) (hnodup : tables.Nodup)
    (hanswers : ∀ table ∈ tables, ∀ key ∈ keys, table.get? key ∈ answers)
    (hkeys : ∀ table ∈ tables, ∀ key, table.contains key = true → key ∈ keys) :
    tables.length ≤ answers.card ^ keys.length := by
  classical
  -- a table is told by its answers for the keys
  have hinjective : ∀ a ∈ tables, ∀ b ∈ tables,
      (fun i : Fin keys.length => a.get? keys[i]) = (fun i => b.get? keys[i]) → a = b := by
    intro a ha b hb heq
    apply Table.ext
    intro key
    by_cases hmem : key ∈ keys
    · obtain ⟨i, hi, rfl⟩ := List.getElem_of_mem hmem
      exact congrFun heq ⟨i, hi⟩
    · have hnone : ∀ table ∈ tables, table.get? key = none := fun table htable =>
        contains_eq_false_iff.mp (Bool.eq_false_iff.mpr (mt (hkeys table htable key) hmem))
      rw [hnone a ha, hnone b hb]
  have hmapped := hnodup.map_on hinjective
  rw [← List.length_map, ← List.toFinset_card_of_nodup hmapped, ← Fintype.card_piFinset_const]
  refine Finset.card_le_card fun told htold => ?_
  obtain ⟨table, htable, rfl⟩ := List.mem_map.mp (List.mem_toFinset.mp htold)
  exact Fintype.mem_piFinset.mpr fun i => hanswers table htable _ (List.getElem_mem i.isLt)

end Table

/-- One collection pass to be run. -/
structure Pass where
  policy : CollectionPolicy
  frames : FrameSnapshot

namespace Cache

/-! ## §2. The changes that passes make. -/

/-- The changes that reclaiming these blobs makes. -/
def reclaimTrail : List Blob → Cache → List Change
  | [], _ => []
  | blob :: rest, cache =>
    match cache.reclaim blob with
    | (.ok (some _), next) => ⟨cache, next⟩ :: reclaimTrail rest next
    | (.ok none, next) => reclaimTrail rest next
    | (.error _, _) => []

/-- The changes that the second phase of a pass makes. -/
def clearTrail (cache : Cache) (frames : FrameSnapshot) : List Change :=
  reclaimTrail ((cache.markZombies frames).2.atStage .zombie) (cache.markZombies frames).2

/-- The changes that a pass makes. -/
def passTrail (cache : Cache) (pass : Pass) : List Change :=
  cache.clearTrail pass.frames ++ (cache.cleared pass.frames).consolidateTrail pass.policy

/-- The changes that passes make one after the other. -/
def trail (cache : Cache) : List Pass → List Change
  | [] => []
  | pass :: rest =>
    cache.passTrail pass ++ (cache.collect pass.policy pass.frames).2.trail rest

/-- The cache after passes one after the other. -/
def afterPasses (cache : Cache) (passes : List Pass) : Cache :=
  cache.after (passes.map fun pass => .collect pass.policy pass.frames)

/-- These changes raise the potential one by one and lead from one cache to the other. -/
structure Traced (made : Nat) (before : Cache) (trail : List Change) (after : Cache) : Prop where
  consistent : after.Consistent made
  linked : Linked before trail after
  precedes : ∀ change ∈ trail, Precedes made change.before change.after

/-- What one pass makes of a cache: it reclaims, then it relocates, and reports how often. -/
structure PassTraced (before : Cache) (pass : Pass) : Prop where
  reclaims : ∀ change ∈ before.clearTrail pass.frames, ∃ blob, change.Reclaims blob
  relocates : ∀ change ∈ (before.cleared pass.frames).consolidateTrail pass.policy,
    ∃ blob target, change.Relocates blob target
  reports : ∃ report, (before.collect pass.policy pass.frames).1 = .ok report
    ∧ report.blobsReclaimed = (before.clearTrail pass.frames).length
    ∧ report.blobsRelocated
      = ((before.cleared pass.frames).consolidateTrail pass.policy).length

variable {cache before middle after : Cache} {made : Nat} {blobs : List Blob} {passes : List Pass}
  {trail trail' : List Change}

theorem Consistent.traced_nil (h : after.Consistent made) (hsame : SamePlaces before after) :
    Traced made before [] after where
  consistent := h
  linked := hsame
  precedes _ hmem := absurd hmem List.not_mem_nil

theorem Traced.append (h : Traced made before trail middle) (h' : Traced made middle trail' after) :
    Traced made before (trail ++ trail') after where
  consistent := h'.consistent
  linked := h.linked.append h'.linked
  precedes change hmem := (List.mem_append.mp hmem).elim (h.precedes change) (h'.precedes change)

theorem Draining.traced (h : Draining made before trail after) : Traced made before trail after where
  consistent := h.drained.consistent
  linked := h.linked
  precedes change hmem := by
    obtain ⟨hbefore, hdrained, blob, target, hrelocates⟩ := h.relocates change hmem
    exact precedes_of_relocates hbefore hdrained hrelocates

/-- Marking leaves every blob where it is. -/
theorem Sound.samePlaces_markZombies (h : cache.Sound made) (frames : FrameSnapshot) :
    SamePlaces cache (cache.markZombies frames).2 where
  regions := by
    rw [h.markZombies_eq]
    exact regions_markAll _ cache
  standing := by
    unfold standing
    rw [registered_markZombies h, Table.filterMap_filterMap]
    refine Table.filterMap_congr fun _ blob _ => ?_
    rw [Option.bind_some]
    unfold Blob.marked
    split <;> rfl

theorem Consistent.traced_reclaimEach (h : cache.Consistent made)
    (hall : cache.AllAt .zombie blobs) (report : PassReport) :
    Traced made cache (reclaimTrail blobs cache) (Cache.reclaimEach blobs report cache).2
      ∧ (reclaimTrail blobs cache).length = blobs.length
      ∧ ∀ change ∈ reclaimTrail blobs cache, ∃ blob, change.Reclaims blob := by
  induction blobs generalizing cache report with
  | nil => exact ⟨h.traced_nil (samePlaces_refl cache), rfl, fun _ hmem => absurd hmem List.not_mem_nil⟩
  | cons blob rest ih =>
    have hblob := hall.registered blob List.mem_cons_self
    have hstage := hall.stage blob List.mem_cons_self
    obtain ⟨next, hreclaim, hnext, hregistered, -⟩ := h.reclaim hblob hstage
    have hrest : next.AllAt .zombie rest := by
      refine hall.rest fun id hne => ?_
      rw [hregistered, Table.get?_erase_of_ne _ hne]
    have hchange : (Change.mk cache next).Reclaims blob := ⟨hblob, hstage, hreclaim⟩
    have hfirst : Traced made cache [⟨cache, next⟩] next := by
      refine ⟨hnext, ⟨samePlaces_refl cache, samePlaces_refl next⟩, ?_⟩
      intro change hmem
      obtain rfl := List.mem_singleton.mp hmem
      exact precedes_of_reclaims h hchange
    rw [reclaimTrail, Cache.reclaimEach, hreclaim]
    dsimp only
    obtain ⟨htraced, hlength, hreclaims⟩ := ih hnext hrest (report.reclaim 1 blob.size)
    refine ⟨hfirst.append htraced, congrArg (· + 1) hlength, ?_⟩
    exact List.forall_mem_cons.mpr ⟨⟨blob, hchange⟩, hreclaims⟩

theorem Consistent.traced_clear (h : cache.Consistent made) (frames : FrameSnapshot) :
    Traced made cache (cache.clearTrail frames) (cache.cleared frames)
      ∧ (cache.clearTrail frames).length = ((cache.markZombies frames).2.atStage .zombie).length
      ∧ ∀ change ∈ cache.clearTrail frames, ∃ blob, change.Reclaims blob := by
  have hmarked := h.markZombies frames
  obtain ⟨hreclaim, hlength, hreclaims⟩ :=
    hmarked.traced_reclaimEach (hmarked.sound.filed.allAt_atStage .zombie) {}
  exact ⟨(hmarked.traced_nil (h.sound.samePlaces_markZombies frames)).append hreclaim, hlength,
    hreclaims⟩

/-- A pass is what its changes make of a cache. -/
theorem Consistent.traced_pass (h : cache.Consistent made) (hswept : cache.Swept) (pass : Pass) :
    Traced made cache (cache.passTrail pass) (cache.collect pass.policy pass.frames).2
      ∧ cache.PassTraced pass := by
  obtain ⟨stuck, last, metrics, hcollect, hdraining, -⟩ := h.collect hswept pass.policy pass.frames
  obtain ⟨hclear, hlength, hreclaims⟩ := h.traced_clear pass.frames
  have hafter := h.after_collect pass.policy pass.frames
  rw [hcollect] at hafter ⊢
  have hcounted : Traced made last [] { last with metrics } := hafter.traced_nil ⟨rfl, rfl⟩
  have htraced := (hclear.append hdraining.traced).append hcounted
  rw [List.append_nil] at htraced
  refine ⟨htraced, hreclaims, fun change hmem => (hdraining.relocates change hmem).2.2, ?_⟩
  rw [hcollect, hlength, h.length_zombies_marked hswept]
  exact ⟨_, rfl, rfl, rfl⟩

theorem afterPasses_cons (cache : Cache) (pass : Pass) (rest : List Pass) :
    cache.afterPasses (pass :: rest)
      = (cache.collect pass.policy pass.frames).2.afterPasses rest := by
  unfold afterPasses
  rw [List.map_cons, after_cons, perform, ofAttempt_snd]

/-- **Passes are what their changes make of a cache**, one after the other. -/
theorem Consistent.traced (h : cache.Consistent made) (hswept : cache.Swept) (passes : List Pass) :
    Traced made cache (cache.trail passes) (cache.afterPasses passes)
      ∧ (cache.afterPasses passes).Swept := by
  induction passes generalizing cache with
  | nil => exact ⟨h.traced_nil (samePlaces_refl cache), hswept⟩
  | cons pass rest ih =>
    obtain ⟨htraced, hlast⟩ := ih (h.after_collect pass.policy pass.frames)
      (h.swept_collect hswept pass.policy pass.frames)
    rw [afterPasses_cons]
    exact ⟨(h.traced_pass hswept pass).1.append htraced, hlast⟩

/-! ## §3. No layout comes back. -/

theorem Linked.split (h : Linked before (trail ++ trail') after) :
    ∃ middle, Linked before trail middle ∧ Linked middle trail' after := by
  induction trail generalizing before with
  | nil => exact ⟨before, samePlaces_refl before, h⟩
  | cons change rest ih =>
    obtain ⟨middle, hrest, hlater⟩ := ih h.2
    exact ⟨middle, ⟨h.1, hrest⟩, hlater⟩

/-- The caches along the changes, each before all later ones. -/
theorem pairwise_precedes (hbefore : before.Consistent made) (hlinked : Linked before trail after)
    (hprecedes : ∀ change ∈ trail, Precedes made change.before change.after) :
    (before :: trail.map Change.after).Pairwise (Precedes made) := by
  induction trail generalizing before with
  | nil => exact List.pairwise_singleton _ before
  | cons change rest ih =>
    have hfirst := (hprecedes change List.mem_cons_self).of_samePlaces hbefore hlinked.1
    have hrest := ih hfirst.consistent.2 hlinked.2
      fun other hmem => hprecedes other (List.mem_cons_of_mem _ hmem)
    rw [List.map_cons]
    refine List.pairwise_cons.mpr ⟨?_, hrest⟩
    intro cache hmem
    rcases List.mem_cons.mp hmem with rfl | hlater
    · exact hfirst
    · exact hfirst.trans ((List.pairwise_cons.mp hrest).1 cache hlater)

theorem nodup_layouts (hbefore : before.Consistent made) (hlinked : Linked before trail after)
    (hprecedes : ∀ change ∈ trail, Precedes made change.before change.after) :
    ((before :: trail.map Change.after).map layout).Nodup :=
  List.pairwise_map.mpr ((pairwise_precedes hbefore hlinked hprecedes).imp Precedes.layout_ne)

theorem get?_layout (cache : Cache) (id : BlobId) :
    cache.layout.get? id = (cache.registered.get? id).map Blob.region := by
  unfold layout
  rw [Table.get?_filterMap]
  cases cache.registered.get? id <;> rfl

theorem contains_layout (cache : Cache) (id : BlobId) :
    cache.layout.contains id = cache.registered.contains id := by
  unfold Table.contains
  rw [get?_layout, Option.isSome_map]

/-- Nobody is registered along the changes who was not so before. -/
theorem Precedes.contains (h : Precedes made before after) {id : BlobId}
    (hid : after.registered.contains id = true) : before.registered.contains id = true := by
  obtain ⟨new, hnew⟩ := Table.contains_iff.mp hid
  obtain ⟨old, hold, -⟩ := h.sizes hnew
  exact Table.contains_iff.mpr ⟨old, hold⟩

/-- The caches along the changes have their blobs from the first. -/
theorem contains_along (hbefore : before.Consistent made) (hlinked : Linked before trail after)
    (hprecedes : ∀ change ∈ trail, Precedes made change.before change.after) :
    ∀ cache ∈ before :: trail.map Change.after, ∀ id,
      cache.registered.contains id = true → before.registered.contains id = true := by
  intro cache hmem id hid
  rcases List.mem_cons.mp hmem with rfl | hlater
  · exact hid
  · have hall := (List.pairwise_cons.mp (pairwise_precedes hbefore hlinked hprecedes)).1
    exact (hall cache hlater).contains hid

/-- Along the changes there are no more layouts than ways to answer for the first cache's blobs. -/
theorem length_succ_le (answers : Finset (Option RegionKind)) (hbefore : before.Consistent made)
    (hlinked : Linked before trail after)
    (hprecedes : ∀ change ∈ trail, Precedes made change.before change.after)
    (hanswers : ∀ cache ∈ before :: trail.map Change.after, ∀ id ∈ before.registered.keys,
      cache.layout.get? id ∈ answers) :
    trail.length + 1 ≤ answers.card ^ before.registered.size := by
  have hbound := Table.length_le_of_nodup before.registered.keys answers
    (nodup_layouts hbefore hlinked hprecedes) ?_ ?_
  · rwa [List.length_map, List.length_cons, List.length_map, Table.length_keys] at hbound
  · intro table hmem
    obtain ⟨cache, hcache, rfl⟩ := List.mem_map.mp hmem
    exact hanswers cache hcache
  · intro table hmem id hid
    obtain ⟨cache, hcache, rfl⟩ := List.mem_map.mp hmem
    rw [contains_layout] at hid
    exact Table.mem_keys_iff.mpr (contains_along hbefore hlinked hprecedes cache hcache id hid)

/-- While as many blobs stay registered, there are only three answers for each. -/
theorem length_stretch_le {stretch : List Change} {n : Nat} (hlinked : Linked before trail after)
    (hprecedes : ∀ change ∈ trail, Precedes made change.before change.after)
    (hstretch : stretch <:+: trail)
    (hsize : ∀ change ∈ stretch,
      change.before.registered.size = n ∧ change.after.registered.size = n) :
    stretch.length ≤ 3 ^ n - 1 := by
  cases stretch with
  | nil => exact Nat.zero_le _
  | cons change rest =>
    obtain ⟨earlier, later, rfl⟩ := hstretch
    obtain ⟨last, hupto, -⟩ := hlinked.split
    obtain ⟨first, -, hhere⟩ := hupto.split
    have hall : ∀ other ∈ change :: rest, Precedes made other.before other.after := fun other hmem =>
      hprecedes other (List.mem_append_left _ (List.mem_append_right _ hmem))
    have hfirst := (hall change List.mem_cons_self).consistent.1
    have hfrom : Linked change.before (change :: rest) last := ⟨samePlaces_refl _, hhere.2⟩
    obtain ⟨hsizeFirst, -⟩ := hsize change List.mem_cons_self
    have hbound := length_succ_le (Finset.univ.image some) hfirst hfrom hall ?_
    · have hcard : (Finset.univ.image some : Finset (Option RegionKind)).card = 3 := by decide
      rw [hcard, hsizeFirst] at hbound
      omega
    · intro cache hmem id hid
      -- the register is as large as at first, so it is the same
      have hcache : cache.registered.size = n := by
        rcases List.mem_cons.mp hmem with rfl | hlater
        · exact hsizeFirst
        · obtain ⟨other, hother, rfl⟩ := List.mem_map.mp hlater
          exact (hsize other hother).2
      have hcontains := Table.contains_of_size_eq (contains_along hfirst hfrom hall cache hmem)
        (hcache.trans hsizeFirst.symm) (Table.mem_keys_iff.mp hid)
      obtain ⟨blob, hblob⟩ := Table.contains_iff.mp hcontains
      rw [get?_layout, hblob]
      exact Finset.mem_image_of_mem some (Finset.mem_univ _)

/-! ## §4. Whatever passes are run. -/

/-- What is so of passes run one after the other. -/
structure Progresses (cache : Cache) (passes : List Pass) : Prop where
  /-- What they do is a list of changes, each of which starts where the one before has ended. -/
  linked : Linked cache (cache.trail passes) (cache.afterPasses passes)
  /-- The changes of each pass are reclamations and relocations. -/
  traced : ∀ {earlier pass later}, passes = earlier ++ pass :: later →
    (cache.afterPasses earlier).PassTraced pass
  no_layout_twice : ((cache :: (cache.trail passes).map Change.after).map layout).Nodup
  relocations_le : ∀ {stretch n}, stretch <:+: cache.trail passes →
    (∀ change ∈ stretch, change.before.registered.size = n ∧ change.after.registered.size = n) →
      stretch.length ≤ 3 ^ n - 1
  changes_lt : (cache.trail passes).length < 4 ^ cache.registered.size

theorem Consistent.progresses (h : cache.Consistent made) (hswept : cache.Swept)
    (passes : List Pass) : cache.Progresses passes := by
  obtain ⟨htraced, -⟩ := h.traced hswept passes
  constructor
  case linked => exact htraced.linked
  case traced =>
    intro earlier pass later _
    obtain ⟨hearlier, hsweptThen⟩ := h.traced hswept earlier
    exact (hearlier.consistent.traced_pass hsweptThen pass).2
  case no_layout_twice => exact nodup_layouts h htraced.linked htraced.precedes
  case relocations_le =>
    intro stretch n hstretch hsize
    exact length_stretch_le htraced.linked htraced.precedes hstretch hsize
  case changes_lt =>
    have hcard : (Finset.univ : Finset (Option RegionKind)).card = 4 := by decide
    have hbound := length_succ_le Finset.univ h htraced.linked htraced.precedes
      fun _ _ _ _ => Finset.mem_univ _
    rwa [hcard] at hbound

end Cache

open Cache in
/-- **Consolidation never cycles**: passes run after a session that leaves the regions to the cache,
each with a policy and frames of its own, bring no layout back, so they make only so many changes. -/
theorem consolidation_never_cycles {settings : Settings} {start : Cache}
    {operations : List Operation} (hnew : Cache.new settings = .ok start)
    (hmanaged : ∀ operation ∈ operations, operation.isDirect = false)
    (hroom : start.attemptsIn operations < UInt64.size) (passes : List Pass) :
    (start.after operations).Progresses passes :=
  (consistent_after hnew hmanaged hroom).progresses (swept_after hnew hmanaged hroom) passes

/-- The code of a method is made again, in another region; another method has no code at all, where
the first one was. -/
def hollow : List Operation :=
  [.install ⟨1⟩ ⟨.tier4, ⟨#[1, 2, 3]⟩⟩ .standard, .replace ⟨1⟩ .standard none none,
    .install ⟨2⟩ ⟨.tier4, ⟨#[]⟩⟩ .standard]

/-- Two passes over it: one that only reclaims, and one that drains what is less than a quarter in
use. -/
def twoPasses : List Pass := [⟨⟨false, 25, true⟩, {}⟩, ⟨⟨true, 25, true⟩, {}⟩]

/-- The first version is reclaimed, then the code without bytes is relocated. -/
theorem consolidation_never_cycles_over_two_passes :
    (((Cache.ofSettings {}).after hollow).trail twoPasses).length = 2
      ∧ (((Cache.ofSettings {}).after hollow).afterPasses twoPasses).layout.values
        = [.profiled, .profiled]
      ∧ ((Cache.ofSettings {}).after hollow).Progresses twoPasses := by
  have hnew : Cache.new {} = .ok (Cache.ofSettings {}) := rfl
  have hmanaged : ∀ operation ∈ hollow, operation.isDirect = false := by decide
  exact ⟨by decide, by decide, consolidation_never_cycles hnew hmanaged (by decide) twoPasses⟩

end JitCache
