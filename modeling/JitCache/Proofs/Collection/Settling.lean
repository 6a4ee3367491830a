/-
  JitCache.Proofs.Collection.Settling
  ───────────────────────────────────
  **When a repeated pass has nothing left to relocate.**

  A cache is settled under a policy if no blob that may be moved has a fuller
  region with room to go to.  Running the same pass again relocates nothing just
  if the cache is settled, and one pass need not settle it: the non-profiled
  region is drained after the profiled one, and what it sends to the non-method
  region can make that one fuller than the profiled region, which had nowhere to
  go in its turn (`seesaw`).  Nor is a blob that found no room at rest for good:
  a search looks at a few free spans only, and once one of them is used up it
  sees the next (`gaps`).

  One pass is enough if every blob found room, and there is no fallback or
  nothing has left the non-profiled region.  In any case the same pass, repeated,
  settles the cache after fewer runs than there are layouts.

  Main statements:
    `Consistent.consolidateTrail_eq_nil_iff` — nothing is moved in a settled cache only
    `Rounds.settled`                         — when one pass is enough
    `Consistent.settles_in_time`             — it is over at last
    `consolidation_settles`                  — the three together
-/
import JitCache.Proofs.Collection.Progress

namespace JitCache

namespace Cache

/-- The blob is closed, or no fuller region that it may go to has room. -/
def AtRest (cache : Cache) (policy : CollectionPolicy) (source : RegionKind) (blob : Blob) : Prop :=
  blob.liveness = .entrant → ∀ target ∈ policy.destinations cache.regions source,
    (cache.regions.get target).place? blob.size = none

/-- If the region is drained, all that is in it is at rest. -/
def RestsIn (cache : Cache) (policy : CollectionPolicy) (source : RegionKind) : Prop :=
  policy.drains (cache.region source) = true → ∀ id blob, cache.registered.get? id = some blob →
    blob.region = source → cache.AtRest policy source blob

/-- Nothing that may be moved has a fuller region with room to go to. -/
def Settled (cache : Cache) (policy : CollectionPolicy) : Prop :=
  ∀ source ∈ policy.sources, cache.RestsIn policy source

variable {cache before after : Cache} {made stuck : Nat} {policy : CollectionPolicy}
  {frames : FrameSnapshot} {source target : RegionKind} {blob : Blob} {id : BlobId}
  {ids : List BlobId} {sources : List RegionKind} {trail : List Change} {pass : Pass}

/-! ## §1. Nothing is moved. -/

/-- Being settled is a matter of the register and the regions. -/
theorem Settled.congr (h : before.Settled policy) (hregions : after.regions = before.regions)
    (hregistered : after.registered = before.registered) : after.Settled policy := by
  unfold Settled RestsIn AtRest region at *
  rw [hregions, hregistered]
  exact h

theorem Turn.eq_of_nil (hturn : Turn policy source cache blob [] stuck after) : after = cache := by
  cases hturn <;> rfl

/-- The turn of a blob moves nothing just if it is at rest. -/
theorem Turn.eq_nil_iff (hturn : Turn policy source cache blob trail stuck after)
    (h : cache.Consistent made) (hblob : cache.registered.get? blob.id = some blob)
    (hsource : blob.region = source) : trail = [] ↔ cache.AtRest policy source blob := by
  cases hturn with
  | passed hwhy =>
    refine iff_of_true rfl fun hentrant target htarget => ?_
    rw [hwhy hentrant] at htarget
    cases htarget
  | stuck _ _ hfull => exact iff_of_true rfl fun _ => hfull
  | @moved target _ hentrant htarget hmove =>
    refine iff_of_false nofun fun hrest => ?_
    -- without room the move would have been refused
    obtain ⟨_, _, _, hrefused⟩ := h.move_full hblob (hsource ▸ ne_of_mem_destinations htarget)
      (hrest hentrant target htarget)
    rw [hmove] at hrefused
    cases hrefused

theorem Turns.eq_of_nil (hturns : Turns policy source cache ids trail stuck after)
    (hnil : trail = []) : after = cache := by
  induction hturns with
  | nil => rfl
  | cons _ _ hturn _ ih =>
    obtain ⟨rfl, hlater⟩ := List.append_eq_nil_iff.mp hnil
    rw [ih hlater, hturn.eq_of_nil]

theorem Turns.eq_nil_iff (hturns : Turns policy source cache ids trail stuck after)
    (h : cache.Consistent made) :
    trail = [] ↔ ∀ id ∈ ids, ∀ blob, cache.registered.get? id = some blob →
      cache.AtRest policy source blob := by
  -- as long as nothing is moved, each turn finds the cache as it was at first
  induction hturns with
  | nil => exact iff_of_true rfl fun _ hmem => absurd hmem List.not_mem_nil
  | @cons _ _ _ blob _ _ _ _ _ hblob hsource hturn _ ih =>
    have hfirst := hturn.eq_nil_iff h hblob hsource
    rw [List.append_eq_nil_iff, List.forall_mem_cons]
    constructor
    · rintro ⟨rfl, hlater⟩
      obtain rfl := hturn.eq_of_nil
      refine ⟨?_, (ih h).mp hlater⟩
      intro found hfound
      obtain rfl := Option.some.inj (hfound.symm.trans hblob)
      exact hfirst.mp rfl
    · rintro ⟨hrest, hothers⟩
      obtain rfl := hfirst.mpr (hrest blob hblob)
      obtain rfl := hturn.eq_of_nil
      exact ⟨rfl, (ih h).mpr hothers⟩

theorem Round.eq_of_nil (hround : Round policy source cache trail stuck after)
    (hnil : trail = []) : after = cache := by
  obtain ⟨_, hturns⟩ := hround.exists_turns
  exact hturns.eq_of_nil hnil

/-- Draining a region moves nothing just if all in it is at rest. -/
theorem Round.eq_nil_iff (hround : Round policy source cache trail stuck after)
    (h : cache.Consistent made) : trail = [] ↔ cache.RestsIn policy source := by
  cases hround with
  | spared hspared =>
    refine iff_of_true rfl fun hdrains => ?_
    rw [hspared] at hdrains
    cases hdrains
  | drained hdrains hturns =>
    rw [hturns.eq_nil_iff h]
    constructor
    · intro hall _ id blob hblob hregion
      exact hall id (h.mem_residents_iff.mpr ⟨blob, hblob, hregion⟩) blob hblob
    · intro hrests id hmem blob hblob
      obtain ⟨found, hfound, hregion⟩ := h.mem_residents_iff.mp hmem
      obtain rfl := Option.some.inj (hfound.symm.trans hblob)
      exact hrests hdrains id found hblob hregion

theorem Rounds.eq_of_nil (hrounds : Rounds policy cache sources trail stuck after)
    (hnil : trail = []) : after = cache := by
  induction hrounds with
  | nil => rfl
  | cons hround _ ih =>
    obtain ⟨hfirst, hlater⟩ := List.append_eq_nil_iff.mp hnil
    rw [ih hlater, hround.eq_of_nil hfirst]

theorem Rounds.eq_nil_iff (hrounds : Rounds policy cache sources trail stuck after)
    (h : cache.Consistent made) :
    trail = [] ↔ ∀ source ∈ sources, cache.RestsIn policy source := by
  induction hrounds with
  | nil => exact iff_of_true rfl fun _ hmem => absurd hmem List.not_mem_nil
  | cons hround _ ih =>
    rw [List.append_eq_nil_iff, List.forall_mem_cons, ← hround.eq_nil_iff h]
    refine and_congr_right fun hfirst => ?_
    obtain rfl := hround.eq_of_nil hfirst
    exact ih h

/-- **Consolidation moves nothing just in a settled cache.** -/
theorem Consistent.consolidateTrail_eq_nil_iff (h : cache.Consistent made)
    (policy : CollectionPolicy) : cache.consolidateTrail policy = [] ↔ cache.Settled policy := by
  obtain ⟨stuck, after, hrounds, -⟩ := h.consolidate policy
  exact hrounds.eq_nil_iff h

/-! ## §2. The same pass again. -/

/-- How many blobs a pass relocates. -/
def relocated (cache : Cache) (pass : Pass) : Nat :=
  match (cache.collect pass.policy pass.frames).1 with
  | .ok report => report.blobsRelocated
  | .error _ => 0

theorem Consistent.relocated_eq (h : cache.Consistent made) (hswept : cache.Swept) (pass : Pass) :
    cache.relocated pass = ((cache.cleared pass.frames).consolidateTrail pass.policy).length := by
  obtain ⟨report, hreport, -, hcount⟩ := (h.traced_pass hswept pass).2.reports
  unfold relocated
  rw [hreport]
  exact hcount

/-- Where a pass keeps everyone, its first two phases change neither register nor regions. -/
theorem Consistent.cleared_of_kept (h : cache.Consistent made) (hswept : cache.Swept)
    (hkept : ∀ id blob, cache.registered.get? id = some blob → frames.keeps blob = true) :
    (cache.cleared frames).registered = cache.registered
      ∧ (cache.cleared frames).regions = cache.regions := by
  obtain ⟨-, -, -, hregistered⟩ := h.clear hswept frames
  obtain ⟨htraced, hlength, -⟩ := h.traced_clear frames
  constructor
  · rw [hregistered, ← Table.filterMap_some cache.registered, Table.filterMap_filterMap]
    exact Table.filterMap_congr fun id blob hget => if_pos (hkept id blob hget)
  · have hnobody : cache.leaving frames = ∅ := by
      rw [← Table.filterMap_none cache.registered]
      exact Table.filterMap_congr fun id blob hget => if_pos (hkept id blob hget)
    rw [h.length_zombies_marked hswept, hnobody] at hlength
    have hlinked := htraced.linked
    rw [List.eq_nil_of_length_eq_zero hlength] at hlinked
    exact hlinked.regions

/-- A pass keeps everyone whom the same pass has kept before. -/
theorem Consistent.kept_again (h : cache.Consistent made) (hswept : cache.Swept)
    (hafter : (cache.collect policy frames).2 = after) (id : BlobId) (blob : Blob)
    (hblob : after.registered.get? id = some blob) : frames.keeps blob = true := by
  obtain ⟨old, -, hkeeps, hsame⟩ := h.exists_old_of_collect hswept hafter hblob
  obtain ⟨hcode, hliveness⟩ := same_of_unplaced hsame
  rw [keeps_iff] at hkeeps ⊢
  rw [hliveness, hcode.entry]
  exact hkeeps

/-- **After a pass the same pass relocates nothing just if the cache is settled.** -/
theorem Consistent.relocated_again (h : cache.Consistent made) (hswept : cache.Swept)
    (hafter : (cache.collect pass.policy pass.frames).2 = after) :
    after.relocated pass = 0 ↔ after.Settled pass.policy := by
  have hconsistent : after.Consistent made := hafter ▸ h.after_collect pass.policy pass.frames
  have hsweptAfter : after.Swept := hafter ▸ h.swept_collect hswept pass.policy pass.frames
  obtain ⟨hregistered, hregions⟩ :=
    hconsistent.cleared_of_kept hsweptAfter (h.kept_again hswept hafter)
  obtain ⟨-, hcleared, -⟩ := hconsistent.clear hsweptAfter pass.frames
  rw [hconsistent.relocated_eq hsweptAfter, List.length_eq_zero_iff,
    hcleared.consolidateTrail_eq_nil_iff]
  constructor
  · intro hsettled
    exact hsettled.congr hregions.symm hregistered.symm
  · intro hsettled
    exact hsettled.congr hregions hregistered

/-- A pass that relocates nothing leaves every blob that it keeps where it is. -/
theorem Consistent.eq_cleared (h : cache.Consistent made) (hswept : cache.Swept)
    (hnone : cache.relocated pass = 0) :
    (cache.collect pass.policy pass.frames).2.registered = (cache.cleared pass.frames).registered
      ∧ (cache.collect pass.policy pass.frames).2.regions = (cache.cleared pass.frames).regions := by
  obtain ⟨stuck, last, metrics, hcollect, -, hrounds⟩ :=
    h.collect hswept pass.policy pass.frames
  rw [h.relocated_eq hswept] at hnone
  obtain rfl := hrounds.eq_of_nil (List.eq_nil_of_length_eq_zero hnone)
  rw [hcollect]
  exact ⟨rfl, rfl⟩

/-- Once a pass has relocated nothing, it relocates nothing any more. -/
theorem Consistent.relocated_collect (h : cache.Consistent made) (hswept : cache.Swept)
    (hnone : cache.relocated pass = 0) :
    (cache.collect pass.policy pass.frames).2.relocated pass = 0 := by
  rw [h.relocated_again hswept rfl]
  obtain ⟨hregistered, hregions⟩ := h.eq_cleared hswept hnone
  obtain ⟨-, hcleared, -⟩ := h.clear hswept pass.frames
  rw [h.relocated_eq hswept, List.length_eq_zero_iff, hcleared.consolidateTrail_eq_nil_iff] at hnone
  exact hnone.congr hregions hregistered

/-! ## §3. When one pass is enough. -/

/-- Multiplying words out keeps their order. -/
theorem mul_le_mul_word {a b c : Nat} (h : a ≤ b) : Word.mul a c ≤ Word.mul b c := by
  have hmul := Nat.mul_le_mul_right c h
  unfold Word.mul
  omega

/-- Whoever is fuller than a region is so after a move out of it. -/
theorem Consistent.isFullerThan_move (h : cache.Consistent made) {kind : RegionKind}
    (hblob : cache.registered.get? blob.id = some blob) (hsource : blob.region = source)
    (hne : source ≠ target) (hmove : cache.move blob.id target = (.ok (), after))
    (hfuller : (cache.regions.get kind).isFullerThan (cache.regions.get source) = true) :
    (after.regions.get kind).isFullerThan (after.regions.get source) = true := by
  subst hsource
  have hother : blob.region ≠ kind := by
    rintro rfl
    rw [Region.isFullerThan_self] at hfuller
    cases hfuller
  obtain ⟨_, regions, _, htransfer, rfl⟩ := exists_transfer_of_move hblob hne hmove
  have hused := Regions.used_transfer h.sound.regions hne (h.resident hblob) rfl htransfer
  have hcapacity := Regions.sameShape_transfer htransfer
  -- the source has lost bytes, and the other region has lost none
  have hless : (regions.get blob.region).used ≤ (cache.regions.get blob.region).used := by
    rw [hused, if_pos rfl]
    exact Nat.sub_le _ _
  have hmore : (cache.regions.get kind).used ≤ (regions.get kind).used := by
    rw [hused, if_neg hother]
    split
    · exact Nat.le_add_right _ _
    · exact Nat.le_refl _
  show (regions.get kind).isFullerThan (regions.get blob.region) = true
  refine decide_eq_true ?_
  rw [(hcapacity kind).capacity, (hcapacity blob.region).capacity]
  refine Nat.lt_of_le_of_lt (mul_le_mul_word hless) ?_
  exact Nat.lt_of_lt_of_le (of_decide_eq_true hfuller) (mul_le_mul_word hmore)

/-- A move out of a region leaves its target fuller than the region. -/
theorem Consistent.destinations_move (h : cache.Consistent made)
    (hblob : cache.registered.get? blob.id = some blob) (hsource : blob.region = source)
    (htarget : target ∈ policy.destinations cache.regions source)
    (hmove : cache.move blob.id target = (.ok (), after)) :
    policy.destinations after.regions source ≠ [] := by
  have hstill := h.isFullerThan_move hblob hsource (ne_of_mem_destinations htarget) hmove
    (CollectionPolicy.isFullerThan_of_mem_destinations htarget)
  refine List.ne_nil_of_mem (a := target) ?_
  exact List.mem_filter.mpr ⟨(List.mem_filter.mp htarget).1, hstill⟩

/-- Without a fuller region nothing is moved. -/
theorem Turns.eq_nil_of_destinations (hturns : Turns policy source cache ids trail stuck after)
    (hnone : policy.destinations cache.regions source = []) : trail = [] := by
  induction hturns with
  | nil => rfl
  | cons _ _ hturn _ ih =>
    cases hturn with
    | passed => exact ih hnone
    | stuck _ hsome => exact absurd hnone hsome
    | moved _ htarget =>
      rw [hnone] at htarget
      cases htarget

/-- Turns concern only the blobs that have them. -/
theorem Turns.get?_of_notMem (hturns : Turns policy source cache ids trail stuck after)
    (h : cache.Consistent made) (hmethods : source.holdsMethods = true) (hnot : id ∉ ids) :
    after.registered.get? id = cache.registered.get? id := by
  induction hturns with
  | nil => rfl
  | @cons _ _ _ blob _ _ _ _ _ hblob hsource hturn _ ih =>
    obtain ⟨hne, hlater⟩ := not_or.mp (mt List.mem_cons.mpr hnot)
    have hnext := (h.draining_turn hblob hsource hmethods hturn).drained.consistent
    rw [ih hnext hlater]
    cases hturn with
    | passed | stuck => rfl
    | moved _ htarget hmove =>
      obtain ⟨_, -, hget⟩ :=
        h.registered_move hblob (hsource ▸ ne_of_mem_destinations htarget) hmove
      rw [hget, if_neg (Ne.symm hne)]

/-- If there is a fuller region and every blob finds room, no blob that has its turn can still be
entered and is still there. -/
theorem Turns.emptied (hturns : Turns policy source cache ids trail stuck after)
    (h : cache.Consistent made) (hmethods : source.holdsMethods = true) (hstuck : stuck = 0)
    (hsome : policy.destinations cache.regions source ≠ []) :
    policy.destinations after.regions source ≠ []
      ∧ ∀ id ∈ ids, ∀ blob, after.registered.get? id = some blob → blob.liveness = .entrant →
          blob.region ≠ source := by
  -- on the turns; moving a blob out leaves the target fuller, so there is still where to go
  induction hturns with
  | nil => exact ⟨hsome, fun _ hmem => absurd hmem List.not_mem_nil⟩
  | @cons first next last blob rest _ _ _ _ hblob hsource hturn hrest ih =>
    obtain ⟨hnow, hlater⟩ := Nat.add_eq_zero_iff.mp hstuck
    have hdrained := (h.draining_turn hblob hsource hmethods hturn).drained
    have hafter := (hrest.draining hdrained.consistent hmethods).drained
    rw [List.forall_mem_cons]
    cases hturn with
    | stuck => cases hnow
    | passed hwhy =>
      obtain ⟨hstill, hothers⟩ := ih h hlater hsome
      refine ⟨hstill, ?_, hothers⟩
      -- not entrant, and it is the same blob at the end
      intro found hfound hentrant _
      obtain ⟨old, hold, hsame⟩ := hafter.exists_old hfound
      obtain rfl := Option.some.inj (hold.symm.trans hblob)
      exact hsome (hwhy ((same_of_unplaced hsame).2.symm.trans hentrant))
    | moved _ htarget hmove =>
      obtain ⟨hstill, hothers⟩ := ih hdrained.consistent hlater
        (h.destinations_move hblob hsource htarget hmove)
      refine ⟨hstill, ?_, hothers⟩
      intro found hfound hentrant
      by_cases hagain : blob.id ∈ rest
      · exact hothers blob.id hagain found hfound hentrant
      · -- it stays in the target it was moved to
        have hne := ne_of_mem_destinations htarget
        obtain ⟨placement, hplaced, hget⟩ := h.registered_move hblob (hsource ▸ hne) hmove
        rw [hrest.get?_of_notMem hdrained.consistent hmethods hagain, hget, if_pos rfl] at hfound
        obtain rfl := Option.some.inj hfound
        show placement.region ≠ source
        rw [hplaced]
        exact hne.symm

/-- If every blob finds room, draining a region moves nothing or leaves no entrant blob there. -/
theorem Round.emptied (hround : Round policy source cache trail stuck after)
    (h : cache.Consistent made) (hmethods : source.holdsMethods = true) (hstuck : stuck = 0) :
    trail = [] ∨ policy.destinations after.regions source ≠ []
      ∧ ∀ id blob, after.registered.get? id = some blob → blob.liveness = .entrant →
          blob.region ≠ source := by
  cases hround with
  | spared => exact .inl rfl
  | drained _ hturns =>
    by_cases hnone : policy.destinations cache.regions source = []
    · exact .inl (hturns.eq_nil_of_destinations hnone)
    · obtain ⟨hstill, hmoved⟩ := hturns.emptied h hmethods hstuck hnone
      refine .inr ⟨hstill, ?_⟩
      intro id blob hblob hentrant hregion
      refine hmoved id ?_ blob hblob hentrant hregion
      -- whoever is there at the end was a resident when the draining began
      by_contra hnot
      rw [hturns.get?_of_notMem h hmethods hnot] at hblob
      exact hnot (h.mem_residents_iff.mpr ⟨blob, hblob, hregion⟩)

/-- Out of the fuller method region there is no way but the fallback. -/
theorem eq_nonMethod_of_mem_destinations {regions : Regions}
    (hfuller : ∀ sibling, source.sibling? = some sibling →
      (regions.get source).isFullerThan (regions.get sibling) = true)
    (htarget : target ∈ policy.destinations regions source) :
    policy.allowNonMethod = true ∧ target = .nonMethod := by
  have hfound := CollectionPolicy.isFullerThan_of_mem_destinations htarget
  rcases List.mem_append.mp (List.mem_filter.mp htarget).1 with hsibling | hfallback
  · have hsparser := hfuller target (Option.mem_toList.mp hsibling)
    rw [Region.isFullerThan_asymm hfound] at hsparser
    cases hsparser
  · split at hfallback
    · next hallow => exact ⟨hallow, List.mem_singleton.mp hfallback⟩
    · cases hfallback

/-- Without the fallback, the two method regions cannot each go to the other. -/
theorem destinations_profiled_eq_nil {regions : Regions} (hfallback : policy.allowNonMethod = false)
    (hother : policy.destinations regions .nonProfiled ≠ []) :
    policy.destinations regions .profiled = [] := by
  obtain ⟨target, htarget⟩ := List.exists_mem_of_ne_nil _ hother
  obtain ⟨hcandidate, hfuller⟩ := List.mem_filter.mp htarget
  rw [hfallback] at hcandidate
  obtain rfl : target = .profiled := List.mem_singleton.mp hcandidate
  refine List.eq_nil_iff_forall_not_mem.mpr fun kind hmem => ?_
  have hsibling : ∀ sibling, RegionKind.profiled.sibling? = some sibling →
      (regions.get .profiled).isFullerThan (regions.get sibling) = true := by
    rintro _ ⟨⟩
    exact hfuller
  obtain ⟨hallow, -⟩ := eq_nonMethod_of_mem_destinations hsibling hmem
  rw [hfallback] at hallow
  cases hallow

/-- Where turns change something, a blob of the region is relocated. -/
theorem Turns.exists_relocates (hturns : Turns policy source cache ids trail stuck after)
    (h : cache.Consistent made) (hmethods : source.holdsMethods = true) (hsome : trail ≠ []) :
    ∃ change ∈ trail, ∃ blob target, change.Relocates blob target ∧ blob.region = source := by
  induction hturns with
  | nil => exact absurd rfl hsome
  | @cons _ _ _ blob _ _ _ _ _ hblob hsource hturn _ ih =>
    cases hturn with
    | passed | stuck => exact ih h hsome
    | @moved target _ hentrant htarget hmove =>
      exact ⟨_, List.mem_cons_self, blob, target,
        h.relocates_of_move hblob hsource hmethods hentrant htarget hmove, hsource⟩

/-- If no blob can still be entered in a region, all that is in it is at rest. -/
theorem restsIn_of_left (hleft : ∀ id blob, cache.registered.get? id = some blob →
    blob.liveness = .entrant → blob.region ≠ source) : cache.RestsIn policy source :=
  fun _ id blob hblob hregion hentrant => absurd hregion (hleft id blob hblob hentrant)

/-- If no region is fuller than a region, all that is in it is at rest. -/
theorem restsIn_of_destinations (hnone : policy.destinations cache.regions source = []) :
    cache.RestsIn policy source := by
  intro _ _ _ _ _ _ target htarget
  rw [hnone] at htarget
  cases htarget

/-- Either nothing is drained, or the profiled region and after it the non-profiled one. -/
theorem Rounds.both (hrounds : Rounds policy cache policy.sources trail stuck after) :
    policy.sources = [] ∧ trail = [] ∧ after = cache
      ∨ policy.sources = [.profiled, .nonProfiled] ∧ ∃ first second middle stuck' stuck'',
          trail = first ++ second ∧ stuck = stuck' + stuck''
            ∧ Round policy .profiled cache first stuck' middle
            ∧ Round policy .nonProfiled middle second stuck'' after := by
  unfold CollectionPolicy.sources at hrounds ⊢
  split at hrounds
  · next hconsolidate =>
    rw [if_pos hconsolidate]
    obtain _ | ⟨hfirst, hrest⟩ := hrounds
    obtain _ | ⟨hsecond, hdone⟩ := hrest
    cases hdone
    rw [List.append_nil, Nat.add_zero]
    exact .inr ⟨rfl, _, _, _, _, _, rfl, rfl, hfirst, hsecond⟩
  · next hspared =>
    rw [if_neg hspared]
    cases hrounds
    exact .inl ⟨rfl, rfl, rfl⟩

/-- **When draining the regions once is enough**: every blob finds room, and no fuller region than
the profiled one is made by draining the other after it. -/
theorem Rounds.settled (hrounds : Rounds policy cache policy.sources trail stuck after)
    (h : cache.Consistent made) (hstuck : stuck = 0)
    (hwhere : policy.allowNonMethod = false ∨ ∀ change ∈ trail, ∀ blob target,
      change.Relocates blob target → blob.region ≠ .nonProfiled) : after.Settled policy := by
  unfold Settled
  rcases hrounds.both with ⟨hsources, -, -⟩ |
    ⟨hsources, first, second, middle, _, _, rfl, rfl, hfirst, hsecond⟩
  · rw [hsources]
    exact fun _ hmem => absurd hmem List.not_mem_nil
  · rw [hsources]
    obtain ⟨hstuckFirst, hstuckSecond⟩ := Nat.add_eq_zero_iff.mp hstuck
    have hnext := (hfirst.draining h rfl).drained.consistent
    rw [List.forall_mem_cons, List.forall_mem_singleton]
    by_cases hquiet : second = []
    · -- nothing leaves the non-profiled region, so the profiled one is as it was left
      subst hquiet
      obtain rfl := hsecond.eq_of_nil rfl
      refine ⟨?_, (hsecond.eq_nil_iff hnext).mp rfl⟩
      rcases hfirst.emptied h rfl hstuckFirst with hnone | ⟨-, hleft⟩
      · obtain rfl := hfirst.eq_of_nil hnone
        exact (hfirst.eq_nil_iff h).mp hnone
      · exact restsIn_of_left hleft
    · -- what has left it can only have gone to the profiled region, which is now the fullest
      have hfallback : policy.allowNonMethod = false := by
        refine hwhere.resolve_right fun hnowhere => ?_
        obtain ⟨_, hturns⟩ := hsecond.exists_turns
        obtain ⟨change, hmem, blob, target, hrelocates, hregion⟩ :=
          hturns.exists_relocates hnext rfl hquiet
        refine hnowhere change ?_ blob target hrelocates hregion
        exact List.mem_append_right _ hmem
      obtain ⟨hstill, hleft⟩ := (hsecond.emptied hnext rfl hstuckSecond).resolve_left hquiet
      exact ⟨restsIn_of_destinations (destinations_profiled_eq_nil hfallback hstill),
        restsIn_of_left hleft⟩

/-! ## §4. The same pass again and again. -/

theorem afterPasses_replicate_succ (cache : Cache) (pass : Pass) (n : Nat) :
    cache.afterPasses (List.replicate (n + 1) pass)
      = ((cache.afterPasses (List.replicate n pass)).collect pass.policy pass.frames).2 := by
  induction n generalizing cache with
  | zero => exact cache.afterPasses_cons pass []
  | succ n ih => rw [List.replicate_succ, afterPasses_cons, ih, List.replicate_succ, afterPasses_cons]

/-- A pass that relocates something makes at least one change. -/
theorem Consistent.le_length_trail (h : cache.Consistent made) (hswept : cache.Swept) {n : Nat}
    (hbusy : ∀ k < n, (cache.afterPasses (List.replicate k pass)).relocated pass ≠ 0) :
    n ≤ (cache.trail (List.replicate n pass)).length := by
  induction n generalizing cache with
  | zero => exact Nat.zero_le _
  | succ n ih =>
    have hfirst := hbusy 0 n.succ_pos
    have hlater := ih (h.after_collect pass.policy pass.frames)
      (h.swept_collect hswept pass.policy pass.frames) fun k hk => by
        have hnext := hbusy (k + 1) (Nat.succ_lt_succ hk)
        rwa [List.replicate_succ, afterPasses_cons] at hnext
    rw [List.replicate_zero, show cache.afterPasses [] = cache from rfl,
      h.relocated_eq hswept] at hfirst
    rw [List.replicate_succ, Cache.trail, List.length_append, passTrail, List.length_append]
    omega

/-- **Repeated, a pass comes to have nothing to relocate**, and then never has. -/
theorem Consistent.settles_in_time (h : cache.Consistent made) (hswept : cache.Swept)
    (pass : Pass) :
    ∃ n < 4 ^ cache.registered.size, ∀ m, n ≤ m →
      (cache.afterPasses (List.replicate m pass)).relocated pass = 0 := by
  have hsome : ∃ n < 4 ^ cache.registered.size,
      (cache.afterPasses (List.replicate n pass)).relocated pass = 0 := by
    by_contra hnone
    -- otherwise there would be more changes than there are layouts
    have hmany := h.le_length_trail hswept fun k hk hzero => hnone ⟨k, hk, hzero⟩
    have hfew := (h.progresses hswept
      (List.replicate (4 ^ cache.registered.size) pass)).changes_lt
    omega
  obtain ⟨n, hn, hzero⟩ := hsome
  refine ⟨n, hn, fun m hle => ?_⟩
  induction m, hle using Nat.le_induction with
  | base => exact hzero
  | succ m _ ih =>
    obtain ⟨htraced, hsweptThen⟩ := h.traced hswept (List.replicate m pass)
    rw [afterPasses_replicate_succ]
    exact htraced.consistent.relocated_collect hsweptThen ih

/-! ## §5. After every session. -/

/-- What is so of a pass that is run again and again, with nothing in between. -/
structure Settles (cache : Cache) (pass : Pass) : Prop where
  granted : ∀ n, ∃ report,
    ((cache.afterPasses (List.replicate n pass)).collect pass.policy pass.frames).1 = .ok report
  /-- The second run relocates nothing just if the first has settled the cache. -/
  quiet_iff : (cache.afterPasses [pass]).relocated pass = 0
    ↔ (cache.afterPasses [pass]).Settled pass.policy
  /-- Then every blob keeps its placement, and every region what is in it. -/
  unmoved : (cache.afterPasses [pass]).relocated pass = 0 →
    (cache.afterPasses [pass, pass]).registered = (cache.afterPasses [pass]).registered
      ∧ (cache.afterPasses [pass, pass]).regions = (cache.afterPasses [pass]).regions
  /-- It is so if in the first run every blob found room, and there is no fallback or nothing has
  left the non-profiled region. -/
  at_once : ∀ {report}, (cache.collect pass.policy pass.frames).1 = .ok report →
    report.relocationFailures = 0 →
    (pass.policy.allowNonMethod = false
      ∨ ∀ change ∈ (cache.cleared pass.frames).consolidateTrail pass.policy, ∀ blob target,
          change.Relocates blob target → blob.region ≠ .nonProfiled) →
    (cache.afterPasses [pass]).relocated pass = 0
  /-- In any case it is so after fewer runs than there are layouts, and from then on. -/
  in_time : ∃ n < 4 ^ cache.registered.size, ∀ m, n ≤ m →
    (cache.afterPasses (List.replicate m pass)).relocated pass = 0

theorem Consistent.settles (h : cache.Consistent made) (hswept : cache.Swept) (pass : Pass) :
    cache.Settles pass := by
  have honce : cache.afterPasses [pass] = (cache.collect pass.policy pass.frames).2 :=
    cache.afterPasses_cons pass []
  have htwice : cache.afterPasses [pass, pass]
      = ((cache.afterPasses [pass]).collect pass.policy pass.frames).2 :=
    cache.afterPasses_replicate_succ pass 1
  have hagain := h.relocated_again hswept honce.symm
  obtain ⟨htraced, hsweptOnce⟩ := h.traced hswept [pass]
  have hconsistent := htraced.consistent
  constructor
  case granted =>
    intro n
    obtain ⟨hthen, hsweptThen⟩ := h.traced hswept (List.replicate n pass)
    obtain ⟨report, hreport, -⟩ := (hthen.consistent.traced_pass hsweptThen pass).2.reports
    exact ⟨report, hreport⟩
  case quiet_iff => exact hagain
  case unmoved =>
    intro hnone
    obtain ⟨hsameRegistered, hsameRegions⟩ := hconsistent.eq_cleared hsweptOnce hnone
    obtain ⟨hregistered, hregions⟩ :=
      hconsistent.cleared_of_kept hsweptOnce (h.kept_again hswept honce.symm)
    rw [htwice]
    exact ⟨hsameRegistered.trans hregistered, hsameRegions.trans hregions⟩
  case at_once =>
    intro report hreport hfound hwhere
    obtain ⟨stuck, last, metrics, hcollect, -, hrounds⟩ := h.collect hswept pass.policy pass.frames
    obtain ⟨-, hcleared, -⟩ := h.clear hswept pass.frames
    rw [hcollect] at hreport
    obtain rfl := Except.ok.inj hreport
    have hstuck : stuck = 0 := hfound
    rw [hagain, honce, hcollect]
    exact (hrounds.settled hcleared hstuck hwhere).congr rfl rfl
  case in_time => exact h.settles_in_time hswept pass

end Cache

open Cache in
/-- **A repeated pass settles**, though not always at once, after every session that leaves the
regions to the cache. -/
theorem consolidation_settles {settings : Settings} {start : Cache} {operations : List Operation}
    (hnew : Cache.new settings = .ok start)
    (hmanaged : ∀ operation ∈ operations, operation.isDirect = false)
    (hroom : start.attemptsIn operations < UInt64.size) (pass : Pass) :
    (start.after operations).Settles pass :=
  (consistent_after hnew hmanaged hroom).settles (swept_after hnew hmanaged hroom) pass

/-- Little room but in the non-profiled region. -/
def lopsided : Settings :=
  { profiledCapacity := 32, nonProfiledCapacity := 1024, nonMethodCapacity := 96 }

/-- Two small methods with profiling, the first moved into the non-method region, and a larger one
without. -/
def seesaw : List Operation :=
  [.install ⟨1⟩ ⟨.tier2, ⟨#[1, 2]⟩⟩ .standard, .move ⟨1⟩ .nonMethod,
    .install ⟨2⟩ ⟨.tier2, ⟨#[1, 2, 3]⟩⟩ .standard,
    .install ⟨3⟩ ⟨.tier4, ⟨Array.replicate 16 0⟩⟩ .standard]

/-- A pass that drains what is at most a tenth in use. -/
def drainSparse : Pass := ⟨⟨true, 10, true⟩, {}⟩

/-- After two runs there is nothing left to relocate. -/
theorem consolidation_settles_after_two_passes :
    (((Cache.ofSettings lopsided).after seesaw).afterPasses [drainSparse, drainSparse]).relocated
        drainSparse = 0
      ∧ ((Cache.ofSettings lopsided).after seesaw).Settles drainSparse := by
  have hnew : Cache.new lopsided = .ok (Cache.ofSettings lopsided) := rfl
  have hmanaged : ∀ operation ∈ seesaw, operation.isDirect = false := by decide
  exact ⟨by decide, consolidation_settles hnew hmanaged (by decide) drainSparse⟩

/-- **One pass need not be enough**: the method without profiling goes to the non-method region, which
is only then fuller than the profiled one, so the second run still has a blob to relocate. -/
theorem second_pass_may_relocate :
    Cache.new lopsided = .ok (Cache.ofSettings lopsided)
      ∧ (∀ operation ∈ seesaw, operation.isDirect = false)
      ∧ (((Cache.ofSettings lopsided).after seesaw).collect ⟨true, 10, true⟩ {}).1
        = .ok ⟨0, 0, 0, 1, 0⟩
      ∧ ((((Cache.ofSettings lopsided).after seesaw).afterPasses [drainSparse]).collect
          ⟨true, 10, true⟩ {}).1 = .ok ⟨0, 0, 0, 1, 0⟩
      ∧ (((Cache.ofSettings lopsided).after seesaw).afterPasses [drainSparse]).layout.values
        = [.nonMethod, .profiled, .nonMethod]
      ∧ (((Cache.ofSettings lopsided).after seesaw).afterPasses
          [drainSparse, drainSparse]).layout.values = [.nonMethod, .nonMethod, .nonMethod] := by
  decide

/-- A search looks at one free span, and there is no fallback. -/
def nearsighted : Settings :=
  { profiledCapacity := 2048, nonProfiledCapacity := 160, maxFitProbes := 1,
    allowNonMethodFallback := false }

/-- Two gaps are made in the non-profiled region; of two blobs in the profiled one, the first fits
the second gap only. -/
def gaps : List Operation :=
  [.install ⟨1⟩ ⟨.tier4, ⟨Array.replicate 32 0⟩⟩ .standard,
    .install ⟨2⟩ ⟨.tier4, ⟨Array.replicate 32 0⟩⟩ .standard,
    .install ⟨3⟩ ⟨.tier4, ⟨Array.replicate 64 0⟩⟩ .standard,
    .install ⟨4⟩ ⟨.tier4, ⟨Array.replicate 32 0⟩⟩ .standard,
    .deoptimize ⟨1⟩ .standard, .deoptimize ⟨3⟩ .standard,
    .install ⟨5⟩ ⟨.tier2, ⟨Array.replicate 64 0⟩⟩ .standard,
    .install ⟨6⟩ ⟨.tier2, ⟨Array.replicate 32 0⟩⟩ .standard]

/-- Whoever found no room in the first run finds it in the second, even without the fallback. -/
example :
    (((Cache.ofSettings nearsighted).after gaps).collect ⟨true, 10, false⟩ {}).1
        = .ok ⟨2, 2, 96, 1, 1⟩
      ∧ ((((Cache.ofSettings nearsighted).after gaps).afterPasses [⟨⟨true, 10, false⟩, {}⟩]).collect
          ⟨true, 10, false⟩ {}).1 = .ok ⟨0, 0, 0, 1, 0⟩ := by
  decide

end JitCache
