/-
  JitCache.Proofs.Collection.Draining
  ───────────────────────────────────
  **What draining makes of a consistent cache.**

  The loop over the residents of a region gives each its turn: it is passed over,
  it finds no room, or it is moved.  On a consistent cache there is no fourth
  case, so draining is never refused.  The moves it makes are listed in the order
  they are made (`drainTrail`); between them nothing changes.

  Main statements:
    `Consistent.turn`        — the turn of one blob
    `Consistent.turns`       — the loop over a region
    `Consistent.consolidate` — the third phase of a pass
-/
import JitCache.Proofs.Collection.Reclaiming
import JitCache.Proofs.Collection.Weight
import JitCache.Proofs.Space.Packing

namespace JitCache

/-- The regions that a policy has drained, if they are nearly empty. -/
def CollectionPolicy.sources (policy : CollectionPolicy) : List RegionKind :=
  if policy.consolidate then RegionKind.all.filter RegionKind.holdsMethods else []

theorem CollectionPolicy.holdsMethods_of_mem_sources {policy : CollectionPolicy} {source : RegionKind}
    (h : source ∈ policy.sources) : source.holdsMethods = true := by
  unfold CollectionPolicy.sources at h
  split at h
  · exact (List.mem_filter.mp h).2
  · cases h

/-- A blob wherever it is placed. -/
def Blob.unplaced (blob : Blob) : Blob := { blob with placement := default }

/-- A relocation or a reclamation: the cache before and after it. -/
structure Change where
  before : Cache
  after : Cache

/-- The change moves an entrant blob out of a method region into a fuller one. -/
structure Change.Relocates (change : Change) (blob : Blob) (target : RegionKind) : Prop where
  registered : change.before.registered.get? blob.id = some blob
  entrant : blob.liveness = .entrant
  methods : blob.region.holdsMethods = true
  fuller : (change.before.regions.get blob.region).ratio < (change.before.regions.get target).ratio
  moved : change.before.move blob.id target = (.ok (), change.after)

namespace Cache

/-- The registered blobs, wherever they are placed. -/
def codes (cache : Cache) : Table BlobId Blob :=
  cache.registered.filterMap fun blob => some blob.unplaced

variable {cache before middle after : Cache} {made : Nat} {policy : CollectionPolicy}
  {source target : RegionKind} {blob : Blob} {id : BlobId} {ids : List BlobId}

/-! ## §1. Moving one blob. -/

theorem Consistent.move (h : cache.Consistent made) (id : BlobId) (target : RegionKind) :
    (cache.move id target).2.Consistent made := by
  have hsteps : Steps (.move id target) cache 0 (cache.perform (.move id target)).2 :=
    perform_steps h.sound.filed _
  rw [perform, ofAttempt_snd] at hsteps
  exact h.steps rfl hsteps

/-- Who is registered is found, has a record, and is found again: a move out of its region is granted
or refused with the transfer. -/
theorem move_of_transfer (hrecorded : cache.Recorded)
    (hblob : cache.registered.get? blob.id = some blob) (hne : blob.region ≠ target) :
    (∀ {error regions}, cache.regions.transfer blob.region target blob.id blob.size blob.placement
        = (.error error, regions) → cache.move blob.id target = (.error error, cache))
    ∧ ∀ {placement regions},
        cache.regions.transfer blob.region target blob.id blob.size blob.placement
          = (.ok placement, regions) →
        ∃ metrics, cache.move blob.id target
          = (.ok (), { { cache with regions }.setPlacement blob.id placement with metrics }) := by
  have hagain : ¬ cache.registered.contains blob.id = false := by
    rw [Table.contains_iff.mpr ⟨blob, hblob⟩]
    exact Bool.noConfusion
  unfold Cache.move
  rw [find_eq_ok_iff.mpr hblob]
  dsimp only
  rw [if_neg (hrecorded.not_missing hblob), if_neg hagain, if_neg hne]
  unfold carry
  constructor
  · intro error regions hrefused
    rw [hrefused, Regions.transfer_error hrefused]
  · intro placement regions hgranted
    rw [hgranted]
    exact ⟨_, rfl⟩

/-- What a granted move has carried. -/
theorem exists_transfer_of_move (hblob : cache.registered.get? blob.id = some blob)
    (hne : blob.region ≠ target) (hmove : cache.move blob.id target = (.ok (), after)) :
    ∃ placement regions metrics,
      cache.regions.transfer blob.region target blob.id blob.size blob.placement
          = (.ok placement, regions)
        ∧ after = { { cache with regions }.setPlacement blob.id placement with metrics } := by
  rcases cache.move_cases blob.id target with
    ⟨error, hcase⟩ | ⟨found, hfound, ⟨hregion, -⟩ | ⟨-, placement, regions, htransfer, hcase⟩⟩
  · rw [hcase] at hmove
    cases hmove
  · obtain rfl := Option.some.inj (hblob.symm.trans hfound)
    exact absurd hregion hne
  · obtain rfl := Option.some.inj (hblob.symm.trans hfound)
    rw [hcase] at hmove
    cases hmove
    exact ⟨placement, regions, _, htransfer, rfl⟩

/-- A blob is not resident where it is not placed. -/
theorem Consistent.not_resident (h : cache.Consistent made)
    (hblob : cache.registered.get? blob.id = some blob) (hne : blob.region ≠ target) :
    (cache.regions.get target).residents.contains blob.id = false := by
  rw [Table.contains_eq_false_iff, h.booked target blob.id, hblob]
  exact if_neg hne

/-- Where there is no room, the move is refused for that. -/
theorem Consistent.move_full (h : cache.Consistent made)
    (hblob : cache.registered.get? blob.id = some blob) (hne : blob.region ≠ target)
    (hfull : (cache.regions.get target).place? blob.size = none) :
    ∃ kind requested available,
      cache.move blob.id target = (.error (.regionFull kind requested available), cache) := by
  have hreserve := Region.reserve_eq_error_iff.mpr
    ⟨.inr ⟨h.not_resident hblob hne, hfull, rfl⟩, rfl⟩
  have htransfer : ∃ regions,
      cache.regions.transfer blob.region target blob.id blob.size blob.placement
        = (.error (.regionFull (cache.regions.get target).kind blob.size
            (cache.regions.get target).available), regions) := by
    unfold Regions.transfer
    rw [if_neg hne, if_pos (Table.contains_iff.mpr ⟨_, h.resident hblob⟩), hreserve]
    exact ⟨_, rfl⟩
  obtain ⟨regions, htransfer⟩ := htransfer
  exact ⟨_, _, _, (move_of_transfer h.sound.recorded hblob hne).1 htransfer⟩

/-- Where there is room, the move is granted. -/
theorem Consistent.move_fits (h : cache.Consistent made)
    (hblob : cache.registered.get? blob.id = some blob) (hne : blob.region ≠ target)
    (hfits : (cache.regions.get target).place? blob.size ≠ none) :
    ∃ after, cache.move blob.id target = (.ok (), after) := by
  -- the target has room for it, and the source knows it
  obtain ⟨room, hroom⟩ := Option.ne_none_iff_exists'.mp hfits
  have hreserve : ∃ placement region,
      (cache.regions.get target).reserve blob.id blob.size = (.ok placement, region) := by
    unfold Region.reserve
    rw [h.not_resident hblob hne, if_neg Bool.false_ne_true, hroom]
    exact ⟨_, _, rfl⟩
  obtain ⟨placement, region, hreserve⟩ := hreserve
  have hrelease := Region.release_eq_ok_iff.mpr ⟨_, h.resident hblob, rfl, rfl⟩
  obtain ⟨metrics, hmoved⟩ := (move_of_transfer h.sound.recorded hblob hne).2
    (Regions.transfer_eq_ok_iff.mpr (.inr ⟨hne, _, _, _, hreserve, hrelease, rfl⟩))
  exact ⟨_, hmoved⟩

/-- After a granted move the blob is placed in the target, and every other is where it was. -/
theorem Consistent.registered_move (h : cache.Consistent made)
    (hblob : cache.registered.get? blob.id = some blob) (hne : blob.region ≠ target)
    (hmove : cache.move blob.id target = (.ok (), after)) :
    ∃ placement, placement.region = target ∧ ∀ id, after.registered.get? id
      = if blob.id = id then some { blob with placement } else cache.registered.get? id := by
  obtain ⟨placement, regions, metrics, htransfer, rfl⟩ := exists_transfer_of_move hblob hne hmove
  refine ⟨placement, ?_, ?_⟩
  · rcases Regions.transfer_eq_ok_iff.mp htransfer with ⟨heq, -⟩ | ⟨-, _, _, _, hreserve, -⟩
    · exact absurd heq hne
    · exact region_of_reserve h.sound.regions hreserve
  · intro id
    show ({ cache with regions }.setPlacement blob.id placement).registered.get? id = _
    rw [setPlacement, get?_registered_modifyHeld]
    by_cases hid : blob.id = id
    · rw [if_pos hid, if_pos hid, ← hid]
      exact congrArg (Option.map _) hblob
    · rw [if_neg hid, if_neg hid]

/-- A move changes placements only. -/
theorem Consistent.codes_move (h : cache.Consistent made)
    (hblob : cache.registered.get? blob.id = some blob) (hne : blob.region ≠ target)
    (hmove : cache.move blob.id target = (.ok (), after)) : after.codes = cache.codes := by
  obtain ⟨placement, -, hget⟩ := h.registered_move hblob hne hmove
  apply Table.ext
  intro id
  unfold codes
  rw [Table.get?_filterMap, Table.get?_filterMap, hget]
  split
  · next heq =>
    rw [← heq, hblob]
    rfl
  · rfl

/-! ## §2. The turn of one blob. -/

/-- The turn of one blob of a region that is drained: the changes it makes, how many blobs found no
room, and the cache after it. -/
inductive Turn (policy : CollectionPolicy) (source : RegionKind) (before : Cache) (blob : Blob) :
    List Change → Nat → Cache → Prop
  /-- It is not entrant, or there is no fuller region it may go to. -/
  | passed (hwhy : blob.liveness = .entrant → policy.destinations before.regions source = []) :
      Turn policy source before blob [] 0 before
  /-- No region it may go to has room. -/
  | stuck (hentrant : blob.liveness = .entrant)
      (hsome : policy.destinations before.regions source ≠ [])
      (hfull : ∀ target ∈ policy.destinations before.regions source,
        (before.regions.get target).place? blob.size = none) :
      Turn policy source before blob [] 1 before
  /-- It is moved to a fuller region. -/
  | moved {target : RegionKind} {after : Cache} (hentrant : blob.liveness = .entrant)
      (htarget : target ∈ policy.destinations before.regions source)
      (hmove : before.move blob.id target = (.ok (), after)) :
      Turn policy source before blob [⟨before, after⟩] 0 after

/-- The turns of these blobs, one after the other. -/
inductive Turns (policy : CollectionPolicy) (source : RegionKind) :
    Cache → List BlobId → List Change → Nat → Cache → Prop
  | nil {cache : Cache} : Turns policy source cache [] [] 0 cache
  | cons {before next last : Cache} {blob : Blob} {rest : List BlobId}
      {trail trail' : List Change} {stuck stuck' : Nat}
      (hblob : before.registered.get? blob.id = some blob) (hsource : blob.region = source)
      (hturn : Turn policy source before blob trail stuck next)
      (hrest : Turns policy source next rest trail' stuck' last) :
      Turns policy source before (blob.id :: rest) (trail ++ trail') (stuck + stuck') last

/-- What draining a region comes to. -/
inductive Round (policy : CollectionPolicy) (source : RegionKind) (before : Cache) :
    List Change → Nat → Cache → Prop
  /-- It is empty or too full. -/
  | spared (hspared : policy.drains (before.region source) = false) :
      Round policy source before [] 0 before
  /-- All of its residents have their turns. -/
  | drained {trail : List Change} {stuck : Nat} {after : Cache}
      (hdrains : policy.drains (before.region source) = true)
      (hturns : Turns policy source before (before.region source).residents.keys trail stuck after) :
      Round policy source before trail stuck after

/-- What draining these regions in turn comes to. -/
inductive Rounds (policy : CollectionPolicy) :
    Cache → List RegionKind → List Change → Nat → Cache → Prop
  | nil {cache : Cache} : Rounds policy cache [] [] 0 cache
  | cons {before next last : Cache} {source : RegionKind} {rest : List RegionKind}
      {trail trail' : List Change} {stuck stuck' : Nat}
      (hround : Round policy source before trail stuck next)
      (hrest : Rounds policy next rest trail' stuck' last) :
      Rounds policy before (source :: rest) (trail ++ trail') (stuck + stuck') last

/-- Whatever draining a region comes to is turns of some blobs. -/
theorem Round.exists_turns {trail : List Change} {stuck : Nat}
    (hround : Round policy source before trail stuck after) :
    ∃ ids, Turns policy source before ids trail stuck after := by
  cases hround with
  | spared => exact ⟨[], .nil⟩
  | drained _ hturns => exact ⟨_, hturns⟩

/-- A turn comes to one move or one failure at most. -/
theorem Turn.length_le {trail : List Change} {stuck : Nat}
    (h : Turn policy source before blob trail stuck after) : trail.length + stuck ≤ 1 := by
  cases h with
  | passed => exact Nat.zero_le 1
  | stuck => exact Nat.le_refl 1
  | moved => exact Nat.le_refl 1

theorem Turns.length_le {trail : List Change} {stuck : Nat}
    (h : Turns policy source before ids trail stuck after) : trail.length + stuck ≤ ids.length := by
  induction h with
  | nil => exact Nat.le_refl 0
  | cons _ _ hturn _ ih =>
    have hone := hturn.length_le
    rw [List.length_append, List.length_cons]
    omega

/-- No more moves and failures than residents. -/
theorem Round.length_le {trail : List Change} {stuck : Nat}
    (h : Round policy source before trail stuck after) :
    trail.length + stuck ≤ (before.region source).residentCount := by
  cases h with
  | spared => exact Nat.zero_le _
  | drained _ hturns =>
    have hle := hturns.length_le
    rwa [Table.length_keys] at hle

/-- A region is not fuller than itself, so nothing is moved to where it is. -/
theorem ne_of_mem_destinations {regions : Regions}
    (h : target ∈ policy.destinations regions source) : source ≠ target := by
  rintro rfl
  have hfuller := CollectionPolicy.isFullerThan_of_mem_destinations h
  rw [Region.isFullerThan_self] at hfuller
  cases hfuller

/-- The first target with room takes the blob; all tries before it leave the cache as it is. -/
theorem Consistent.moveToFirst (h : cache.Consistent made)
    (hblob : cache.registered.get? blob.id = some blob) {targets : List RegionKind}
    (hne : ∀ target ∈ targets, blob.region ≠ target) :
    (cache.moveToFirst blob.id targets = (.ok false, cache)
        ∧ ∀ target ∈ targets, (cache.regions.get target).place? blob.size = none)
    ∨ ∃ target ∈ targets, ∃ after, cache.move blob.id target = (.ok (), after)
        ∧ cache.moveToFirst blob.id targets = (.ok true, after) := by
  induction targets with
  | nil => exact .inl ⟨rfl, nofun⟩
  | cons target rest ih =>
    have hhere := hne target List.mem_cons_self
    unfold Cache.moveToFirst
    by_cases hfull : (cache.regions.get target).place? blob.size = none
    · obtain ⟨_, _, _, hmove⟩ := h.move_full hblob hhere hfull
      rw [hmove]
      dsimp only
      rcases ih fun other hmem => hne other (List.mem_cons_of_mem _ hmem) with
        ⟨hnone, hrest⟩ | ⟨other, hmem, after, hmoved, hfound⟩
      · exact .inl ⟨hnone, List.forall_mem_cons.mpr ⟨hfull, hrest⟩⟩
      · exact .inr ⟨other, List.mem_cons_of_mem _ hmem, after, hmoved, hfound⟩
    · obtain ⟨after, hmove⟩ := h.move_fits hblob hhere hfull
      rw [hmove]
      exact .inr ⟨target, List.mem_cons_self, after, hmove, rfl⟩

/-- **Every blob of a region that is drained has its turn**, and draining goes on after it. -/
theorem Consistent.turn (h : cache.Consistent made)
    (hblob : cache.registered.get? blob.id = some blob) (hsource : blob.region = source)
    (policy : CollectionPolicy) :
    ∃ trail stuck after, Turn policy source cache blob trail stuck after
      ∧ ∀ rest report, report.Fits → drainEach policy source (blob.id :: rest) report cache
          = drainEach policy source rest (report.relocate trail.length stuck) after := by
  have hentrant : ((cache.registered.get? blob.id).map Blob.isEntrant).getD false
      = blob.isEntrant := by
    rw [hblob]
    rfl
  by_cases hpassed : blob.isEntrant = false ∨ policy.destinations cache.regions source = []
  · refine ⟨[], 0, cache, .passed ?_, ?_⟩
    · intro hstage
      exact hpassed.resolve_left (by simp [Blob.isEntrant, hstage])
    · intro rest report hfits
      rw [drainEach, hentrant, if_pos hpassed, List.length_nil, hfits.relocate_zero]
  · obtain ⟨hstage, hsome⟩ := not_or.mp hpassed
    have hstage : blob.liveness = .entrant := of_decide_eq_true (Bool.of_not_eq_false hstage)
    have hne : ∀ target ∈ policy.destinations cache.regions source, blob.region ≠ target :=
      fun target hmem => hsource ▸ ne_of_mem_destinations hmem
    rcases h.moveToFirst hblob hne with ⟨hnone, hfull⟩ | ⟨target, htarget, after, hmove, hfound⟩
    · refine ⟨[], 1, cache, .stuck hstage hsome hfull, ?_⟩
      intro rest report hfits
      rw [drainEach, hentrant, if_neg hpassed, hnone, List.length_nil, hfits.relocate_stuck]
    · refine ⟨[⟨cache, after⟩], 0, after, .moved hstage htarget hmove, ?_⟩
      intro rest report hfits
      rw [drainEach, hentrant, if_neg hpassed, hfound, List.length_singleton, hfits.relocate_moved]

/-- Draining takes a consistent cache to one with the same blobs. -/
structure Drained (made : Nat) (before after : Cache) : Prop where
  consistent : after.Consistent made
  codes : after.codes = before.codes
  settings : after.settings = before.settings

theorem Consistent.drained (h : cache.Consistent made) : Drained made cache cache :=
  ⟨h, rfl, rfl⟩

theorem Drained.trans (h : Drained made before middle) (h' : Drained made middle after) :
    Drained made before after :=
  ⟨h'.consistent, h'.codes.trans h.codes, h'.settings.trans h.settings⟩

/-- Draining registers nobody anew. -/
theorem Drained.exists_old (h : Drained made before after) {new : Blob}
    (hnew : after.registered.get? id = some new) :
    ∃ old, before.registered.get? id = some old ∧ new.unplaced = old.unplaced :=
  Table.exists_of_view_eq h.codes hnew

theorem Consistent.drained_move (h : cache.Consistent made)
    (hblob : cache.registered.get? blob.id = some blob) (hne : blob.region ≠ target)
    (hmove : cache.move blob.id target = (.ok (), after)) : Drained made cache after where
  consistent := by
    have hmoved := h.move blob.id target
    rwa [hmove] at hmoved
  codes := h.codes_move hblob hne hmove
  settings := by
    obtain ⟨_, _, _, -, rfl⟩ := exists_transfer_of_move hblob hne hmove
    rfl

/-- Once a blob has had its turn, the others are still there. -/
theorem Turn.residents {trail : List Change} {stuck : Nat}
    (h : Turn policy source cache blob trail stuck after)
    (hfiled : cache.Filed) (hne : blob.id ≠ id) (kind : RegionKind) :
    (after.regions.get kind).residents.get? id = (cache.regions.get kind).residents.get? id := by
  cases h with
  | passed | stuck => rfl
  | @moved target _ _ _ hmove =>
    have hresidents := residents_move hfiled hne target kind
    rwa [hmove] at hresidents

/-! ## §3. Changes, one after the other. -/

/-- The registered blobs, whatever their liveness. -/
def standing (cache : Cache) : Table BlobId Blob :=
  cache.registered.filterMap fun blob => some { blob with liveness := default }

/-- The same regions with the same blobs in them. -/
structure SamePlaces (before after : Cache) : Prop where
  regions : after.regions = before.regions
  standing : after.standing = before.standing

theorem samePlaces_refl (cache : Cache) : SamePlaces cache cache := ⟨rfl, rfl⟩

theorem SamePlaces.trans (h : SamePlaces before middle) (h' : SamePlaces middle after) :
    SamePlaces before after :=
  ⟨h'.regions.trans h.regions, h'.standing.trans h.standing⟩

/-- The changes lead from one cache to the other; in between nothing changes its place. -/
def Linked : Cache → List Change → Cache → Prop
  | before, [], after => SamePlaces before after
  | before, change :: rest, after => SamePlaces before change.before ∧ Linked change.after rest after

theorem Linked.append {trail trail' : List Change} (h : Linked before trail middle)
    (h' : Linked middle trail' after) : Linked before (trail ++ trail') after := by
  induction trail generalizing before with
  | nil =>
    cases trail' with
    | nil => exact SamePlaces.trans h h'
    | cons change rest => exact ⟨SamePlaces.trans h h'.1, h'.2⟩
  | cons change rest ih => exact ⟨h.1, ih h.2⟩

/-- The changes that the loop over the residents of a region makes. -/
def drainTrail (policy : CollectionPolicy) (source : RegionKind) : List BlobId → Cache → List Change
  | [], _ => []
  | id :: rest, cache =>
    -- one turn of the loop, which reports whether it has moved the blob
    match drainEach policy source [id] {} cache with
    | (.ok report, next) =>
      (if report.blobsRelocated = 0 then [] else [⟨cache, next⟩]) ++ drainTrail policy source rest next
    | (.error _, _) => []

/-- The changes that draining one region makes. -/
def sourceTrail (cache : Cache) (policy : CollectionPolicy) (source : RegionKind) : List Change :=
  if policy.drains (cache.region source) then
    drainTrail policy source (cache.region source).residents.keys cache
  else []

/-- The changes that draining these regions in turn makes. -/
def drainAllTrail (policy : CollectionPolicy) : List RegionKind → Cache → List Change
  | [], _ => []
  | source :: rest, cache =>
    cache.sourceTrail policy source ++ drainAllTrail policy rest (cache.drain policy source {}).2

/-- The changes that the third phase of a pass makes. -/
def consolidateTrail (cache : Cache) (policy : CollectionPolicy) : List Change :=
  drainAllTrail policy policy.sources cache

/-- These changes are relocations on consistent caches, and drain one cache into the other. -/
structure Draining (made : Nat) (before : Cache) (trail : List Change) (after : Cache) : Prop where
  drained : Drained made before after
  linked : Linked before trail after
  relocates : ∀ change ∈ trail, change.before.Consistent made
    ∧ Drained made change.before change.after ∧ ∃ blob target, change.Relocates blob target

theorem Consistent.draining (h : cache.Consistent made) : Draining made cache [] cache where
  drained := h.drained
  linked := samePlaces_refl cache
  relocates _ hmem := absurd hmem List.not_mem_nil

theorem Draining.append {trail trail' : List Change} (h : Draining made before trail middle)
    (h' : Draining made middle trail' after) : Draining made before (trail ++ trail') after where
  drained := h.drained.trans h'.drained
  linked := h.linked.append h'.linked
  relocates change hmem := (List.mem_append.mp hmem).elim (h.relocates change) (h'.relocates change)

/-- A blob that has its turn and is moved is relocated. -/
theorem Consistent.relocates_of_move (h : cache.Consistent made)
    (hblob : cache.registered.get? blob.id = some blob) (hsource : blob.region = source)
    (hmethods : source.holdsMethods = true) (hentrant : blob.liveness = .entrant)
    (htarget : target ∈ policy.destinations cache.regions source)
    (hmove : cache.move blob.id target = (.ok (), after)) :
    (Change.mk cache after).Relocates blob target where
  registered := hblob
  entrant := hentrant
  methods := hsource ▸ hmethods
  fuller := by
    subst hsource
    exact Region.ratio_lt_of_isFullerThan
      (CollectionPolicy.isFullerThan_of_mem_destinations htarget) (h.sound.regions.region target).used_le
  moved := hmove

theorem Consistent.draining_turn (h : cache.Consistent made) {trail : List Change} {stuck : Nat}
    (hblob : cache.registered.get? blob.id = some blob) (hsource : blob.region = source)
    (hmethods : source.holdsMethods = true) (hturn : Turn policy source cache blob trail stuck after) :
    Draining made cache trail after := by
  cases hturn with
  | passed | stuck => exact h.draining
  | @moved target _ hentrant htarget hmove =>
    have hdrained := h.drained_move hblob (hsource ▸ ne_of_mem_destinations htarget) hmove
    refine ⟨hdrained, ⟨samePlaces_refl cache, samePlaces_refl after⟩, ?_⟩
    intro change hmem
    obtain rfl := List.mem_singleton.mp hmem
    exact ⟨h, hdrained, blob, target,
      h.relocates_of_move hblob hsource hmethods hentrant htarget hmove⟩

/-! ## §4. The loops. -/

/-- **The loop over a region is never refused**: it gives these blobs their turns. -/
theorem Consistent.turns (h : cache.Consistent made) (hdrain : cache.Drainable source ids)
    (hmethods : source.holdsMethods = true) (policy : CollectionPolicy) :
    ∃ stuck after, Turns policy source cache ids (drainTrail policy source ids cache) stuck after
      ∧ ∀ report, report.Fits → drainEach policy source ids report cache
          = (.ok (report.relocate (drainTrail policy source ids cache).length stuck), after) := by
  -- on the blobs still to be drained, each a resident of the source until its turn
  induction ids generalizing cache with
  | nil =>
    refine ⟨0, cache, .nil, fun report hfits => ?_⟩
    rw [drainEach, drainTrail, List.length_nil, hfits.relocate_zero]
  | cons id rest ih =>
    obtain ⟨resident, hresident⟩ := hdrain.resident id List.mem_cons_self
    obtain ⟨blob, hblob, hsource, -⟩ := h.booked.registered_of_resident hresident
    obtain rfl := h.sound.filed.registered hblob
    obtain ⟨trail, stuck, next, hturn, hgoes⟩ := h.turn hblob hsource policy
    have hrest : next.Drainable source rest :=
      hdrain.rest fun other hne => hturn.residents h.sound.filed hne source
    obtain ⟨stuck', after, hturns, hloop⟩ :=
      ih (h.draining_turn hblob hsource hmethods hturn).drained.consistent hrest
    have htrail : drainTrail policy source (blob.id :: rest) cache
        = trail ++ drainTrail policy source rest next := by
      rw [drainTrail, hgoes [] {} (PassReport.fits_marked 0)]
      cases hturn <;> rfl
    refine ⟨stuck + stuck', after, ?_, ?_⟩
    · rw [htrail]
      exact .cons hblob hsource hturn hturns
    · intro report hfits
      rw [hgoes rest report hfits, hloop _ (hfits.relocate trail.length stuck),
        PassReport.relocate_relocate, htrail, List.length_append]

/-- Turns one after the other are a sequence of relocations. -/
theorem Turns.draining {trail : List Change} {stuck : Nat}
    (hturns : Turns policy source cache ids trail stuck after) (h : cache.Consistent made)
    (hmethods : source.holdsMethods = true) : Draining made cache trail after := by
  induction hturns with
  | nil => exact h.draining
  | cons hblob hsource hturn _ ih =>
    have hfirst := h.draining_turn hblob hsource hmethods hturn
    exact hfirst.append (ih hfirst.drained.consistent)

theorem Consistent.round (h : cache.Consistent made) (hmethods : source.holdsMethods = true)
    (policy : CollectionPolicy) :
    ∃ stuck after, Round policy source cache (cache.sourceTrail policy source) stuck after
      ∧ ∀ report, report.Fits → cache.drain policy source report
          = (.ok (report.relocate (cache.sourceTrail policy source).length stuck), after) := by
  unfold drain sourceTrail
  dsimp only
  split
  · next hdrains =>
    obtain ⟨stuck, after, hturns, hloop⟩ := h.turns (cache.drainable_keys source) hmethods policy
    exact ⟨stuck, after, .drained hdrains hturns, hloop⟩
  · next hspared =>
    refine ⟨0, cache, .spared (Bool.eq_false_iff.mpr hspared), fun report hfits => ?_⟩
    rw [List.length_nil, hfits.relocate_zero]

theorem Round.draining {trail : List Change} {stuck : Nat}
    (hround : Round policy source cache trail stuck after) (h : cache.Consistent made)
    (hmethods : source.holdsMethods = true) : Draining made cache trail after := by
  obtain ⟨_, hturns⟩ := hround.exists_turns
  exact hturns.draining h hmethods

theorem Consistent.rounds (h : cache.Consistent made) {sources : List RegionKind}
    (hmethods : ∀ source ∈ sources, source.holdsMethods = true) (policy : CollectionPolicy) :
    ∃ stuck after, Rounds policy cache sources (drainAllTrail policy sources cache) stuck after
      ∧ ∀ report, report.Fits → drainAll policy sources report cache
          = (.ok (report.relocate (drainAllTrail policy sources cache).length stuck), after) := by
  induction sources generalizing cache with
  | nil =>
    refine ⟨0, cache, .nil, fun report hfits => ?_⟩
    rw [drainAll, drainAllTrail, List.length_nil, hfits.relocate_zero]
  | cons source rest ih =>
    have hsource := hmethods source List.mem_cons_self
    obtain ⟨stuck, next, hround, hdrain⟩ := h.round hsource policy
    obtain ⟨stuck', after, hrounds, hloop⟩ := ih (hround.draining h hsource).drained.consistent
      fun other hmem => hmethods other (List.mem_cons_of_mem _ hmem)
    have htrail : drainAllTrail policy (source :: rest) cache
        = cache.sourceTrail policy source ++ drainAllTrail policy rest next := by
      rw [drainAllTrail, hdrain {} (PassReport.fits_marked 0)]
    refine ⟨stuck + stuck', after, ?_, ?_⟩
    · rw [htrail]
      exact .cons hround hrounds
    · intro report hfits
      rw [drainAll, hdrain report hfits]
      dsimp only
      rw [hloop _ (hfits.relocate _ stuck), PassReport.relocate_relocate, htrail,
        List.length_append]

theorem Rounds.draining {sources : List RegionKind} {trail : List Change} {stuck : Nat}
    (hrounds : Rounds policy cache sources trail stuck after) (h : cache.Consistent made)
    (hmethods : ∀ source ∈ sources, source.holdsMethods = true) : Draining made cache trail after := by
  induction hrounds with
  | nil => exact h.draining
  | cons hround _ ih =>
    have hfirst := hround.draining h (hmethods _ List.mem_cons_self)
    exact hfirst.append
      (ih hfirst.drained.consistent fun other hmem => hmethods other (List.mem_cons_of_mem _ hmem))

/-- Every resident takes a unit of its region, so there are few moves and failures for a word. -/
theorem Rounds.length_le {sources : List RegionKind} {trail : List Change} {stuck : Nat}
    (hrounds : Rounds policy cache sources trail stuck after) (h : cache.Consistent made)
    (hmethods : ∀ source ∈ sources, source.holdsMethods = true) :
    Span.unit * (trail.length + stuck) ≤ sources.length * Word.maxValue := by
  induction hrounds with
  | nil => exact Nat.le_of_eq (Nat.zero_mul Word.maxValue).symm
  | @cons before next last source rest trail trail' stuck stuck' hround _ ih =>
    have hfirst := hround.length_le
    have hunits := (h.sound.regions.region source).unit_mul_residentCount_le
    have hword := Word.toNat_le_maxValue (before.regions.get source).capacity
    have hlater := ih (hround.draining h (hmethods _ List.mem_cons_self)).drained.consistent
      fun other hmem => hmethods other (List.mem_cons_of_mem _ hmem)
    rw [List.length_append, List.length_cons, Nat.succ_mul]
    unfold Cache.region at hfirst
    unfold Span.unit at hunits hlater ⊢
    omega

/-- **The third phase of a pass is never refused**: it drains the regions that the policy names. -/
theorem Consistent.consolidate (h : cache.Consistent made) (policy : CollectionPolicy) :
    ∃ stuck after,
      Rounds policy cache policy.sources (cache.consolidateTrail policy) stuck after
      ∧ Draining made cache (cache.consolidateTrail policy) after
      ∧ (cache.consolidateTrail policy).length + stuck ≤ Word.maxValue
      ∧ ∀ report, report.Fits → cache.consolidate policy report
          = (.ok (report.relocate (cache.consolidateTrail policy).length stuck), after) := by
  have hmethods : ∀ source ∈ policy.sources, source.holdsMethods = true :=
    fun _ hmem => CollectionPolicy.holdsMethods_of_mem_sources hmem
  obtain ⟨stuck, after, hrounds, hloop⟩ := h.rounds hmethods policy
  have hfew := hrounds.length_le h hmethods
  have hsources : policy.sources.length ≤ 2 := by
    unfold CollectionPolicy.sources
    split <;> decide
  have hword : policy.sources.length * Word.maxValue ≤ 2 * Word.maxValue :=
    Nat.mul_le_mul_right _ hsources
  refine ⟨stuck, after, hrounds, hrounds.draining h hmethods, ?_, ?_⟩
  · unfold consolidateTrail
    unfold Span.unit at hfew
    omega
  intro report hfits
  have hall : cache.consolidate policy report = drainAll policy policy.sources report cache := by
    unfold Cache.consolidate CollectionPolicy.sources
    split <;> rfl
  rw [hall]
  exact hloop report hfits

end Cache

end JitCache
