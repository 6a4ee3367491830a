/-
  JitCache.Proofs.Collection.Itinerary
  ────────────────────────────────────
  **The way a blob is taken in one pass.**

  The two method regions are drained one after the other, the profiled one first,
  and the second is asked for its residents only when the first is done.  So no
  blob leaves a region twice, but one that has gone from the profiled region to
  the other may be taken on from there, even back to where it was.

  That takes the fallback.  However many blobs leave a region, whichever was
  fuller stays so; hence once a blob has gone to the non-profiled region, this one
  is the fuller of the two and can only give blobs to the non-method region, until
  it has given away enough.

  Main statements:
    `Turns.fate`         — in one region's turn a blob stays or leaves, once
    `Rounds.itinerary`   — the ways through both regions
    `Linked.total_stops` — every change is a stop of one blob
    `no_region_left_twice`
-/
import JitCache.Proofs.Collection.Settling

namespace JitCache

/-- Where the change has taken the blob, if it has moved that one. -/
def Change.stop? (change : Change) (id : BlobId) : Option RegionKind :=
  if change.after.layout.get? id = change.before.layout.get? id then none
  else change.after.layout.get? id

/-- The regions that changes take a blob to, one after the other. -/
def stops (trail : List Change) (id : BlobId) : List RegionKind :=
  trail.filterMap fun change => change.stop? id

/-- The ways of a blob in one pass: where it is at first, where it is taken, and where it is at
last. -/
inductive Itinerary : RegionKind → List RegionKind → RegionKind → Prop
  | stays {home : RegionKind} : Itinerary home [] home
  | once {home target : RegionKind} (hmethods : home.holdsMethods = true) (hne : target ≠ home) :
      Itinerary home [target] target
  | twice {target : RegionKind} (hne : target ≠ .nonProfiled) :
      Itinerary .profiled [.nonProfiled, target] target

namespace Cache

/-- What draining one region does to a blob: where it is taken, and the blob after it. -/
inductive Fate (source : RegionKind) (old : Blob) : List RegionKind → Blob → Prop
  | stays : Fate source old [] old
  | leaves {placement : Placement} (hfrom : old.region = source) (hto : placement.region ≠ source) :
      Fate source old [placement.region] { old with placement }

/-- The fallback is allowed, and some change takes a blob by it out of this region. -/
def FallsBack (policy : CollectionPolicy) (source : RegionKind) (trail : List Change) : Prop :=
  policy.allowNonMethod = true
    ∧ ∃ change ∈ trail, ∃ blob, change.Relocates blob .nonMethod ∧ blob.region = source

variable {cache before after : Cache} {made stuck : Nat} {policy : CollectionPolicy}
  {source target kind : RegionKind} {blob old middle new : Blob} {id : BlobId}
  {ids : List BlobId} {change : Change} {trail : List Change} {way way' : List RegionKind}

/-! ## §1. Stops. -/

theorem stops_append (trail trail' : List Change) (id : BlobId) :
    stops (trail ++ trail') id = stops trail id ++ stops trail' id := List.filterMap_append

theorem stops_singleton (change : Change) (id : BlobId) :
    stops [change] id = (change.stop? id).toList := by
  unfold stops
  cases hstop : change.stop? id <;> simp [hstop]

/-- **A relocation is a stop of the blob it moves**, and of no other. -/
theorem Consistent.stop?_eq (h : change.before.Consistent made)
    (hrelocates : change.Relocates blob target) (id : BlobId) :
    change.stop? id = if blob.id = id then some target else none := by
  have hne : blob.region ≠ target := by
    rintro rfl
    exact absurd hrelocates.fuller (lt_irrefl _)
  obtain ⟨placement, rfl, hget⟩ := h.registered_move hrelocates.registered hne hrelocates.moved
  unfold Change.stop?
  rw [get?_layout, get?_layout, hget]
  by_cases hid : blob.id = id
  · subst hid
    rw [if_pos rfl, if_pos rfl, hrelocates.registered, Option.map_some, Option.map_some]
    exact if_neg fun hsame => hne (Option.some.inj hsame).symm
  · rw [if_neg hid, if_neg hid, if_pos rfl]

/-- Summed over the blobs, a relocation is one stop. -/
theorem Consistent.total_stop (h : change.before.Consistent made)
    (hrelocates : change.Relocates blob target) :
    (change.before.registered.total fun other => (stops [change] other.id).length) = 1 := by
  simp only [stops_singleton, h.stop?_eq hrelocates]
  rw [Table.total_eq_of_only hrelocates.registered, if_pos rfl]
  · rfl
  · intro other found hne hfound
    rw [h.sound.filed.registered hfound, if_neg hne]
    rfl

/-- Between changes, and along a relocation, the register has the same handles. -/
theorem total_ids_of_standing (hsame : after.standing = before.standing) (measure : BlobId → Nat) :
    (after.registered.total fun blob => measure blob.id)
      = before.registered.total fun blob => measure blob.id := by
  have htotal := congrArg (Table.total fun blob => measure blob.id) hsame
  unfold standing at htotal
  rwa [Table.total_filterMap, Table.total_filterMap] at htotal

theorem Drained.total_ids (h : Drained made before after) (measure : BlobId → Nat) :
    (after.registered.total fun blob => measure blob.id)
      = before.registered.total fun blob => measure blob.id := by
  have htotal := congrArg (Table.total fun blob => measure blob.id) h.codes
  rwa [total_codes (fun _ => rfl), total_codes (fun _ => rfl)] at htotal

/-- **Every change is a stop of one blob**: added up, the stops are the changes. -/
theorem Linked.total_stops (hlinked : Linked before trail after)
    (hrelocates : ∀ change ∈ trail, change.before.Consistent made
      ∧ Drained made change.before change.after ∧ ∃ blob target, change.Relocates blob target) :
    (before.registered.total fun blob => (stops trail blob.id).length) = trail.length := by
  -- on the changes, all of which see the same handles in the register
  induction trail generalizing before with
  | nil => exact Table.total_eq_zero_iff.mpr fun _ _ _ => rfl
  | cons change rest ih =>
    obtain ⟨⟨h, hdrained, blob, target, hmoved⟩, hlater⟩ := List.forall_mem_cons.mp hrelocates
    have hrest := ih hlinked.2 hlater
    rw [hdrained.total_ids fun id => (stops rest id).length] at hrest
    rw [← total_ids_of_standing hlinked.1.standing fun id => (stops (change :: rest) id).length]
    have hsplit : ∀ id, (stops (change :: rest) id).length
        = (stops [change] id).length + (stops rest id).length := by
      intro id
      rw [← List.length_append, ← stops_append, List.singleton_append]
    simp only [hsplit]
    rw [← Table.total_add, h.total_stop hmoved, hrest, List.length_cons, Nat.add_comm]

/-! ## §2. What draining one region does to a blob. -/

/-- Whoever has left the region does not leave it again. -/
theorem Fate.trans (h : Fate source old way middle) (h' : Fate source middle way' new) :
    Fate source old (way ++ way') new := by
  cases h with
  | stays => exact h'
  | leaves hfrom hto =>
    cases h' with
    | stays => exact .leaves hfrom hto
    | leaves hagain => exact absurd hagain hto

theorem Turn.fate (hturn : Turn policy source cache blob trail stuck after)
    (h : cache.Consistent made) (hmethods : source.holdsMethods = true)
    (hblob : cache.registered.get? blob.id = some blob) (hsource : blob.region = source)
    (hold : cache.registered.get? id = some old) :
    ∃ new, after.registered.get? id = some new ∧ Fate source old (stops trail id) new := by
  cases hturn with
  | passed | stuck => exact ⟨old, hold, .stays⟩
  | moved hentrant htarget hmove =>
    have hne := ne_of_mem_destinations htarget
    have hrelocates := h.relocates_of_move hblob hsource hmethods hentrant htarget hmove
    obtain ⟨placement, rfl, hget⟩ := h.registered_move hblob (hsource ▸ hne) hmove
    rw [stops_singleton, h.stop?_eq hrelocates, hget]
    by_cases hid : blob.id = id
    · subst hid
      obtain rfl := Option.some.inj (hblob.symm.trans hold)
      rw [if_pos rfl, if_pos rfl]
      exact ⟨_, rfl, .leaves hsource (Ne.symm hne)⟩
    · rw [if_neg hid, if_neg hid]
      exact ⟨old, hold, .stays⟩

/-- **In one region's turn a blob stays or leaves, once.** -/
theorem Turns.fate (hturns : Turns policy source cache ids trail stuck after)
    (h : cache.Consistent made) (hmethods : source.holdsMethods = true)
    (hold : cache.registered.get? id = some old) :
    ∃ new, after.registered.get? id = some new ∧ Fate source old (stops trail id) new := by
  -- on the turns, each of which finds the blob as the turns before it have left it
  induction hturns generalizing old with
  | nil => exact ⟨old, hold, .stays⟩
  | cons hblob hsource hturn _ ih =>
    obtain ⟨next, hnext, hfirst⟩ := hturn.fate h hmethods hblob hsource hold
    have hdrained := (h.draining_turn hblob hsource hmethods hturn).drained
    obtain ⟨new, hnew, hlater⟩ := ih hdrained.consistent hnext
    rw [stops_append]
    exact ⟨new, hnew, hfirst.trans hlater⟩

/-! ## §3. Which region is the fuller. -/

/-- Whoever is fuller than a region stays so while it is drained. -/
theorem Turns.isFullerThan (hturns : Turns policy source cache ids trail stuck after)
    (h : cache.Consistent made) (hmethods : source.holdsMethods = true)
    (hfuller : (cache.regions.get kind).isFullerThan (cache.regions.get source) = true) :
    (after.regions.get kind).isFullerThan (after.regions.get source) = true := by
  induction hturns with
  | nil => exact hfuller
  | cons hblob hsource hturn _ ih =>
    have hnext := (h.draining_turn hblob hsource hmethods hturn).drained.consistent
    refine ih hnext ?_
    cases hturn with
    | passed | stuck => exact hfuller
    | moved _ htarget hmove =>
      exact h.isFullerThan_move hblob hsource (ne_of_mem_destinations htarget) hmove hfuller

/-- Where a blob has gone, there it is fuller, and stays so. -/
theorem Turns.isFullerThan_of_stop (hturns : Turns policy source cache ids trail stuck after)
    (h : cache.Consistent made) (hmethods : source.holdsMethods = true)
    (hstop : kind ∈ stops trail id) :
    (after.regions.get kind).isFullerThan (after.regions.get source) = true := by
  induction hturns with
  | nil => exact absurd hstop List.not_mem_nil
  | cons hblob hsource hturn hrest ih =>
    have hnext := (h.draining_turn hblob hsource hmethods hturn).drained.consistent
    rw [stops_append] at hstop
    rcases List.mem_append.mp hstop with hnow | hlater
    · refine hrest.isFullerThan hnext hmethods ?_
      cases hturn with
      | passed | stuck => exact absurd hnow List.not_mem_nil
      | moved hentrant htarget hmove =>
        have hrelocates := h.relocates_of_move hblob hsource hmethods hentrant htarget hmove
        rw [stops_singleton, h.stop?_eq hrelocates] at hnow
        split at hnow
        · obtain rfl := List.mem_singleton.mp hnow
          exact h.isFullerThan_move hblob hsource (ne_of_mem_destinations htarget) hmove
            (CollectionPolicy.isFullerThan_of_mem_destinations htarget)
        · cases hnow
    · exact ih hnext hlater

/-- If a region fuller than its sibling gives a blob away, the first goes to the non-method
region. -/
theorem Turns.fallsBack (hturns : Turns policy source cache ids trail stuck after)
    (h : cache.Consistent made) (hmethods : source.holdsMethods = true)
    (hfuller : ∀ sibling, source.sibling? = some sibling →
      (cache.regions.get source).isFullerThan (cache.regions.get sibling) = true)
    (hsome : trail ≠ []) : FallsBack policy source trail := by
  induction hturns with
  | nil => exact absurd rfl hsome
  | @cons _ _ _ blob _ _ _ _ _ hblob hsource hturn _ ih =>
    cases hturn with
    | passed | stuck => exact ih h hfuller hsome
    | moved hentrant htarget hmove =>
      obtain ⟨hallow, rfl⟩ := eq_nonMethod_of_mem_destinations hfuller htarget
      exact ⟨hallow, _, List.mem_cons_self, blob,
        h.relocates_of_move hblob hsource hmethods hentrant htarget hmove, hsource⟩

/-! ## §4. Through both regions. -/

/-- What draining the one region and then the other does to a blob. -/
theorem Fate.itinerary (h : Fate .profiled old way middle) (h' : Fate .nonProfiled middle way' new) :
    Itinerary old.region (way ++ way') new.region
      ∧ (way ++ way' = [] → new = old)
      ∧ (1 < (way ++ way').length → RegionKind.nonProfiled ∈ way ∧ way' ≠ []) := by
  cases h with
  | stays =>
    cases h' with
    | stays => exact ⟨.stays, fun _ => rfl, fun hmany => absurd hmany (Nat.not_lt_zero 1)⟩
    | leaves hfrom hto =>
      exact ⟨.once (hfrom ▸ rfl) (hfrom ▸ hto), nofun, fun hmany => absurd hmany (Nat.lt_irrefl 1)⟩
  | @leaves placement hfrom hto =>
    cases h' with
    | stays =>
      exact ⟨.once (hfrom ▸ rfl) (hfrom ▸ hto), nofun, fun hmany => absurd hmany (Nat.lt_irrefl 1)⟩
    | leaves hfrom' hto' =>
      -- it can only leave the second region if that is where it went from the first
      have hthere : placement.region = .nonProfiled := hfrom'
      rw [hfrom, hthere]
      exact ⟨.twice hto', nofun, fun _ => ⟨List.mem_singleton_self _, nofun⟩⟩

/-- **The way of a blob through both regions.** -/
theorem Rounds.itinerary (hrounds : Rounds policy cache policy.sources trail stuck after)
    (h : cache.Consistent made) (hold : cache.registered.get? id = some old) :
    ∃ new, after.registered.get? id = some new
      ∧ Itinerary old.region (stops trail id) new.region
      ∧ (stops trail id = [] → new = old)
      ∧ (1 < (stops trail id).length → FallsBack policy .nonProfiled trail) := by
  rcases hrounds.both with ⟨-, rfl, rfl⟩ | ⟨-, first, second, next, _, _, rfl, -, hfirst, hsecond⟩
  · exact ⟨old, hold, .stays, fun _ => rfl, fun hmany => absurd hmany (Nat.not_lt_zero 1)⟩
  have hnext := (hfirst.draining h rfl).drained.consistent
  obtain ⟨_, hturns⟩ := hfirst.exists_turns
  obtain ⟨_, hturns'⟩ := hsecond.exists_turns
  obtain ⟨middle, hmiddle, hfate⟩ := hturns.fate h rfl hold
  obtain ⟨new, hnew, hfate'⟩ := hturns'.fate hnext rfl hmiddle
  obtain ⟨hway, hstays, hmany⟩ := hfate.itinerary hfate'
  rw [stops_append]
  refine ⟨new, hnew, hway, hstays, fun htwo => ?_⟩
  obtain ⟨hstop, hlater⟩ := hmany htwo
  -- the blob has made the non-profiled region the fuller one, and something has left it
  have hsibling : ∀ sibling, RegionKind.nonProfiled.sibling? = some sibling →
      (next.regions.get .nonProfiled).isFullerThan (next.regions.get sibling) = true := by
    rintro _ ⟨⟩
    exact hturns.isFullerThan_of_stop h rfl hstop
  have hsome : second ≠ [] := by
    rintro rfl
    exact hlater rfl
  obtain ⟨hallow, change, hmem, hout⟩ := hturns'.fallsBack hnext rfl hsibling hsome
  exact ⟨hallow, change, List.mem_append_right _ hmem, hout⟩

/-! ## §5. In one pass. -/

/-- The relocations of a pass. -/
def passRelocations (cache : Cache) (pass : Pass) : List Change :=
  (cache.cleared pass.frames).consolidateTrail pass.policy

/-- The regions that a pass takes a blob to, one after the other. -/
def stopsIn (cache : Cache) (pass : Pass) (id : BlobId) : List RegionKind :=
  stops (cache.passRelocations pass) id

/-- The registered blobs that were in another region before. -/
def displaced (before after : Cache) : List Blob :=
  after.registered.values.filter fun blob => before.layout.get? blob.id ≠ some blob.region

/-- What a pass does to the places of blobs, and how many relocations it reports. -/
structure Travels (before : Cache) (pass : Pass) (report : PassReport) (after : Cache) : Prop where
  /-- First blobs are reclaimed, one by one. -/
  reclaims : Linked before (before.clearTrail pass.frames) (before.cleared pass.frames)
    ∧ ∀ change ∈ before.clearTrail pass.frames, ∃ blob, change.Reclaims blob
  /-- Then the relocations lead to the cache after the pass, and in between nothing changes its
  place. -/
  linked : Linked (before.cleared pass.frames) (before.passRelocations pass) after
  /-- Each change is the relocation of one blob, and where that one goes is its next stop. -/
  relocates : ∀ change ∈ before.passRelocations pass, ∃ blob target, change.Relocates blob target
    ∧ ∀ id, change.stop? id = if blob.id = id then some target else none
  /-- No blob leaves a region twice, and each is at last where it was last taken. -/
  itinerary : ∀ {id old new}, before.registered.get? id = some old →
    after.registered.get? id = some new →
      Itinerary old.region (before.stopsIn pass id) new.region
  unmoved : ∀ {id old new}, before.registered.get? id = some old →
    after.registered.get? id = some new →
      before.stopsIn pass id = [] → new.placement = old.placement
  /-- If a blob is relocated twice, the fallback is allowed and some blob has gone by it from the
  non-profiled region to the non-method one. -/
  twice : ∀ {id new}, after.registered.get? id = some new →
    1 < (before.stopsIn pass id).length →
      FallsBack pass.policy .nonProfiled (before.passRelocations pass)
  /-- The report counts relocations. -/
  reported : report.blobsRelocated
    = after.registered.total fun blob => (before.stopsIn pass blob.id).length
  /-- As many blobs are in another region than before just if none is relocated twice. -/
  displaced_iff : report.blobsRelocated = (before.displaced after).length
    ↔ ∀ id new, after.registered.get? id = some new → (before.stopsIn pass id).length ≤ 1
  displaced_of_no_fallback : pass.policy.allowNonMethod = false →
    report.blobsRelocated = (before.displaced after).length

/-- Being elsewhere at last counts no more than the stops do, and as much just if there is at most
one. -/
theorem moved_le_stops {home last : RegionKind} (h : Itinerary home way last) :
    (if some home ≠ some last then 1 else 0) ≤ way.length
      ∧ ((if some home ≠ some last then 1 else 0) = way.length ↔ way.length ≤ 1) := by
  cases h with
  | stays => simp
  | once _ hne => simp [hne.symm]
  | twice => split <;> simp

/-- As many blobs are displaced as there are stops just if no blob has two. -/
theorem length_displaced_iff (hway : ∀ id new, after.registered.get? id = some new →
      new.id = id ∧ ∃ home, before.layout.get? id = some home
        ∧ Itinerary home (stops trail id) new.region) :
    (before.displaced after).length
        = (after.registered.total fun blob => (stops trail blob.id).length)
      ↔ ∀ id new, after.registered.get? id = some new → (stops trail id).length ≤ 1 := by
  unfold displaced
  rw [Table.length_filter_values]
  simp only [decide_eq_true_eq]
  have hcount : ∀ id new, after.registered.get? id = some new →
      (if before.layout.get? new.id ≠ some new.region then 1 else 0) ≤ (stops trail new.id).length
        ∧ ((if before.layout.get? new.id ≠ some new.region then 1 else 0)
            = (stops trail new.id).length ↔ (stops trail id).length ≤ 1) := by
    intro id new hnew
    obtain ⟨rfl, home, hhome, hitinerary⟩ := hway id new hnew
    rw [hhome]
    exact moved_le_stops hitinerary
  rw [Table.total_eq_total_iff fun id new hnew => (hcount id new hnew).1]
  exact forall_congr' fun id => forall_congr' fun new =>
    imp_congr_right fun hnew => (hcount id new hnew).2

/-- The way of a blob that is still registered after the pass. -/
theorem Consistent.itinerary (h : cache.Consistent made) (hswept : cache.Swept) (pass : Pass)
    (hafter : (cache.collect pass.policy pass.frames).2 = after)
    (hold : cache.registered.get? id = some old) (hnew : after.registered.get? id = some new) :
    Itinerary old.region (cache.stopsIn pass id) new.region
      ∧ (cache.stopsIn pass id = [] → new.placement = old.placement)
      ∧ (1 < (cache.stopsIn pass id).length →
          FallsBack pass.policy .nonProfiled (cache.passRelocations pass)) := by
  -- reclaiming has left it as it was
  obtain ⟨-, hcleared, -, hregistered⟩ := h.clear hswept pass.frames
  have hkept : (cache.cleared pass.frames).registered.get? id = some old := by
    obtain ⟨found, hfound, hkeeps, -⟩ := h.exists_old_of_collect hswept hafter hnew
    obtain rfl := Option.some.inj (hfound.symm.trans hold)
    rw [hregistered, Table.get?_filterMap, hold, Option.bind_some, if_pos hkeeps]
  obtain ⟨stuck, last, metrics, hcollect, -, hrounds⟩ := h.collect hswept pass.policy pass.frames
  obtain ⟨found, hfound, hway, hstays, hmany⟩ := hrounds.itinerary hcleared hkept
  rw [hcollect] at hafter
  subst hafter
  obtain rfl := Option.some.inj (hfound.symm.trans hnew)
  exact ⟨hway, fun hnone => congrArg Blob.placement (hstays hnone), hmany⟩

/-- The relocations of a pass are the stops of the blobs that are registered after it. -/
theorem Consistent.length_passRelocations (h : cache.Consistent made) (hswept : cache.Swept)
    (pass : Pass) (hafter : (cache.collect pass.policy pass.frames).2 = after) :
    (cache.passRelocations pass).length
      = after.registered.total fun blob => (cache.stopsIn pass blob.id).length := by
  obtain ⟨stuck, last, metrics, hcollect, hdraining, -⟩ := h.collect hswept pass.policy pass.frames
  rw [hcollect] at hafter
  subst hafter
  rw [hdraining.drained.total_ids fun id => (cache.stopsIn pass id).length]
  exact (hdraining.linked.total_stops hdraining.relocates).symm

/-- The relocations of a pass come after what it reclaims, and lead to the cache after it. -/
theorem Consistent.linked_passRelocations (h : cache.Consistent made) (hswept : cache.Swept)
    (pass : Pass) (hafter : (cache.collect pass.policy pass.frames).2 = after) :
    Linked (cache.cleared pass.frames) (cache.passRelocations pass) after := by
  obtain ⟨stuck, last, metrics, hcollect, hdraining, -⟩ := h.collect hswept pass.policy pass.frames
  rw [hcollect] at hafter
  subst hafter
  -- that the pass is counted changes no place
  have hcounted : Linked last [] { last with metrics } := ⟨rfl, rfl⟩
  have hlinked := hdraining.linked.append hcounted
  rwa [List.append_nil] at hlinked

/-- Each of them relocates one blob, and is a stop of no other. -/
theorem Consistent.relocates_passRelocations (h : cache.Consistent made) (hswept : cache.Swept)
    (pass : Pass) : ∀ change ∈ cache.passRelocations pass, ∃ blob target,
      change.Relocates blob target
        ∧ ∀ id, change.stop? id = if blob.id = id then some target else none := by
  obtain ⟨-, hcleared, -⟩ := h.clear hswept pass.frames
  obtain ⟨_, _, -, hdraining, -⟩ := hcleared.consolidate pass.policy
  intro change hmem
  obtain ⟨hbefore, -, blob, target, hrelocates⟩ := hdraining.relocates change hmem
  exact ⟨blob, target, hrelocates, hbefore.stop?_eq hrelocates⟩

/-- A pass relocates more often than blobs are displaced just if it relocates one of them twice. -/
theorem Consistent.displaced_iff (h : cache.Consistent made) (hswept : cache.Swept) (pass : Pass)
    (hafter : (cache.collect pass.policy pass.frames).2 = after) :
    (cache.passRelocations pass).length = (cache.displaced after).length
      ↔ ∀ id new, after.registered.get? id = some new → (cache.stopsIn pass id).length ≤ 1 := by
  have hconsistent : after.Consistent made := hafter ▸ h.after_collect pass.policy pass.frames
  rw [h.length_passRelocations hswept pass hafter, eq_comm]
  refine length_displaced_iff fun id new hnew => ?_
  obtain ⟨old, hold, -⟩ := h.exists_old_of_collect hswept hafter hnew
  obtain ⟨hway, -, -⟩ := h.itinerary hswept pass hafter hold hnew
  refine ⟨hconsistent.sound.filed.registered hnew, old.region, ?_, hway⟩
  rw [get?_layout, hold]
  rfl

/-- **The ways of all blobs in one pass.** -/
theorem Consistent.travels (h : cache.Consistent made) (hswept : cache.Swept) (pass : Pass) :
    ∃ report after, cache.collect pass.policy pass.frames = (.ok report, after)
      ∧ cache.Travels pass report after := by
  obtain ⟨report, hreport, -, hcount⟩ := (h.traced_pass hswept pass).2.reports
  obtain ⟨after, hafter⟩ : ∃ after, (cache.collect pass.policy pass.frames).2 = after := ⟨_, rfl⟩
  refine ⟨report, after, Prod.ext hreport hafter, ?_⟩
  have htwice : ∀ {id new}, after.registered.get? id = some new →
      1 < (cache.stopsIn pass id).length →
        FallsBack pass.policy .nonProfiled (cache.passRelocations pass) := by
    intro id new hnew
    obtain ⟨old, hold, -⟩ := h.exists_old_of_collect hswept hafter hnew
    exact (h.itinerary hswept pass hafter hold hnew).2.2
  have hrelocated : report.blobsRelocated = (cache.passRelocations pass).length := hcount
  have hdisplaced := h.displaced_iff hswept pass hafter
  rw [← hrelocated] at hdisplaced
  obtain ⟨hclear, -, hreclaims⟩ := h.traced_clear pass.frames
  constructor
  case reclaims => exact ⟨hclear.linked, hreclaims⟩
  case linked => exact h.linked_passRelocations hswept pass hafter
  case relocates => exact h.relocates_passRelocations hswept pass
  case itinerary => exact fun hold hnew => (h.itinerary hswept pass hafter hold hnew).1
  case unmoved => exact fun hold hnew => (h.itinerary hswept pass hafter hold hnew).2.1
  case twice => exact htwice
  case reported => exact hrelocated.trans (h.length_passRelocations hswept pass hafter)
  case displaced_iff => exact hdisplaced
  case displaced_of_no_fallback =>
    intro hfallback
    refine hdisplaced.mpr fun id new hnew => ?_
    by_contra hmany
    obtain ⟨hallow, -⟩ := htwice hnew (Nat.lt_of_not_le hmany)
    rw [hfallback] at hallow
    cases hallow

end Cache

open Cache in
/-- **No blob leaves a region twice in one pass**, whatever the pass, after every session that
leaves the regions to the cache. -/
theorem no_region_left_twice {settings : Settings} {start : Cache} {operations : List Operation}
    (hnew : Cache.new settings = .ok start)
    (hmanaged : ∀ operation ∈ operations, operation.isDirect = false)
    (hroom : start.attemptsIn operations < UInt64.size) (pass : Pass) :
    ∃ report after,
      (start.after operations).collect pass.policy pass.frames = (.ok report, after)
        ∧ (start.after operations).Travels pass report after :=
  (consistent_after hnew hmanaged hroom).travels (swept_after hnew hmanaged hroom) pass

/-- Much room but in the non-method region. -/
def roomy : Settings :=
  { profiledCapacity := 4096, nonProfiledCapacity := 4096, nonMethodCapacity := 64 }

/-- A method that is given up, one without and one with profiling, and a fourth one that is moved
into the non-method region. -/
def boomerang : List Operation :=
  [.install ⟨1⟩ ⟨.tier2, ⟨#[1, 2, 3, 4]⟩⟩ .standard, .deoptimize ⟨1⟩ .standard,
    .install ⟨2⟩ ⟨.tier4, ⟨Array.replicate 9 0⟩⟩ .standard,
    .install ⟨3⟩ ⟨.tier2, ⟨#[1]⟩⟩ .standard,
    .install ⟨4⟩ ⟨.tier4, ⟨Array.replicate 10 0⟩⟩ .standard, .move ⟨4⟩ .nonMethod]

/-- A pass that drains what is at most a tenth in use, while a frame executes the first method. -/
def drainAroundFrame : Pass := ⟨⟨true, 10, true⟩, .ofList [.base]⟩

/-- The second blob goes one way, the third there and back. -/
theorem no_region_left_twice_on_the_way_back :
    ((Cache.ofSettings roomy).after boomerang).stopsIn drainAroundFrame ⟨2⟩ = [.nonMethod]
      ∧ ((Cache.ofSettings roomy).after boomerang).stopsIn drainAroundFrame ⟨3⟩
        = [.nonProfiled, .profiled]
      ∧ ∃ report after,
          ((Cache.ofSettings roomy).after boomerang).collect ⟨true, 10, true⟩ (.ofList [.base])
            = (.ok report, after)
          ∧ ((Cache.ofSettings roomy).after boomerang).Travels drainAroundFrame report after := by
  have hnew : Cache.new roomy = .ok (Cache.ofSettings roomy) := rfl
  have hmanaged : ∀ operation ∈ boomerang, operation.isDirect = false := by decide
  exact ⟨by decide, by decide, no_region_left_twice hnew hmanaged (by decide) drainAroundFrame⟩

/-- **A blob may return in the same pass**: it is relocated twice and ends in the region it was
moved out of, and three relocations are reported though only one blob has changed its region. -/
theorem blob_may_return_in_one_pass :
    Cache.new roomy = .ok (Cache.ofSettings roomy)
      ∧ (∀ operation ∈ boomerang, operation.isDirect = false)
      ∧ (((Cache.ofSettings roomy).after boomerang).collect ⟨true, 10, true⟩ (.ofList [.base])).1
        = .ok ⟨0, 0, 0, 3, 0⟩
      ∧ ((Cache.ofSettings roomy).after boomerang).layout.values
        = [.profiled, .nonProfiled, .profiled, .nonMethod]
      ∧ ((Cache.ofSettings roomy).after boomerang).stopsIn drainAroundFrame ⟨3⟩
        = [.nonProfiled, .profiled]
      ∧ (((Cache.ofSettings roomy).after boomerang).afterPasses [drainAroundFrame]).layout.values
        = [.profiled, .nonMethod, .profiled, .nonMethod]
      ∧ (((Cache.ofSettings roomy).after boomerang).displaced
          (((Cache.ofSettings roomy).after boomerang).afterPasses [drainAroundFrame])).length = 1 := by
  decide

end JitCache
