/-
  JitCache.Proofs.Confinement
  ───────────────────────────
  **Settings that keep method code out of the non-method region are obeyed.**

  Three pieces of code decide where a blob may go: the order of regions for an
  artifact, the one for a replacement, and the regions that may take what is
  drained.  Each leaves the non-method region out if the settings say so.  But
  the second also offers the region that the old blob is in, whatever that is.
  So that it is never the non-method region has to be known of every blob,
  before anything is known of the orders: it is an invariant (`Confined`) of
  whole sessions, in which all three keep each other honest.

  Nothing here depends on handles being fresh, so there is no bound on the
  number of attempts.

  Main statement:
    `non_method_region_stays_closed` — no state of a session has code there
-/
import JitCache.Proofs.Accounting
import JitCache.Proofs.Session.Deeds

namespace JitCache

/-! ## §1. What is asked of a session, and what comes of it. -/

/-- The operation does not itself ask for the non-method region: it leaves the regions to the cache,
names another region to move or replace to, and collects by the policy of the settings, with
consolidation switched on or off. -/
structure Operation.Abides (settings : Settings) (operation : Operation) : Prop where
  managed : operation.isDirect = false
  moves : ∀ {blob}, operation ≠ .move blob .nonMethod
  replaces : ∀ {method slot level}, operation ≠ .replace method slot level (some .nonMethod)
  collects : ∀ {policy frames}, operation = .collect policy frames →
    policy = { CollectionPolicy.ofSettings settings with consolidate := policy.consolidate }

/-- No blob, registered or reclaimed, is placed in the non-method region, and the region is as an
empty cache has it. -/
structure Cache.Confined (settings : Settings) (cache : Cache) : Prop where
  registered : ∀ {id blob}, cache.registered.get? id = some blob → blob.region ≠ .nonMethod
  reclaimed : ∀ {id blob}, cache.reclaimed.get? id = some blob → blob.region ≠ .nonMethod
  untouched : cache.regions.get .nonMethod = (Regions.new settings).get .nonMethod

/-! ## §2. The three orders. -/

section Orders

variable {settings : Settings} {policy : CollectionPolicy} {regions : Regions} {source : RegionKind}

theorem Level.homeRegion_ne (level : Level) : level.homeRegion ≠ .nonMethod := by
  cases level <;> decide

theorem RegionKind.nonMethod_notMem_sibling? (kind : RegionKind) :
    .nonMethod ∉ kind.sibling?.toList := by
  cases kind <;> decide

/-- A new artifact is not offered the region. -/
theorem Settings.nonMethod_notMem_installOrder (hclosed : settings.allowNonMethodFallback = false)
    (level : Level) : .nonMethod ∉ settings.installOrder level := by
  unfold installOrder spillRegion
  simp [hclosed, level.homeRegion_ne.symm]
  cases level <;> decide

/-- A replacement is offered it only if the old blob is there. -/
theorem Settings.nonMethod_notMem_replacementOrder
    (hclosed : settings.allowNonMethodFallback = false) {current : RegionKind}
    (hcurrent : current ≠ .nonMethod) (level : Level) :
    .nonMethod ∉ settings.replacementOrder current level := by
  intro hmem
  unfold replacementOrder spillRegion at hmem
  rw [hclosed] at hmem
  rcases List.mem_append.mp hmem with hother | hcurrent'
  · rcases List.mem_cons.mp (List.mem_filter.mp hother).1 with hhome | hsibling
    · exact level.homeRegion_ne hhome.symm
    · exact RegionKind.nonMethod_notMem_sibling? _ hsibling
  · rcases List.mem_cons.mp hcurrent' with heq | hspilled
    · exact hcurrent heq.symm
    · cases hspilled

/-- What is drained is not offered it either. -/
theorem CollectionPolicy.nonMethod_notMem_destinations (hclosed : policy.allowNonMethod = false) :
    .nonMethod ∉ policy.destinations regions source := by
  intro hmem
  unfold destinations at hmem
  rw [hclosed, if_neg Bool.false_ne_true, List.append_nil] at hmem
  exact RegionKind.nonMethod_notMem_sibling? source (List.mem_filter.mp hmem).1

/-- So no operation has a reason to move a blob there. -/
theorem Operation.Abides.target_ne {operation : Operation} {cache : Cache} {blob : Blob}
    {target : RegionKind} (h : operation.Abides settings)
    (hclosed : settings.allowNonMethodFallback = false) (hwhy : operation.Moves cache blob target) :
    target ≠ .nonMethod := by
  rintro rfl
  rcases hwhy with hmove | ⟨policy, frames, source, resident, hpass, -, -, -, -, hmem⟩
  · exact h.moves hmove
  · have hpolicy : policy.allowNonMethod = false := by
      rw [h.collects hpass]
      exact hclosed
    exact CollectionPolicy.nonMethod_notMem_destinations hpolicy hmem

end Orders

namespace Cache

variable {settings : Settings} {cache before after : Cache} {operation : Operation}
  {method : MethodId} {slot : Slot} {k : Nat}

/-! ## §3. Parts of a step. -/

theorem confined_ofSettings (settings : Settings) : (ofSettings settings).Confined settings := by
  constructor
  · intro id blob hget
    cases hget
  · intro id blob hget
    cases hget
  · rfl

theorem Confined.congr (h : cache.Confined settings) (hafter : SameHoldings cache after) :
    after.Confined settings where
  registered hget := h.registered (hafter.registered ▸ hget)
  reclaimed hget := h.reclaimed (hafter.reclaimed ▸ hget)
  untouched := by
    rw [hafter.regions]
    exact h.untouched

/-- A blob may be changed that stays in its region or goes to a method region. -/
theorem Confined.modifyHeld (h : cache.Confined settings) (id : BlobId) {change : Blob → Blob}
    (hchange : ∀ blob, blob.region ≠ .nonMethod → (change blob).region ≠ .nonMethod) :
    (cache.modifyHeld id change).Confined settings := by
  constructor
  · intro other blob hget
    rw [get?_registered_modifyHeld] at hget
    obtain ⟨old, hold, -, rfl | rfl⟩ := exists_of_ite_map hget
    · exact hchange old (h.registered hold)
    · exact h.registered hold
  · intro other blob hget
    rw [get?_reclaimed_modifyHeld] at hget
    obtain ⟨old, hold, -, rfl | rfl⟩ := exists_of_ite_map hget
    · exact hchange old (h.reclaimed hold)
    · exact h.reclaimed hold
  · exact h.untouched

theorem Confined.closeOccupant (h : cache.Confined settings) (method : MethodId) (slot : Slot) :
    (cache.closeOccupant method slot).Confined settings := by
  unfold Cache.closeOccupant
  cases (cache.status method).occupant? slot with
  | none => exact h
  | some id =>
    have hclosed : (cache.modifyHeld id Blob.close).Confined settings :=
      h.modifyHeld id fun _ hblob => hblob
    exact ⟨hclosed.registered, hclosed.reclaimed, hclosed.untouched⟩

theorem Confined.enter (h : cache.Confined settings) (blob : Blob) :
    (cache.enter blob).Confined settings := by
  have hclosed := h.closeOccupant blob.method blob.slot
  exact ⟨hclosed.registered, hclosed.reclaimed, hclosed.untouched⟩

theorem Confined.vacate (h : cache.Confined settings) (method : MethodId) (slot : Slot) :
    (cache.vacate method slot).Confined settings := by
  have hclosed := h.closeOccupant method slot
  exact ⟨hclosed.registered, hclosed.reclaimed, hclosed.untouched⟩

/-- A transfer between method regions leaves the third region alone. -/
theorem Confined.transfer {blob : Blob} {target : RegionKind} {placement : Placement}
    {regions : Regions} (h : cache.Confined settings) (hsound : cache.regions.Sound)
    (hsource : blob.region ≠ .nonMethod) (hne : blob.region ≠ target) (htarget : target ≠ .nonMethod)
    (htransfer : cache.regions.transfer blob.region target blob.id blob.size blob.placement
      = (.ok placement, regions)) :
    ({ cache with regions }.setPlacement blob.id placement).Confined settings := by
  rcases Regions.transfer_eq_ok_iff.mp htransfer with
    ⟨heq, -⟩ | ⟨-, targetAfter, _, sourceAfter, hreserve, -, rfl⟩
  · exact absurd heq hne
  have hplaced : placement.region = target := region_of_reserve hsound hreserve
  have huntouched : ({ cache with
      regions := (cache.regions.set target targetAfter).set blob.region sourceAfter }
      : Cache).Confined settings := by
    refine ⟨h.registered, h.reclaimed, ?_⟩
    show ((cache.regions.set target targetAfter).set blob.region sourceAfter).get .nonMethod = _
    rw [Regions.get_set_of_ne _ _ hsource, Regions.get_set_of_ne _ _ htarget]
    exact h.untouched
  refine huntouched.modifyHeld blob.id fun other _ => ?_
  show placement.region ≠ .nonMethod
  rw [hplaced]
  exact htarget

theorem Confined.markZombie {blob : Blob} (h : cache.Confined settings)
    (hblob : cache.registered.get? blob.id = some blob) :
    (cache.markZombie blob).Confined settings := by
  refine ⟨?_, h.reclaimed, h.untouched⟩
  intro id found hget
  rw [get?_registered_markZombie] at hget
  split at hget
  · cases hget
    exact (h.registered hblob : blob.region ≠ .nonMethod)
  · exact h.registered hget

theorem Confined.strikeOut {blob : Blob} (h : cache.Confined settings) (region : Region)
    (hblob : cache.registered.get? blob.id = some blob) :
    (cache.strikeOut region blob).Confined settings := by
  have hwhere := h.registered hblob
  constructor
  · intro id found hget
    rw [get?_registered_strikeOut] at hget
    split at hget
    · cases hget
    · exact h.registered hget
  · intro id found hget
    rw [get?_reclaimed_strikeOut] at hget
    split at hget
    · cases hget
      exact hwhere
    · exact h.reclaimed hget
  · -- its region is a method region, and no other is touched
    show (cache.regions.set blob.region region).get .nonMethod = _
    rw [Regions.get_set_of_ne _ _ hwhere]
    exact h.untouched

/-- A blob is made in one of the regions that are offered. -/
theorem Confined.makeBlob {artifact : Artifact} {candidates : List RegionKind}
    {outcome : Except CacheError Blob} (h : cache.Confined settings) (hsound : cache.regions.Sound)
    (hclosed : .nonMethod ∉ candidates)
    (hmake : cache.makeBlob method artifact slot candidates = (outcome, after)) :
    after.Confined settings := by
  unfold Cache.makeBlob at hmake
  dsimp only at hmake
  split at hmake
  · next hfit =>
    cases hmake
    obtain rfl := Regions.firstFit_error hfit
    exact ⟨h.registered, h.reclaimed, h.untouched⟩
  · next placement regions hfit =>
    obtain ⟨kind, hmem, region, hreserve, rfl⟩ := Regions.firstFit_eq_ok hfit
    have hplaced : placement.region = kind := region_of_reserve hsound hreserve
    have hkind : kind ≠ .nonMethod := fun heq => hclosed (heq ▸ hmem)
    cases hmake
    refine ⟨?_, h.reclaimed, ?_⟩
    · intro id blob hget
      rw [Table.get?_insert] at hget
      split at hget
      · cases hget
        show placement.region ≠ .nonMethod
        rw [hplaced]
        exact hkind
      · exact h.registered hget
    · show (cache.regions.set kind region).get .nonMethod = _
      rw [Regions.get_set_of_ne _ _ hkind]
      exact h.untouched

/-! ## §4. One operation. -/

/-- What a confined cache is besides, so that it stays confined. -/
structure Guarded (settings : Settings) (cache : Cache) : Prop where
  filed : cache.Filed
  regions : cache.regions.Sound
  asked : cache.settings = settings
  confined : cache.Confined settings

/-- An operation that fills no slot keeps the region closed with every step. -/
theorem confined_step (h : before.Confined settings) (hregions : before.regions.Sound)
    (hclosed : settings.allowNonMethodFallback = false) (habides : operation.Abides settings)
    (hslot : operation.slot? = none) (hstep : Step operation k before after) :
    after.Confined settings := by
  have hdirect : operation.isDirect ≠ true := by
    rw [habides.managed]
    exact Bool.false_ne_true
  cases hstep with
  | noted hafter => exact h.congr hafter
  | unplaced => exact ⟨h.registered, h.reclaimed, h.untouched⟩
  | entered hsome | vacated hsome =>
    rw [hslot] at hsome
    cases hsome
  | moved hwhy hblob hne htransfer =>
    exact h.transfer hregions (h.registered hblob) hne (habides.target_ne hclosed hwhy) htransfer
  | carried hdirect' | reserved hdirect' | released hdirect' => exact absurd hdirect' hdirect
  | gaveUp _ hblob => exact h.markZombie hblob
  | reclaimed _ hblob => exact h.strikeOut _ hblob

theorem guarded_steps (h : before.Guarded settings)
    (hclosed : settings.allowNonMethodFallback = false) (habides : operation.Abides settings)
    (hslot : operation.slot? = none) (hsteps : Steps operation before k after) :
    after.Guarded settings := by
  induction hsteps with
  | refl => exact h
  | tail _ hstep ih =>
    exact ⟨filed_step ih.filed hstep, regions_step ih.regions hstep,
      (settings_step hstep).trans ih.asked,
      confined_step ih.confined ih.regions hclosed habides hslot hstep⟩

theorem Guarded.install (h : cache.Guarded settings)
    (hclosed : settings.allowNonMethodFallback = false) (method : MethodId) (artifact : Artifact)
    (slot : Slot) : (cache.install method artifact slot).2.Confined settings := by
  have horder : .nonMethod ∉ cache.settings.installOrder artifact.level := by
    rw [h.asked]
    exact Settings.nonMethod_notMem_installOrder hclosed _
  have hrecord : (cache.ensureRecord method).Confined settings :=
    h.confined.congr (sameHoldings_ensureRecord cache method)
  rcases cache.install_cases method artifact slot with
    ⟨error, hinstall, -⟩ | ⟨-, -, -, ⟨error, after, hmake, hinstall⟩ | ⟨blob, made, hmake, hinstall⟩⟩
  · -- refused before any room is asked for
    rw [hinstall]
    exact h.confined
  · rw [hinstall]
    exact hrecord.makeBlob h.regions horder hmake
  · rw [hinstall]
    have hmade := (hrecord.makeBlob h.regions horder hmake).enter blob
    exact (hmade.congr (sameHoldings_setQueued _ method false)).congr (sameHoldings_metrics _ _)

/-- Whoever calls enter is held, so his region is not the non-method region. -/
theorem Confined.entrant {blob : Blob} (h : cache.Confined settings)
    (hentrant : cache.entrant method slot = .ok blob) : blob.region ≠ .nonMethod := by
  unfold Cache.entrant at hentrant
  split at hentrant
  · next found hfound =>
    cases hentrant
    obtain ⟨hbind, -⟩ := Option.filter_eq_some_iff.mp hfound
    obtain ⟨id, -, hheld⟩ := Option.bind_eq_some_iff.mp hbind
    rcases held?_eq_some_iff.mp hheld with hget | ⟨-, hget⟩
    · exact h.registered hget
    · exact h.reclaimed hget
  · cases hentrant

theorem Guarded.replace (h : cache.Guarded settings)
    (hclosed : settings.allowNonMethodFallback = false) (method : MethodId) (slot : Slot)
    (level : Option Level) {region : Option RegionKind} (hregion : region ≠ some .nonMethod) :
    (cache.replace method slot level region).2.Confined settings := by
  -- offered is the region asked for, or else the old blob's and other method regions
  have hoffered : ∀ {old : Blob} (other : Level), cache.entrant? method slot = some old →
      .nonMethod ∉ cache.replacementRegions region old.region other := by
    intro old other hold
    unfold replacementRegions
    cases region with
    | some region =>
      intro hmem
      exact hregion (congrArg some (List.mem_singleton.mp hmem).symm)
    | none =>
      rw [h.asked]
      exact Settings.nonMethod_notMem_replacementOrder hclosed
        (h.confined.entrant (entrant_eq_ok_iff.mpr hold)) other
  rcases cache.replace_cases method slot level region with ⟨error, hreplace, -⟩
    | ⟨old, hold, -, -, ⟨error, after, hmake, hreplace⟩ | ⟨blob, made, hmake, hreplace⟩⟩
  · rw [hreplace]
    exact h.confined
  · rw [hreplace]
    exact h.confined.makeBlob h.regions (hoffered _ hold) hmake
  · rw [hreplace]
    have hmade := h.confined.makeBlob h.regions (hoffered _ hold) hmake
    exact (hmade.enter blob).congr (sameHoldings_metrics _ _)

theorem Confined.deoptimize (h : cache.Confined settings) (method : MethodId) (slot : Slot) :
    (cache.deoptimize method slot).2.Confined settings := by
  cases hdeoptimize : cache.deoptimize method slot with
  | mk outcome after =>
    cases outcome with
    | error error =>
      obtain rfl := deoptimize_error hdeoptimize
      exact h
    | ok id => exact (h.vacate method slot).congr (deoptimize_ok hdeoptimize).2

/-- A report is an installation, or the note of one that failed. -/
theorem Guarded.handle (h : cache.Guarded settings)
    (hclosed : settings.allowNonMethodFallback = false) (method : MethodId) (artifact : Artifact)
    (slot : Slot) : (cache.handle (.finished method artifact slot)).2.Confined settings := by
  have hinstall := h.install hclosed method artifact slot
  unfold Cache.handle
  simp only
  split
  · next heq =>
    rw [heq] at hinstall
    exact hinstall
  · next heq =>
    rw [heq] at hinstall
    exact hinstall.congr (sameHoldings_compileFailed _ method)

/-- **An operation that abides by the settings keeps the region closed**, granted or refused. -/
theorem guarded_perform (h : cache.Guarded settings)
    (hclosed : settings.allowNonMethodFallback = false) (habides : operation.Abides settings) :
    (cache.perform operation).2.Guarded settings := by
  have hsteps := perform_steps h.filed operation
  cases hslot : operation.slot? with
  | none => exact guarded_steps h hclosed habides hslot hsteps
  | some place =>
    refine ⟨filed_steps h.filed hsteps, regions_steps h.regions hsteps,
      (settings_steps hsteps).trans h.asked, ?_⟩
    cases operation with
    | install method artifact slot =>
      rw [perform, ofAttempt_snd]
      exact h.install hclosed method artifact slot
    | replace method slot level region =>
      rw [perform, ofAttempt_snd]
      refine h.replace hclosed method slot level ?_
      rintro rfl
      exact habides.replaces rfl
    | deoptimize method slot =>
      rw [perform, ofAttempt_snd]
      exact h.confined.deoptimize method slot
    | handle report =>
      rw [perform_handle]
      cases report with
      | finished method artifact slot => exact h.handle hclosed method artifact slot
      | gaveUp => cases hslot
    | _ => cases hslot

/-! ## §5. Whole sessions. -/

theorem guarded_after {start : Cache} {operations : List Operation}
    (hnew : Cache.new settings = .ok start) (hclosed : settings.allowNonMethodFallback = false)
    (habides : ∀ operation ∈ operations, operation.Abides settings) :
    (start.after operations).Guarded settings := by
  induction operations using List.reverseRecOn with
  | nil =>
    rw [eq_of_new hnew]
    exact ⟨filed_ofSettings settings, Regions.sound_new settings, rfl, confined_ofSettings settings⟩
  | append_singleton operations last ih =>
    rw [after_concat]
    exact guarded_perform (ih fun operation hmem => habides operation (List.mem_append_left _ hmem))
      hclosed (habides last (List.mem_append_right _ List.mem_cons_self))

end Cache

open Cache in
/-- **If the settings keep method code out of the non-method region, it never gets there**, however
short the method regions are of room, unless somebody asks for it by name: not after any operation
of a session, and not in the middle of a pass either. -/
theorem non_method_region_stays_closed {settings : Settings} {start : Cache}
    {operations : List Operation} (hnew : Cache.new settings = .ok start)
    (hclosed : settings.allowNonMethodFallback = false)
    (habides : ∀ operation ∈ operations, operation.Abides settings) :
    (∀ {earlier later}, operations = earlier ++ later → (start.after earlier).Confined settings)
      ∧ ∀ {earlier policy frames later}, operations = earlier ++ .collect policy frames :: later →
          ∀ {k midway}, Steps (.collect policy frames) (start.after earlier) k midway →
            midway.Confined settings := by
  have hguarded : ∀ {earlier later}, operations = earlier ++ later →
      (start.after earlier).Guarded settings := by
    rintro earlier later rfl
    exact guarded_after hnew hclosed fun operation hmem =>
      habides operation (List.mem_append_left _ hmem)
  constructor
  · intro earlier later hcut
    exact (hguarded hcut).confined
  · intro earlier policy frames later hcut k midway hsteps
    have hpass : (Operation.collect policy frames).Abides settings := by
      apply habides
      rw [hcut]
      exact List.mem_append_right _ List.mem_cons_self
    exact (guarded_steps (hguarded hcut) hclosed hpass rfl hsteps).confined

/-- Small method regions beside a large region that method code is kept out of. -/
def cramped : Settings :=
  { profiledCapacity := 96, nonProfiledCapacity := 64, nonMethodCapacity := 1024,
    allowNonMethodFallback := false }

/-- One method's code spills into the sibling region, from which it cannot be drained until the
other method has gone; a third method's code finds no room, installed or reported. -/
def pressed : List Operation :=
  [.install ⟨1⟩ ⟨.tier4, ⟨.replicate 60 0⟩⟩ .standard, .install ⟨2⟩ ⟨.tier4, ⟨#[1, 2]⟩⟩ .standard,
    .install ⟨3⟩ ⟨.tier4, ⟨.replicate 70 0⟩⟩ .osr,
    .handle (.finished ⟨3⟩ ⟨.tier2, ⟨.replicate 70 0⟩⟩ .standard),
    .replace ⟨2⟩ .standard none none,
    .collect { CollectionPolicy.ofSettings cramped with consolidate := true } {},
    .deoptimize ⟨1⟩ .standard, .move ⟨5⟩ .nonProfiled, .collect (.ofSettings cramped) {},
    .move ⟨5⟩ .nonProfiled]

theorem abides_of_pressed : ∀ operation ∈ pressed, operation.Abides cramped := by
  intro operation hmem
  simp only [pressed, List.mem_cons, List.not_mem_nil, or_false] at hmem
  -- the policies of the two collections are compared, of the others nothing is asked
  rcases hmem with rfl | rfl | rfl | rfl | rfl | rfl | rfl | rfl | rfl | rfl
  all_goals
    refine ⟨rfl, nofun, nofun, ?_⟩
    rintro policy frames ⟨⟩ <;> rfl

theorem non_method_region_stays_closed_under_pressure :
    ((Cache.ofSettings cramped).runAll pressed).1
        = [.blob ⟨1⟩, .blob ⟨2⟩, .refused (.regionFull .profiled 70 94), .noBlob, .blob ⟨5⟩,
            .collected ⟨1, 1, 2, 0, 1⟩, .blob ⟨1⟩, .refused (.regionFull .nonProfiled 2 4),
            .collected ⟨1, 1, 60, 0, 0⟩, .done]
      ∧ ((Cache.ofSettings cramped).after pressed).Confined cramped := by
  have hnew : Cache.new cramped = .ok (Cache.ofSettings cramped) := rfl
  refine ⟨by decide, ?_⟩
  exact (non_method_region_stays_closed hnew rfl abides_of_pressed).1 (List.append_nil pressed).symm

end JitCache
