/-
  JitCache.Proofs.Space.Regions
  ─────────────────────────────
  **Three sound regions stay sound.**

  What holds of one region is lifted to the three of a cache: each is of the
  kind it is found under, and each is sound.  Reserving, releasing and carrying
  between two of them keep this, and leave the regions that take no part as
  they were.

  Main statements:
    `firstFit_eq_ok`, `transfer_eq_ok_iff` — what a granted search or transfer does
    `sound_reserve`, `sound_release`, `sound_transfer`
-/
import JitCache.Proofs.Space.Region
import JitCache.Regions

namespace JitCache.Regions

variable {regions after : Regions} {source target kind : RegionKind} {region : Region}
  {blob : BlobId} {size : Nat} {placement current : Placement}

/-- Each region is of the kind it is found under, and sound. -/
structure Sound (regions : Regions) : Prop where
  kind : ∀ kind, (regions.get kind).kind = kind
  region : ∀ kind, (regions.get kind).Sound

theorem get_set (regions : Regions) (kind other : RegionKind) (region : Region) :
    (regions.set kind region).get other = if kind = other then region else regions.get other := by
  split
  · next heq => rw [← heq, get_set_same]
  · next hne => exact get_set_of_ne regions region hne

theorem sound_new (settings : Settings) : (Regions.new settings).Sound where
  kind kind := by cases kind <;> rfl
  region kind := by cases kind <;> exact Region.sound_new _ _ _

theorem sound_set (h : regions.Sound) (hkind : region.kind = kind) (hregion : region.Sound) :
    (regions.set kind region).Sound := by
  constructor
  · intro other
    rw [get_set]
    split
    · next heq => exact hkind.trans heq
    · exact h.kind other
  · intro other
    rw [get_set]
    split
    · exact hregion
    · exact h.region other

theorem sound_reserve (h : regions.Sound)
    (hres : (regions.get kind).reserve blob size = (.ok placement, region)) :
    (regions.set kind region).Sound :=
  sound_set h ((Region.sameShape_reserve hres).kind.trans (h.kind kind))
    (Region.sound_reserve (h.region kind) hres)

theorem sound_release (h : regions.Sound)
    (hrel : (regions.get kind).release blob = (.ok placement, region)) :
    (regions.set kind region).Sound :=
  sound_set h ((Region.sameShape_release hrel).kind.trans (h.kind kind))
    (Region.sound_release (h.region kind) hrel)

/-- A granted search ends at one of the regions asked, which has reserved the room. -/
theorem firstFit_eq_ok {refusal : CacheError} {kinds : List RegionKind}
    (h : regions.firstFit blob size refusal kinds = (.ok placement, after)) :
    ∃ kind ∈ kinds, ∃ region,
      (regions.get kind).reserve blob size = (.ok placement, region)
        ∧ after = regions.set kind region := by
  -- on the regions asked; the refusal changes on the way and does not matter here
  induction kinds generalizing refusal with
  | nil => cases h
  | cons kind rest ih =>
    rw [firstFit_cons] at h
    split at h
    · next granted region hres =>
      cases h
      exact ⟨kind, List.mem_cons_self, region, hres, rfl⟩
    · split at h
      · obtain ⟨other, hmem, hother⟩ := ih h
        exact ⟨other, List.mem_cons_of_mem _ hmem, hother⟩
      · cases h

/-- The source's release is the same before and after the target has reserved. -/
theorem get_source_set_target (hne : source ≠ target) :
    (regions.set target region).get source = regions.get source :=
  get_set_of_ne regions region (Ne.symm hne)

/-- A granted transfer reserves in the target, then releases in the source.  Within one region
it does nothing. -/
theorem transfer_eq_ok_iff :
    regions.transfer source target blob size current = (.ok placement, after) ↔
      (source = target ∧ placement = current ∧ after = regions)
      ∨ source ≠ target ∧ ∃ targetAfter released sourceAfter,
          (regions.get target).reserve blob size = (.ok placement, targetAfter)
            ∧ (regions.get source).release blob = (.ok released, sourceAfter)
            ∧ after = (regions.set target targetAfter).set source sourceAfter := by
  unfold transfer
  by_cases hsame : source = target
  · rw [if_pos hsame]
    simp only [Prod.mk.injEq, Except.ok.injEq, hsame, true_and, ne_eq, not_true_eq_false,
      false_and, or_false]
    exact and_congr eq_comm eq_comm
  · rw [if_neg hsame]
    simp only [hsame, false_and, false_or, ne_eq, not_false_eq_true, true_and,
      get_source_set_target hsame]
    cases hget : (regions.get source).residents.get? blob with
    | none =>
      -- nobody to release
      rw [if_neg (by rw [Table.contains_eq_false_iff.mpr hget]; exact Bool.false_ne_true)]
      simp only [Prod.mk.injEq, reduceCtorEq, false_and, false_iff, not_exists, not_and]
      intro targetAfter released sourceAfter _ hrel
      obtain ⟨resident, hsome, -⟩ := Region.release_eq_ok_iff.mp hrel
      rw [hget] at hsome
      cases hsome
    | some resident =>
      -- the source's release cannot fail any more, so only the target decides
      rw [if_pos (Table.contains_iff.mpr ⟨resident, hget⟩)]
      obtain ⟨reserved, targetAfter⟩ := (regions.get target).reserve blob size
      cases reserved with
      | error error => simp
      | ok given =>
        obtain ⟨freed, sourceAfter⟩ := (regions.get source).release blob
        cases freed with
        | error error => simp
        | ok released =>
          simp only [Prod.mk.injEq, Except.ok.injEq]
          constructor
          · rintro ⟨rfl, rfl⟩
            exact ⟨targetAfter, released, sourceAfter, ⟨rfl, rfl⟩, ⟨rfl, rfl⟩, rfl⟩
          · rintro ⟨_, _, _, ⟨rfl, rfl⟩, ⟨rfl, rfl⟩, rfl⟩
            exact ⟨rfl, rfl⟩

theorem sound_transfer (h : regions.Sound)
    (htransfer : regions.transfer source target blob size current = (.ok placement, after)) :
    after.Sound := by
  rcases transfer_eq_ok_iff.mp htransfer with ⟨-, -, rfl⟩ | ⟨hne, _, _, _, hres, hrel, rfl⟩
  · exact h
  · rw [← get_source_set_target hne] at hrel
    exact sound_release (sound_reserve h hres) hrel

/-- Each region has kept its kind, its capacity and its probes. -/
def SameShape (regions after : Regions) : Prop :=
  ∀ kind, (regions.get kind).SameShape (after.get kind)

theorem SameShape.trans {a b c : Regions} (hab : a.SameShape b) (hbc : b.SameShape c) :
    a.SameShape c := fun kind =>
  ⟨(hbc kind).kind.trans (hab kind).kind, (hbc kind).capacity.trans (hab kind).capacity,
    (hbc kind).probes.trans (hab kind).probes⟩

theorem sameShape_refl (regions : Regions) : regions.SameShape regions :=
  fun _ => ⟨rfl, rfl, rfl⟩

theorem sameShape_set {kind : RegionKind} {region : Region}
    (h : (regions.get kind).SameShape region) : regions.SameShape (regions.set kind region) := by
  intro other
  rw [get_set]
  split
  · next heq => exact heq ▸ h
  · exact ⟨rfl, rfl, rfl⟩

theorem sameShape_transfer
    (htransfer : regions.transfer source target blob size current = (.ok placement, after)) :
    regions.SameShape after := by
  rcases transfer_eq_ok_iff.mp htransfer with ⟨-, -, rfl⟩ | ⟨hne, _, _, _, hres, hrel, rfl⟩
  · exact sameShape_refl _
  · rw [← get_source_set_target hne] at hrel
    exact (sameShape_set (Region.sameShape_reserve hres)).trans
      (sameShape_set (Region.sameShape_release hrel))

/-- A transfer concerns one blob: the source has it no more, the target as it was carried. -/
theorem get?_residents_transfer (hne : source ≠ target)
    (htransfer : regions.transfer source target blob size current = (.ok placement, after))
    (kind : RegionKind) (other : BlobId) :
    (after.get kind).residents.get? other
      = if blob = other then
          if source = kind then none
          else if target = kind then some ⟨placement.span, size⟩
          else (regions.get kind).residents.get? other
        else (regions.get kind).residents.get? other := by
  rcases transfer_eq_ok_iff.mp htransfer with ⟨heq, -⟩ | ⟨-, _, _, _, hres, hrel, rfl⟩
  · exact absurd heq hne
  rw [get_set, get_set]
  -- the source and the target are two regions, so each look-up meets one change only
  by_cases hsource : source = kind
  · subst hsource
    rw [if_pos rfl, if_pos rfl, Region.get?_residents_release hrel]
  rw [if_neg hsource, if_neg hsource]
  by_cases htarget : target = kind
  · subst htarget
    rw [if_pos rfl, if_pos rfl, Region.get?_residents_reserve hres]
  rw [if_neg htarget, if_neg htarget, ite_self]

end JitCache.Regions
