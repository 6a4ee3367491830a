/-
  JitCache.Proofs.Collection.Potential
  ────────────────────────────────────
  **Every change a pass makes raises one potential.**

  A reclamation makes the register smaller.  A relocation leaves it as large and
  makes the regions heavier, or, for code without bytes, leaves them as heavy
  and raises the ranks of the regions that blobs are in.  In this order of
  importance the three make a potential.  It can be read off the layout, which
  says of every registered blob what region it is in, so no layout comes back.

  Main statements:
    `precedes_of_relocates`, `precedes_of_reclaims` — each kind of change
    `Precedes.layout_ne`                            — a higher potential, another layout
-/
import JitCache.Proofs.Collection.Draining
import Mathlib.Data.Prod.Lex

namespace JitCache

/-- The change reclaims a zombie. -/
structure Change.Reclaims (change : Change) (blob : Blob) : Prop where
  registered : change.before.registered.get? blob.id = some blob
  stage : blob.liveness = .zombie
  reclaimed : change.before.reclaim blob = (.ok (some blob.size), change.after)

namespace Cache

/-- The region of every registered blob. -/
def layout (cache : Cache) : Table BlobId RegionKind :=
  cache.registered.filterMap fun blob => some blob.region

/-- The ranks of the regions that blobs are in, added up. -/
def ranks (cache : Cache) : Nat :=
  cache.registered.total fun blob => cache.regions.rank blob.region

/-- A smaller register comes first, then heavier regions, then higher ranks. -/
def potential (cache : Cache) : ℕᵒᵈ ×ₗ ℚ ×ₗ ℕ :=
  toLex (OrderDual.toDual cache.registered.size, toLex (cache.regions.weight, cache.ranks))

/-- From the one cache to the other the potential rises, while no blob is registered anew or
changes its size, and no region its capacity. -/
structure Precedes (made : Nat) (before after : Cache) : Prop where
  consistent : before.Consistent made ∧ after.Consistent made
  capacity : ∀ kind, (after.regions.get kind).capacity = (before.regions.get kind).capacity
  sizes : ∀ {id new}, after.registered.get? id = some new →
    ∃ old, before.registered.get? id = some old ∧ new.size = old.size
  potential_lt : before.potential < after.potential

variable {cache before middle after : Cache} {made : Nat} {target : RegionKind} {blob : Blob}
  {change : Change}

theorem Precedes.trans (h : Precedes made before middle) (h' : Precedes made middle after) :
    Precedes made before after where
  consistent := ⟨h.consistent.1, h'.consistent.2⟩
  capacity kind := (h'.capacity kind).trans (h.capacity kind)
  sizes hnew := by
    obtain ⟨mid, hmid, hsize⟩ := h'.sizes hnew
    obtain ⟨old, hold, hsize'⟩ := h.sizes hmid
    exact ⟨old, hold, hsize.trans hsize'⟩
  potential_lt := h.potential_lt.trans h'.potential_lt

/-! ## §1. Reading the potential off the layout. -/

/-- The region and the size of every registered blob. -/
def sites (cache : Cache) : Table BlobId (RegionKind × Nat) :=
  cache.registered.filterMap fun blob => some (blob.region, blob.size)

theorem total_sites (cache : Cache) (measure : RegionKind → Nat → Nat) :
    cache.sites.total (fun site => measure site.1 site.2)
      = cache.registered.total fun blob => measure blob.region blob.size := by
  unfold sites
  rw [Table.total_filterMap]
  rfl

/-- Where the sites and the capacities are the same, so is the potential. -/
theorem potential_eq (hbefore : before.Consistent made) (hafter : after.Consistent made)
    (hsites : after.sites = before.sites)
    (hcapacity : ∀ kind, (after.regions.get kind).capacity = (before.regions.get kind).capacity) :
    after.potential = before.potential := by
  have htotal : ∀ measure : RegionKind → Nat → Nat,
      (after.registered.total fun blob => measure blob.region blob.size)
        = before.registered.total fun blob => measure blob.region blob.size := by
    intro measure
    rw [← total_sites, ← total_sites, hsites]
  have huse : before.regions.SameUse after.regions := by
    intro kind
    refine ⟨?_, hcapacity kind⟩
    rw [hafter.booked.used_eq hafter.sound.regions, hbefore.booked.used_eq hbefore.sound.regions]
    exact htotal fun region size => if region = kind then size else 0
  have hsize : after.registered.size = before.registered.size := by
    rw [Table.size_eq_total, Table.size_eq_total]
    exact htotal fun _ _ => 1
  have hranks : after.ranks = before.ranks := by
    unfold ranks
    simp only [huse.rank]
    exact htotal fun region _ => before.regions.rank region
  unfold potential
  rw [hsize, huse.weight, hranks]

/-- The layout and the sizes are the sites. -/
theorem sites_eq (hlayout : after.layout = before.layout)
    (hsizes : ∀ {id new}, after.registered.get? id = some new →
      ∃ old, before.registered.get? id = some old ∧ new.size = old.size) :
    after.sites = before.sites := by
  apply Table.ext
  intro id
  have hregion := congrArg (fun table => table.get? id) hlayout
  unfold layout at hregion
  unfold sites
  simp only [Table.get?_filterMap] at hregion ⊢
  cases hnew : after.registered.get? id with
  | none =>
    rw [hnew, Option.bind_none] at hregion
    cases hold : before.registered.get? id with
    | none => rfl
    | some old => simp [hold] at hregion
  | some new =>
    obtain ⟨old, hold, hsize⟩ := hsizes hnew
    rw [hnew, hold] at hregion
    have hsame : new.region = old.region := Option.some.inj hregion
    rw [hold, Option.bind_some, Option.bind_some, hsame, hsize]

/-- **No layout comes back** once the potential is higher. -/
theorem Precedes.layout_ne (h : Precedes made before after) : before.layout ≠ after.layout := by
  intro heq
  have hsame := potential_eq h.consistent.1 h.consistent.2 (sites_eq heq.symm h.sizes) h.capacity
  exact absurd h.potential_lt (by rw [hsame]; exact lt_irrefl _)

/-! ## §2. Where only liveness changes. -/

theorem SamePlaces.exists_old (h : SamePlaces before after) {id : BlobId} {new : Blob}
    (hnew : after.registered.get? id = some new) :
    ∃ old, before.registered.get? id = some old ∧ new.size = old.size
      ∧ new.region = old.region := by
  obtain ⟨old, hold, hblob⟩ := Table.exists_of_view_eq h.standing hnew
  have hsize := congrArg Blob.size hblob
  have hregion := congrArg Blob.region hblob
  exact ⟨old, hold, hsize, hregion⟩

theorem SamePlaces.sites (h : SamePlaces before after) : after.sites = before.sites := by
  have hview : ∀ cache : Cache,
      cache.sites = cache.standing.filterMap fun blob => some (blob.region, blob.size) := by
    intro cache
    unfold Cache.sites Cache.standing
    rw [Table.filterMap_filterMap]
    rfl
  rw [hview, hview, h.standing]

/-- What precedes a cache precedes it also from where the places are the same. -/
theorem Precedes.of_samePlaces (h : Precedes made middle after) (hbefore : before.Consistent made)
    (hsame : SamePlaces before middle) : Precedes made before after where
  consistent := ⟨hbefore, h.consistent.2⟩
  capacity kind := by rw [h.capacity kind, hsame.regions]
  sizes hnew := by
    obtain ⟨mid, hmid, hsize⟩ := h.sizes hnew
    obtain ⟨old, hold, hsize', -⟩ := hsame.exists_old hmid
    exact ⟨old, hold, hsize.trans hsize'⟩
  potential_lt := by
    rw [← potential_eq hbefore h.consistent.1 hsame.sites fun kind => by rw [hsame.regions]]
    exact h.potential_lt

/-! ## §3. Relocations and reclamations. -/

/-- The capacities are those the settings ask for. -/
theorem capacity_eq (hbefore : before.Consistent made) (hafter : after.Consistent made)
    (hsettings : after.settings = before.settings) (kind : RegionKind) :
    (after.regions.get kind).capacity = (before.regions.get kind).capacity := by
  rw [(hafter.sound.shape kind).capacity, (hbefore.sound.shape kind).capacity, hsettings]

theorem size_codes (cache : Cache) : cache.codes.size = cache.registered.size := by
  rw [Table.size_eq_total, Table.size_eq_total]
  unfold codes
  rw [Table.total_filterMap]
  rfl

theorem potential_lt_iff : before.potential < after.potential ↔
    after.registered.size < before.registered.size
      ∨ after.registered.size = before.registered.size
        ∧ (before.regions.weight < after.regions.weight
          ∨ before.regions.weight = after.regions.weight ∧ before.ranks < after.ranks) := by
  unfold potential
  rw [Prod.Lex.toLex_lt_toLex, Prod.Lex.toLex_lt_toLex, OrderDual.toDual_lt_toDual,
    OrderDual.toDual_inj, eq_comm]

/-- A relocation raises the potential: by weight, or for code without bytes by rank. -/
theorem precedes_of_relocates (h : change.before.Consistent made)
    (hdrained : Drained made change.before change.after)
    (hrelocates : change.Relocates blob target) : Precedes made change.before change.after := by
  obtain ⟨before, after⟩ := change
  obtain ⟨hblob, -, -, hfuller, hmove⟩ := hrelocates
  dsimp only at *
  have hne : blob.region ≠ target := by
    intro heq
    rw [heq] at hfuller
    exact lt_irrefl _ hfuller
  have hsize : after.registered.size = before.registered.size := by
    rw [← size_codes, ← size_codes, hdrained.codes]
  have hsizes : ∀ {id new}, after.registered.get? id = some new →
      ∃ old, before.registered.get? id = some old ∧ new.size = old.size := by
    intro id new hnew
    obtain ⟨old, hold, hsame⟩ := hdrained.exists_old hnew
    have hsize := congrArg Blob.size hsame
    exact ⟨old, hold, hsize⟩
  refine ⟨⟨h, hdrained.consistent⟩, capacity_eq h hdrained.consistent hdrained.settings, hsizes,
    potential_lt_iff.mpr (.inr ⟨hsize, ?_⟩)⟩
  obtain ⟨placement, hplaced, hregistered⟩ := h.registered_move hblob hne hmove
  obtain ⟨_, _, _, htransfer, hafter⟩ := exists_transfer_of_move hblob hne hmove
  have hresident := h.resident hblob
  by_cases hpos : 0 < blob.size
  · left
    rw [hafter]
    exact Regions.weight_lt_of_transfer h.sound.regions hne hresident rfl hpos hfuller htransfer
  · right
    -- no share changes, so no rank does either
    have huse : before.regions.SameUse after.regions := by
      intro kind
      have hused := Regions.used_transfer h.sound.regions hne hresident rfl htransfer kind
      rw [Nat.eq_zero_of_not_pos hpos, Nat.sub_zero, Nat.add_zero, ite_self, ite_self] at hused
      rw [hafter]
      exact ⟨hused, ((Regions.sameShape_transfer htransfer) kind).capacity⟩
    have hinsert : after.registered = before.registered.insert blob.id { blob with placement } := by
      apply Table.ext
      intro id
      rw [hregistered, Table.get?_insert]
    have htotal := Table.total_replace hblob (fun blob => before.regions.rank blob.region)
      { blob with placement }
    have hrank : before.regions.rank blob.region < before.regions.rank placement.region :=
      hplaced ▸ Regions.rank_lt_of_ratio_lt hfuller
    refine ⟨huse.weight.symm, ?_⟩
    unfold ranks
    simp only [huse.rank]
    rw [hinsert]
    dsimp only [Blob.region] at htotal hrank ⊢
    omega

/-- A reclamation raises the potential: the register gets smaller. -/
theorem precedes_of_reclaims (h : change.before.Consistent made)
    (hreclaims : change.Reclaims blob) : Precedes made change.before change.after := by
  obtain ⟨before, after⟩ := change
  obtain ⟨hblob, hstage, hreclaim⟩ := hreclaims
  dsimp only at *
  obtain ⟨cleared, hcleared, hconsistent, hregistered, hsettings⟩ := h.reclaim hblob hstage
  obtain rfl : cleared = after := (Prod.ext_iff.mp (hcleared.symm.trans hreclaim)).2
  refine ⟨⟨h, hconsistent⟩, capacity_eq h hconsistent hsettings, ?_, potential_lt_iff.mpr (.inl ?_)⟩
  · intro id new hnew
    rw [hregistered, Table.get?_erase] at hnew
    split at hnew
    · cases hnew
    · exact ⟨new, hnew, rfl⟩
  · have hcount := Table.total_erase hblob fun _ => 1
    rw [hregistered, Table.size_eq_total, Table.size_eq_total]
    omega

end Cache

end JitCache
