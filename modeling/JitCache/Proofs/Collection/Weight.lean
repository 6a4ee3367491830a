/-
  JitCache.Proofs.Collection.Weight
  ─────────────────────────────────
  **Carrying code into a fuller region makes the regions heavier.**

  A blob can leave a region and come back to it, so no measure of one blob tells
  how far consolidation has come.  A measure of all three regions does: the
  squares of the used bytes, each divided by the capacity.  Whatever is carried
  into a region with a larger share in use adds more there than it takes away
  where it was.

  Code without bytes weighs nothing, so carrying it changes no share.  What it
  gains is rank: the number of regions with a smaller share in use.

  Main statements:
    `ratio_lt_of_isFullerThan` — the clipped comparison is right where it says so
    `weight_lt_of_transfer`    — carrying bytes into a fuller region adds weight
    `rank_lt_of_ratio_lt`      — a fuller region is of higher rank
-/
import JitCache.Proofs.Space.Regions
import Mathlib.Algebra.BigOperators.Group.Finset.Basic
import Mathlib.Data.Fintype.BigOperators
import Mathlib.Data.Rat.Cast.Order
import Mathlib.Tactic.FieldSimp
import Mathlib.Tactic.Linarith
import Mathlib.Tactic.Positivity
import Mathlib.Tactic.Ring

namespace JitCache

instance : Fintype RegionKind := ⟨⟨RegionKind.all, by decide⟩, RegionKind.mem_all⟩

/-! ## §1. Shares in use. -/

/-- The share of its capacity that a region has in use. -/
def Region.ratio (region : Region) : ℚ := region.used / region.capacity.toNat

/-- A larger share of this region is in use than of the other, both multiplied out. -/
def Region.HasLargerShare (region other : Region) : Prop :=
  other.used * region.capacity.toNat < region.used * other.capacity.toNat

/-- A larger share is one of some capacity, and larger than one of some capacity. -/
theorem Region.capacities_pos_of_share {region other : Region}
    (hshare : region.HasLargerShare other) (hle : region.used ≤ region.capacity.toNat) :
    0 < region.capacity.toNat ∧ 0 < other.capacity.toNat := by
  unfold HasLargerShare at hshare
  have hused : 0 < region.used := Nat.pos_of_ne_zero fun hzero => by simp [hzero] at hshare
  have hother : 0 < other.capacity.toNat :=
    Nat.pos_of_ne_zero fun hzero => by simp [hzero] at hshare
  exact ⟨Nat.lt_of_lt_of_le hused hle, hother⟩

/-- Shares are exact ratios. -/
theorem Region.share_iff_ratio {region other : Region} (hroom : 0 < region.capacity.toNat)
    (hother : 0 < other.capacity.toNat) :
    region.HasLargerShare other ↔ other.ratio < region.ratio := by
  unfold HasLargerShare ratio
  rw [div_lt_div_iff₀ (by exact_mod_cast hother) (by exact_mod_cast hroom)]
  exact_mod_cast Iff.rfl

/-- The comparison clips both products at the largest word; where it finds a region fuller, the
products differ even unclipped. -/
theorem Region.ratio_lt_of_isFullerThan {source target : Region}
    (h : target.isFullerThan source = true) (hle : target.used ≤ target.capacity.toNat) :
    source.ratio < target.ratio := by
  have hshare : target.HasLargerShare source := (isFullerThan_iff.mp h).1
  obtain ⟨htarget, hsource⟩ := capacities_pos_of_share hshare hle
  exact (share_iff_ratio htarget hsource).mp hshare

namespace Regions

variable {regions after : Regions} {source target : RegionKind} {blob : BlobId} {size : Nat}
  {current placement : Placement} {resident : Resident}

/-- Regions with the same used bytes of the same capacities. -/
def SameUse (regions after : Regions) : Prop :=
  ∀ kind, (after.get kind).used = (regions.get kind).used
    ∧ (after.get kind).capacity = (regions.get kind).capacity

theorem SameUse.ratio (h : regions.SameUse after) (kind : RegionKind) :
    (after.get kind).ratio = (regions.get kind).ratio := by
  unfold Region.ratio
  rw [(h kind).1, (h kind).2]

/-- A granted transfer changes the used bytes of the source and the target by the blob's size. -/
theorem used_transfer (h : regions.Sound) (hne : source ≠ target)
    (hresident : (regions.get source).residents.get? blob = some resident)
    (hsize : resident.size = size)
    (htransfer : regions.transfer source target blob size current = (.ok placement, after))
    (kind : RegionKind) :
    (after.get kind).used
      = if source = kind then (regions.get kind).used - size
        else if target = kind then (regions.get kind).used + size
        else (regions.get kind).used := by
  rcases transfer_eq_ok_iff.mp htransfer with ⟨heq, -⟩ | ⟨-, _, _, _, hres, hrel, rfl⟩
  · exact absurd heq hne
  rw [get_set, get_set]
  by_cases hsource : source = kind
  · subst hsource
    obtain ⟨found, hfound, -, rfl⟩ := Region.release_eq_ok_iff.mp hrel
    obtain rfl := Option.some.inj (hfound.symm.trans hresident)
    rw [if_pos rfl, if_pos rfl, ← hsize]
  rw [if_neg hsource, if_neg hsource]
  by_cases htarget : target = kind
  · subst htarget
    rw [if_pos rfl, if_pos rfl, Region.used_reserve (h.region target) hres]
  rw [if_neg htarget, if_neg htarget]

/-! ## §2. Weight. -/

/-- The squares of the used bytes, each divided by the capacity. -/
def weight (regions : Regions) : ℚ :=
  ∑ kind, ((regions.get kind).used : ℚ) ^ 2 / (regions.get kind).capacity.toNat

theorem SameUse.weight (h : regions.SameUse after) : after.weight = regions.weight := by
  unfold Regions.weight
  refine Finset.sum_congr rfl fun kind _ => ?_
  rw [(h kind).1, (h kind).2]

/-- What is taken from one square and added to another, if the other's base is the larger share. -/
theorem weight_gain {p q used room size : ℚ} (hp : 0 < p) (hq : 0 < q) (hsize : 0 < size)
    (hratio : used / p < room / q) :
    0 < ((used - size) ^ 2 / p - used ^ 2 / p) + ((room + size) ^ 2 / q - room ^ 2 / q) := by
  have hsplit : ((used - size) ^ 2 / p - used ^ 2 / p) + ((room + size) ^ 2 / q - room ^ 2 / q)
      = 2 * size * (room / q - used / p) + size ^ 2 * (1 / p + 1 / q) := by
    field_simp
    ring
  have hgap : 0 < room / q - used / p := sub_pos.mpr hratio
  rw [hsplit]
  positivity

/-- **Carrying bytes into a fuller region adds weight.** -/
theorem weight_lt_of_transfer (h : regions.Sound) (hne : source ≠ target)
    (hresident : (regions.get source).residents.get? blob = some resident)
    (hsize : resident.size = size) (hpos : 0 < size)
    (hratio : (regions.get source).ratio < (regions.get target).ratio)
    (htransfer : regions.transfer source target blob size current = (.ok placement, after)) :
    regions.weight < after.weight := by
  have hused := used_transfer h hne hresident hsize htransfer
  have hle : size ≤ (regions.get source).used := hsize ▸ (h.region source).size_le_used hresident
  have hcapacity := sameShape_transfer htransfer
  -- only the squares of the source and the target change
  have hdifference : after.weight - regions.weight
      = ((((regions.get source).used : ℚ) - size) ^ 2 / (regions.get source).capacity.toNat
          - ((regions.get source).used : ℚ) ^ 2 / (regions.get source).capacity.toNat)
        + ((((regions.get target).used : ℚ) + size) ^ 2 / (regions.get target).capacity.toNat
          - ((regions.get target).used : ℚ) ^ 2 / (regions.get target).capacity.toNat) := by
    unfold weight
    rw [← Finset.sum_sub_distrib, Fintype.sum_eq_add source target hne]
    · rw [hused source, hused target, if_pos rfl, if_neg hne, if_pos rfl, Nat.cast_sub hle,
        Nat.cast_add, (hcapacity source).capacity, (hcapacity target).capacity]
    · rintro kind ⟨hsource, htarget⟩
      rw [hused kind, if_neg (Ne.symm hsource), if_neg (Ne.symm htarget),
        (hcapacity kind).capacity, sub_self]
  have hsourceRoom : 0 < (regions.get source).capacity.toNat :=
    Nat.lt_of_lt_of_le (Nat.lt_of_lt_of_le hpos hle) (h.region source).used_le
  have htargetRoom : 0 < (regions.get target).capacity.toNat := by
    refine Nat.pos_of_ne_zero fun hzero => ?_
    -- a region without capacity has the smallest share in use
    have hnone : (regions.get target).ratio = 0 := by
      unfold Region.ratio
      rw [hzero, Nat.cast_zero, div_zero]
    rw [hnone] at hratio
    unfold Region.ratio at hratio
    exact absurd hratio (not_lt.mpr (by positivity))
  refine sub_pos.mp ?_
  rw [hdifference]
  exact weight_gain (by exact_mod_cast hsourceRoom) (by exact_mod_cast htargetRoom)
    (by exact_mod_cast hpos) hratio

/-! ## §3. Rank. -/

/-- The number of regions with a smaller share in use. -/
def rank (regions : Regions) (kind : RegionKind) : Nat :=
  (Finset.univ.filter fun other => (regions.get other).ratio < (regions.get kind).ratio).card

theorem SameUse.rank (h : regions.SameUse after) (kind : RegionKind) :
    after.rank kind = regions.rank kind := by
  unfold Regions.rank
  simp only [h.ratio]

/-- A fuller region is of higher rank: it is ranked above the other one too. -/
theorem rank_lt_of_ratio_lt (h : (regions.get source).ratio < (regions.get target).ratio) :
    regions.rank source < regions.rank target := by
  refine Finset.card_lt_card ((Finset.ssubset_iff_of_subset ?_).mpr ⟨source, ?_, ?_⟩)
  · intro other hother
    rw [Finset.mem_filter] at hother ⊢
    exact ⟨hother.1, hother.2.trans h⟩
  · exact Finset.mem_filter.mpr ⟨Finset.mem_univ source, h⟩
  · intro hself
    exact absurd (Finset.mem_filter.mp hself).2 (lt_irrefl _)

end Regions

end JitCache
