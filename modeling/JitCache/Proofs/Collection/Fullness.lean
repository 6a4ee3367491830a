/-
  JitCache.Proofs.Collection.Fullness
  ───────────────────────────────────
  **How far fullness can be told within a word.**

  Two regions are compared, and the percentage of one is told, by products that
  clip at the largest word.  Neither ever says more than is so: whoever is found
  fuller has the larger share in use, and no percentage is above the exact one.
  What clipping costs is said here as well.  Two regions look alike if both
  products reach the largest word, which those of different shares do not if
  their capacities multiply to a word (`vast` has larger ones); and a percentage
  stops growing at that of the largest word, which takes more than a hundredth
  of all words in use (`halfFull`).

  Main statements:
    `Sound.compares`      — when the larger share is found, and what a tie means
    `Sound.tellsPercent`  — the percentage, and how calls change it
    `comparison_is_exact_unless_clipped`, `percentage_is_exact_unless_clipped`
-/
import JitCache.Collection.Consolidation
import JitCache.Proofs.Collection.Weight
import JitCache.Proofs.Space.Calls

namespace JitCache

/-! ## §1. Comparing two regions. -/

namespace Region

/-- Both products of a comparison reach the largest word. -/
def Blurs (region other : Region) : Prop :=
  Word.maxValue ≤ region.used * other.capacity.toNat
    ∧ Word.maxValue ≤ other.used * region.capacity.toNat

instance (region other : Region) : Decidable (region.HasLargerShare other) :=
  inferInstanceAs (Decidable (_ < _))

instance (region other : Region) : Decidable (region.Blurs other) :=
  inferInstanceAs (Decidable (_ ∧ _))

/-- What comparing two regions comes to. -/
structure Compares (a b : Region) : Prop where
  /-- The larger share is found, unless both products reach the largest word. -/
  found_iff : a.isFullerThan b = true ↔ a.HasLargerShare b ∧ ¬ a.Blurs b
  /-- It is always found if the capacities multiply to a word. -/
  found_of_small : a.capacity.toNat * b.capacity.toNat ≤ Word.maxValue →
    (a.isFullerThan b = true ↔ a.HasLargerShare b)
  /-- Shares are the exact ratios of used bytes to capacity. -/
  share_iff : 0 < a.capacity.toNat → 0 < b.capacity.toNat →
    (a.HasLargerShare b ↔ b.ratio < a.ratio)
  /-- Neither is found fuller just if the ratios are equal or both products reach the largest
  word. -/
  tie_iff : 0 < a.capacity.toNat → 0 < b.capacity.toNat →
    (a.isFullerThan b = false ∧ b.isFullerThan a = false ↔ a.ratio = b.ratio ∨ a.Blurs b)
  irreflexive : a.isFullerThan a = false
  /-- Along a chain of comparisons the ratios fall, so it can only be blurred. -/
  chain : ∀ {c : Region}, a.isFullerThan b = true → b.isFullerThan c = true →
    c.ratio < a.ratio ∧ (a.isFullerThan c = true ∨ a.Blurs c)

variable {a b : Region}

theorem isFullerThan_iff_share :
    a.isFullerThan b = true ↔ a.HasLargerShare b ∧ ¬ a.Blurs b := by
  rw [isFullerThan_iff]
  unfold HasLargerShare Blurs
  omega

theorem ratio_eq_iff (ha : 0 < a.capacity.toNat) (hb : 0 < b.capacity.toNat) :
    a.ratio = b.ratio ↔ ¬ a.HasLargerShare b ∧ ¬ b.HasLargerShare a := by
  rw [share_iff_ratio ha hb, share_iff_ratio hb ha, not_lt, not_lt, le_antisymm_iff]

/-- Within capacities that multiply to a word, the smaller product does not reach the largest. -/
theorem not_blurs_of_small (hused : a.used ≤ a.capacity.toNat)
    (hsmall : a.capacity.toNat * b.capacity.toNat ≤ Word.maxValue) (hshare : a.HasLargerShare b) :
    ¬ a.Blurs b := by
  have hproduct := Nat.mul_le_mul_right b.capacity.toNat hused
  unfold HasLargerShare at hshare
  unfold Blurs
  omega

/-- **Comparing two regions tells the larger share**, as far as the products are words. -/
theorem Sound.compares (ha : a.Sound) (hb : b.Sound) : a.Compares b where
  found_iff := isFullerThan_iff_share
  found_of_small hsmall := by
    rw [isFullerThan_iff_share]
    exact and_iff_left_of_imp fun hshare => not_blurs_of_small ha.used_le hsmall hshare
  share_iff := share_iff_ratio
  tie_iff hroom hroom' := by
    rw [Bool.eq_false_iff, Bool.eq_false_iff, ne_eq, ne_eq, isFullerThan_iff_share,
      isFullerThan_iff_share, ratio_eq_iff hroom hroom']
    unfold HasLargerShare Blurs
    omega
  irreflexive := isFullerThan_self a
  chain {c} hab hbc := by
    have hfirst := ratio_lt_of_isFullerThan hab ha.used_le
    have hsecond := ratio_lt_of_isFullerThan hbc hb.used_le
    have hratio : c.ratio < a.ratio := hsecond.trans hfirst
    refine ⟨hratio, ?_⟩
    by_cases hblurs : a.Blurs c
    · exact .inr hblurs
    · left
      obtain ⟨hroom, -⟩ := capacities_pos_of_share (isFullerThan_iff_share.mp hab).1 ha.used_le
      obtain ⟨-, hroom'⟩ := capacities_pos_of_share (isFullerThan_iff_share.mp hbc).1 hb.used_le
      exact isFullerThan_iff_share.mpr ⟨(share_iff_ratio hroom hroom').mpr hratio, hblurs⟩

end Region

/-- The regions that a policy lets take a blob from `source`, whatever is in them. -/
def CollectionPolicy.candidates (policy : CollectionPolicy) (source : RegionKind) :
    List RegionKind :=
  source.sibling?.toList ++ if policy.allowNonMethod then [.nonMethod] else []

/-- **A candidate is dropped just if it has no larger share or cannot be told from one.** -/
theorem CollectionPolicy.mem_destinations_iff {policy : CollectionPolicy} {regions : Regions}
    {source target : RegionKind} :
    target ∈ policy.destinations regions source ↔
      target ∈ policy.candidates source
        ∧ (regions.get target).HasLargerShare (regions.get source)
        ∧ ¬ (regions.get target).Blurs (regions.get source) := by
  rw [← Region.isFullerThan_iff_share]
  exact List.mem_filter

/-- **Comparing regions is exact unless it is clipped**, after any calls on regions of any
capacities, and so is what consolidation makes of it. -/
theorem comparison_is_exact_unless_clipped (capacity probes capacity' probes' : RegionKind → UInt64)
    (calls calls' : List RegionCall) (kind kind' : RegionKind) :
    (((Regions.fresh capacity probes).callAll calls).get kind).Compares
        (((Regions.fresh capacity' probes').callAll calls').get kind')
      ∧ ∀ (policy : CollectionPolicy) (regions : Regions) (source target : RegionKind),
          target ∈ policy.destinations regions source ↔
            target ∈ policy.candidates source
              ∧ (regions.get target).HasLargerShare (regions.get source)
              ∧ ¬ (regions.get target).Blurs (regions.get source) := by
  have hfirst := (Regions.sound_callAll (Regions.sound_fresh capacity probes) calls).1.region kind
  have hsecond :=
    (Regions.sound_callAll (Regions.sound_fresh capacity' probes') calls').1.region kind'
  exact ⟨hfirst.compares hsecond, fun _ _ _ _ => CollectionPolicy.mem_destinations_iff⟩

/-- Two method regions of a tebibyte, with 16 MiB in use of the profiled and 32 MiB of the
non-profiled one; in between, a small region with three bytes in use. -/
def vast : Regions :=
  (Regions.fresh (fun kind => if kind = .nonMethod then 131072 else 1099511627776)
      fun _ => 16).callAll
    [.reserve .profiled ⟨1⟩ 16777216, .reserve .nonProfiled ⟨2⟩ 33554432,
      .reserve .nonMethod ⟨3⟩ 3]

/-- **Regions can be too large to be told apart**: a share twice as large is not found, though by
way of the small region it is, and the region that has it is no destination. -/
theorem comparison_blurs_in_vast_regions :
    (vast.get .nonProfiled).HasLargerShare (vast.get .profiled)
      ∧ (vast.get .nonProfiled).isFullerThan (vast.get .profiled) = false
      ∧ (vast.get .profiled).isFullerThan (vast.get .nonProfiled) = false
      ∧ (vast.get .nonProfiled).isFullerThan (vast.get .nonMethod) = true
      ∧ (vast.get .nonMethod).isFullerThan (vast.get .profiled) = true
      ∧ CollectionPolicy.candidates ⟨true, 10, true⟩ .profiled = [.nonProfiled, .nonMethod]
      ∧ CollectionPolicy.destinations ⟨true, 10, true⟩ vast .profiled = [.nonMethod] := by
  decide

/-! ## §2. The percentage in use. -/

namespace Region

variable {region a b : Region}

/-- What the percentage of a region tells, and how calls change it. -/
structure TellsPercent (region : Region) : Prop where
  /-- It is the exact one up to that of the largest word, and does not grow beyond. -/
  told : region.percentUsed
    = min (region.used * 100 / region.capacity.toNat) (Word.maxValue / region.capacity.toNat)
  /-- It is exact if the hundredfold of the used bytes is a word. -/
  exact_of_small : region.used * 100 ≤ Word.maxValue →
    region.percentUsed = region.used * 100 / region.capacity.toNat
  le_exact : region.percentUsed ≤ region.used * 100 / region.capacity.toNat
  le_hundred : region.percentUsed ≤ 100
  /-- A granted reservation never lowers it. -/
  grows : ∀ {blob size placement after}, region.reserve blob size = (.ok placement, after) →
    region.percentUsed ≤ after.percentUsed
  /-- A granted release never raises it. -/
  shrinks : ∀ {blob placement after}, region.release blob = (.ok placement, after) →
    after.percentUsed ≤ region.percentUsed
  /-- A region is drained only if it holds something and its exact percentage is at most the
  policy's, or it is clipped and what it is clipped to is. -/
  drained : ∀ {cache : Cache} {policy : CollectionPolicy} {source report},
    cache.region source = region → cache.drain policy source report ≠ (.ok report, cache) →
      region.residentCount ≠ 0
        ∧ (region.used * 100 / region.capacity.toNat ≤ policy.drainPercent.toNat
          ∨ Word.maxValue < region.used * 100
            ∧ Word.maxValue / region.capacity.toNat ≤ policy.drainPercent.toNat)

/-- Of two regions of one capacity, the one with more used bytes has no smaller percentage. -/
theorem percentUsed_mono (hcapacity : b.capacity = a.capacity) (hused : a.used ≤ b.used) :
    a.percentUsed ≤ b.percentUsed := by
  have hproduct := Nat.mul_le_mul_right 100 hused
  unfold percentUsed Word.mul
  rw [hcapacity]
  split
  · exact Nat.le_refl 100
  · refine Nat.div_le_div_right ?_
    omega

/-- What a policy spares is not drained. -/
theorem drains_of_drain_ne {cache : Cache} {policy : CollectionPolicy} {source : RegionKind}
    {report : PassReport} (h : cache.drain policy source report ≠ (.ok report, cache)) :
    policy.drains (cache.region source) = true := by
  by_contra hspared
  refine h ?_
  unfold Cache.drain
  exact if_neg hspared

/-- **The percentage is the exact one**, as far as the hundredfold of the used bytes is a word. -/
theorem Sound.tellsPercent (h : region.Sound) (hroom : 0 < region.capacity.toNat) :
    region.TellsPercent := by
  have htold := percentUsed_eq_min hroom
  have hhundred : region.used * 100 / region.capacity.toNat ≤ 100 := by
    refine Nat.div_le_of_le_mul ?_
    have hused := h.used_le
    omega
  constructor
  case told => exact htold
  case exact_of_small =>
    intro hsmall
    rw [htold]
    exact Nat.min_eq_left (Nat.div_le_div_right hsmall)
  case le_exact =>
    rw [htold]
    exact Nat.min_le_left _ _
  case le_hundred =>
    rw [htold]
    exact (Nat.min_le_left _ _).trans hhundred
  case grows =>
    intro blob size placement after hres
    refine percentUsed_mono (sameShape_reserve hres).capacity ?_
    rw [used_reserve h hres]
    exact Nat.le_add_right _ _
  case shrinks =>
    intro blob placement after hrel
    obtain ⟨resident, -, -, rfl⟩ := release_eq_ok_iff.mp hrel
    exact percentUsed_mono rfl (Nat.sub_le _ _)
  case drained =>
    intro cache policy source report hregion hdrained
    have hdrains := drains_of_drain_ne hdrained
    rw [hregion] at hdrains
    obtain ⟨hsome, hpercent⟩ := of_decide_eq_true hdrains
    refine ⟨hsome, ?_⟩
    rw [htold] at hpercent
    by_cases hsmall : region.used * 100 ≤ Word.maxValue
    · rw [Nat.min_eq_left (Nat.div_le_div_right hsmall)] at hpercent
      exact .inl hpercent
    · have hlarge := Nat.lt_of_not_le hsmall
      rw [Nat.min_eq_right (Nat.div_le_div_right hlarge.le)] at hpercent
      exact .inr ⟨hlarge, hpercent⟩

end Region

/-- **The percentage in use is exact unless it is clipped**, after any calls on a region of any
capacity. -/
theorem percentage_is_exact_unless_clipped (capacity probes : RegionKind → UInt64)
    (calls : List RegionCall) (kind : RegionKind) (hroom : 0 < (capacity kind).toNat) :
    (((Regions.fresh capacity probes).callAll calls).get kind).TellsPercent := by
  obtain ⟨hsound, hshape⟩ := Regions.sound_callAll (Regions.sound_fresh capacity probes) calls
  have hcapacity := (hshape kind).capacity
  rw [Regions.get_fresh] at hcapacity
  refine (hsound.region kind).tellsPercent ?_
  rw [hcapacity]
  exact hroom

/-- 199 of 224 bytes are more than 88 percent and less than 89. -/
theorem percentage_is_exact_in_a_small_region :
    let region := ((Regions.fresh (fun _ => 224) fun _ => 1).callAll
      [.reserve .profiled ⟨1⟩ 160, .reserve .profiled ⟨2⟩ 39]).get .profiled
    region.percentUsed = 88 ∧ 0 < (224 : UInt64).toNat ∧ region.TellsPercent :=
  ⟨by decide, by decide, percentage_is_exact_unless_clipped _ _ _ _ (by decide)⟩

/-- A region as large as a word can tell, half of it in use. -/
def halfFull : Region :=
  ((Regions.fresh (fun _ => 18446744073709551615) fun _ => 16).callAll
    [.reserve .profiled ⟨1⟩ 9223372036854775808]).get .profiled

/-- **A region can be too large for its percentage**: one that is half full passes for nearly empty,
and is drained. -/
theorem percentage_clips_in_a_vast_region :
    halfFull.used * 100 / halfFull.capacity.toNat = 50 ∧ halfFull.percentUsed = 1
      ∧ CollectionPolicy.drains ⟨true, 10, true⟩ halfFull = true := by
  decide

end JitCache
