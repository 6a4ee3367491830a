/-
  JitCache.Region.Fullness
  ────────────────────────
  **How full a region is, alone and beside another.**

  What is used is told in whole percent, rounded down; a region without
  capacity counts as full.  Two regions are compared by their exact ratios of
  used bytes to capacity, multiplied out.  Both products are words and clip at
  the largest one, and so does the hundredfold of the used bytes.

  Main statements:
    `percentUsed_eq_min` — the percentage, and where it stops growing
    `isFullerThan_iff`   — the comparison, and where it stops telling
-/
import JitCache.Region.Basic

namespace JitCache.Region

/-- Used bytes in percent of the capacity, rounded down. -/
def percentUsed (region : Region) : Nat :=
  if region.capacity = 0 then 100
  else Word.mul region.used 100 / region.capacity.toNat

/-- Whether a larger part of this region is used than of the other. -/
def isFullerThan (region other : Region) : Bool :=
  Word.mul other.used region.capacity.toNat < Word.mul region.used other.capacity.toNat

/-- The percentage grows with the used bytes, up to that of the largest word. -/
theorem percentUsed_eq_min {region : Region} (hroom : 0 < region.capacity.toNat) :
    region.percentUsed
      = min (region.used * 100 / region.capacity.toNat) (Word.maxValue / region.capacity.toNat) := by
  have hcapacity : region.capacity ≠ 0 := by
    intro hzero
    rw [hzero] at hroom
    exact absurd hroom (Nat.lt_irrefl 0)
  unfold percentUsed Word.mul
  rw [if_neg hcapacity]
  rcases Nat.le_total (region.used * 100) Word.maxValue with hle | hle
  · rw [Nat.min_eq_left hle, Nat.min_eq_left (Nat.div_le_div_right hle)]
  · rw [Nat.min_eq_right hle, Nat.min_eq_right (Nat.div_le_div_right hle)]

/-- The comparison finds a larger share where there is one, unless the smaller product is clipped. -/
theorem isFullerThan_iff {region other : Region} :
    region.isFullerThan other = true ↔
      other.used * region.capacity.toNat < region.used * other.capacity.toNat
        ∧ other.used * region.capacity.toNat < Word.maxValue := by
  unfold isFullerThan Word.mul
  rw [decide_eq_true_eq]
  omega

/-- No region is fuller than itself. -/
theorem isFullerThan_self (region : Region) : region.isFullerThan region = false := by
  simp [isFullerThan]

/-- Of two regions, at most one is the fuller. -/
theorem isFullerThan_asymm {a b : Region} (h : a.isFullerThan b = true) :
    b.isFullerThan a = false := by
  simp only [isFullerThan, decide_eq_true_eq, decide_eq_false_iff_not] at h ⊢
  omega

end JitCache.Region
