/-
  JitCache.Word
  ─────────────
  **Arithmetic at the edge of a machine word.**

  Sizes, offsets and capacities are natural numbers, each meant to fit the
  64-bit word of the machine that runs the code.  Where a sum or a product
  could leave the word, the rule is named here: `add` and `mul` clip at the
  largest word, `checkedAdd?` refuses.  Subtraction needs no name of its own,
  because on `Nat` it already stops at zero.

  Main statements:
    `add_of_le`               — what fits a word is computed exactly
    `add_add`                 — clipping once is enough
    `checkedAdd?_eq_some_iff` — a checked sum is the sum, and it fits
-/

namespace JitCache.Word

/-- The largest number a machine word holds. -/
def maxValue : Nat := UInt64.size - 1

/-- The sum, clipped at the largest word. -/
def add (a b : Nat) : Nat := min (a + b) maxValue

/-- The product, clipped at the largest word. -/
def mul (a b : Nat) : Nat := min (a * b) maxValue

/-- The sum, or nothing when it does not fit a word. -/
def checkedAdd? (a b : Nat) : Option Nat :=
  if a + b ≤ maxValue then some (a + b) else none

theorem add_of_le {a b : Nat} (h : a + b ≤ maxValue) : add a b = a + b :=
  Nat.min_eq_left h

theorem add_zero {a : Nat} (h : a ≤ maxValue) : add a 0 = a := Nat.min_eq_left h

theorem add_le (a b : Nat) : add a b ≤ maxValue := Nat.min_le_right _ _

/-- Sums only grow, so clipping at each of two additions is clipping at the second. -/
theorem add_add (a b c : Nat) : add (add a b) c = add a (b + c) := by
  unfold add
  omega

/-- Where counting starts does not matter either. -/
theorem add_min (a b : Nat) : add (min a maxValue) (min b maxValue) = min (a + b) maxValue := by
  unfold add
  omega

theorem checkedAdd?_eq_some_iff {a b n : Nat} :
    checkedAdd? a b = some n ↔ n = a + b ∧ a + b ≤ maxValue := by
  unfold checkedAdd?
  split
  · next h => simp [h, eq_comm]
  · next h => simp [h]

/-- Every machine word is a word. -/
theorem toNat_le_maxValue (w : UInt64) : w.toNat ≤ maxValue :=
  Nat.le_pred_of_lt w.toNat_lt

end JitCache.Word
