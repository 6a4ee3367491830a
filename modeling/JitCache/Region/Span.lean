/-
  JitCache.Region.Span
  ────────────────────
  **Spans of code space.**

  Code is placed in spans whose offset and length are multiples of 32 bytes.
  `Span.lengthFor?` is the length a blob of a given size takes; code of size
  zero still takes one unit, so that every blob has an offset of its own.

  Main statement:
    `lengthFor?_eq_some_iff` — the length is the least multiple of the unit that
                               holds the code, provided it fits a word
-/
import JitCache.Word

namespace JitCache

/-- A run of bytes of code space. -/
structure Span where
  offset : Nat
  length : Nat
  deriving DecidableEq, Inhabited

namespace Span

/-- Offsets and lengths of spans are multiples of this many bytes. -/
def unit : Nat := 32

/-- The first offset behind the span. -/
def stop (span : Span) : Nat := Word.add span.offset span.length

/-- The length of the span that holds `size` bytes of code, if a word can
express it: at least one byte, rounded up to the unit. -/
def lengthFor? (size : Nat) : Option Nat :=
  (Word.checkedAdd? (max size 1) (unit - 1)).map fun n =>
    n / unit * unit

theorem lengthFor?_eq_some_iff {size length : Nat} :
    lengthFor? size = some length ↔
      (unit ∣ length ∧ max size 1 ≤ length ∧ length < max size 1 + unit)
        ∧ max size 1 + (unit - 1) ≤ Word.maxValue := by
  unfold lengthFor?
  simp only [Option.map_eq_some_iff, Word.checkedAdd?_eq_some_iff, unit]
  constructor
  · rintro ⟨n, ⟨rfl, hfit⟩, rfl⟩
    exact ⟨by omega, hfit⟩
  · rintro ⟨⟨hdvd, hle, hlt⟩, hfit⟩
    exact ⟨_, ⟨rfl, hfit⟩, by omega⟩

end Span

end JitCache
