/-
  JitCache.Region.Arena
  ─────────────────────
  **Who owns which bytes: bump allocation over a list of free spans.**

  An arena hands out spans from offset 0 upwards.  `top` is the first offset
  that is out of use; the spans given back below it are kept in `free`,
  ascending and never touching each other.

    take — the lowest free span that is long enough, looked for among the first
           few only; failing that, bytes from the top on
    give — the span joins the free spans it touches, and a free span that
           reaches the top is handed over to the unused bytes above

  Main statements:
    `FreeSpans.carve?_eq_none_iff` — a search fails only if no span looked at is long enough
    `Arena.length_take?`           — what is handed out has the length asked for
-/
import JitCache.Region.Span

namespace JitCache

/-! ## §1. Free spans. -/

namespace FreeSpans

/-- Cuts `length` bytes off the front of the first span that is long enough,
among the first `probes`.  Gives the offset of the cut and the spans left. -/
def carve? (length : Nat) : Nat → List Span → Option (Nat × List Span)
  | 0, _ => none
  | _ + 1, [] => none
  | probes + 1, span :: rest =>
    -- used up, cut short, or passed over at the price of a probe
    if span.length = length then some (span.offset, rest)
    else if length < span.length then
      some (span.offset, ⟨Word.add span.offset length, span.length - length⟩ :: rest)
    else (carve? length probes rest).map fun (offset, left) => (offset, span :: left)

/-- Adds a span at its place and joins it with the neighbours it touches. -/
def join (span : Span) : List Span → List Span
  | [] => [span]
  | next :: rest =>
    -- what is joined with the span before it may still touch the one behind
    if next.stop = span.offset then
      join ⟨next.offset, Word.add next.length span.length⟩ rest
    else if next.offset < span.offset then next :: join span rest
    else if span.stop = next.offset then
      ⟨span.offset, Word.add span.length next.length⟩ :: rest
    else span :: next :: rest

/-- Drops the last spans as long as they reach up to `top`; gives the lowered
top and the spans that stay. -/
def settle (top : Nat) : List Span → Nat × List Span
  | [] => (top, [])
  | span :: rest =>
    match settle top rest with
    -- nothing is left between this span and the top
    | (lowered, []) =>
      if span.stop = lowered then (span.offset, []) else (lowered, [span])
    | (lowered, kept) => (lowered, span :: kept)

theorem carve?_eq_none_iff {length probes : Nat} {spans : List Span} :
    carve? length probes spans = none ↔ ∀ span ∈ spans.take probes, span.length < length := by
  induction probes generalizing spans with
  | zero => simp [carve?]
  | succ probes ih =>
    cases spans with
    | nil => simp [carve?]
    | cons span rest =>
      rw [carve?, List.take_succ_cons]
      split
      · next heq => simp [heq]
      · split
        · next hlt => simp; omega
        · next hne hge =>
          rw [Option.map_eq_none_iff, ih]
          simp
          omega

end FreeSpans

/-! ## §2. The arena. -/

/-- The part of a region's code space that has ever been handed out and not
been handed over again. -/
structure Arena where
  /-- The first offset out of use. -/
  top : Nat := 0
  /-- The spans given back below the top, ascending. -/
  free : List Span := []
  deriving DecidableEq

namespace Arena

instance : Inhabited Arena := ⟨{}⟩

/-- Hands out `length` bytes, or nothing if they are not found below
`capacity`.  At most `probes` free spans are looked at. -/
def take? (arena : Arena) (capacity probes length : Nat) : Option (Span × Arena) :=
  match FreeSpans.carve? length probes arena.free with
  | some (offset, free) => some (⟨offset, length⟩, { arena with free })
  | none =>
    -- a new top that leaves the word would leave the capacity too
    match Word.checkedAdd? arena.top length with
    | some stop =>
      if stop ≤ capacity then some (⟨arena.top, length⟩, { arena with top := stop }) else none
    | none => none

/-- Takes a span back. -/
def give (arena : Arena) (span : Span) : Arena :=
  let (top, free) := FreeSpans.settle arena.top (FreeSpans.join span arena.free)
  { top, free }

/-- What is handed out has the length asked for. -/
theorem length_take? {arena left : Arena} {capacity probes length : Nat} {span : Span}
    (h : arena.take? capacity probes length = some (span, left)) : span.length = length := by
  unfold take? at h
  split at h
  · cases h; rfl
  · split at h
    · split at h
      · cases h; rfl
      · cases h
    · cases h

end Arena

end JitCache
