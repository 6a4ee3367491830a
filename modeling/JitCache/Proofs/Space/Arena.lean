/-
  JitCache.Proofs.Space.Arena
  ───────────────────────────
  **An arena keeps exactly the bytes that are not in use.**

  `Arena.Frees arena capacity inUse` says that the free spans of an arena hold
  the bytes below the top that are not `inUse`, in separated spans that stop
  short of the top, everything in units of the alignment.  Taking a span out
  and giving one back keep this, for the set of bytes in use grown or shrunk by
  the span.

  Main statements:
    `take?_eq_takeExact?`, `give_eq_giveExact` — nothing is ever clipped
    `takes_of_take?` — a span taken out was free, and is in use from then on
    `frees_give`     — a span given back is free from then on
-/
import JitCache.Proofs.Space.FreeSpans

namespace JitCache

namespace Span

/-- The span begins and ends at multiples of the unit. -/
def Aligned (span : Span) : Prop := unit ∣ span.offset ∧ unit ∣ span.finish

theorem aligned_iff {span : Span} :
    span.Aligned ↔ unit ∣ span.offset ∧ unit ∣ span.length := by
  unfold Aligned finish
  constructor
  · intro h
    obtain ⟨hoffset, hfinish⟩ := h
    exact ⟨hoffset, (Nat.dvd_add_right hoffset).mp hfinish⟩
  · intro h
    obtain ⟨hoffset, hlength⟩ := h
    exact ⟨hoffset, Nat.dvd_add hoffset hlength⟩

end Span

namespace Arena

/-! ## §1. What an arena keeps. -/

/-- The free spans hold the bytes below the top that are not in use. -/
structure Frees (arena : Arena) (capacity : Nat) (inUse : Nat → Prop) : Prop where
  separated : FreeSpans.Separated arena.free
  holds_iff : ∀ byte, FreeSpans.Holds arena.free byte ↔ byte < arena.top ∧ ¬ inUse byte
  finish_lt_top : ∀ span ∈ arena.free, span.finish < arena.top
  lt_top : ∀ byte, inUse byte → byte < arena.top
  top_le : arena.top ≤ capacity
  aligned : ∀ span ∈ arena.free, span.Aligned
  top_aligned : Span.unit ∣ arena.top

variable {arena left : Arena} {capacity probes length : Nat} {inUse : Nat → Prop} {span : Span}

theorem frees_empty (capacity : Nat) : ({} : Arena).Frees capacity fun _ => False where
  separated := FreeSpans.separated_nil
  holds_iff byte := by
    have hnil : ¬ FreeSpans.Holds [] byte := FreeSpans.holds_nil
    show FreeSpans.Holds [] byte ↔ byte < 0 ∧ _
    simp [hnil]
  finish_lt_top span hmem := by cases hmem
  lt_top byte h := h.elim
  top_le := Nat.zero_le _
  aligned span hmem := by cases hmem
  top_aligned := Nat.dvd_zero _

/-- Only the bytes in use count, not how they are described. -/
theorem Frees.congr {other : Nat → Prop} (h : arena.Frees capacity inUse)
    (hiff : ∀ byte, other byte ↔ inUse byte) : arena.Frees capacity other := by
  have heq : other = inUse := funext fun byte => propext (hiff byte)
  rw [heq]
  exact h

/-- All free spans end within a word. -/
theorem Frees.finish_le (h : arena.Frees capacity inUse) (hcap : capacity ≤ Word.maxValue) :
    ∀ span ∈ arena.free, span.finish ≤ Word.maxValue := by
  intro span hmem
  have hlt := h.finish_lt_top span hmem
  have htop := h.top_le
  omega

/-- A span in use ends at the top or below. -/
theorem Frees.finish_le_top (h : arena.Frees capacity inUse) (hpos : 0 < span.length)
    (hin : ∀ byte ∈ span, inUse byte) : span.finish ≤ arena.top := by
  have hlast := h.lt_top (span.finish - 1)
    (hin _ (by rw [Span.mem_iff]; unfold Span.finish; omega))
  unfold Span.finish at hlast ⊢
  omega

/-- The last byte below the top is in use. -/
theorem Frees.top_eq_zero_or (h : arena.Frees capacity inUse) :
    arena.top = 0 ∨ inUse (arena.top - 1) := by
  by_cases htop : arena.top = 0
  · exact .inl htop
  · right
    by_cases hused : inUse (arena.top - 1)
    · exact hused
    · -- a free byte there would be in a span that reaches the top
      obtain ⟨span, hmem, hbyte⟩ := (h.holds_iff (arena.top - 1)).mpr ⟨by omega, hused⟩
      have hlt := h.finish_lt_top span hmem
      unfold Span.finish at hlt
      rw [Span.mem_iff] at hbyte
      omega

/-! ## §2. The exact twins. -/

/-- `take?` with unbounded sums. -/
def takeExact? (arena : Arena) (capacity probes length : Nat) : Option (Span × Arena) :=
  match FreeSpans.carveExact? length probes arena.free with
  | some (offset, free) => some (⟨offset, length⟩, { arena with free })
  | none =>
    if arena.top + length ≤ capacity then
      some (⟨arena.top, length⟩, { arena with top := arena.top + length })
    else none

/-- `give` with unbounded sums. -/
def giveExact (arena : Arena) (span : Span) : Arena :=
  let (top, free) := FreeSpans.settleExact arena.top (FreeSpans.joinExact span arena.free)
  { top, free }

theorem Frees.take?_eq_takeExact? (h : arena.Frees capacity inUse)
    (hcap : capacity ≤ Word.maxValue) :
    arena.take? capacity probes length = arena.takeExact? capacity probes length := by
  rw [take?, takeExact?, FreeSpans.carve?_eq_carveExact? (h.finish_le hcap)]
  cases FreeSpans.carveExact? length probes arena.free with
  | some cut => rfl
  | none =>
    dsimp only [Word.checkedAdd?]
    by_cases hword : arena.top + length ≤ Word.maxValue
    · rw [if_pos hword]
    · -- what leaves the word leaves the capacity first
      rw [if_neg hword, if_neg (by omega)]

/-- A free span joined with one in use still ends at the top or below. -/
theorem Frees.finish_le_of_mem_joinExact (h : arena.Frees capacity inUse)
    (hspan : span.finish ≤ arena.top) :
    ∀ joined ∈ FreeSpans.joinExact span arena.free, joined.finish ≤ arena.top := by
  intro joined hmem
  rcases (FreeSpans.mem_of_joinExact joined hmem).2 with heq | ⟨old, hold, heq⟩
  · omega
  · have hlt := h.finish_lt_top old hold
    omega

theorem Frees.give_eq_giveExact (h : arena.Frees capacity inUse)
    (hcap : capacity ≤ Word.maxValue) (hspan : span.finish ≤ arena.top) :
    arena.give span = arena.giveExact span := by
  have htop := h.top_le
  rw [give, giveExact, FreeSpans.join_eq_joinExact (by omega) (h.finish_le hcap),
    FreeSpans.settle_eq_settleExact]
  -- joining has made no span that leaves the word
  intro joined hmem
  have hle := h.finish_le_of_mem_joinExact hspan joined hmem
  omega

/-! ## §3. Taking. -/

/-- Taking a span out: it was free and lies within the capacity, and its bytes are in use from
then on. -/
structure Takes (capacity : Nat) (inUse : Nat → Prop) (span : Span) (left : Arena) : Prop where
  frees : left.Frees capacity fun byte => inUse byte ∨ byte ∈ span
  unused : ∀ byte ∈ span, ¬ inUse byte
  aligned : span.Aligned
  finish_le : span.finish ≤ capacity

/-- What a cut leaves are old free spans, one of them shorter by whole units. -/
theorem Frees.of_mem_carved {offset : Nat} {free : List Span}
    (h : arena.Frees capacity inUse) (hunit : Span.unit ∣ length)
    (hcarve : FreeSpans.Carved length arena.free offset free) :
    ∀ span ∈ free, span.finish < arena.top ∧ span.Aligned := by
  intro span hmem
  rcases FreeSpans.mem_of_carved hcarve span hmem with hsame | ⟨cut, hcut, hlt, rfl⟩
  · exact ⟨h.finish_lt_top span hsame, h.aligned span hsame⟩
  · have hcutEnd := h.finish_lt_top cut hcut
    have hcutAligned := Span.aligned_iff.mp (h.aligned cut hcut)
    refine ⟨?_, Span.aligned_iff.mpr ?_⟩
    · -- the cut moves the offset and the length, not the end
      unfold Span.finish at hcutEnd ⊢
      show cut.offset + length + (cut.length - length) < arena.top
      omega
    · exact ⟨Nat.dvd_add hcutAligned.1 hunit, Nat.dvd_sub hcutAligned.2 hunit⟩

/-- The bytes of a cut were free. -/
theorem Frees.unused_of_carved {offset : Nat} {free : List Span} (h : arena.Frees capacity inUse)
    (hcarve : FreeSpans.Carved length arena.free offset free) :
    ∀ byte ∈ (⟨offset, length⟩ : Span), byte < arena.top ∧ ¬ inUse byte := by
  obtain ⟨old, hold, hoffset, hlen⟩ := FreeSpans.exists_of_carved hcarve
  intro byte hbyte
  apply (h.holds_iff byte).mp
  refine ⟨old, hold, ?_⟩
  rw [Span.mem_iff] at hbyte ⊢
  simp only at hbyte
  omega

/-- Without the cut the list holds what is free now. -/
theorem Frees.of_carved {offset : Nat} {free : List Span} (h : arena.Frees capacity inUse)
    (hunit : Span.unit ∣ length)
    (hcarve : FreeSpans.Carved length arena.free offset free) :
    Frees { arena with free } capacity
      fun byte => inUse byte ∨ byte ∈ (⟨offset, length⟩ : Span) where
  separated := FreeSpans.separated_of_carved h.separated hcarve
  holds_iff byte := by
    rw [FreeSpans.holds_of_carved h.separated hcarve, h.holds_iff]
    constructor
    · intro hheld
      obtain ⟨⟨hlt, hout⟩, hcut⟩ := hheld
      exact ⟨hlt, fun hin => hin.elim hout hcut⟩
    · intro hheld
      obtain ⟨hlt, hout⟩ := hheld
      exact ⟨⟨hlt, fun hin => hout (.inl hin)⟩, fun hin => hout (.inr hin)⟩
  finish_lt_top span hmem := (h.of_mem_carved hunit hcarve span hmem).1
  lt_top byte hused := by
    rcases hused with hin | hin
    · exact h.lt_top byte hin
    · exact (h.unused_of_carved hcarve byte hin).1
  top_le := h.top_le
  aligned span hmem := (h.of_mem_carved hunit hcarve span hmem).2
  top_aligned := h.top_aligned

/-- A span is cut from the front of a free one. -/
theorem Frees.takes_cut {offset : Nat} {free : List Span} (h : arena.Frees capacity inUse)
    (hunit : Span.unit ∣ length)
    (hcarve : FreeSpans.Carved length arena.free offset free) :
    Takes capacity inUse ⟨offset, length⟩ { arena with free } where
  frees := h.of_carved hunit hcarve
  unused byte hbyte := (h.unused_of_carved hcarve byte hbyte).2
  aligned := by
    obtain ⟨old, hold, hoffset, -⟩ := FreeSpans.exists_of_carved hcarve
    have haligned := Span.aligned_iff.mp (h.aligned old hold)
    apply Span.aligned_iff.mpr
    exact ⟨hoffset ▸ haligned.1, hunit⟩
  finish_le := by
    -- the free span that is cut ends below the top
    obtain ⟨old, hold, hoffset, hlen⟩ := FreeSpans.exists_of_carved hcarve
    have hend := h.finish_lt_top old hold
    have htop := h.top_le
    unfold Span.finish at hend ⊢
    show offset + length ≤ capacity
    omega

/-- The top moves up by bytes that are in use from then on; the free spans are as they were. -/
theorem Frees.raise (h : arena.Frees capacity inUse) (hunit : Span.unit ∣ length)
    (hle : arena.top + length ≤ capacity) :
    Frees { arena with top := arena.top + length } capacity
      fun byte => inUse byte ∨ byte ∈ (⟨arena.top, length⟩ : Span) where
  separated := h.separated
  holds_iff byte := by
    rw [h.holds_iff]
    simp only [Span.mem_iff]
    constructor
    · intro hheld
      obtain ⟨hlt, hout⟩ := hheld
      exact ⟨by omega, fun hin => hin.elim hout fun hnew => by omega⟩
    · intro hheld
      obtain ⟨hlt, hout⟩ := hheld
      refine ⟨?_, fun hin => hout (.inl hin)⟩
      -- a byte behind the old top would be in the new span
      have hnew : ¬ (arena.top ≤ byte ∧ byte < arena.top + length) := fun hin => hout (.inr hin)
      omega
  finish_lt_top span hmem := by
    have hlt := h.finish_lt_top span hmem
    show span.finish < arena.top + length
    omega
  lt_top byte hused := by
    rcases hused with hin | hin
    · have hlt := h.lt_top byte hin
      show byte < arena.top + length
      omega
    · exact hin.2
  top_le := hle
  aligned := h.aligned
  top_aligned := Nat.dvd_add h.top_aligned hunit

/-- A span is taken from the top, which moves up. -/
theorem Frees.takes_top (h : arena.Frees capacity inUse) (hunit : Span.unit ∣ length)
    (hle : arena.top + length ≤ capacity) :
    Takes capacity inUse ⟨arena.top, length⟩ { arena with top := arena.top + length } where
  frees := h.raise hunit hle
  unused byte hbyte hin := by
    -- everything in use lies below the old top
    have hlt := h.lt_top byte hin
    rw [Span.mem_iff] at hbyte
    simp only at hbyte
    omega
  aligned := by
    apply Span.aligned_iff.mpr
    exact ⟨h.top_aligned, hunit⟩
  finish_le := hle

theorem takes_of_take? (h : arena.Frees capacity inUse) (hcap : capacity ≤ Word.maxValue)
    (hunit : Span.unit ∣ length)
    (htake : arena.take? capacity probes length = some (span, left)) :
    Takes capacity inUse span left := by
  rw [h.take?_eq_takeExact? hcap, takeExact?] at htake
  split at htake
  · next hcarve =>
    cases htake
    exact h.takes_cut hunit (FreeSpans.carved_of_carveExact? hcarve)
  · split at htake
    · next hle =>
      cases htake
      exact h.takes_top hunit hle
    · cases htake

/-! ## §4. Giving. -/

/-- What joining a span in use leaves: the free bytes and the span's. -/
theorem Frees.holds_joinExact_iff (h : arena.Frees capacity inUse)
    (hfinish : span.finish ≤ arena.top) (byte : Nat) :
    FreeSpans.Holds (FreeSpans.joinExact span arena.free) byte
      ↔ byte < arena.top ∧ ¬ (inUse byte ∧ byte ∉ span) := by
  rw [FreeSpans.holds_joinExact, h.holds_iff]
  constructor
  · intro hheld
    rcases hheld with hbyte | ⟨hlt, hout⟩
    · exact ⟨Nat.lt_of_lt_of_le hbyte.2 hfinish, fun hboth => hboth.2 hbyte⟩
    · exact ⟨hlt, fun hboth => hout hboth.1⟩
  · intro hheld
    obtain ⟨hlt, hnot⟩ := hheld
    by_cases hbyte : byte ∈ span
    · exact .inl hbyte
    · exact .inr ⟨hlt, fun hused => hnot ⟨hused, hbyte⟩⟩

/-- A joined span begins and ends where aligned spans do. -/
theorem Frees.aligned_of_mem_joinExact (h : arena.Frees capacity inUse)
    (haligned : span.Aligned) :
    ∀ joined ∈ FreeSpans.joinExact span arena.free, joined.Aligned := by
  intro joined hmem
  obtain ⟨hbegin, hend⟩ := FreeSpans.mem_of_joinExact joined hmem
  constructor
  · rcases hbegin with heq | ⟨old, hold, heq⟩
    · exact heq ▸ haligned.1
    · exact heq ▸ (h.aligned old hold).1
  · rcases hend with heq | ⟨old, hold, heq⟩
    · exact heq ▸ haligned.2
    · exact heq ▸ (h.aligned old hold).2

/-- Lowering the top past the last free spans leaves an arena in order. -/
theorem frees_settleExact {top : Nat} {spans : List Span} (hsep : FreeSpans.Separated spans)
    (hle : ∀ span ∈ spans, span.finish ≤ top) (haligned : ∀ span ∈ spans, span.Aligned)
    (hholds : ∀ byte, FreeSpans.Holds spans byte ↔ byte < top ∧ ¬ inUse byte)
    (hused : ∀ byte, inUse byte → byte < top) (htop : top ≤ capacity)
    (hunit : Span.unit ∣ top) :
    Frees { top := (FreeSpans.settleExact top spans).1
            free := (FreeSpans.settleExact top spans).2 } capacity inUse := by
  have hbelow := FreeSpans.finish_lt_of_mem_settleExact hsep hle
  have hlow := FreeSpans.settleExact_fst_le hle
  have hbytes := FreeSpans.holds_settleExact hle
  have hsub := FreeSpans.sublist_settleExact top spans
  constructor
  case separated => exact FreeSpans.separated_settleExact top hsep
  case holds_iff =>
    intro byte
    show FreeSpans.Holds _ byte ↔ byte < (FreeSpans.settleExact top spans).1 ∧ _
    have hsplit := hbytes byte
    rw [hholds] at hsplit
    constructor
    · intro hheld
      obtain ⟨holder, hmem, hbyte⟩ := hheld
      exact ⟨Nat.lt_trans hbyte.2 (hbelow holder hmem), (hsplit.mpr (.inl ⟨holder, hmem, hbyte⟩)).2⟩
    · intro hfree
      obtain ⟨hlt, hnot⟩ := hfree
      rcases hsplit.mp ⟨by omega, hnot⟩ with hheld | hhigh
      · exact hheld
      · omega
  case finish_lt_top => exact hbelow
  case lt_top =>
    intro byte hbyte
    show byte < (FreeSpans.settleExact top spans).1
    have hlt := hused byte hbyte
    by_cases hbelowTop : byte < (FreeSpans.settleExact top spans).1
    · exact hbelowTop
    · -- from the lowered top on, all bytes are free
      have hheld := (hbytes byte).mpr (.inr ⟨by omega, hlt⟩)
      exact absurd hbyte ((hholds byte).mp hheld).2
  case top_le => exact Nat.le_trans hlow htop
  case aligned => exact fun span hmem => haligned span (hsub.subset hmem)
  case top_aligned =>
    show Span.unit ∣ (FreeSpans.settleExact top spans).1
    rcases FreeSpans.settleExact_fst top spans with heq | ⟨joined, hmem, heq⟩
    · rw [heq]
      exact hunit
    · rw [heq]
      exact (haligned joined hmem).1

/-- Giving a span in use back: its bytes are free from then on. -/
theorem frees_give (h : arena.Frees capacity inUse) (hcap : capacity ≤ Word.maxValue)
    (hpos : 0 < span.length) (haligned : span.Aligned) (hin : ∀ byte ∈ span, inUse byte) :
    (arena.give span).Frees capacity (fun byte => inUse byte ∧ byte ∉ span) := by
  have hfinish : span.finish ≤ arena.top := h.finish_le_top hpos hin
  have hapart : ∀ old ∈ arena.free, old.finish ≤ span.offset ∨ span.finish ≤ old.offset := by
    intro old hold
    apply Span.le_or_le_of_disjoint (h.separated.1 old hold) hpos
    intro byte hbyte hboth
    -- a byte of both would be free and in use
    have hfree := (h.holds_iff byte).mp ⟨old, hold, hbyte⟩
    exact hfree.2 (hin byte hboth)
  rw [h.give_eq_giveExact hcap hfinish]
  apply frees_settleExact (FreeSpans.separated_joinExact h.separated hpos hapart)
  · exact h.finish_le_of_mem_joinExact hfinish
  · exact h.aligned_of_mem_joinExact haligned
  · exact h.holds_joinExact_iff hfinish
  · exact fun byte hused => h.lt_top byte hused.1
  · exact h.top_le
  · exact h.top_aligned

end Arena

end JitCache
