/-
  JitCache.Proofs.Space.FirstFit
  ──────────────────────────────
  **A reservation finds the lowest place there is.**

  Read off the residents, a blob fits at an offset if the bytes from there on,
  as many as its span takes, lie within the capacity and no resident is in them.
  A region looks for such a place among its free spans and above the top, after
  two checks of its own, and looks at a bounded number of free spans only.  It
  is shown that the checks turn away nothing that fits, and that with enough
  probes the place found is the lowest of all.  With fewer it is the first gap
  that is long enough among those looked at, or else the top.

  Main statements:
    `Region.Sound.isFirstFit_iff`       — the gap that the search ends at
    `Region.Sound.exists_gap_or_top_le` — what fits, fits in a gap or above the top
    `Region.Sound.passes_checks`        — what fits passes the checks
    `reserves_first_fit`                — all of it, after any calls
-/
import JitCache.Proofs.Space.Calls
import JitCache.Proofs.Space.Packing
import Mathlib.Data.Set.Card
import Mathlib.Order.Bounds.Defs

namespace JitCache

/-! ## §1. Lengths. -/

namespace Span

/-- `lengthFor?` without a bound. -/
def lengthExact (size : Nat) : Nat := (max size 1 + (unit - 1)) / unit * unit

theorem isLeast_lengthExact (size : Nat) :
    IsLeast {length | unit ∣ length ∧ max size 1 ≤ length} (lengthExact size) := by
  unfold lengthExact unit
  refine ⟨⟨Nat.dvd_mul_left _ _, by omega⟩, ?_⟩
  rintro length ⟨⟨units, rfl⟩, hle⟩
  omega

theorem lengthFor?_eq_lengthExact {size : Nat} (h : max size 1 + (unit - 1) ≤ Word.maxValue) :
    lengthFor? size = some (lengthExact size) := by
  unfold lengthFor?
  rw [Word.checkedAdd?_eq_some_iff.mpr ⟨rfl, h⟩]
  rfl

theorem eq_lengthExact {size length : Nat} (h : lengthFor? size = some length) :
    length = lengthExact size := by
  rw [lengthFor?_eq_lengthExact (lengthFor?_eq_some_iff.mp h).2] at h
  exact (Option.some.inj h).symm

theorem lengthExact_pos (size : Nat) : 0 < lengthExact size := by
  have hle := (isLeast_lengthExact size).1.2
  omega

end Span

/-! ## §2. Where the search ends. -/

namespace FreeSpans

variable {spans rest : List Span} {probes length : Nat} {head gap : Span}

/-- The first span that is long enough, among those looked at. -/
def firstFit? (length probes : Nat) (spans : List Span) : Option Span :=
  (spans.take probes).find? fun span => length ≤ span.length

@[simp] theorem firstFit?_zero : firstFit? length 0 spans = none := rfl

@[simp] theorem firstFit?_nil : firstFit? length probes [] = none := by
  simp [firstFit?]

theorem firstFit?_cons_of_le (hlong : length ≤ head.length) :
    firstFit? length (probes + 1) (head :: rest) = some head := by
  simp [firstFit?, hlong]

theorem firstFit?_cons_of_not_le (hshort : ¬ length ≤ head.length) :
    firstFit? length (probes + 1) (head :: rest) = firstFit? length probes rest := by
  simp [firstFit?, hshort]

/-- How many of the spans lie below an offset. -/
def countBelow (offset : Nat) (spans : List Span) : Nat :=
  spans.countP fun span => span.offset < offset

/-- None lies below the first. -/
theorem countBelow_head (hsep : Separated (head :: rest)) :
    countBelow head.offset (head :: rest) = 0 := by
  refine List.countP_eq_zero.mpr (List.forall_mem_cons.mpr ⟨by simp, ?_⟩)
  intro later hmem
  have hlt := hsep.offset_lt hmem
  rw [decide_eq_true_eq]
  omega

/-- And the first lies below all others. -/
theorem countBelow_cons (hsep : Separated (head :: rest)) (hmem : gap ∈ rest) :
    countBelow gap.offset (head :: rest) = countBelow gap.offset rest + 1 := by
  have hlt := hsep.offset_lt hmem
  exact List.countP_cons_of_pos (by simpa using hlt)

/-- The span found is the lowest that is long enough, and fewer spans than are looked at lie
below it. -/
theorem firstFit?_eq_some_iff (hsep : Separated spans) :
    firstFit? length probes spans = some gap ↔
      gap ∈ spans ∧ length ≤ gap.length
        ∧ (∀ other ∈ spans, other.offset < gap.offset → other.length < length)
        ∧ countBelow gap.offset spans < probes := by
  induction spans generalizing probes with
  | nil => simp
  | cons head rest ih =>
    obtain ⟨-, -, hrest⟩ := separated_cons.mp hsep
    cases probes with
    | zero => simp
    | succ probes =>
      by_cases hlong : length ≤ head.length
      · -- found at the head, below which there is nothing
        rw [firstFit?_cons_of_le hlong, Option.some.injEq]
        constructor
        · rintro rfl
          have hnone := countBelow_head hsep
          refine ⟨List.mem_cons_self, hlong, ?_, by omega⟩
          intro other hmem hlt
          have hfalse := List.countP_eq_zero.mp hnone other hmem
          exact absurd (decide_eq_true hlt) hfalse
        · rintro ⟨hmem, -, hshort, -⟩
          rcases List.mem_cons.mp hmem with heq | hmem
          · exact heq.symm
          · have hlt := hshort head List.mem_cons_self (hsep.offset_lt hmem)
            omega
      · -- passed over at the price of a probe: the head lies below whatever is found behind it
        rw [firstFit?_cons_of_not_le hlong, ih hrest]
        constructor
        · rintro ⟨hmem, hfits, hshort, hcount⟩
          rw [countBelow_cons hsep hmem]
          exact ⟨List.mem_cons_of_mem _ hmem, hfits,
            List.forall_mem_cons.mpr ⟨fun _ => by omega, hshort⟩, by omega⟩
        · rintro ⟨hmem, hfits, hshort, hcount⟩
          have hmem : gap ∈ rest := by
            rcases List.mem_cons.mp hmem with rfl | hmem
            · exact absurd hfits hlong
            · exact hmem
          rw [countBelow_cons hsep hmem] at hcount
          exact ⟨hmem, hfits, (List.forall_mem_cons.mp hshort).2, by omega⟩

theorem exists_carve?_of_firstFit? (h : firstFit? length probes spans = some gap) :
    ∃ left, carve? length probes spans = some (gap.offset, left) := by
  induction spans generalizing probes with
  | nil => simp at h
  | cons head rest ih =>
    cases probes with
    | zero => simp at h
    | succ probes =>
      rw [carve?]
      by_cases hlong : length ≤ head.length
      · rw [firstFit?_cons_of_le hlong] at h
        cases h
        split
        · exact ⟨_, rfl⟩
        · rw [if_pos (by omega)]
          exact ⟨_, rfl⟩
      · rw [firstFit?_cons_of_not_le hlong] at h
        obtain ⟨left, hleft⟩ := ih h
        rw [if_neg (by omega), if_neg (by omega), hleft]
        exact ⟨_, rfl⟩

theorem firstFit?_eq_none_iff :
    firstFit? length probes spans = none ↔ carve? length probes spans = none := by
  rw [firstFit?, List.find?_eq_none, carve?_eq_none_iff]
  simp only [decide_eq_true_eq, Nat.not_le]

end FreeSpans

namespace Arena

variable {arena : Arena} {capacity probes length : Nat} {inUse : Nat → Prop} {gap : Span}

/-- A span is taken from the first gap that fits. -/
theorem exists_take?_of_firstFit?
    (h : FreeSpans.firstFit? length probes arena.free = some gap) :
    ∃ left, arena.take? capacity probes length = some (⟨gap.offset, length⟩, left) := by
  obtain ⟨left, hcarve⟩ := FreeSpans.exists_carve?_of_firstFit? h
  rw [take?, hcarve]
  exact ⟨_, rfl⟩

/-- Where no gap fits, what is above the top decides. -/
theorem Frees.take?_of_firstFit?_eq_none (h : arena.Frees capacity inUse)
    (hcap : capacity ≤ Word.maxValue)
    (hnone : FreeSpans.firstFit? length probes arena.free = none) :
    arena.take? capacity probes length
      = if arena.top + length ≤ capacity then
          some (⟨arena.top, length⟩, { arena with top := arena.top + length })
        else none := by
  rw [h.take?_eq_takeExact? hcap, takeExact?,
    ← FreeSpans.carve?_eq_carveExact? (h.finish_le hcap),
    FreeSpans.firstFit?_eq_none_iff.mp hnone]

end Arena

/-! ## §3. What fits, read off the residents. -/

namespace Region

/-- All gaps between the residents. -/
def gaps (region : Region) : Set Span := {span | Residents.IsGap region.residents span}

/-- From this offset on there are so many bytes within the capacity that no resident is in. -/
structure Fits (region : Region) (length offset : Nat) : Prop where
  within : offset + length ≤ region.capacity.toNat
  uncovered : ∀ byte, offset ≤ byte → byte < offset + length →
    ¬ Residents.Covers region.residents byte

/-- The first gap of this length, if it is among those looked at. -/
structure IsFirstFit (region : Region) (length : Nat) (gap : Span) : Prop where
  isGap : gap ∈ region.gaps
  long : length ≤ gap.length
  first : ∀ other ∈ region.gaps, other.offset < gap.offset → other.length < length
  probed : {other ∈ region.gaps | other.offset < gap.offset}.encard < region.probes

variable {region after : Region} {blob : BlobId} {size length offset : Nat} {gap : Span}
  {placement : Placement}

theorem Sound.mem_gaps_iff (h : region.Sound) : gap ∈ region.gaps ↔ gap ∈ region.arena.free :=
  (h.mem_free_iff gap).symm

/-- Counting some of the gaps is counting some of the free spans. -/
theorem Sound.encard_gaps (h : region.Sound) (test : Span → Bool) :
    {gap ∈ region.gaps | test gap}.encard = region.arena.free.countP test := by
  have hset : {gap ∈ region.gaps | test gap}
      = ((region.arena.free.filter test).toFinset : Set Span) := by
    ext gap
    rw [Finset.mem_coe, List.mem_toFinset, List.mem_filter, ← h.mem_gaps_iff]
    rfl
  rw [hset, Set.encard_coe_eq_coe_finsetCard,
    List.toFinset_card_of_nodup (h.frees.separated.nodup.filter _), List.countP_eq_length_filter]

/-- There are as many gaps as free spans. -/
theorem Sound.encard_gaps_eq (h : region.Sound) :
    region.gaps.encard = region.arena.free.length := by
  have hall := h.encard_gaps fun _ => true
  rw [List.countP_true] at hall
  simpa using hall

/-- The first fitting gap is the one that the search of the free spans ends at. -/
theorem Sound.isFirstFit_iff (h : region.Sound) :
    region.IsFirstFit length gap ↔
      FreeSpans.firstFit? length region.probes region.arena.free = some gap := by
  have hcount : {other ∈ region.gaps | other.offset < gap.offset}.encard
      = FreeSpans.countBelow gap.offset region.arena.free := by
    rw [FreeSpans.countBelow, ← h.encard_gaps]
    simp only [decide_eq_true_eq]
  rw [FreeSpans.firstFit?_eq_some_iff h.frees.separated]
  simp only [← h.mem_gaps_iff]
  constructor
  · intro hfirst
    have hprobed := hfirst.probed
    rw [hcount, Nat.cast_lt] at hprobed
    exact ⟨hfirst.isGap, hfirst.long, hfirst.first, hprobed⟩
  · rintro ⟨hgap, hlong, hfirst, hprobed⟩
    refine ⟨hgap, hlong, hfirst, ?_⟩
    rw [hcount, Nat.cast_lt]
    exact hprobed

/-- A long gap has room at its front. -/
theorem Sound.fits_of_mem (h : region.Sound) (hfree : gap ∈ region.arena.free)
    (hlong : length ≤ gap.length) : region.Fits length gap.offset := by
  have hlt := h.frees.finish_lt_top gap hfree
  have htop := h.frees.top_le
  unfold Span.finish at hlt
  refine ⟨by omega, fun byte hle hbyte => ?_⟩
  refine ((h.frees.holds_iff byte).mp ⟨gap, hfree, ?_⟩).2
  rw [Span.mem_iff]
  omega

/-- Above the top no resident is in the way. -/
theorem Sound.fits_top (h : region.Sound)
    (hle : region.arena.top + length ≤ region.capacity.toNat) :
    region.Fits length region.arena.top := by
  refine ⟨hle, fun byte hbyte _ hcovered => ?_⟩
  have hlt := h.frees.lt_top byte hcovered
  omega

/-- **What fits, fits at the front of a gap that does not begin later**, or lies above the top. -/
theorem Sound.exists_gap_or_top_le (h : region.Sound) (hpos : 0 < length)
    (hfits : region.Fits length offset) :
    (∃ gap ∈ region.arena.free, length ≤ gap.length ∧ gap.offset ≤ offset)
      ∨ region.arena.top ≤ offset := by
  by_cases htop : region.arena.top ≤ offset
  · exact .inr htop
  · left
    obtain ⟨gap, hfree, hbyte⟩ := (h.frees.holds_iff offset).mpr
      ⟨by omega, hfits.uncovered offset (Nat.le_refl _) (by omega)⟩
    have hgap := h.isGap_of_mem hfree
    have hlt := h.frees.finish_lt_top gap hfree
    rw [Span.mem_iff] at hbyte
    refine ⟨gap, hfree, ?_, hbyte.1⟩
    -- the byte behind the gap has a resident, so the room cannot reach beyond
    by_contra hshort
    rw [h.top_eq_finish] at hlt
    rcases hgap.behind with heq | hcovered
    · omega
    · unfold Span.finish at hcovered
      exact hfits.uncovered _ (by omega) (by omega) hcovered

/-- **What fits passes the checks** that are made before the search. -/
theorem Sound.passes_checks (h : region.Sound)
    (hfits : region.Fits (Span.lengthExact size) offset) :
    size ≤ region.available ∧ max size 1 + (Span.unit - 1) ≤ Word.maxValue := by
  obtain ⟨hdvd, hle⟩ := (Span.isLeast_lengthExact size).1
  have hunused : ∀ byte ∈ (⟨offset, Span.lengthExact size⟩ : Span), ¬ region.InUse byte :=
    fun byte hbyte => hfits.uncovered byte hbyte.1 hbyte.2
  have hpacked : Span.lengthExact size + region.used ≤ region.capacity.toNat :=
    h.length_add_used_le hunused hfits.within
  have havailable := h.available_add_used
  have hword := Word.toNat_le_maxValue region.capacity
  refine ⟨by omega, ?_⟩
  -- the largest word is no multiple of the unit, so rounding up stays below it
  obtain ⟨units, hunits⟩ := hdvd
  have hmax : Word.maxValue = 18446744073709551615 := rfl
  unfold Span.unit at hunits ⊢
  omega

/-- With no more gaps than are looked at, a gap that is long enough is found, or a lower one. -/
theorem Sound.exists_isFirstFit (h : region.Sound) (hfew : region.gaps.encard ≤ region.probes)
    (hfree : gap ∈ region.arena.free) (hlong : length ≤ gap.length) :
    ∃ first, region.IsFirstFit length first ∧ first.offset ≤ gap.offset := by
  rw [h.encard_gaps_eq, Nat.cast_le] at hfew
  cases hfound : FreeSpans.firstFit? length region.probes region.arena.free with
  | none =>
    -- all free spans are looked at, and this one is long enough
    rw [FreeSpans.firstFit?, List.take_of_length_le hfew, List.find?_eq_none] at hfound
    have hshort := hfound gap hfree
    simp only [decide_eq_true_eq] at hshort
    exact absurd hlong hshort
  | some first =>
    have hfirst := h.isFirstFit_iff.mpr hfound
    refine ⟨first, hfirst, ?_⟩
    by_contra hlt
    have hshort := hfirst.first gap (h.mem_gaps_iff.mpr hfree) (by omega)
    omega

/-! ## §4. What a reservation finds. -/

/-- What is granted fits where it is placed. -/
theorem Sound.fits_of_reserve (h : region.Sound)
    (hres : region.reserve blob size = (.ok placement, after)) :
    placement.span.length = Span.lengthExact size
      ∧ region.Fits (Span.lengthExact size) placement.span.offset := by
  have hlength := Span.eq_lengthExact (lengthFor?_of_reserve hres)
  obtain ⟨-, -, -, length, arena, hfor, htake, -⟩ := reserve_eq_ok_iff.mp hres
  have htakes := Arena.takes_of_take? h.frees (Word.toNat_le_maxValue _)
    (Span.unit_dvd_of_lengthFor? hfor) htake
  have hwithin := htakes.finish_le
  rw [Span.finish, hlength] at hwithin
  refine ⟨hlength, hwithin, fun byte hle hlt => htakes.unused byte ?_⟩
  rw [Span.mem_iff, hlength]
  exact ⟨hle, hlt⟩

/-- What fits where the arena looks is granted there. -/
theorem Sound.reserve_of_take? (h : region.Sound) {left : Arena}
    (hnone : region.residents.get? blob = none)
    (hfits : region.Fits (Span.lengthExact size) offset)
    (htake : region.arena.take? region.capacity.toNat region.probes (Span.lengthExact size)
      = some (⟨offset, Span.lengthExact size⟩, left)) :
    ∃ after, region.reserve blob size
      = (.ok ⟨region.kind, ⟨offset, Span.lengthExact size⟩⟩, after) := by
  obtain ⟨hroom, hword⟩ := h.passes_checks hfits
  exact ⟨_, reserve_eq_ok_iff.mpr ⟨hnone, hroom, rfl, _, _, Span.lengthFor?_eq_lengthExact hword,
    htake, rfl⟩⟩

theorem Sound.reserve_of_isFirstFit (h : region.Sound)
    (hnone : region.residents.get? blob = none)
    (hfirst : region.IsFirstFit (Span.lengthExact size) gap) :
    ∃ after, region.reserve blob size
      = (.ok ⟨region.kind, ⟨gap.offset, Span.lengthExact size⟩⟩, after) := by
  obtain ⟨left, htake⟩ := Arena.exists_take?_of_firstFit? (h.isFirstFit_iff.mp hfirst)
  exact h.reserve_of_take? hnone
    (h.fits_of_mem (h.mem_gaps_iff.mp hfirst.isGap) hfirst.long) htake

/-- Without a first fitting gap the search of the free spans ends nowhere. -/
theorem Sound.firstFit?_eq_none (h : region.Sound)
    (hno : ¬ ∃ gap, region.IsFirstFit length gap) :
    FreeSpans.firstFit? length region.probes region.arena.free = none :=
  Option.eq_none_iff_forall_ne_some.mpr fun gap hfound => hno ⟨gap, h.isFirstFit_iff.mpr hfound⟩

theorem Sound.reserve_above (h : region.Sound) (hnone : region.residents.get? blob = none)
    (hno : ¬ ∃ gap, region.IsFirstFit (Span.lengthExact size) gap)
    (hle : Residents.finish region.residents + Span.lengthExact size ≤ region.capacity.toNat) :
    ∃ after, region.reserve blob size
      = (.ok ⟨region.kind, ⟨Residents.finish region.residents, Span.lengthExact size⟩⟩, after) := by
  rw [← h.top_eq_finish] at hle ⊢
  have htake := h.frees.take?_of_firstFit?_eq_none (Word.toNat_le_maxValue _)
    (h.firstFit?_eq_none hno)
  rw [if_pos hle] at htake
  exact h.reserve_of_take? hnone (h.fits_top hle) htake

/-- A search that ends nowhere, with too little above the top, is refused whatever the checks
say. -/
theorem Sound.reserve_refused (h : region.Sound) (hnone : region.residents.get? blob = none)
    (hno : ¬ ∃ gap, region.IsFirstFit (Span.lengthExact size) gap)
    (hfull : region.capacity.toNat < Residents.finish region.residents + Span.lengthExact size) :
    region.reserve blob size
      = (.error (.regionFull region.kind size (region.capacity.toNat - region.used)), region) := by
  rw [← h.top_eq_finish] at hfull
  refine reserve_eq_error_iff.mpr ⟨.inr ⟨Table.contains_eq_false_iff.mpr hnone, ?_, rfl⟩, rfl⟩
  unfold place?
  split
  · rfl
  · cases hlength : Span.lengthFor? size with
    | none => rfl
    | some length =>
      show region.arena.take? region.capacity.toNat region.probes length = none
      rw [Span.eq_lengthExact hlength, h.frees.take?_of_firstFit?_eq_none
        (Word.toNat_le_maxValue _) (h.firstFit?_eq_none hno), if_neg (by omega)]

/-- With no more gaps than are looked at, all that fits anywhere is granted. -/
theorem Sound.reserve_of_fits (h : region.Sound) (hnone : region.residents.get? blob = none)
    (hfew : region.gaps.encard ≤ region.probes)
    (hfits : region.Fits (Span.lengthExact size) offset) :
    ∃ placement after, region.reserve blob size = (.ok placement, after)
      ∧ placement.span.offset ≤ offset := by
  by_cases hgap : ∃ gap, region.IsFirstFit (Span.lengthExact size) gap
  · obtain ⟨first, hfirst⟩ := hgap
    obtain ⟨after, hres⟩ := h.reserve_of_isFirstFit hnone hfirst
    refine ⟨_, after, hres, ?_⟩
    show first.offset ≤ offset
    rcases h.exists_gap_or_top_le (Span.lengthExact_pos size) hfits with
      ⟨gap, hfree, hlong, hle⟩ | htop
    · by_contra hlt
      have hshort := hfirst.first gap (h.mem_gaps_iff.mpr hfree) (by omega)
      omega
    · have hlt := h.frees.finish_lt_top first (h.mem_gaps_iff.mp hfirst.isGap)
      unfold Span.finish at hlt
      omega
  · -- no gap is long enough, so what fits lies above the top
    have htop : region.arena.top ≤ offset := by
      rcases h.exists_gap_or_top_le (Span.lengthExact_pos size) hfits with
        ⟨gap, hfree, hlong, -⟩ | htop
      · obtain ⟨first, hfirst, -⟩ := h.exists_isFirstFit hfew hfree hlong
        exact absurd ⟨first, hfirst⟩ hgap
      · exact htop
    have hwithin := hfits.within
    rw [h.top_eq_finish] at htop
    obtain ⟨after, hres⟩ := h.reserve_above hnone hgap (by omega)
    exact ⟨_, after, hres, htop⟩

/-- Where a reservation of a blob that is not resident is placed, or why it is refused. -/
structure ReservesFirstFit (region : Region) (blob : BlobId) (size : Nat) : Prop where
  /-- Spans are as short as the unit and the size allow. -/
  length_least : IsLeast {length | Span.unit ∣ length ∧ max size 1 ≤ length}
    (Span.lengthExact size)
  /-- Fragmentation is bounded by the residents. -/
  gaps_le : region.gaps.encard ≤ region.residentCount
  /-- With no more gaps than are looked at, the reservation is granted if there is room anywhere. -/
  complete : region.gaps.encard ≤ region.probes →
    ((∃ placement after, region.reserve blob size = (.ok placement, after))
      ↔ ∃ offset, region.Fits (Span.lengthExact size) offset)
  /-- And it is placed as low as there is room. -/
  lowest : region.gaps.encard ≤ region.probes →
    ∀ placement after, region.reserve blob size = (.ok placement, after) →
      placement.region = region.kind ∧ placement.span.length = Span.lengthExact size
        ∧ IsLeast {offset | region.Fits (Span.lengthExact size) offset} placement.span.offset
  /-- However many gaps there are, the first fitting one of those looked at is taken. -/
  in_gap : ∀ gap, region.IsFirstFit (Span.lengthExact size) gap →
    ∃ after, region.reserve blob size
      = (.ok ⟨region.kind, ⟨gap.offset, Span.lengthExact size⟩⟩, after)
  /-- Failing that, bytes above the largest end of a resident. -/
  above : (¬ ∃ gap, region.IsFirstFit (Span.lengthExact size) gap) →
    Residents.finish region.residents + Span.lengthExact size ≤ region.capacity.toNat →
      ∃ after, region.reserve blob size
        = (.ok ⟨region.kind, ⟨Residents.finish region.residents, Span.lengthExact size⟩⟩, after)
  /-- Failing that, the region is full. -/
  refused : (¬ ∃ gap, region.IsFirstFit (Span.lengthExact size) gap) →
    region.capacity.toNat < Residents.finish region.residents + Span.lengthExact size →
      region.reserve blob size
        = (.error (.regionFull region.kind size (region.capacity.toNat - region.used)), region)
  /-- A refusal tells the size and what is available, and leaves the region as it was. -/
  refusal : ∀ error after, region.reserve blob size = (.error error, after) →
    error = .regionFull region.kind size (region.capacity.toNat - region.used) ∧ after = region
  /-- Neither check that comes before the search turns away what fits. -/
  checks : ∀ offset, region.Fits (Span.lengthExact size) offset →
    size ≤ region.capacity.toNat - region.used
      ∧ Span.lengthFor? size = some (Span.lengthExact size)

/-- **A reservation finds the first place that fits.** -/
theorem Sound.reservesFirstFit (h : region.Sound) (hnone : region.residents.get? blob = none) :
    region.ReservesFirstFit blob size where
  length_least := Span.isLeast_lengthExact size
  gaps_le := by
    rw [h.encard_gaps_eq, Nat.cast_le]
    exact h.length_free_le
  complete hfew := by
    constructor
    · rintro ⟨placement, after, hres⟩
      exact ⟨_, (h.fits_of_reserve hres).2⟩
    · rintro ⟨offset, hfits⟩
      obtain ⟨placement, after, hres, -⟩ := h.reserve_of_fits hnone hfew hfits
      exact ⟨placement, after, hres⟩
  lowest hfew placement after hres := by
    obtain ⟨hlength, hfits⟩ := h.fits_of_reserve hres
    obtain ⟨-, -, hkind, -⟩ := reserve_eq_ok_iff.mp hres
    refine ⟨hkind, hlength, hfits, fun offset hother => ?_⟩
    -- a reservation has one outcome, and that is not above what fits
    obtain ⟨granted, _, hgranted, hle⟩ := h.reserve_of_fits hnone hfew hother
    rw [hres] at hgranted
    cases hgranted
    exact hle
  in_gap _ hfirst := h.reserve_of_isFirstFit hnone hfirst
  above := h.reserve_above hnone
  refused := h.reserve_refused hnone
  refusal _ _ := refusal_of_not_resident hnone
  checks offset hfits := by
    obtain ⟨hroom, hword⟩ := h.passes_checks hfits
    exact ⟨hroom, Span.lengthFor?_eq_lengthExact hword⟩

end Region

/-! ## §5. After any calls. -/

/-- **Reserving is lowest-address first fit, and complete while there are no more gaps than
probes**, whatever calls came before.  A region looks at one gap at least. -/
theorem reserves_first_fit (capacity probes : RegionKind → UInt64) (calls : List RegionCall)
    (kind : RegionKind) {blob : BlobId} (size : Nat)
    (hnone : (((Regions.fresh capacity probes).callAll calls).get kind).residents.get? blob
      = none) :
    let region := ((Regions.fresh capacity probes).callAll calls).get kind
    region.kind = kind ∧ region.capacity = capacity kind
      ∧ region.probes = max (probes kind).toNat 1
      ∧ region.ReservesFirstFit blob size := by
  intro region
  obtain ⟨hsound, hshape⟩ := Regions.sound_callAll (Regions.sound_fresh capacity probes) calls
  have hkept := hshape kind
  rw [Regions.get_fresh] at hkept
  exact ⟨hkept.kind, hkept.capacity, hkept.probes, (hsound.region kind).reservesFirstFit hnone⟩

/-- Four blobs, of which the first and the third are released again, in a region that looks at one
gap only. -/
def fragmentation : List RegionCall :=
  [.reserve .profiled ⟨1⟩ 32, .reserve .profiled ⟨2⟩ 20, .reserve .profiled ⟨3⟩ 64,
    .reserve .profiled ⟨4⟩ 1, .release .profiled ⟨1⟩, .release .profiled ⟨3⟩]

/-- The second gap would be long enough, but only the first is looked at. -/
theorem reserves_first_fit_after_fragmentation :
    let region := ((Regions.fresh (fun _ => 256) fun _ => 1).callAll fragmentation).get .profiled
    region.arena = ⟨160, [⟨0, 32⟩, ⟨64, 64⟩]⟩
      ∧ (region.reserve ⟨5⟩ 40).1 = .ok ⟨.profiled, ⟨160, 64⟩⟩
      ∧ region.ReservesFirstFit ⟨5⟩ 40 :=
  ⟨by decide, by decide,
    (reserves_first_fit (fun _ => 256) (fun _ => 1) fragmentation .profiled 40 (by decide)).2.2.2⟩

end JitCache
