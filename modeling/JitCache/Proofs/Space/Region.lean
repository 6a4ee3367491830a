/-
  JitCache.Proofs.Space.Region
  ────────────────────────────
  **What holds of a region after any calls.**

  `Region.Sound` says that the spans of the residents are aligned, as long as
  their sizes ask for and pairwise disjoint, that the arena frees exactly the
  bytes no resident is in, and that the used bytes are the sizes added up, never
  more than the capacity.  A region without residents is sound, and reserving
  and releasing keep it so.

  Main statements:
    `reserve_eq_ok_iff`, `release_eq_ok_iff` — what a granted call does
    `sound_reserve`, `sound_release`         — soundness is kept
-/
import JitCache.Proofs.Space.Arena
import JitCache.Proofs.Table
import JitCache.Region.Basic

namespace JitCache

namespace Span

/-- A span that holds code has a byte. -/
theorem pos_of_lengthFor? {size length : Nat} (h : lengthFor? size = some length) : 0 < length := by
  obtain ⟨⟨-, hle, -⟩, -⟩ := lengthFor?_eq_some_iff.mp h
  omega

theorem unit_dvd_of_lengthFor? {size length : Nat} (h : lengthFor? size = some length) :
    unit ∣ length :=
  (lengthFor?_eq_some_iff.mp h).1.1

end Span

namespace Region

variable {region after : Region} {blob : BlobId} {size : Nat} {placement : Placement}

/-! ## §1. Granted calls. -/

/-- A reservation is granted exactly if the blob is not resident, its size is available and the
arena has a span of its length. -/
theorem reserve_eq_ok_iff :
    region.reserve blob size = (.ok placement, after) ↔
      region.residents.get? blob = none ∧ size ≤ region.available ∧ placement.region = region.kind
        ∧ ∃ length arena, Span.lengthFor? size = some length
            ∧ region.arena.take? region.capacity.toNat region.probes length
                = some (placement.span, arena)
            ∧ after = { region with
                arena
                used := Word.add region.used size
                residents := region.residents.insert blob ⟨placement.span, size⟩ } := by
  unfold reserve place?
  by_cases hres : region.residents.contains blob = true
  · -- resident already
    obtain ⟨resident, hget⟩ := Table.contains_iff.mp hres
    rw [if_pos hres, hget]
    simp
  · have hget : region.residents.get? blob = none :=
      Table.contains_eq_false_iff.mp (Bool.eq_false_iff.mpr hres)
    rw [if_neg hres]
    by_cases hroom : region.available < size
    · rw [if_pos hroom]
      simp only [Prod.mk.injEq, reduceCtorEq, false_and, false_iff, not_and]
      intro _ hle
      omega
    · rw [if_neg hroom]
      obtain ⟨kind, span⟩ := placement
      cases hlen : Span.lengthFor? size with
      | none => simp
      | some length =>
        cases htake : region.arena.take? region.capacity.toNat region.probes length with
        | none => simp [htake]
        | some taken =>
          obtain ⟨given, arena⟩ := taken
          simp only [Prod.mk.injEq, Except.ok.injEq, Placement.mk.injEq, Option.some.injEq,
            exists_and_left, exists_eq_left', htake]
          -- all checks are passed, and the two sides name the same arena and the same region
          constructor
          · rintro ⟨⟨rfl, rfl⟩, rfl⟩
            exact ⟨hget, by omega, rfl, arena, ⟨rfl, rfl⟩, rfl⟩
          · rintro ⟨-, -, rfl, _, ⟨rfl, rfl⟩, rfl⟩
            exact ⟨⟨rfl, rfl⟩, rfl⟩

/-- A blob that is not resident is refused only for want of room, and the region is as it was. -/
theorem refusal_of_not_resident {error : CacheError} (hnone : region.residents.get? blob = none)
    (hrefused : region.reserve blob size = (.error error, after)) :
    error = .regionFull region.kind size region.available ∧ after = region := by
  obtain ⟨⟨hresident, -⟩ | ⟨-, -, heq⟩, hsame⟩ := reserve_eq_error_iff.mp hrefused
  · rw [Table.contains_eq_false_iff.mpr hnone] at hresident
    cases hresident
  · exact ⟨heq, hsame⟩

/-- A granted reservation is of the length that the size asks for. -/
theorem lengthFor?_of_reserve (h : region.reserve blob size = (.ok placement, after)) :
    Span.lengthFor? size = some placement.span.length := by
  obtain ⟨-, -, -, length, arena, hlength, htake, -⟩ := reserve_eq_ok_iff.mp h
  rw [hlength, Arena.length_take? htake]

/-- A release is granted exactly to residents. -/
theorem release_eq_ok_iff :
    region.release blob = (.ok placement, after) ↔
      ∃ resident, region.residents.get? blob = some resident
        ∧ placement = ⟨region.kind, resident.span⟩
        ∧ after = { region with
            arena := region.arena.give resident.span
            used := region.used - resident.size
            residents := region.residents.erase blob } := by
  unfold release
  cases hget : region.residents.get? blob with
  | none => simp
  | some resident =>
    simp only [Except.ok.injEq, Prod.mk.injEq, Option.some.injEq, exists_eq_left']
    constructor
    · rintro ⟨rfl, rfl⟩
      exact ⟨rfl, rfl⟩
    · rintro ⟨rfl, rfl⟩
      exact ⟨rfl, rfl⟩

/-- Kind, capacity and probes of a region never change. -/
structure SameShape (region after : Region) : Prop where
  kind : after.kind = region.kind
  capacity : after.capacity = region.capacity
  probes : after.probes = region.probes

theorem sameShape_reserve (h : region.reserve blob size = (.ok placement, after)) :
    region.SameShape after := by
  obtain ⟨-, -, -, _, _, -, -, rfl⟩ := reserve_eq_ok_iff.mp h
  exact ⟨rfl, rfl, rfl⟩

theorem sameShape_release (h : region.release blob = (.ok placement, after)) :
    region.SameShape after := by
  obtain ⟨_, -, -, rfl⟩ := release_eq_ok_iff.mp h
  exact ⟨rfl, rfl, rfl⟩

/-! ## §2. Soundness. -/

/-- Whether a resident's span has the byte. -/
def InUse (region : Region) (byte : Nat) : Prop :=
  ∃ blob resident, region.residents.get? blob = some resident ∧ byte ∈ resident.span

/-- The residents are placed properly, and arena and used bytes agree with them. -/
structure Sound (region : Region) : Prop where
  aligned : ∀ {blob resident}, region.residents.get? blob = some resident → resident.span.Aligned
  length : ∀ {blob resident}, region.residents.get? blob = some resident →
    Span.lengthFor? resident.size = some resident.span.length
  apart : ∀ {a b first second}, region.residents.get? a = some first →
    region.residents.get? b = some second → a ≠ b → ∀ byte ∈ first.span, byte ∉ second.span
  frees : region.arena.Frees region.capacity.toNat region.InUse
  used_eq : region.used = region.residentBytes
  used_le : region.used ≤ region.capacity.toNat

theorem sound_new (kind : RegionKind) (capacity probes : UInt64) :
    (Region.new kind capacity probes).Sound where
  aligned h := by cases h
  length h := by cases h
  apart h := by cases h
  frees := by
    refine (Arena.frees_empty _).congr fun byte => ⟨?_, False.elim⟩
    rintro ⟨blob, resident, hget, -⟩
    cases hget
  used_eq := rfl
  used_le := Nat.zero_le _

/-- The bytes that are not available are the used ones. -/
theorem Sound.available_add_used (h : region.Sound) :
    region.available + region.used = region.capacity.toNat :=
  Nat.sub_add_cancel h.used_le

/-- After a granted reservation the used bytes have grown by exactly the size. -/
theorem used_reserve (h : region.Sound) (hres : region.reserve blob size = (.ok placement, after)) :
    after.used = region.used + size := by
  obtain ⟨-, hroom, -, _, _, -, -, rfl⟩ := reserve_eq_ok_iff.mp hres
  have hsum := h.available_add_used
  have hword := Word.toNat_le_maxValue region.capacity
  exact Word.add_of_le (by omega)

/-- Whoever is resident after a reservation is the new blob or was resident before. -/
theorem resident_of_reserve (hres : region.reserve blob size = (.ok placement, after))
    (other : BlobId) (resident : Resident)
    (hother : after.residents.get? other = some resident) :
    blob = other ∧ resident = ⟨placement.span, size⟩
      ∨ blob ≠ other ∧ region.residents.get? other = some resident := by
  rw [get?_residents_reserve hres] at hother
  split at hother
  · next heq => exact .inl ⟨heq, (Option.some.inj hother).symm⟩
  · next hne => exact .inr ⟨hne, hother⟩

theorem inUse_reserve (hres : region.reserve blob size = (.ok placement, after)) (byte : Nat) :
    after.InUse byte ↔ region.InUse byte ∨ byte ∈ placement.span := by
  constructor
  · intro hin
    obtain ⟨other, resident, hother, hbyte⟩ := hin
    rcases resident_of_reserve hres other resident hother with ⟨-, rfl⟩ | ⟨-, hold⟩
    · exact .inr hbyte
    · exact .inl ⟨other, resident, hold, hbyte⟩
  · intro hin
    rcases hin with ⟨other, resident, hother, hbyte⟩ | hbyte
    · refine ⟨other, resident, ?_, hbyte⟩
      rw [get?_residents_reserve hres, if_neg]
      · exact hother
      · -- the new blob was not resident yet
        intro heq
        obtain ⟨hnone, -⟩ := reserve_eq_ok_iff.mp hres
        rw [heq, hother] at hnone
        cases hnone
    · exact ⟨blob, ⟨placement.span, size⟩, by rw [get?_residents_reserve hres, if_pos rfl], hbyte⟩

theorem sound_reserve (h : region.Sound)
    (hres : region.reserve blob size = (.ok placement, after)) : after.Sound := by
  have hused := used_reserve h hres
  have hshape := sameShape_reserve hres
  have hinUse := inUse_reserve hres
  have hcases := resident_of_reserve hres
  obtain ⟨hnone, hroom, -, length, arena, hlen, htake, hafter⟩ := reserve_eq_ok_iff.mp hres
  have htakes := Arena.takes_of_take? h.frees (Word.toNat_le_maxValue _)
    (Span.unit_dvd_of_lengthFor? hlen) htake
  constructor
  case aligned =>
    intro other resident hother
    rcases hcases other resident hother with ⟨-, rfl⟩ | ⟨-, hold⟩
    · exact htakes.aligned
    · exact h.aligned hold
  case length =>
    intro other resident hother
    rcases hcases other resident hother with ⟨-, rfl⟩ | ⟨-, hold⟩
    · exact lengthFor?_of_reserve hres
    · exact h.length hold
  case apart =>
    -- the new span was unused, so it has no byte of an old one
    intro a b first second ha hb hne byte hfirst hsecond
    rcases hcases a first ha with ⟨rfl, rfl⟩ | ⟨hna, haold⟩
    · rcases hcases b second hb with ⟨rfl, -⟩ | ⟨-, hbold⟩
      · exact hne rfl
      · exact htakes.unused byte hfirst ⟨b, second, hbold, hsecond⟩
    · rcases hcases b second hb with ⟨rfl, rfl⟩ | ⟨-, hbold⟩
      · exact htakes.unused byte hsecond ⟨a, first, haold, hfirst⟩
      · exact h.apart haold hbold hne byte hfirst hsecond
  case frees =>
    rw [hshape.capacity]
    have hfrees := htakes.frees.congr hinUse
    rw [hafter] at hfrees ⊢
    exact hfrees
  case used_eq =>
    -- the used bytes and the sum of the sizes grow by the same
    have htotal := Table.total_insert hnone Resident.size (⟨placement.span, size⟩ : Resident)
    have hbefore := h.used_eq
    rw [hused, hafter]
    show region.used + size
      = (region.residents.insert blob ⟨placement.span, size⟩).total Resident.size
    unfold residentBytes at hbefore
    rw [htotal, hbefore, Nat.add_comm]
  case used_le =>
    have hsum := h.available_add_used
    rw [hused, hshape.capacity]
    omega

/-- A resident's size is counted in the used bytes. -/
theorem Sound.size_le_used (h : region.Sound) {resident : Resident}
    (hget : region.residents.get? blob = some resident) : resident.size ≤ region.used := by
  rw [h.used_eq]
  exact Table.le_total hget Resident.size

/-- Whoever is resident after a release is another blob that was resident before. -/
theorem resident_of_release (hrel : region.release blob = (.ok placement, after))
    (other : BlobId) (left : Resident)
    (hother : after.residents.get? other = some left) :
    blob ≠ other ∧ region.residents.get? other = some left := by
  rw [get?_residents_release hrel] at hother
  split at hother
  · cases hother
  · next hne => exact ⟨hne, hother⟩

theorem inUse_release {resident : Resident} (h : region.Sound)
    (hrel : region.release blob = (.ok placement, after))
    (hblob : region.residents.get? blob = some resident) (byte : Nat) :
    after.InUse byte ↔ region.InUse byte ∧ byte ∉ resident.span := by
  constructor
  · intro hin
    obtain ⟨other, left, hother, hbyte⟩ := hin
    obtain ⟨hne, hold⟩ := resident_of_release hrel other left hother
    exact ⟨⟨other, left, hold, hbyte⟩, fun hin => h.apart hblob hold hne byte hin hbyte⟩
  · intro hin
    obtain ⟨⟨other, left, hother, hbyte⟩, hout⟩ := hin
    refine ⟨other, left, ?_, hbyte⟩
    rw [get?_residents_release hrel, if_neg]
    · exact hother
    · -- the byte of the released blob itself is in its span
      intro heq
      rw [heq, hother] at hblob
      cases hblob
      exact hout hbyte

theorem sound_release (h : region.Sound)
    (hrel : region.release blob = (.ok placement, after)) : after.Sound := by
  have hshape := sameShape_release hrel
  have hcases := resident_of_release hrel
  obtain ⟨resident, hblob, -, hafter⟩ := release_eq_ok_iff.mp hrel
  have hinUse := inUse_release h hrel hblob
  constructor
  case aligned =>
    intro other left hother
    exact h.aligned (hcases other left hother).2
  case length =>
    intro other left hother
    exact h.length (hcases other left hother).2
  case apart =>
    intro a b first second ha hb
    exact h.apart (hcases a first ha).2 (hcases b second hb).2
  case frees =>
    -- a resident's span is in use, which is what the arena asks of a span given back
    have hfrees := (Arena.frees_give h.frees (Word.toNat_le_maxValue _)
      (Span.pos_of_lengthFor? (h.length hblob)) (h.aligned hblob)
      fun byte hbyte => ⟨blob, resident, hblob, hbyte⟩).congr hinUse
    rw [hshape.capacity]
    rw [hafter] at hfrees ⊢
    exact hfrees
  case used_eq =>
    have htotal := Table.total_erase hblob Resident.size
    have hbefore := h.used_eq
    rw [hafter]
    show region.used - resident.size = (region.residents.erase blob).total Resident.size
    unfold residentBytes at hbefore
    omega
  case used_le =>
    have hle := h.used_le
    rw [hafter]
    show region.used - resident.size ≤ region.capacity.toNat
    omega

end Region

end JitCache
