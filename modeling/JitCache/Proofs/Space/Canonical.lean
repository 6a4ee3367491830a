/-
  JitCache.Proofs.Space.Canonical
  ───────────────────────────────
  **The state of a region is a function of who is resident where.**

  A region edits its free spans step by step: it splits them, takes them out,
  joins them and hands them over above the top.  Whatever the order of the
  calls, what comes out can be read off the residents alone: the top is the
  largest end of a resident, and the free spans are the gaps below it.

  Main statements:
    `Region.canonical_of_sound`   — top, free spans and used bytes, read off the residents
    `Region.eq_of_residents_eq`   — the same residents, the same state
    `Region.ext_of_residents`     — and, in one shape, the same region
-/
import JitCache.Proofs.Space.Regions
import Mathlib.Tactic.ByContra

namespace JitCache

/-! ## §1. What the residents say. -/

namespace Residents

/-- Whether a resident's span has the byte. -/
def Covers (residents : Table BlobId Resident) (byte : Nat) : Prop :=
  ∃ blob resident, residents.get? blob = some resident ∧ byte ∈ resident.span

/-- The largest end of a resident, 0 when there is none. -/
def finish (residents : Table BlobId Resident) : Nat :=
  residents.values.foldr (fun resident rest => max resident.span.finish rest) 0

/-- A run of bytes below the largest end that no resident covers and that cannot be made longer
on either side. -/
structure IsGap (residents : Table BlobId Resident) (span : Span) : Prop where
  nonempty : 0 < span.length
  uncovered : ∀ byte ∈ span, ¬ Covers residents byte
  finish_le : span.finish ≤ finish residents
  before : span.offset = 0 ∨ Covers residents (span.offset - 1)
  behind : span.finish = finish residents ∨ Covers residents span.finish

theorem finish_le_finish {residents : Table BlobId Resident} {blob : BlobId} {resident : Resident}
    (h : residents.get? blob = some resident) : resident.span.finish ≤ finish residents := by
  have hmem : resident ∈ residents.values := Table.mem_values_iff.mpr ⟨blob, h⟩
  unfold finish
  -- nothing else is known of the list than that it has the resident
  generalize residents.values = values at hmem
  induction values with
  | nil => cases hmem
  | cons head rest ih =>
    rw [List.foldr_cons]
    rcases List.mem_cons.mp hmem with rfl | hmem
    · exact Nat.le_max_left _ _
    · exact Nat.le_trans (ih hmem) (Nat.le_max_right _ _)

theorem finish_eq_zero_or (residents : Table BlobId Resident) :
    finish residents = 0
      ∨ ∃ blob resident, residents.get? blob = some resident
          ∧ resident.span.finish = finish residents := by
  have hmem : ∀ resident ∈ residents.values, ∃ blob, residents.get? blob = some resident :=
    fun resident h => Table.mem_values_iff.mp h
  unfold finish
  generalize residents.values = values at hmem
  induction values with
  | nil => exact .inl rfl
  | cons head rest ih =>
    rw [List.foldr_cons]
    rcases Nat.le_total (rest.foldr (fun resident rest => max resident.span.finish rest) 0)
      head.span.finish with hle | hle
    · right
      obtain ⟨blob, hget⟩ := hmem head List.mem_cons_self
      exact ⟨blob, head, hget, (Nat.max_eq_left hle).symm⟩
    · rw [Nat.max_eq_right hle]
      exact ih fun resident h => hmem resident (List.mem_cons_of_mem _ h)

/-- Two gaps with a common byte are the same gap. -/
theorem IsGap.eq_of_mem {residents : Table BlobId Resident} {a b : Span} {byte : Nat}
    (ha : IsGap residents a) (hb : IsGap residents b) (hain : byte ∈ a) (hbin : byte ∈ b) :
    a = b := by
  -- neither begins or ends inside the other, since a covered byte would be next to it
  have begins : ∀ {first second : Span}, IsGap residents first → IsGap residents second →
      byte ∈ first → byte ∈ second → first.offset ≤ second.offset := by
    intro first second hfirst hsecond hin hin'
    rw [Span.mem_iff] at hin hin'
    by_contra hlt
    rcases hfirst.before with hzero | hcovered
    · omega
    · refine hsecond.uncovered _ ?_ hcovered
      rw [Span.mem_iff]
      omega
  have ends : ∀ {first second : Span}, IsGap residents first → IsGap residents second →
      byte ∈ first → byte ∈ second → second.finish ≤ first.finish := by
    intro first second hfirst hsecond hin hin'
    have hle := hsecond.finish_le
    rw [Span.mem_iff] at hin hin'
    by_contra hlt
    rcases hfirst.behind with htop | hcovered
    · omega
    · refine hsecond.uncovered _ ?_ hcovered
      rw [Span.mem_iff]
      unfold Span.finish at hlt ⊢
      omega
  have hoffset : a.offset = b.offset :=
    Nat.le_antisymm (begins ha hb hain hbin) (begins hb ha hbin hain)
  have hfinish : a.finish = b.finish :=
    Nat.le_antisymm (ends hb ha hbin hain) (ends ha hb hain hbin)
  obtain ⟨aOffset, aLength⟩ := a
  obtain ⟨bOffset, bLength⟩ := b
  unfold Span.finish at hfinish
  simp only at hoffset hfinish
  subst hoffset
  rw [Nat.add_left_cancel hfinish]

end Residents

/-! ## §2. The canonical state. -/

namespace Region

variable {region other after : Region} {blob : BlobId} {size : Nat} {placement : Placement}

/-- Everything a region keeps, said of its residents alone. -/
structure Canonical (region : Region) : Prop where
  /-- Residents lie at multiples of the unit. -/
  aligned : ∀ blob resident, region.residents.get? blob = some resident →
    Span.unit ∣ resident.span.offset
  /-- A resident's span is as short as the unit and its size allow. -/
  length_least : ∀ blob resident, region.residents.get? blob = some resident →
    (Span.unit ∣ resident.span.length ∧ max resident.size 1 ≤ resident.span.length)
      ∧ ∀ length, Span.unit ∣ length → max resident.size 1 ≤ length →
          resident.span.length ≤ length
  /-- No byte has two residents. -/
  disjoint : ∀ a b first second, region.residents.get? a = some first →
    region.residents.get? b = some second → a ≠ b → ∀ byte ∈ first.span, byte ∉ second.span
  top_eq : region.arena.top = Residents.finish region.residents
  top_le : region.arena.top ≤ region.capacity.toNat
  /-- The free spans ascend, and no two touch. -/
  free_ascending : region.arena.free.Pairwise fun a b => a.finish < b.offset
  free_eq_gaps : ∀ span, span ∈ region.arena.free ↔ Residents.IsGap region.residents span
  free_nonempty : ∀ span ∈ region.arena.free, 0 < span.length
  free_below_top : ∀ span ∈ region.arena.free, span.finish < region.arena.top
  used_eq : region.used = region.residents.total Resident.size
  used_le : region.used ≤ region.capacity.toNat

theorem Sound.top_eq_finish (h : region.Sound) :
    region.arena.top = Residents.finish region.residents := by
  apply Nat.le_antisymm
  · rcases h.frees.top_eq_zero_or with hzero | ⟨blob, resident, hget, hbyte⟩
    · omega
    · have hle := Residents.finish_le_finish hget
      have hlt := hbyte.2
      omega
  · rcases Residents.finish_eq_zero_or region.residents with hzero | ⟨blob, resident, hget, heq⟩
    · omega
    · -- the last byte of the resident that ends last is in use, so it lies below the top
      have hpos := Span.pos_of_lengthFor? (h.length hget)
      have hlast := h.frees.lt_top (resident.span.finish - 1)
        ⟨blob, resident, hget, by rw [Span.mem_iff]; unfold Span.finish; omega⟩
      unfold Span.finish at hlast heq
      omega

theorem Sound.isGap_of_mem (h : region.Sound) {span : Span} (hmem : span ∈ region.arena.free) :
    Residents.IsGap region.residents span := by
  have hbelow := h.frees.finish_lt_top span hmem
  have htop := h.top_eq_finish
  -- a byte next to the span is covered, or it would be in a free span that touches this one
  have hnext : ∀ byte, byte < region.arena.top → byte ∉ span →
      (byte + 1 = span.offset ∨ byte = span.finish) → Residents.Covers region.residents byte := by
    intro byte hlt hout htouch
    by_contra hfree
    obtain ⟨neighbour, hneighbour, hbyte⟩ := (h.frees.holds_iff byte).mpr ⟨hlt, hfree⟩
    rcases h.frees.separated.apart hmem hneighbour with rfl | hlt | hlt
    · exact hout hbyte
    · have hpos := h.frees.separated.1 span hmem
      unfold Span.finish at htouch hlt
      rw [Span.mem_iff] at hbyte
      omega
    · have hpos := h.frees.separated.1 span hmem
      unfold Span.finish at htouch hlt
      rw [Span.mem_iff] at hbyte
      omega
  refine ⟨h.frees.separated.1 span hmem, ?_, ?_, ?_, ?_⟩
  · intro byte hbyte
    exact ((h.frees.holds_iff byte).mp ⟨span, hmem, hbyte⟩).2
  · omega
  · by_cases hzero : span.offset = 0
    · exact .inl hzero
    · right
      refine hnext _ ?_ ?_ (.inl (by omega))
      · unfold Span.finish at hbelow
        omega
      · rw [Span.mem_iff]
        omega
  · right
    refine hnext _ hbelow ?_ (.inr rfl)
    rw [Span.mem_iff]
    unfold Span.finish
    omega

theorem Sound.mem_free_iff (h : region.Sound) (span : Span) :
    span ∈ region.arena.free ↔ Residents.IsGap region.residents span := by
  constructor
  · exact h.isGap_of_mem
  · intro hgap
    -- the first byte of the gap is free, and the free span that has it is the gap
    have hfirst : span.offset ∈ span := by
      have hpos := hgap.nonempty
      rw [Span.mem_iff]
      omega
    have hle := hgap.finish_le
    have hpos := hgap.nonempty
    unfold Span.finish at hle
    obtain ⟨holder, hmem, hbyte⟩ := (h.frees.holds_iff span.offset).mpr
      ⟨by rw [h.top_eq_finish]; omega, hgap.uncovered _ hfirst⟩
    rw [hgap.eq_of_mem (h.isGap_of_mem hmem) hfirst hbyte]
    exact hmem

/-- **A sound region is canonical.** -/
theorem canonical_of_sound (h : region.Sound) : region.Canonical where
  aligned blob resident hget := (h.aligned hget).1
  length_least blob resident hget := by
    obtain ⟨⟨hdvd, hle, hlt⟩, -⟩ := Span.lengthFor?_eq_some_iff.mp (h.length hget)
    refine ⟨⟨hdvd, hle⟩, fun length hunit hsize => ?_⟩
    obtain ⟨a, ha⟩ := hdvd
    obtain ⟨b, hb⟩ := hunit
    unfold Span.unit at ha hb hlt
    omega
  disjoint a b first second ha hb hne := h.apart ha hb hne
  top_eq := h.top_eq_finish
  top_le := h.frees.top_le
  free_ascending := h.frees.separated.2
  free_eq_gaps := h.mem_free_iff
  free_nonempty := h.frees.separated.1
  free_below_top := h.frees.finish_lt_top
  used_eq := h.used_eq
  used_le := h.used_le

/-- **The same residents, the same state**, whatever led to it. -/
theorem eq_of_residents_eq (h : region.Sound) (hother : other.Sound)
    (heq : other.residents = region.residents) :
    other.arena = region.arena ∧ other.used = region.used := by
  -- both lists ascend and hold the gaps, which depend on the residents only
  have hfree : other.arena.free = region.arena.free := by
    refine hother.frees.separated.eq_of_mem_iff h.frees.separated fun span => ?_
    rw [hother.mem_free_iff, h.mem_free_iff, heq]
  have htop : other.arena.top = region.arena.top := by
    rw [hother.top_eq_finish, h.top_eq_finish, heq]
  refine ⟨?_, ?_⟩
  · cases harena : other.arena
    cases harena' : region.arena
    rw [harena, harena'] at hfree htop
    simp only at hfree htop
    rw [hfree, htop]
  · rw [hother.used_eq, h.used_eq, residentBytes, residentBytes, heq]

/-- Sound regions of one shape with the same residents are equal. -/
theorem ext_of_residents (h : region.Sound) (hother : other.Sound) (hshape : region.SameShape other)
    (heq : other.residents = region.residents) : other = region := by
  obtain ⟨harena, hused⟩ := eq_of_residents_eq h hother heq
  obtain ⟨hkind, hcapacity, hprobes⟩ := hshape
  cases other
  cases region
  simp only at heq harena hused hkind hcapacity hprobes
  rw [heq, harena, hused, hkind, hcapacity, hprobes]

end Region

end JitCache
