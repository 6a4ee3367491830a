/-
  JitCache.Proofs.Space.Packing
  ─────────────────────────────
  **How much fits into a region.**

  Residents share no byte and all end below the capacity, so their spans are
  packed: together they are no longer than the capacity, and what is not used
  leaves at least its length unused by the books.  The books count exact sizes
  and the arena whole units, so this is what keeps the one from contradicting
  the other.  And as every free span ends where a resident begins, there are no
  more free spans than residents.

  Main statements:
    `FreeSpans.sum_length_le`         — the packing bound
    `Region.Sound.length_add_used_le` — an unused span is covered by the available bytes
    `Region.Sound.unit_mul_residentCount_le` — how many residents there can be
    `Region.Sound.length_free_le`     — how many free spans there can be
-/
import JitCache.Proofs.Space.Canonical
import Mathlib.Algebra.Order.BigOperators.Group.List
import Mathlib.Algebra.Order.Group.Nat
import Mathlib.Order.Interval.Finset.Nat

namespace JitCache

/-! ## §1. Spans without a common byte. -/

namespace FreeSpans

/-- The bytes of several spans. -/
def bytes : List Span → Finset Nat
  | [] => ∅
  | span :: rest => Finset.Ico span.offset span.finish ∪ bytes rest

theorem mem_bytes {spans : List Span} {byte : Nat} : byte ∈ bytes spans ↔ Holds spans byte := by
  induction spans with
  | nil => simp [bytes, holds_nil]
  | cons span rest ih =>
    rw [bytes, Finset.mem_union, Finset.mem_Ico, ih, holds_cons]
    rfl

/-- Spans without a common byte have as many bytes as they are long. -/
theorem card_bytes {spans : List Span}
    (h : spans.Pairwise fun a b => ∀ byte ∈ a, byte ∉ b) :
    (bytes spans).card = (spans.map Span.length).sum := by
  induction spans with
  | nil => rfl
  | cons span rest ih =>
    obtain ⟨hhead, hrest⟩ := List.pairwise_cons.mp h
    have hdisjoint : Disjoint (Finset.Ico span.offset span.finish) (bytes rest) := by
      rw [Finset.disjoint_left]
      intro byte hbyte hother
      obtain ⟨later, hmem, hlater⟩ := mem_bytes.mp hother
      exact hhead later hmem byte (Finset.mem_Ico.mp hbyte) hlater
    rw [bytes, Finset.card_union_of_disjoint hdisjoint, ih hrest, Nat.card_Ico, List.map_cons,
      List.sum_cons, Span.finish, Nat.add_sub_cancel_left]

/-- **The packing bound.**  Spans without a common byte that all end by a bound are together no
longer than the bound. -/
theorem sum_length_le {spans : List Span} {bound : Nat}
    (h : spans.Pairwise fun a b => ∀ byte ∈ a, byte ∉ b)
    (hle : ∀ span ∈ spans, span.finish ≤ bound) : (spans.map Span.length).sum ≤ bound := by
  rw [← card_bytes h, ← Finset.card_range bound]
  refine Finset.card_le_card fun byte hbyte => ?_
  obtain ⟨span, hmem, hin⟩ := mem_bytes.mp hbyte
  exact Finset.mem_range.mpr (Nat.lt_of_lt_of_le hin.2 (hle span hmem))

end FreeSpans

/-! ## §2. The residents of a region. -/

namespace Region

variable {region : Region} {span : Span}

/-- The spans of the residents. -/
def spans (region : Region) : List Span := region.residents.values.map Resident.span

theorem mem_spans_iff :
    span ∈ region.spans ↔
      ∃ blob resident, region.residents.get? blob = some resident ∧ resident.span = span := by
  unfold spans
  rw [List.mem_map]
  constructor
  · rintro ⟨resident, hmem, rfl⟩
    obtain ⟨blob, hget⟩ := Table.mem_values_iff.mp hmem
    exact ⟨blob, resident, hget, rfl⟩
  · rintro ⟨blob, resident, hget, rfl⟩
    exact ⟨resident, Table.mem_values_iff.mpr ⟨blob, hget⟩, rfl⟩

theorem length_spans : region.spans.length = region.residentCount := by
  rw [spans, Table.values, List.length_map, List.length_map]
  rfl

theorem Sound.pairwise_spans (h : region.Sound) :
    region.spans.Pairwise fun a b => ∀ byte ∈ a, byte ∉ b := by
  rw [spans, Table.values, List.pairwise_map, List.pairwise_map]
  refine region.residents.ascending.imp_of_mem ?_
  intro first second hfirst hsecond hlt
  -- ascending keys are different keys
  have hne : first.1 ≠ second.1 := by
    intro heq
    rw [heq] at hlt
    exact Nat.lt_irrefl _ hlt
  exact h.apart (Table.mem_entries_iff.mp hfirst) (Table.mem_entries_iff.mp hsecond) hne

theorem Sound.finish_le_capacity (h : region.Sound) (hmem : span ∈ region.spans) :
    span.finish ≤ region.capacity.toNat := by
  obtain ⟨blob, resident, hget, rfl⟩ := mem_spans_iff.mp hmem
  refine Nat.le_trans ?_ h.frees.top_le
  rw [h.top_eq_finish]
  exact Residents.finish_le_finish hget

/-- The sizes that the books count are no more than the spans are long. -/
theorem Sound.used_le_sum (h : region.Sound) :
    region.used ≤ (region.spans.map Span.length).sum := by
  rw [h.used_eq, residentBytes, spans, List.map_map, Table.sum_values]
  refine Table.total_le_total fun blob resident hget => ?_
  obtain ⟨⟨-, hsize, -⟩, -⟩ := Span.lengthFor?_eq_some_iff.mp (h.length hget)
  show resident.size ≤ resident.span.length
  omega

/-- **What no resident is in, the books do not count as used.** -/
theorem Sound.length_add_used_le (h : region.Sound) (hunused : ∀ byte ∈ span, ¬ region.InUse byte)
    (hle : span.finish ≤ region.capacity.toNat) :
    span.length + region.used ≤ region.capacity.toNat := by
  have hapart : (span :: region.spans).Pairwise fun a b => ∀ byte ∈ a, byte ∉ b := by
    refine List.pairwise_cons.mpr ⟨?_, h.pairwise_spans⟩
    intro other hmem byte hbyte hother
    obtain ⟨blob, resident, hget, rfl⟩ := mem_spans_iff.mp hmem
    exact hunused byte hbyte ⟨blob, resident, hget, hother⟩
  have hpacked := FreeSpans.sum_length_le hapart
    (List.forall_mem_cons.mpr ⟨hle, fun other => h.finish_le_capacity⟩)
  have hused := h.used_le_sum
  rw [List.map_cons, List.sum_cons] at hpacked
  omega

/-- Every resident takes a unit of the capacity at least. -/
theorem Sound.unit_mul_residentCount_le (h : region.Sound) :
    Span.unit * region.residentCount ≤ region.capacity.toNat := by
  have hunit : ∀ length ∈ region.spans.map Span.length, Span.unit ≤ length := by
    intro length hmem
    obtain ⟨span, hspan, rfl⟩ := List.mem_map.mp hmem
    obtain ⟨blob, resident, hget, rfl⟩ := mem_spans_iff.mp hspan
    obtain ⟨⟨hdvd, hpos, -⟩, -⟩ := Span.lengthFor?_eq_some_iff.mp (h.length hget)
    exact Nat.le_of_dvd (by omega) hdvd
  have hsum := List.card_nsmul_le_sum _ _ hunit
  have hpacked := FreeSpans.sum_length_le h.pairwise_spans fun _ => h.finish_le_capacity
  rw [List.length_map, length_spans, Nat.nsmul_eq_mul, Nat.mul_comm] at hsum
  omega

/-! ## §3. The free spans of a region. -/

/-- Every free span ends where a resident begins. -/
theorem Sound.exists_resident_behind (h : region.Sound) (hfree : span ∈ region.arena.free) :
    span.finish ∈ region.spans.map Span.offset := by
  have hgap := h.isGap_of_mem hfree
  have hlt := h.frees.finish_lt_top span hfree
  have hpos := hgap.nonempty
  rw [h.top_eq_finish] at hlt
  rcases hgap.behind with htop | ⟨blob, resident, hget, hbyte⟩
  · omega
  · refine List.mem_map.mpr ⟨resident.span, mem_spans_iff.mpr ⟨blob, resident, hget, rfl⟩, ?_⟩
    rw [Span.mem_iff] at hbyte
    by_contra hne
    -- beginning earlier, the resident would have the last byte of the span
    refine hgap.uncovered (span.finish - 1) ?_ ⟨blob, resident, hget, ?_⟩
    · rw [Span.mem_iff]
      unfold Span.finish
      omega
    · rw [Span.mem_iff]
      omega

/-- **There are no more free spans than residents.** -/
theorem Sound.length_free_le (h : region.Sound) :
    region.arena.free.length ≤ region.residentCount := by
  have hnodup : (region.arena.free.map Span.finish).Nodup := by
    refine List.pairwise_map.mpr (h.frees.separated.2.imp ?_)
    intro a b hlt heq
    unfold Span.finish at hlt heq
    omega
  have hsub : region.arena.free.map Span.finish ⊆ region.spans.map Span.offset := by
    intro finish hmem
    obtain ⟨span, hfree, rfl⟩ := List.mem_map.mp hmem
    exact h.exists_resident_behind hfree
  have hle := (hnodup.subperm hsub).length_le
  rwa [List.length_map, List.length_map, length_spans] at hle

end Region

end JitCache
