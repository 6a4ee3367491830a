/-
  JitCache.Proofs.Collection.Composition
  ──────────────────────────────────────
  **Collections compose by intersecting their frames.**

  A pass that does not drain takes out of the register who is neither entrant
  nor on a call stack.  Of two passes in a row the second takes what the first
  has spared, so together they spare who is on both call stacks.  The two ways
  to get there free the same spans in different orders and count in different
  portions.  Still the caches are the same in every part, also in the arenas of
  the regions, but for the number of collections: the register determines the
  regions, and the counters add up.

  Main statement:
    `collections_compose` — two passes, one pass, and the same pass again
-/
import JitCache.Proofs.Collection.Clearing
import JitCache.Proofs.Collection.Pass

namespace JitCache

/-! ## §1. Frames found in two snapshots. -/

namespace FrameSnapshot

variable {first second : FrameSnapshot}

/-- The frames that were found in both snapshots. -/
def inter (first second : FrameSnapshot) : FrameSnapshot :=
  .ofList (first.entries.keys.filter second.contains)

theorem contains_inter (first second : FrameSnapshot) (entry : EntryAddress) :
    (first.inter second).contains entry = (first.contains entry && second.contains entry) := by
  rw [Bool.eq_iff_iff, inter, contains_ofList, List.mem_filter, Table.mem_keys_iff, Bool.and_eq_true]
  rfl

/-- Two passes keep who is kept with the frames found by both. -/
theorem keeps_inter (first second : FrameSnapshot) (blob : Blob) :
    (first.inter second).keeps blob = (first.keeps blob && second.keeps blob) := by
  unfold keeps
  rw [contains_inter]
  cases blob.isEntrant <;> rfl

/-- Snapshots that found the same frames are equal. -/
theorem ext_contains (h : ∀ entry, first.contains entry = second.contains entry) : first = second := by
  have hentries : first.entries = second.entries := by
    apply Table.ext
    intro entry
    have hfound := h entry
    unfold contains Table.contains at hfound
    cases hfirst : first.entries.get? entry <;> cases hsecond : second.entries.get? entry <;>
      simp_all
  cases first
  cases second
  exact congrArg FrameSnapshot.mk hentries

theorem inter_comm (first second : FrameSnapshot) : first.inter second = second.inter first := by
  apply ext_contains
  intro entry
  rw [contains_inter, contains_inter, Bool.and_comm]

theorem inter_eq_left (h : ∀ entry, first.contains entry = true → second.contains entry = true) :
    first.inter second = first := by
  apply ext_contains
  intro entry
  rw [contains_inter, Bool.and_eq_left_iff_imp]
  exact h entry

end FrameSnapshot

/-- The counters after one more collection. -/
def Metrics.collected (metrics : Metrics) : Metrics :=
  { metrics with collections := metrics.collections + 1 }

namespace Cache

/-- The cache after one more collection that has changed nothing. -/
def countCollection (cache : Cache) : Cache := { cache with metrics := cache.metrics.collected }

attribute [ext] Cache

variable {cache mid last both : Cache} {made made' : Nat} {policy : CollectionPolicy}
  {first second frames : FrameSnapshot}

/-! ## §2. A pass that does not drain. -/

/-- A pass that does not drain marks, reclaims and is counted. -/
theorem Consistent.collect_eq (h : cache.Consistent made) (hswept : cache.Swept)
    (hpolicy : policy.consolidate = false) (frames : FrameSnapshot) :
    cache.collect policy frames
      = (.ok (cache.clearReport frames), (cache.cleared frames).countCollection) := by
  obtain ⟨hclear, -⟩ := h.clear hswept frames
  unfold Cache.collect Cache.consolidate
  simp only [hclear, hpolicy, Bool.false_eq_true, if_false]
  rfl

/-! ## §3. Two passes in a row. -/

theorem Clears.countCollection (h : cache.Clears frames last) :
    cache.countCollection.Clears frames last.countCollection where
  settings := h.settings
  methods := h.methods
  nextBlob := h.nextBlob
  nextEntry := h.nextEntry
  invocations := h.invocations
  registered := h.registered
  reclaimed := h.reclaimed
  metrics := congrArg Metrics.collected h.metrics

/-- What leaves in two passes is what leaves in one with the frames found by both. -/
theorem Clears.total_leaving (h : cache.Clears first mid) (second : FrameSnapshot)
    (measure : Blob → Nat) :
    (cache.leaving first).total measure + (mid.leaving second).total measure
      = (cache.leaving (first.inter second)).total measure := by
  rw [Cache.total_leaving, Cache.total_leaving, Cache.total_leaving, h.registered,
    Table.total_filterMap, Table.total_add]
  congr 1
  funext blob
  rw [FrameSnapshot.keeps_inter]
  cases first.keeps blob <;> simp

theorem Clears.size_leaving (h : cache.Clears first mid) (second : FrameSnapshot) :
    (cache.leaving first).size + (mid.leaving second).size
      = (cache.leaving (first.inter second)).size := by
  rw [Table.size_eq_total, Table.size_eq_total, Table.size_eq_total]
  exact h.total_leaving second fun _ => 1

/-- The counts of blobs add up to a word; the bytes may be clipped twice, or once. -/
theorem Clears.clearReport (h : cache.Clears first mid) (hcache : cache.Consistent made)
    (second : FrameSnapshot) :
    cache.clearReport (first.inter second)
      = (cache.clearReport first).plus (mid.clearReport second) := by
  have hsize : Word.add (cache.leaving first).size (mid.leaving second).size
      = (cache.leaving (first.inter second)).size := by
    rw [Word.add_of_le]
    · exact h.size_leaving second
    · rw [h.size_leaving]
      exact hcache.size_leaving_le _
  unfold Cache.clearReport PassReport.plus
  simp only [hsize, Word.add_min, h.total_leaving]
  rfl

/-- **Two clearances in a row are one**, with the frames found by both. -/
theorem Clears.trans (h : cache.Clears first mid) (h' : mid.Clears second last) :
    cache.Clears (first.inter second) last where
  settings := h'.settings.trans h.settings
  methods := h'.methods.trans h.methods
  nextBlob := h'.nextBlob.trans h.nextBlob
  nextEntry := h'.nextEntry.trans h.nextEntry
  invocations := h'.invocations.trans h.invocations
  registered := by
    rw [h'.registered, h.registered, Table.filterMap_filterMap]
    refine Table.filterMap_congr fun _ blob _ => ?_
    rw [FrameSnapshot.keeps_inter]
    cases first.keeps blob <;> simp
  reclaimed id := by
    rw [h'.reclaimed, h.reclaimed]
    unfold leaving
    rw [Table.get?_filterMap, Table.get?_filterMap, Table.get?_filterMap, h.registered,
      Table.get?_filterMap]
    cases cache.registered.get? id with
    | none => rfl
    | some blob =>
      simp only [Option.bind_some, FrameSnapshot.keeps_inter]
      cases first.keeps blob <;> cases hsecond : second.keeps blob <;> simp [hsecond]
  metrics := by
    rw [h'.metrics, h.metrics, Metrics.cleared_cleared, h.size_leaving, h.total_leaving]

/-- A clearance leaves one cache only: the register determines the regions. -/
theorem Clears.unique (h : cache.Clears frames last) (h' : cache.Clears frames both)
    (hlast : last.Consistent made) (hboth : both.Consistent made') : last = both := by
  have hsettings := h.settings.trans h'.settings.symm
  have hregistered := h.registered.trans h'.registered.symm
  apply Cache.ext
  case settings => exact hsettings
  case regions => exact hboth.regions_eq hlast hsettings hregistered
  case methods => exact h.methods.trans h'.methods.symm
  case registered => exact hregistered
  case reclaimed => exact Table.ext fun id => (h.reclaimed id).trans (h'.reclaimed id).symm
  case nextBlob => exact h.nextBlob.trans h'.nextBlob.symm
  case nextEntry => exact h.nextEntry.trans h'.nextEntry.symm
  case invocations => exact h.invocations.trans h'.invocations.symm
  case metrics => exact h.metrics.trans h'.metrics.symm

theorem Consistent.countCollection (h : cache.Consistent made) :
    cache.countCollection.Consistent made := by
  have hsteps : Steps (.collect ⟨false, 0, false⟩ {}) cache 0 cache.countCollection :=
    .single (.noted (sameHoldings_metrics _ _))
  exact h.steps rfl hsteps

/-- What two passes of one policy come to. -/
structure Composes (cache : Cache) (policy : CollectionPolicy) (first second : FrameSnapshot) :
    Prop where
  granted : ∃ one two, (cache.collect policy first).1 = .ok one
    ∧ ((cache.collect policy first).2.collect policy second).1 = .ok two
    ∧ (cache.collect policy (first.inter second)).1 = .ok (one.plus two)
  twice : ((cache.collect policy first).2.collect policy second).2
    = (cache.collect policy (first.inter second)).2.countCollection
  swapped : ((cache.collect policy first).2.collect policy second).2
    = ((cache.collect policy second).2.collect policy first).2
  again : (∀ entry, first.contains entry = true → second.contains entry = true) →
    ((cache.collect policy first).2.collect policy second).2
      = (cache.collect policy first).2.countCollection

/-- Two passes, the second on what the first has left. -/
theorem Consistent.collect_collect (h : cache.Consistent made) (hswept : cache.Swept)
    (hpolicy : policy.consolidate = false) (first second : FrameSnapshot) :
    (cache.collect policy first).2.collect policy second
      = (.ok ((cache.cleared first).countCollection.clearReport second),
          (cache.collect policy (first.inter second)).2.countCollection)
      ∧ cache.clearReport (first.inter second)
          = (cache.clearReport first).plus
              ((cache.cleared first).countCollection.clearReport second) := by
  have hfirst := h.collect_eq hswept hpolicy first
  have hboth := h.collect_eq hswept hpolicy (first.inter second)
  have hmid := h.after_collect policy first
  have hmidSwept := h.swept_collect hswept policy first
  rw [hfirst] at hmid hmidSwept ⊢
  rw [hboth, hmid.collect_eq hmidSwept hpolicy second]
  -- count both collections first: then the clearances go from the same cache to the same
  have hcleared := (h.clears hswept first).countCollection
  have hagain := hmid.clears hmidSwept second
  refine ⟨?_, ?_⟩
  · have honce := (h.clears hswept (first.inter second)).countCollection
    have heq := (hcleared.trans hagain).unique honce
      (hmid.clear hmidSwept second).2.1 (h.clear hswept (first.inter second)).2.1.countCollection
    rw [heq]
  · exact hcleared.clearReport h.countCollection second

theorem Consistent.composes (h : cache.Consistent made) (hswept : cache.Swept)
    (hpolicy : policy.consolidate = false) (first second : FrameSnapshot) :
    cache.Composes policy first second := by
  obtain ⟨htwice, hreport⟩ := h.collect_collect hswept hpolicy first second
  have hswapped := (h.collect_collect hswept hpolicy second first).1
  constructor
  case granted =>
    refine ⟨_, _, congrArg Prod.fst (h.collect_eq hswept hpolicy first), congrArg Prod.fst htwice, ?_⟩
    rw [h.collect_eq hswept hpolicy, hreport]
  case twice => rw [htwice]
  case swapped => rw [htwice, hswapped, FrameSnapshot.inter_comm]
  case again =>
    intro hlarger
    rw [htwice, FrameSnapshot.inter_eq_left hlarger]

end Cache

open Cache in
/-- **Collections that do not drain compose by intersecting their frames**, after every session that
leaves the regions to the cache: two are one with the frames of both, in every part of the cache but
the number of collections.  So they may be swapped, and to collect again with no fewer frames is
just counted. -/
theorem collections_compose {settings : Settings} {start : Cache} {operations : List Operation}
    (hnew : Cache.new settings = .ok start)
    (hmanaged : ∀ operation ∈ operations, operation.isDirect = false)
    (hroom : start.attemptsIn operations < UInt64.size)
    {policy : CollectionPolicy} (hpolicy : policy.consolidate = false)
    (first second : FrameSnapshot) :
    (start.after operations).Composes policy first second :=
  (consistent_after hnew hmanaged hroom).composes (swept_after hnew hmanaged hroom) hpolicy first second

/-- Two frames execute one replaced version each; each pass finds one of them, and the other's
version is reclaimed by it. -/
theorem collections_compose_after_upgrades :
    (((Cache.ofSettings {}).after upgrades).collect ⟨false, 25, true⟩ (.ofList [⟨0x7f0000000000⟩])).1
        = .ok ⟨1, 1, 3, 0, 0⟩
      ∧ (((Cache.ofSettings {}).after upgrades).collect ⟨false, 25, true⟩
          ((FrameSnapshot.ofList [⟨0x7f0000000000⟩]).inter (.ofList [⟨0x7f0000000020⟩]))).1
        = .ok ⟨2, 2, 6, 0, 0⟩
      ∧ ((Cache.ofSettings {}).after upgrades).Composes ⟨false, 25, true⟩
          (.ofList [⟨0x7f0000000000⟩]) (.ofList [⟨0x7f0000000020⟩]) := by
  have hnew : Cache.new {} = .ok (Cache.ofSettings {}) := rfl
  have hmanaged : ∀ operation ∈ upgrades, operation.isDirect = false := by decide
  exact ⟨by decide, by decide, collections_compose hnew hmanaged (by decide) rfl _ _⟩

end JitCache
