/-
  JitCache.Proofs.Space.Calls
  ───────────────────────────
  **Any calls on the regions, and what all of them leave behind.**

  A `RegionCall` reserves or releases in one region or carries a blob from one
  to another, granted or refused.  Three regions of any capacities and probes
  are called in any order; afterwards each is in the canonical state of its
  residents, has clipped nothing, and gives back exactly what it handed out.

  Main statements:
    `Regions.sound_callAll`         — any calls keep the regions sound
    `Region.release_of_reserve`     — releasing takes a reservation back
    `Region.releaseAll_eq_of_mem_iff` — the order of releases leaves no trace
    `state_of_residents`            — all of it, after any calls
-/
import JitCache.Proofs.Space.Canonical

namespace JitCache

/-! ## §1. Calls. -/

/-- One call on the regions. -/
inductive RegionCall where
  /-- Reserve room in a region. -/
  | reserve (kind : RegionKind) (blob : BlobId) (size : Nat)
  /-- Release a resident of a region. -/
  | release (kind : RegionKind) (blob : BlobId)
  /-- Carry a resident of one region to another. -/
  | transfer (source target : RegionKind) (blob : BlobId) (size : Nat) (current : Placement)

namespace Regions

variable {regions : Regions}

/-- Three regions without residents, each with a capacity and a number of probes of its own. -/
def fresh (capacity probes : RegionKind → UInt64) : Regions where
  profiled := .new .profiled (capacity .profiled) (probes .profiled)
  nonProfiled := .new .nonProfiled (capacity .nonProfiled) (probes .nonProfiled)
  nonMethod := .new .nonMethod (capacity .nonMethod) (probes .nonMethod)

/-- The regions as a call leaves them. -/
def call (regions : Regions) : RegionCall → Regions
  | .reserve kind blob size => regions.set kind ((regions.get kind).reserve blob size).2
  | .release kind blob => regions.set kind ((regions.get kind).release blob).2
  | .transfer source target blob size current =>
    (regions.transfer source target blob size current).2

/-- The regions after several calls. -/
def callAll (regions : Regions) (calls : List RegionCall) : Regions := calls.foldl call regions

theorem get_fresh (capacity probes : RegionKind → UInt64) (kind : RegionKind) :
    (fresh capacity probes).get kind = .new kind (capacity kind) (probes kind) := by
  cases kind <;> rfl

/-- One call keeps the regions sound and their shapes. -/
theorem sound_call (h : regions.Sound) (call : RegionCall) :
    (regions.call call).Sound ∧ regions.SameShape (regions.call call) := by
  cases call with
  | reserve kind blob size =>
    rw [Regions.call]
    rcases hres : (regions.get kind).reserve blob size with ⟨_ | placement, region⟩
    · rw [set_of_reserve_error hres]
      exact ⟨h, sameShape_refl _⟩
    · exact ⟨sound_reserve h hres, sameShape_set (Region.sameShape_reserve hres)⟩
  | release kind blob =>
    rw [Regions.call]
    rcases hrel : (regions.get kind).release blob with ⟨_ | placement, region⟩
    · rw [set_of_release_error hrel]
      exact ⟨h, sameShape_refl _⟩
    · exact ⟨sound_release h hrel, sameShape_set (Region.sameShape_release hrel)⟩
  | transfer source target blob size current =>
    rw [Regions.call]
    rcases htransfer : regions.transfer source target blob size current with ⟨_ | placement, after⟩
    · rw [transfer_error htransfer]
      exact ⟨h, sameShape_refl _⟩
    · exact ⟨sound_transfer h htransfer, sameShape_transfer htransfer⟩

/-- **Any calls keep the regions sound**, and their shapes. -/
theorem sound_callAll (h : regions.Sound) (calls : List RegionCall) :
    (regions.callAll calls).Sound ∧ regions.SameShape (regions.callAll calls) := by
  -- on the calls, from regions that are only known to be sound
  induction calls generalizing regions with
  | nil => exact ⟨h, sameShape_refl _⟩
  | cons call rest ih =>
    obtain ⟨hsound, hshape⟩ := sound_call h call
    obtain ⟨hafter, hrest⟩ := ih hsound
    exact ⟨hafter, hshape.trans hrest⟩

theorem sound_fresh (capacity probes : RegionKind → UInt64) : (fresh capacity probes).Sound where
  kind kind := by rw [get_fresh]; rfl
  region kind := by rw [get_fresh]; exact Region.sound_new _ _ _

end Regions

/-! ## §2. Exactness. -/

namespace Region

variable {region other after : Region} {blob : BlobId} {size : Nat} {placement : Placement}

/-- No sum and no difference of the next call is clipped. -/
structure ComputesExactly (region : Region) : Prop where
  available : region.available + region.used = region.capacity.toNat
  grown : ∀ size, size ≤ region.available → Word.add region.used size = region.used + size
  shrunk : ∀ blob resident, region.residents.get? blob = some resident →
    region.used - resident.size + resident.size = region.used
  taken : ∀ probes length,
    region.arena.take? region.capacity.toNat probes length
      = region.arena.takeExact? region.capacity.toNat probes length
  given : ∀ blob resident, region.residents.get? blob = some resident →
    region.arena.give resident.span = region.arena.giveExact resident.span

theorem computesExactly (h : region.Sound) : region.ComputesExactly where
  available := h.available_add_used
  grown size hroom := by
    have hsum := h.available_add_used
    have hword := Word.toNat_le_maxValue region.capacity
    exact Word.add_of_le (by omega)
  shrunk blob resident hget := Nat.sub_add_cancel (h.size_le_used hget)
  taken probes length := h.frees.take?_eq_takeExact? (Word.toNat_le_maxValue _)
  given blob resident hget :=
    h.frees.give_eq_giveExact (Word.toNat_le_maxValue _)
      (h.frees.finish_le_top (Span.pos_of_lengthFor? (h.length hget))
        fun _ hbyte => ⟨blob, resident, hget, hbyte⟩)

/-! ## §3. Taking back what was handed out. -/

/-- **Releasing takes a reservation back**, down to the free spans. -/
theorem release_of_reserve (h : region.Sound)
    (hres : region.reserve blob size = (.ok placement, after)) :
    after.release blob = (.ok placement, region) := by
  have hafter := sound_reserve h hres
  obtain ⟨hnone, -, hkind, -⟩ := reserve_eq_ok_iff.mp hres
  have hblob : after.residents.get? blob = some ⟨placement.span, size⟩ := by
    rw [get?_residents_reserve hres, if_pos rfl]
  obtain ⟨back, hrel⟩ : ∃ back, after.release blob = (.ok ⟨after.kind, placement.span⟩, back) :=
    ⟨_, release_eq_ok_iff.mpr ⟨_, hblob, rfl, rfl⟩⟩
  have hplacement : (⟨after.kind, placement.span⟩ : Placement) = placement := by
    rw [(sameShape_reserve hres).kind, ← hkind]
  have hresidents : back.residents = region.residents := by
    refine Table.ext fun other => ?_
    rw [get?_residents_release hrel, get?_residents_reserve hres]
    by_cases heq : blob = other
    · rw [if_pos heq, ← heq, hnone]
    · rw [if_neg heq, if_neg heq]
  -- the same residents in the same shape: nothing else can differ
  have hshape : region.SameShape back := by
    have hfirst := sameShape_reserve hres
    have hsecond := sameShape_release hrel
    exact ⟨hsecond.kind.trans hfirst.kind, hsecond.capacity.trans hfirst.capacity,
      hsecond.probes.trans hfirst.probes⟩
  rw [hrel, hplacement, ext_of_residents h (sound_release hafter hrel) hshape hresidents]

/-- Releases several blobs; who is not resident is passed over. -/
def releaseAll (region : Region) (blobs : List BlobId) : Region :=
  blobs.foldl (fun region blob => (region.release blob).2) region

/-- Releasing several blobs leaves exactly the others resident. -/
theorem releaseAll_spec (h : region.Sound) (blobs : List BlobId) :
    (region.releaseAll blobs).Sound ∧ region.SameShape (region.releaseAll blobs)
      ∧ ∀ other, (region.releaseAll blobs).residents.get? other
          = if other ∈ blobs then none else region.residents.get? other := by
  induction blobs generalizing region with
  | nil => exact ⟨h, ⟨rfl, rfl, rfl⟩, fun other => by simp [releaseAll]⟩
  | cons blob rest ih =>
    rw [releaseAll, List.foldl_cons, ← releaseAll]
    rcases hrel : region.release blob with ⟨_ | placement, after⟩
    · -- not resident: nothing to release
      obtain ⟨⟨hnone, -⟩, rfl⟩ := release_eq_error_iff.mp hrel
      obtain ⟨hsound, hshape, hget⟩ := ih h
      refine ⟨hsound, hshape, fun other => ?_⟩
      rw [hget]
      by_cases heq : other = blob
      · subst heq
        simp [hnone]
      · simp [heq]
    · -- released now, and passed over if it is listed again
      obtain ⟨hsound, hshape, hget⟩ := ih (sound_release h hrel)
      have hfirst := sameShape_release hrel
      refine ⟨hsound, ⟨hshape.kind.trans hfirst.kind, hshape.capacity.trans hfirst.capacity,
        hshape.probes.trans hfirst.probes⟩, fun other => ?_⟩
      rw [hget, get?_residents_release hrel]
      by_cases heq : blob = other
      · simp [heq]
      · simp [heq, Ne.symm heq]

/-- **The order of releases leaves no trace.** -/
theorem releaseAll_eq_of_mem_iff (h : region.Sound) {first second : List BlobId}
    (hmem : ∀ blob, blob ∈ first ↔ blob ∈ second) :
    region.releaseAll first = region.releaseAll second := by
  obtain ⟨hsound, hshape, hget⟩ := releaseAll_spec h first
  obtain ⟨hsound', hshape', hget'⟩ := releaseAll_spec h second
  refine ext_of_residents hsound' hsound ⟨hshape.kind.trans hshape'.kind.symm,
    hshape.capacity.trans hshape'.capacity.symm, hshape.probes.trans hshape'.probes.symm⟩ ?_
  refine Table.ext fun other => ?_
  rw [hget, hget']
  simp only [hmem]

/-- When all residents are released, the region is as it was made. -/
theorem releaseAll_eq_new {kind : RegionKind} {capacity probes : UInt64} (h : region.Sound)
    (hshape : (Region.new kind capacity probes).SameShape region) {blobs : List BlobId}
    (hall : ∀ blob, region.residents.contains blob = true → blob ∈ blobs) :
    region.releaseAll blobs = .new kind capacity probes := by
  obtain ⟨hsound, hafter, hget⟩ := releaseAll_spec h blobs
  refine ext_of_residents (sound_new kind capacity probes) hsound
    ⟨hafter.kind.trans hshape.kind, hafter.capacity.trans hshape.capacity,
      hafter.probes.trans hshape.probes⟩ ?_
  refine Table.ext fun other => ?_
  rw [hget]
  split
  · rfl
  · next hout =>
    have hnone := mt (hall other) hout
    exact Table.contains_eq_false_iff.mp (Bool.eq_false_iff.mpr hnone)

end Region

/-! ## §4. After any calls. -/

/-- **After any calls, a region's state is the canonical state of its residents.**

Nothing was or will be clipped; any other region with these residents, of whatever shape and
history, has the same arena and used bytes; a release takes a reservation back; releases may be
made in any order; and when everybody is released the region is as it was made. -/
theorem state_of_residents (capacity probes : RegionKind → UInt64) (calls : List RegionCall)
    (kind : RegionKind) :
    let region := ((Regions.fresh capacity probes).callAll calls).get kind
    region.Canonical
      ∧ region.ComputesExactly
      ∧ (∀ (capacity' probes' : RegionKind → UInt64) (calls' : List RegionCall)
          (kind' : RegionKind),
          let other := ((Regions.fresh capacity' probes').callAll calls').get kind'
          other.residents = region.residents →
            other.arena = region.arena ∧ other.used = region.used)
      ∧ (∀ (blob : BlobId) (size : Nat) (placement : Placement) (after : Region),
          region.reserve blob size = (.ok placement, after) →
            after.release blob = (.ok placement, region))
      ∧ (∀ first second : List BlobId, (∀ blob, blob ∈ first ↔ blob ∈ second) →
          region.releaseAll first = region.releaseAll second)
      ∧ ∀ blobs : List BlobId, (∀ blob, region.residents.contains blob = true → blob ∈ blobs) →
          region.releaseAll blobs = .new kind (capacity kind) (probes kind) := by
  intro region
  -- soundness does not depend on capacities, probes or calls
  have sound : ∀ (capacity probes : RegionKind → UInt64) (calls : List RegionCall)
      (kind : RegionKind), (((Regions.fresh capacity probes).callAll calls).get kind).Sound :=
    fun capacity probes calls kind =>
      (Regions.sound_callAll (Regions.sound_fresh capacity probes) calls).1.region kind
  have hregion : region.Sound := sound capacity probes calls kind
  have hshape : (Region.new kind (capacity kind) (probes kind)).SameShape region := by
    rw [← Regions.get_fresh capacity probes kind]
    exact (Regions.sound_callAll (Regions.sound_fresh capacity probes) calls).2 kind
  refine ⟨Region.canonical_of_sound hregion, Region.computesExactly hregion, ?_, ?_, ?_, ?_⟩
  · intro capacity' probes' calls' kind' other heq
    exact Region.eq_of_residents_eq hregion (sound capacity' probes' calls' kind') heq
  · intro blob size placement after hres
    exact Region.release_of_reserve hregion hres
  · intro first second hmem
    exact Region.releaseAll_eq_of_mem_iff hregion hmem
  · intro blobs hall
    exact Region.releaseAll_eq_new hregion hshape hall

end JitCache
