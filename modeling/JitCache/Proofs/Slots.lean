/-
  JitCache.Proofs.Slots
  ─────────────────────
  **Slots and entrant blobs correspond one to one.**

  Where a method is entered is stored twice: in the slots of its status, and in
  the liveness of each blob.  The readers go from the slot to the blob and trust
  the liveness; were the two ever apart, a method would look uncompiled, or code
  would be entered that nobody can close.  They never are: not after refusals,
  and not after region calls that corrupt the regions' books.

  Main statement:
    `slots_correspond` — after every session, slots, liveness and readers agree
-/
import JitCache.Proofs.Session.Sound

namespace JitCache

namespace Cache

/-- Slots and entrant blobs correspond one to one, and whatever is read off a slot is about the
registered blob in it. -/
structure SlotsCorrespond (cache : Cache) : Prop where
  entrant_iff : ∀ {id blob}, cache.held? id = some blob →
    (blob.liveness = .entrant ↔ (cache.status blob.method).occupant? blob.slot = some id)
  occupant : ∀ {method slot id}, (cache.status method).occupant? slot = some id →
    ∃ blob, cache.registered.get? id = some blob ∧ blob.id = id
      ∧ blob.method = method ∧ blob.slot = slot ∧ blob.liveness = .entrant
  unique : ∀ {a b}, cache.held? a.id = some a → cache.held? b.id = some b →
    a.liveness = .entrant → b.liveness = .entrant → a.method = b.method → a.slot = b.slot → a = b
  closed : ∀ {id blob}, cache.held? id = some blob → blob.liveness ≠ .entrant →
    ∀ method slot, (cache.status method).occupant? slot ≠ some id
  compiled_iff_described : ∀ method slot,
    (cache.slotState method slot).compiled = true ↔ ∃ blob, cache.entrant method slot = .ok blob
  compiled_iff_resolved : ∀ method slot,
    (cache.slotState method slot).compiled = true ↔ ∃ blob, cache.entrant? method slot = some blob
  described_iff_resolved : ∀ {method slot blob},
    cache.entrant method slot = .ok blob ↔ cache.entrant? method slot = some blob
  /-- Whoever is in a slot is reported of it, and nobody else is. -/
  resolved_iff : ∀ {method slot blob}, cache.entrant? method slot = some blob ↔
    (cache.status method).occupant? slot = some blob.id
      ∧ cache.registered.get? blob.id = some blob
  resolved : ∀ {method slot blob}, cache.entrant? method slot = some blob →
    (cache.status method).occupant? slot = some blob.id
      ∧ cache.registered.get? blob.id = some blob
      ∧ blob.method = method ∧ blob.slot = slot ∧ blob.liveness = .entrant
      ∧ (cache.slotState method slot).level = blob.level ∧ blob.level ≠ .interpreted
  uncompiled : ∀ {method slot}, (cache.slotState method slot).compiled = false →
    (cache.slotState method slot).level = .interpreted

variable {cache : Cache} {made : Nat} {method : MethodId} {slot : Slot} {blob : Blob}

/-! ## §1. Slots and liveness. -/

/-- Also a reclaimed blob is entrant just if it is in its slot: it is neither. -/
theorem Sound.entrant_iff (h : cache.Sound made) {id : BlobId}
    (hblob : cache.held? id = some blob) :
    blob.liveness = .entrant ↔ (cache.status blob.method).occupant? blob.slot = some id := by
  rcases held?_eq_some_iff.mp hblob with hregistered | ⟨hgone, hreclaimed⟩
  · exact h.slots.entrant_iff hregistered
  · have hzombie := (h.retired id blob hreclaimed).1
    rw [hzombie]
    refine iff_of_false nofun ?_
    intro hin
    -- who is in a slot is registered
    obtain ⟨other, hother, -⟩ := h.slots.occupant hin
    simp [hgone] at hother

theorem Sound.occupant (h : cache.Sound made) {id : BlobId}
    (hin : (cache.status method).occupant? slot = some id) :
    ∃ blob, cache.registered.get? id = some blob ∧ blob.id = id
      ∧ blob.method = method ∧ blob.slot = slot ∧ blob.liveness = .entrant := by
  obtain ⟨blob, hblob, rfl, rfl⟩ := h.slots.occupant hin
  exact ⟨blob, hblob, h.filed.registered hblob, rfl, rfl, (h.slots.entrant_iff hblob).mpr hin⟩

/-! ## §2. What is read off a slot. -/

/-- Calls of a slot enter whoever is in it. -/
theorem Sound.entrant?_eq_some_iff (h : cache.Sound made) :
    cache.entrant? method slot = some blob ↔
      (cache.status method).occupant? slot = some blob.id
        ∧ cache.registered.get? blob.id = some blob := by
  unfold entrant?
  rw [Option.filter_eq_some_iff, Option.bind_eq_some_iff]
  constructor
  · rintro ⟨⟨id, hin, hheld⟩, -⟩
    obtain ⟨other, hother, rfl, -⟩ := h.occupant hin
    obtain rfl := Option.some.inj ((held?_of_registered hother).symm.trans hheld)
    exact ⟨hin, hother⟩
  · rintro ⟨hin, hblob⟩
    obtain ⟨other, hother, -, -, -, hentrant⟩ := h.occupant hin
    obtain rfl := Option.some.inj (hblob.symm.trans hother)
    exact ⟨⟨blob.id, hin, held?_of_registered hblob⟩, decide_eq_true hentrant⟩

theorem Sound.slotsCorrespond (h : cache.Sound made) : cache.SlotsCorrespond where
  entrant_iff := h.entrant_iff
  occupant := h.occupant
  unique := by
    intro a b ha hb hae hbe hmethod hslot
    -- a slot has one occupant, and both are in the same slot
    have hin := (h.entrant_iff ha).mp hae
    rw [hmethod, hslot, (h.entrant_iff hb).mp hbe] at hin
    rw [← Option.some.inj hin, hb] at ha
    exact (Option.some.inj ha).symm
  closed := by
    intro id blob hblob hstage method slot hin
    obtain ⟨other, hother, -, -, -, hentrant⟩ := h.occupant hin
    obtain rfl := Option.some.inj ((held?_of_registered hother).symm.trans hblob)
    exact hstage hentrant
  compiled_iff_described _ _ := isSome_entrant?_iff
  compiled_iff_resolved _ _ := Option.isSome_iff_exists
  described_iff_resolved := entrant_eq_ok_iff
  resolved_iff := h.entrant?_eq_some_iff
  resolved := by
    intro method slot blob hblob
    obtain ⟨hin, hregistered⟩ := h.entrant?_eq_some_iff.mp hblob
    obtain ⟨other, hother, -, hmethod, hslot, hentrant⟩ := h.occupant hin
    obtain rfl := Option.some.inj (hother.symm.trans hregistered)
    refine ⟨hin, hregistered, hmethod, hslot, hentrant, ?_, h.slots.level hregistered⟩
    -- the level that is reported is read off the blob that is resolved
    show cache.level method slot = _
    rw [level, hblob]
    rfl
  uncompiled := by
    intro method slot hnone
    have hentrant : cache.entrant? method slot = none :=
      Option.isNone_iff_eq_none.mp (Option.isSome_eq_false_iff.mp hnone)
    show cache.level method slot = _
    rw [level, hentrant]
    rfl

end Cache

/-! ## §3. After every session. -/

/-- **After every session slots and entrant blobs correspond one to one**, whatever the settings,
the operations and their refusals, as long as the handles last. -/
theorem slots_correspond {settings : Settings} {start : Cache} {operations : List Operation}
    (hnew : Cache.new settings = .ok start) (hroom : start.attemptsIn operations < UInt64.size) :
    (start.after operations).SlotsCorrespond :=
  (Cache.sound_after hnew hroom).slotsCorrespond

/-- A method is compiled twice, the room of the first blob is released past the table, and a pass
fails to reclaim it. -/
def upgrade : List Operation :=
  [.install ⟨1⟩ ⟨.tier2, ⟨#[1, 2, 3]⟩⟩ .standard, .install ⟨1⟩ ⟨.tier4, ⟨#[4, 5]⟩⟩ .standard,
    .releaseIn .profiled ⟨1⟩, .collect ⟨true, 25, true⟩ {}]

theorem slots_correspond_after_upgrade :
    (((Cache.ofSettings {}).after upgrade).status ⟨1⟩).occupant? .standard = some ⟨2⟩
      ∧ ((Cache.ofSettings {}).after upgrade).SlotsCorrespond := by
  have hnew : Cache.new {} = .ok (Cache.ofSettings {}) := rfl
  exact ⟨by decide, slots_correspond hnew (by decide)⟩

end JitCache
