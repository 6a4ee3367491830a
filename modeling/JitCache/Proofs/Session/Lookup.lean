/-
  JitCache.Proofs.Session.Lookup
  ──────────────────────────────
  **What can be looked up after each part of a step.**

  One equation for each table and each part of a step, so that no later proof
  opens the parts themselves.  The last statement is about all of them at once:
  blobs stay filed under their own handles.

  Main statements:
    `get?_registered_enter`, `occupant?_enter` — who is where after an entrance
    `filed_step`                               — handles and keys agree
-/
import JitCache.Proofs.Session.Step
import JitCache.Proofs.Table

namespace JitCache

namespace Cache

variable {cache : Cache} {blob : Blob} {method : MethodId} {slot : Slot}

/-! ## §1. Changing a blob wherever it is. -/

theorem get?_registered_modifyHeld (cache : Cache) (id other : BlobId) (change : Blob → Blob) :
    (cache.modifyHeld id change).registered.get? other
      = if id = other then (cache.registered.get? other).map change
        else cache.registered.get? other :=
  Table.get?_modify ..

theorem get?_reclaimed_modifyHeld (cache : Cache) (id other : BlobId) (change : Blob → Blob) :
    (cache.modifyHeld id change).reclaimed.get? other
      = if id = other then (cache.reclaimed.get? other).map change
        else cache.reclaimed.get? other :=
  Table.get?_modify ..

theorem held?_modifyHeld (cache : Cache) (id other : BlobId) (change : Blob → Blob) :
    (cache.modifyHeld id change).held? other
      = if id = other then (cache.held? other).map change else cache.held? other := by
  unfold held?
  -- in whichever table the blob is, it is changed there
  rw [get?_registered_modifyHeld, get?_reclaimed_modifyHeld]
  split
  · rw [Option.map_or]
  · rfl

/-- Whatever is found after such a change was there before, changed or not. -/
theorem exists_of_ite_map {p : Prop} [Decidable p] {found : Option Blob} {change : Blob → Blob}
    (h : (if p then found.map change else found) = some blob) :
    ∃ old, found = some old ∧ blob = (if p then change old else old)
      ∧ (blob = change old ∨ blob = old) := by
  split at h
  · next hp =>
    obtain ⟨old, hold, rfl⟩ := Option.map_eq_some_iff.mp h
    exact ⟨old, hold, by rw [if_pos hp], .inl rfl⟩
  · next hp => exact ⟨blob, h, by rw [if_neg hp], .inr rfl⟩

/-- Who is held is registered or has been reclaimed. -/
theorem held?_eq_some_iff {id : BlobId} {blob : Blob} :
    cache.held? id = some blob ↔
      cache.registered.get? id = some blob
        ∨ cache.registered.get? id = none ∧ cache.reclaimed.get? id = some blob := by
  unfold held?
  cases cache.registered.get? id <;> simp

theorem held?_of_registered {id : BlobId} (h : cache.registered.get? id = some blob) :
    cache.held? id = some blob :=
  held?_eq_some_iff.mpr (.inl h)

/-! ## §2. Entering and leaving a slot. -/

/-- Closing who is in a slot closes nobody else. -/
theorem get?_registered_closeOccupant (cache : Cache) (method : MethodId) (slot : Slot)
    (id : BlobId) :
    (cache.closeOccupant method slot).registered.get? id
      = if (cache.status method).occupant? slot = some id then
          (cache.registered.get? id).map Blob.close
        else cache.registered.get? id := by
  unfold closeOccupant
  cases (cache.status method).occupant? slot with
  | none =>
    rw [if_neg (by simp)]
  | some occupant =>
    show (cache.modifyHeld occupant Blob.close).registered.get? id = _
    rw [get?_registered_modifyHeld]
    simp only [Option.some.injEq]

theorem held?_closeOccupant (cache : Cache) (method : MethodId) (slot : Slot) (id : BlobId) :
    (cache.closeOccupant method slot).held? id
      = if (cache.status method).occupant? slot = some id then (cache.held? id).map Blob.close
        else cache.held? id := by
  unfold closeOccupant
  cases (cache.status method).occupant? slot with
  | none =>
    rw [if_neg (by simp)]
  | some occupant =>
    show (cache.modifyHeld occupant Blob.close).held? id = _
    rw [held?_modifyHeld]
    simp only [Option.some.injEq]

/-- Beside the blobs, closing who is in a slot changes a count only. -/
theorem closeOccupant_frame (cache : Cache) (method : MethodId) (slot : Slot) :
    (cache.closeOccupant method slot).regions = cache.regions
      ∧ (cache.closeOccupant method slot).settings = cache.settings
      ∧ (cache.closeOccupant method slot).methods = cache.methods
      ∧ (cache.closeOccupant method slot).nextBlob = cache.nextBlob := by
  unfold closeOccupant
  cases (cache.status method).occupant? slot
  · exact ⟨rfl, rfl, rfl, rfl⟩
  · exact ⟨rfl, rfl, rfl, rfl⟩

theorem nextEntry_closeOccupant (cache : Cache) (method : MethodId) (slot : Slot) :
    (cache.closeOccupant method slot).nextEntry = cache.nextEntry := by
  unfold closeOccupant
  cases (cache.status method).occupant? slot <;> rfl

/-- Putting anything into one slot of a method changes no other slot. -/
theorem occupant?_setStatus {status : MethodStatus} {occupant : Option BlobId}
    (hstatus : status.occupant? slot = occupant)
    (hother : ∀ other, slot ≠ other → status.occupant? other = (cache.status method).occupant? other)
    (otherMethod : MethodId) (otherSlot : Slot) :
    ((cache.setStatus method status).status otherMethod).occupant? otherSlot
      = if method = otherMethod ∧ slot = otherSlot then occupant
        else (cache.status otherMethod).occupant? otherSlot := by
  rw [status_setStatus]
  by_cases hmethod : method = otherMethod
  · rw [if_pos hmethod]
    by_cases hslot : slot = otherSlot
    · rw [if_pos ⟨hmethod, hslot⟩, ← hslot]
      exact hstatus
    · rw [if_neg fun h => hslot h.2, ← hmethod]
      exact hother otherSlot hslot
  · rw [if_neg hmethod, if_neg fun h => hmethod h.1]

theorem status_closeOccupant (cache : Cache) (method other : MethodId) (slot : Slot) :
    (cache.closeOccupant method slot).status other = cache.status other := by
  unfold status
  rw [(cache.closeOccupant_frame method slot).2.2.1]

theorem hasRecord_closeOccupant (cache : Cache) (method other : MethodId) (slot : Slot) :
    (cache.closeOccupant method slot).hasRecord other = cache.hasRecord other := by
  unfold hasRecord
  rw [(cache.closeOccupant_frame method slot).2.2.1]

/-- Entering a slot closes who was in it, and nobody else. -/
theorem get?_registered_enter (cache : Cache) (blob : Blob) (id : BlobId) :
    (cache.enter blob).registered.get? id
      = if (cache.status blob.method).occupant? blob.slot = some id then
          (cache.registered.get? id).map Blob.close
        else cache.registered.get? id :=
  cache.get?_registered_closeOccupant blob.method blob.slot id

theorem held?_enter (cache : Cache) (blob : Blob) (id : BlobId) :
    (cache.enter blob).held? id
      = if (cache.status blob.method).occupant? blob.slot = some id then
          (cache.held? id).map Blob.close
        else cache.held? id :=
  cache.held?_closeOccupant blob.method blob.slot id

theorem regions_enter (cache : Cache) (blob : Blob) :
    (cache.enter blob).regions = cache.regions :=
  (cache.closeOccupant_frame blob.method blob.slot).1

theorem settings_enter (cache : Cache) (blob : Blob) :
    (cache.enter blob).settings = cache.settings :=
  (cache.closeOccupant_frame blob.method blob.slot).2.1

theorem nextBlob_enter (cache : Cache) (blob : Blob) :
    (cache.enter blob).nextBlob = cache.nextBlob :=
  (cache.closeOccupant_frame blob.method blob.slot).2.2.2

/-- After an entrance the blob is in its slot, and the other slots are as before. -/
theorem occupant?_enter (cache : Cache) (blob : Blob) (method : MethodId) (slot : Slot) :
    ((cache.enter blob).status method).occupant? slot
      = if blob.method = method ∧ blob.slot = slot then some blob.id
        else (cache.status method).occupant? slot := by
  unfold enter
  -- closing the old occupant has left the statuses alone
  rw [occupant?_setStatus, status_closeOccupant]
  · exact MethodStatus.occupant?_setOccupant_same _ _ _
  · intro other hne
    rw [status_closeOccupant]
    exact MethodStatus.occupant?_setOccupant_of_ne _ _ hne

theorem hasRecord_enter {method : MethodId} :
    (cache.enter blob).hasRecord method = true
      ↔ blob.method = method ∨ cache.hasRecord method = true := by
  unfold enter
  rw [hasRecord_setStatus, hasRecord_closeOccupant]

/-- Emptying a slot closes who was in it, and nobody else. -/
theorem get?_registered_vacate (cache : Cache) (method : MethodId) (slot : Slot) (id : BlobId) :
    (cache.vacate method slot).registered.get? id
      = if (cache.status method).occupant? slot = some id then
          (cache.registered.get? id).map Blob.close
        else cache.registered.get? id :=
  cache.get?_registered_closeOccupant method slot id

theorem held?_vacate (cache : Cache) (method : MethodId) (slot : Slot) (id : BlobId) :
    (cache.vacate method slot).held? id
      = if (cache.status method).occupant? slot = some id then (cache.held? id).map Blob.close
        else cache.held? id :=
  cache.held?_closeOccupant method slot id

theorem regions_vacate (cache : Cache) (method : MethodId) (slot : Slot) :
    (cache.vacate method slot).regions = cache.regions :=
  (cache.closeOccupant_frame method slot).1

theorem settings_vacate (cache : Cache) (method : MethodId) (slot : Slot) :
    (cache.vacate method slot).settings = cache.settings :=
  (cache.closeOccupant_frame method slot).2.1

theorem nextBlob_vacate (cache : Cache) (method : MethodId) (slot : Slot) :
    (cache.vacate method slot).nextBlob = cache.nextBlob :=
  (cache.closeOccupant_frame method slot).2.2.2

theorem occupant?_vacate (cache : Cache) (method other : MethodId) (slot place : Slot) :
    ((cache.vacate method slot).status other).occupant? place
      = if method = other ∧ slot = place then none else (cache.status other).occupant? place := by
  unfold vacate
  rw [occupant?_setStatus, status_closeOccupant]
  · exact MethodStatus.occupant?_setOccupant_same _ _ _
  · intro otherSlot hne
    rw [status_closeOccupant]
    exact MethodStatus.occupant?_setOccupant_of_ne _ _ hne

theorem hasRecord_vacate {other : MethodId} :
    (cache.vacate method slot).hasRecord other = true
      ↔ method = other ∨ cache.hasRecord other = true := by
  unfold vacate
  rw [hasRecord_setStatus, hasRecord_closeOccupant]

/-! ## §3. Being made, given up and reclaimed. -/

theorem get?_registered_lodge (cache : Cache) (kind : RegionKind) (region : Region) (blob : Blob)
    (id : BlobId) :
    (cache.lodge kind region blob).registered.get? id
      = if blob.id = id then some blob else cache.registered.get? id :=
  Table.get?_insert ..

theorem get?_registered_markZombie (cache : Cache) (blob : Blob) (id : BlobId) :
    (cache.markZombie blob).registered.get? id
      = if blob.id = id then some blob.giveUp else cache.registered.get? id :=
  Table.get?_insert ..

theorem get?_registered_strikeOut (cache : Cache) (region : Region) (blob : Blob) (id : BlobId) :
    (cache.strikeOut region blob).registered.get? id
      = if blob.id = id then none else cache.registered.get? id :=
  Table.get?_erase ..

theorem get?_reclaimed_strikeOut (cache : Cache) (region : Region) (blob : Blob) (id : BlobId) :
    (cache.strikeOut region blob).reclaimed.get? id
      = if blob.id = id then some blob else cache.reclaimed.get? id :=
  Table.get?_insert ..

theorem held?_lodge (cache : Cache) (kind : RegionKind) (region : Region) (blob : Blob)
    (id : BlobId) :
    (cache.lodge kind region blob).held? id
      = if blob.id = id then some blob else cache.held? id := by
  unfold held?
  rw [get?_registered_lodge]
  split <;> rfl

theorem held?_markZombie (cache : Cache) (blob : Blob) (id : BlobId) :
    (cache.markZombie blob).held? id
      = if blob.id = id then some blob.giveUp else cache.held? id := by
  unfold held?
  rw [get?_registered_markZombie]
  split <;> rfl

/-- A blob that is struck out of the register is still held. -/
theorem held?_strikeOut (cache : Cache) (region : Region) (blob : Blob) (id : BlobId) :
    (cache.strikeOut region blob).held? id = if blob.id = id then some blob else cache.held? id := by
  unfold held?
  rw [get?_registered_strikeOut, get?_reclaimed_strikeOut]
  split <;> rfl

/-! ## §4. Handles and keys. -/

/-- A new cache has the settings it was given and is otherwise empty. -/
theorem eq_of_new {settings : Settings} {start : Cache} (h : Cache.new settings = .ok start) :
    start = ofSettings settings := by
  unfold Cache.new at h
  cases hvalid : settings.validate with
  | error error =>
    rw [hvalid] at h
    cases h
  | ok checked =>
    rw [hvalid] at h
    cases h
    rw [(Settings.validate_eq_ok_iff.mp hvalid).1]

theorem filed_ofSettings (settings : Settings) : (ofSettings settings).Filed := by
  constructor
  · intro id blob h
    cases h
  · intro id blob h
    cases h

theorem Filed.held (h : cache.Filed) {id : BlobId} (hblob : cache.held? id = some blob) :
    blob.id = id := by
  rcases held?_eq_some_iff.mp hblob with hblob | ⟨-, hblob⟩
  · exact h.registered hblob
  · exact h.reclaimed hblob

theorem Filed.congr {after : Cache} (h : cache.Filed) (hafter : SameHoldings cache after) :
    after.Filed :=
  ⟨fun hget => h.registered (hafter.registered ▸ hget),
    fun hget => h.reclaimed (hafter.reclaimed ▸ hget)⟩

theorem Filed.modifyHeld (h : cache.Filed) (id : BlobId) {change : Blob → Blob}
    (hchange : ∀ blob, (change blob).id = blob.id) : (cache.modifyHeld id change).Filed := by
  constructor
  · intro other blob hget
    rw [get?_registered_modifyHeld] at hget
    obtain ⟨old, hold, -, hblob | hblob⟩ := exists_of_ite_map hget
    · rw [hblob, hchange, h.registered hold]
    · rw [hblob, h.registered hold]
  · intro other blob hget
    rw [get?_reclaimed_modifyHeld] at hget
    obtain ⟨old, hold, -, hblob | hblob⟩ := exists_of_ite_map hget
    · rw [hblob, hchange, h.reclaimed hold]
    · rw [hblob, h.reclaimed hold]

theorem Filed.setPlacement (h : cache.Filed) (regions : Regions) (id : BlobId)
    (placement : Placement) : ({ cache with regions }.setPlacement id placement).Filed := by
  have hregions : ({ cache with regions } : Cache).Filed := ⟨h.registered, h.reclaimed⟩
  exact hregions.modifyHeld id fun _ => rfl

theorem Filed.closeOccupant (h : cache.Filed) (method : MethodId) (slot : Slot) :
    (cache.closeOccupant method slot).Filed := by
  unfold Cache.closeOccupant
  cases (cache.status method).occupant? slot with
  | none => exact h
  | some id =>
    have hclose := h.modifyHeld id fun blob => (rfl : blob.close.id = blob.id)
    exact ⟨hclose.registered, hclose.reclaimed⟩

theorem Filed.enter (h : cache.Filed) (blob : Blob) : (cache.enter blob).Filed := by
  have hclosed := h.closeOccupant blob.method blob.slot
  exact ⟨hclosed.registered, hclosed.reclaimed⟩

theorem Filed.vacate (h : cache.Filed) (method : MethodId) (slot : Slot) :
    (cache.vacate method slot).Filed := by
  have hclosed := h.closeOccupant method slot
  exact ⟨hclosed.registered, hclosed.reclaimed⟩

/-- A blob may be registered under its own handle. -/
theorem Filed.of_insert {after : Cache} (h : cache.Filed) (blob : Blob)
    (hget : ∀ id, after.registered.get? id
      = if blob.id = id then some blob else cache.registered.get? id)
    (hreclaimed : after.reclaimed = cache.reclaimed) : after.Filed := by
  constructor
  · intro id found hfound
    rw [hget] at hfound
    split at hfound
    · next heq =>
      cases hfound
      exact heq
    · exact h.registered hfound
  · intro id found hfound
    rw [hreclaimed] at hfound
    exact h.reclaimed hfound

theorem Filed.lodge (h : cache.Filed) (kind : RegionKind) (region : Region) (blob : Blob) :
    (cache.lodge kind region blob).Filed :=
  h.of_insert blob (cache.get?_registered_lodge kind region blob) rfl

theorem Filed.markZombie (h : cache.Filed) (blob : Blob) : (cache.markZombie blob).Filed :=
  h.of_insert blob.giveUp (cache.get?_registered_markZombie blob) rfl

theorem Filed.strikeOut (h : cache.Filed) (region : Region) (blob : Blob) :
    (cache.strikeOut region blob).Filed := by
  constructor
  · intro id found hget
    rw [get?_registered_strikeOut] at hget
    split at hget
    · cases hget
    · exact h.registered hget
  · intro id found hget
    rw [get?_reclaimed_strikeOut] at hget
    split at hget
    · next heq =>
      cases hget
      exact heq
    · exact h.reclaimed hget

end Cache

/-- Blobs stay filed under their own handles. -/
theorem filed_step {operation : Operation} {k : Nat} {before after : Cache} (h : before.Filed)
    (hstep : Step operation k before after) : after.Filed := by
  cases hstep with
  | noted hafter => exact h.congr hafter
  | unplaced => exact ⟨h.registered, h.reclaimed⟩
  | entered => exact (h.lodge _ _ _).enter _
  | vacated => exact h.vacate _ _
  | moved => exact h.setPlacement _ _ _
  | carried => exact h.setPlacement _ _ _
  | reserved => exact ⟨h.registered, h.reclaimed⟩
  | released => exact ⟨h.registered, h.reclaimed⟩
  | gaveUp => exact h.markZombie _
  | reclaimed => exact h.strikeOut _ _

/-- Whoever is held after a step was held before, or has just been made for a slot. -/
theorem held_of_step {operation : Operation} {k : Nat} {before after : Cache} {id : BlobId}
    {new : Blob} (hstep : Step operation k before after) (hnew : after.held? id = some new) :
    (∃ old, before.held? id = some old)
      ∨ k = 1 ∧ id = before.nextBlob ∧ operation.slot? ≠ none := by
  cases hstep with
  | noted hafter => exact .inl ⟨new, hafter.held? id ▸ hnew⟩
  | entered hslot =>
    rw [Cache.held?_enter] at hnew
    obtain ⟨old, hold, -⟩ := Cache.exists_of_ite_map hnew
    rw [Cache.held?_lodge] at hold
    split at hold
    · next heq =>
      -- this is the blob that the step has made
      exact .inr ⟨rfl, heq.symm, by rw [hslot]; nofun⟩
    · exact .inl ⟨old, hold⟩
  | vacated =>
    rw [Cache.held?_vacate] at hnew
    obtain ⟨old, hold, -⟩ := Cache.exists_of_ite_map hnew
    exact .inl ⟨old, hold⟩
  | moved | carried =>
    rw [Cache.setPlacement, Cache.held?_modifyHeld] at hnew
    obtain ⟨old, hold, -⟩ := Cache.exists_of_ite_map hnew
    exact .inl ⟨old, hold⟩
  | @gaveUp _ _ _ blob _ hblob =>
    rw [Cache.held?_markZombie] at hnew
    split at hnew
    · next heq => exact .inl ⟨blob, heq ▸ Cache.held?_of_registered hblob⟩
    · exact .inl ⟨new, hnew⟩
  | @reclaimed _ _ _ blob _ _ _ hblob =>
    -- a blob that is struck out of the register is still held
    rw [Cache.held?_strikeOut] at hnew
    split at hnew
    · next heq => exact .inl ⟨blob, heq ▸ Cache.held?_of_registered hblob⟩
    · exact .inl ⟨new, hnew⟩
  | _ => exact .inl ⟨new, hnew⟩

/-- An attempt uses up one handle, and nothing else does. -/
theorem nextBlob_step {operation : Operation} {k : Nat} {before after : Cache}
    (hstep : Step operation k before after) :
    k = 0 ∧ after.nextBlob = before.nextBlob ∨ k = 1 ∧ after.nextBlob = before.nextBlob.next := by
  cases hstep with
  | noted hafter => exact .inl ⟨rfl, hafter.nextBlob⟩
  | unplaced => exact .inr ⟨rfl, rfl⟩
  | entered => exact .inr ⟨rfl, Cache.nextBlob_enter _ _⟩
  | vacated => exact .inl ⟨rfl, Cache.nextBlob_vacate _ _ _⟩
  | _ => exact .inl ⟨rfl, rfl⟩

theorem filed_steps {operation : Operation} {k : Nat} {before after : Cache} (h : before.Filed)
    (hsteps : Steps operation before k after) : after.Filed := by
  induction hsteps with
  | refl => exact h
  | tail _ hstep ih => exact filed_step ih hstep

end JitCache
