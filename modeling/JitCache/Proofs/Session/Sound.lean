/-
  JitCache.Proofs.Session.Sound
  ─────────────────────────────
  **What every reachable cache is like.**

  Five parts, each kept by every step on its own terms:

    `Handles`    — which handles have been dealt out, and which comes next
    `SlotsAgree` — liveness and slots say the same
    `Retired`    — who was reclaimed is a zombie and no longer registered
    `Recorded`   — the methods of registered blobs have records
    `Regions.Sound`, from `JitCache.Proofs.Space.Regions`

  Region calls past the blob table disturb none of them: slots and liveness do
  not depend on what the regions believe.

  Main statement:
    `sound_after` — a cache is sound after every session
-/
import JitCache.Proofs.Session.Operation

namespace JitCache

/-! ## §1. What becomes of a blob. -/

/-- The same code: all but liveness and placement. -/
structure Blob.SameCode (old new : Blob) : Prop where
  id : new.id = old.id
  method : new.method = old.method
  entry : new.entry = old.entry
  slot : new.slot = old.slot
  level : new.level = old.level
  code : new.code = old.code

namespace Blob.SameCode

theorem refl (blob : Blob) : blob.SameCode blob := ⟨rfl, rfl, rfl, rfl, rfl, rfl⟩

theorem close (blob : Blob) : blob.SameCode blob.close := ⟨rfl, rfl, rfl, rfl, rfl, rfl⟩

theorem giveUp (blob : Blob) : blob.SameCode blob.giveUp := ⟨rfl, rfl, rfl, rfl, rfl, rfl⟩

theorem trans {a b c : Blob} (hab : a.SameCode b) (hbc : b.SameCode c) : a.SameCode c :=
  ⟨hbc.id.trans hab.id, hbc.method.trans hab.method, hbc.entry.trans hab.entry,
    hbc.slot.trans hab.slot, hbc.level.trans hab.level, hbc.code.trans hab.code⟩

end Blob.SameCode

theorem Blob.liveness_close_ne (blob : Blob) : blob.close.liveness ≠ .entrant := by
  show blob.liveness.close ≠ .entrant
  cases blob.liveness <;> decide

/-! ## §2. The invariants. -/

namespace Cache

/-- So many attempts have been made, and every blob has the handle of one of them. -/
structure Handles (made : Nat) (cache : Cache) : Prop where
  next : cache.nextBlob.number.toNat = (made + 1) % UInt64.size
  dealt : ∀ {id blob}, cache.held? id = some blob →
    0 < id.number.toNat ∧ id.number.toNat ≤ made

/-- Liveness and slots say the same. -/
structure SlotsAgree (cache : Cache) : Prop where
  entrant_iff : ∀ {id blob}, cache.registered.get? id = some blob →
    (blob.liveness = .entrant ↔ (cache.status blob.method).occupant? blob.slot = some id)
  occupant : ∀ {method slot id}, (cache.status method).occupant? slot = some id →
    ∃ blob, cache.registered.get? id = some blob ∧ blob.method = method ∧ blob.slot = slot
  level : ∀ {id blob}, cache.registered.get? id = some blob → blob.level ≠ .interpreted

/-- Who was reclaimed is a zombie and no longer registered. -/
def Retired (cache : Cache) : Prop :=
  ∀ id blob, cache.reclaimed.get? id = some blob →
    blob.liveness = .zombie ∧ cache.registered.get? id = none

/-- Every registered blob is of a method that has a record. -/
def Recorded (cache : Cache) : Prop :=
  ∀ id blob, cache.registered.get? id = some blob → cache.hasRecord blob.method = true

/-- A cache in order, so many attempts to make a blob after it was new. -/
structure Sound (made : Nat) (cache : Cache) : Prop where
  filed : cache.Filed
  handles : cache.Handles made
  slots : cache.SlotsAgree
  retired : cache.Retired
  recorded : cache.Recorded
  regions : cache.regions.Sound
  /-- The regions are still those that the settings asked for. -/
  shape : (Regions.new cache.settings).SameShape cache.regions

variable {cache before after : Cache} {made k : Nat} {operation : Operation}

/-! ## §3. Handles. -/

/-- Nobody has the handle dealt next.  The last one dealt out of all is 0, which is none of those
before it. -/
theorem Handles.fresh (h : cache.Handles made) (hroom : made < UInt64.size) :
    cache.held? cache.nextBlob = none := by
  cases hheld : cache.held? cache.nextBlob with
  | none => rfl
  | some blob =>
    obtain ⟨hpos, hle⟩ := h.dealt hheld
    have hnext := h.next
    by_cases hlast : made + 1 < UInt64.size
    · rw [Nat.mod_eq_of_lt hlast] at hnext
      omega
    · rw [show made + 1 = UInt64.size by omega, Nat.mod_self] at hnext
      omega

theorem Handles.of_same (h : cache.Handles made) (hnext : after.nextBlob = cache.nextBlob)
    (hheld : ∀ {id blob}, after.held? id = some blob → ∃ old, cache.held? id = some old) :
    after.Handles made := by
  constructor
  · rw [hnext]
    exact h.next
  · intro id blob hblob
    obtain ⟨old, hold⟩ := hheld hblob
    exact h.dealt hold

/-- An attempt uses up one handle, whether it makes a blob or not. -/
theorem Handles.of_attempt (h : cache.Handles made) (hroom : made + 1 < UInt64.size)
    (hnext : after.nextBlob = cache.nextBlob.next)
    (hheld : ∀ {id blob}, after.held? id = some blob →
      id = cache.nextBlob ∨ ∃ old, cache.held? id = some old) : after.Handles (made + 1) := by
  constructor
  · -- the number is a word, so it comes round after the last one
    rw [hnext]
    show (cache.nextBlob.number + 1).toNat = _
    rw [UInt64.toNat_add, h.next]
    exact Nat.mod_add_mod (made + 1) UInt64.size 1
  · intro id blob hblob
    rcases hheld hblob with rfl | ⟨old, hold⟩
    · rw [h.next, Nat.mod_eq_of_lt hroom]
      omega
    · have hdealt := h.dealt hold
      omega

theorem handles_step (h : before.Handles made) (hroom : made + k < UInt64.size)
    (hstep : Step operation k before after) : after.Handles (made + k) := by
  -- a step that uses up no handle makes no blob
  rcases nextBlob_step hstep with ⟨rfl, hnext⟩ | ⟨rfl, hnext⟩
  · apply h.of_same hnext
    intro id blob hblob
    rcases held_of_step hstep hblob with hold | ⟨hk, -⟩
    · exact hold
    · cases hk
  · apply h.of_attempt hroom hnext
    intro id blob hblob
    rcases held_of_step hstep hblob with hold | ⟨-, hid, -⟩
    · exact .inr hold
    · exact .inl hid

/-! ## §4. Slots. -/

/-- Slots and liveness keep agreeing where no slot changes and who is entrant stays so. -/
theorem SlotsAgree.of_same (h : before.SlotsAgree)
    (hoccupant : ∀ method slot,
      (after.status method).occupant? slot = (before.status method).occupant? slot)
    (hback : ∀ {id blob}, after.registered.get? id = some blob →
      ∃ old, before.registered.get? id = some old ∧ old.SameCode blob
        ∧ (blob.liveness = .entrant ↔ old.liveness = .entrant))
    (hforth : ∀ {id old}, before.registered.get? id = some old → old.liveness = .entrant →
      ∃ blob, after.registered.get? id = some blob) : after.SlotsAgree := by
  constructor
  case entrant_iff =>
    intro id blob hblob
    obtain ⟨old, hold, hsame, hstage⟩ := hback hblob
    rw [hstage, hoccupant, hsame.method, hsame.slot]
    exact h.entrant_iff hold
  case occupant =>
    intro method slot id hin
    rw [hoccupant] at hin
    obtain ⟨old, hold, rfl, rfl⟩ := h.occupant hin
    -- who is in a slot is entrant, so it is still registered, as the same code
    obtain ⟨blob, hblob⟩ := hforth hold ((h.entrant_iff hold).mpr hin)
    obtain ⟨found, hfound, hsame, -⟩ := hback hblob
    obtain rfl := Option.some.inj (hold.symm.trans hfound)
    exact ⟨blob, hblob, hsame.method, hsame.slot⟩
  case level =>
    intro id blob hblob
    obtain ⟨old, hold, hsame, -⟩ := hback hblob
    rw [hsame.level]
    exact h.level hold

/-- Emptying a slot closes its blob, so that both still agree. -/
theorem SlotsAgree.vacate (h : cache.SlotsAgree) (method : MethodId) (slot : Slot) :
    (cache.vacate method slot).SlotsAgree := by
  constructor
  case entrant_iff =>
    intro id blob hblob
    rw [get?_registered_vacate] at hblob
    obtain ⟨old, hold, hnew, -⟩ := exists_of_ite_map hblob
    by_cases hin : (cache.status method).occupant? slot = some id
    · -- the blob leaves the slot and is closed
      rw [if_pos hin] at hnew
      subst hnew
      obtain ⟨found, hfound, rfl, rfl⟩ := h.occupant hin
      obtain rfl := Option.some.inj (hold.symm.trans hfound)
      refine iff_of_false old.liveness_close_ne ?_
      rw [occupant?_vacate, if_pos ⟨rfl, rfl⟩]
      exact nofun
    · -- the blob is elsewhere: it is as it was, and so is its slot unless that is emptied
      rw [if_neg hin] at hnew
      subst hnew
      rw [h.entrant_iff hold, occupant?_vacate]
      split
      · next heq =>
        obtain ⟨rfl, rfl⟩ := heq
        exact iff_of_false hin nofun
      · exact Iff.rfl
  case occupant =>
    intro other place id hin
    rw [occupant?_vacate] at hin
    split at hin
    · cases hin
    · obtain ⟨old, hold, hmethod, hslot⟩ := h.occupant hin
      rw [get?_registered_vacate, hold]
      split
      · exact ⟨old.close, rfl, hmethod, hslot⟩
      · exact ⟨old, rfl, hmethod, hslot⟩
  case level =>
    intro id blob hblob
    rw [get?_registered_vacate] at hblob
    obtain ⟨old, hold, -, hnew⟩ := exists_of_ite_map hblob
    have hlevel : blob.level = old.level := by
      rcases hnew with rfl | rfl
      · rfl
      · rfl
    rw [hlevel]
    exact h.level hold

/-- A new entrant blob may be put into an empty slot. -/
theorem SlotsAgree.fill {new : Blob} (h : before.SlotsAgree)
    (hfresh : before.registered.get? new.id = none)
    (hempty : (before.status new.method).occupant? new.slot = none)
    (hget : ∀ id, after.registered.get? id
      = if new.id = id then some new else before.registered.get? id)
    (hoccupant : ∀ method slot, (after.status method).occupant? slot
      = if new.method = method ∧ new.slot = slot then some new.id
        else (before.status method).occupant? slot)
    (hentrant : new.liveness = .entrant) (hlevel : new.level ≠ .interpreted) :
    after.SlotsAgree := by
  constructor
  case entrant_iff =>
    intro id blob hblob
    rw [hget] at hblob
    split at hblob
    · next heq =>
      cases hblob
      rw [hoccupant, if_pos ⟨rfl, rfl⟩, heq]
      exact iff_of_true hentrant rfl
    · next hne =>
      rw [h.entrant_iff hblob, hoccupant]
      split
      · next heq =>
        -- the slot was empty and now holds another blob
        obtain ⟨hmethod, hslot⟩ := heq
        rw [← hmethod, ← hslot, hempty]
        exact iff_of_false nofun fun hsome => hne (Option.some.inj hsome)
      · exact Iff.rfl
  case occupant =>
    intro method slot id hin
    rw [hoccupant] at hin
    rw [hget]
    split at hin
    · next heq =>
      cases hin
      rw [if_pos rfl]
      exact ⟨new, rfl, heq⟩
    · obtain ⟨old, hold, hwhere⟩ := h.occupant hin
      refine ⟨old, ?_, hwhere⟩
      rw [if_neg]
      · exact hold
      · intro heq
        rw [heq, hold] at hfresh
        cases hfresh
  case level =>
    intro id blob hblob
    rw [hget] at hblob
    split at hblob
    · cases hblob
      exact hlevel
    · exact h.level hblob

/-- A blob that is made takes the place of who was in its slot. -/
theorem SlotsAgree.enter {new : Blob} (h : cache.SlotsAgree) (kind : RegionKind) (region : Region)
    (hfresh : cache.registered.get? new.id = none) (hentrant : new.liveness = .entrant)
    (hlevel : new.level ≠ .interpreted) : ((cache.lodge kind region new).enter new).SlotsAgree := by
  have hstatus : ∀ method, (cache.lodge kind region new).status method = cache.status method :=
    fun _ => rfl
  -- entering is vacating the slot, then filling it
  refine (h.vacate new.method new.slot).fill ?_ ?_ ?_ ?_ hentrant hlevel
  · rw [get?_registered_vacate, hfresh]
    split <;> rfl
  · rw [occupant?_vacate, if_pos ⟨rfl, rfl⟩]
  · intro id
    rw [get?_registered_enter, get?_registered_lodge, get?_registered_vacate, hstatus]
    split
    · next hin =>
      -- who was in the slot is registered, so it is not the new blob
      rw [if_neg, if_neg]
      all_goals
        intro heq
        obtain ⟨old, hold, -⟩ := h.occupant hin
        rw [heq, hold] at hfresh
        cases hfresh
    · rfl
  · intro method slot
    rw [occupant?_enter, occupant?_vacate, hstatus]
    split <;> rfl

theorem SlotsAgree.congr (h : before.SlotsAgree) (hafter : SameHoldings before after) :
    after.SlotsAgree := by
  refine h.of_same hafter.occupant ?_ ?_
  · intro id blob hblob
    exact ⟨blob, hafter.registered ▸ hblob, .refl blob, Iff.rfl⟩
  · intro id old hold _
    exact ⟨old, hafter.registered ▸ hold⟩

theorem SlotsAgree.setPlacement (h : cache.SlotsAgree) (regions : Regions) (id : BlobId)
    (placement : Placement) : ({ cache with regions }.setPlacement id placement).SlotsAgree := by
  refine h.of_same (fun _ _ => rfl) ?_ ?_
  · intro other blob hblob
    rw [Cache.setPlacement, get?_registered_modifyHeld] at hblob
    obtain ⟨old, hold, -, rfl | rfl⟩ := exists_of_ite_map hblob
    · exact ⟨old, hold, ⟨rfl, rfl, rfl, rfl, rfl, rfl⟩, Iff.rfl⟩
    · exact ⟨_, hold, .refl _, Iff.rfl⟩
  · intro other old hold _
    rw [Cache.setPlacement, get?_registered_modifyHeld]
    split
    · exact ⟨_, congrArg (Option.map _) hold⟩
    · exact ⟨old, hold⟩

/-- Only non-entrant blobs are given up, and they are in no slot. -/
theorem SlotsAgree.markZombie {blob : Blob} (h : cache.SlotsAgree)
    (hblob : cache.registered.get? blob.id = some blob) (hstage : blob.liveness = .nonEntrant) :
    (cache.markZombie blob).SlotsAgree := by
  have hgiven : blob.giveUp.liveness = .zombie := congrArg Liveness.giveUp hstage
  refine h.of_same (fun _ _ => rfl) ?_ ?_
  · intro id found hfound
    rw [get?_registered_markZombie] at hfound
    split at hfound
    · next heq =>
      cases hfound
      refine ⟨blob, heq ▸ hblob, .giveUp blob, ?_⟩
      rw [hgiven, hstage]
      exact iff_of_false nofun nofun
    · exact ⟨found, hfound, .refl found, Iff.rfl⟩
  · intro id old hold _
    rw [get?_registered_markZombie]
    split
    · exact ⟨_, rfl⟩
    · exact ⟨old, hold⟩

/-- Only zombies are struck out, and they are in no slot. -/
theorem SlotsAgree.strikeOut {blob : Blob} (h : cache.SlotsAgree) (region : Region)
    (hblob : cache.registered.get? blob.id = some blob) (hstage : blob.liveness = .zombie) :
    (cache.strikeOut region blob).SlotsAgree := by
  refine h.of_same (fun _ _ => rfl) ?_ ?_
  · intro id found hfound
    rw [get?_registered_strikeOut] at hfound
    split at hfound
    · cases hfound
    · exact ⟨found, hfound, .refl found, Iff.rfl⟩
  · intro id old hold hentrant
    rw [get?_registered_strikeOut]
    split
    · next heq =>
      -- an entrant blob is no zombie
      rw [← heq, hblob] at hold
      cases hold
      rw [hstage] at hentrant
      cases hentrant
    · exact ⟨old, hold⟩

theorem slots_step (h : before.SlotsAgree) (hhandles : before.Handles made)
    (hroom : made + k < UInt64.size) (hstep : Step operation k before after) : after.SlotsAgree := by
  cases hstep with
  | noted hafter => exact h.congr hafter
  | unplaced => exact ⟨h.entrant_iff, h.occupant, h.level⟩
  | entered _ hlevel =>
    have hfresh := hhandles.fresh (by omega)
    rw [held?, Option.or_eq_none_iff] at hfresh
    exact h.enter _ _ hfresh.1 rfl hlevel
  | vacated => exact h.vacate _ _
  | moved | carried => exact h.setPlacement _ _ _
  | reserved | released => exact ⟨h.entrant_iff, h.occupant, h.level⟩
  | gaveUp _ hblob hstage => exact h.markZombie hblob hstage
  | reclaimed _ hblob hstage => exact h.strikeOut _ hblob hstage

/-! ## §5. Reclaimed blobs. -/

/-- Whoever was reclaimed stays so where nobody is registered anew and zombies stay zombies. -/
theorem Retired.of_same (h : before.Retired)
    (hreclaimed : ∀ {id blob}, after.reclaimed.get? id = some blob →
      ∃ old, before.reclaimed.get? id = some old
        ∧ (old.liveness = .zombie → blob.liveness = .zombie))
    (hregistered : ∀ {id}, before.registered.get? id = none → after.registered.get? id = none) :
    after.Retired := by
  intro id blob hblob
  obtain ⟨old, hold, hstage⟩ := hreclaimed hblob
  obtain ⟨hzombie, hgone⟩ := h id old hold
  exact ⟨hstage hzombie, hregistered hgone⟩

theorem Retired.congr (h : before.Retired) (hafter : SameHoldings before after) :
    after.Retired := by
  refine h.of_same ?_ ?_
  · intro id blob hblob
    exact ⟨blob, hafter.reclaimed ▸ hblob, fun hzombie => hzombie⟩
  · intro id hgone
    rw [hafter.registered]
    exact hgone

theorem Retired.modifyHeld {change : Blob → Blob} (h : cache.Retired) (id : BlobId)
    (hchange : ∀ blob, blob.liveness = .zombie → (change blob).liveness = .zombie) :
    (cache.modifyHeld id change).Retired := by
  refine h.of_same ?_ ?_
  · intro other blob hblob
    rw [get?_reclaimed_modifyHeld] at hblob
    obtain ⟨old, hold, -, rfl | rfl⟩ := exists_of_ite_map hblob
    · exact ⟨old, hold, hchange old⟩
    · exact ⟨_, hold, fun hzombie => hzombie⟩
  · intro other hgone
    rw [get?_registered_modifyHeld, hgone]
    split <;> rfl

theorem Retired.closeOccupant (h : cache.Retired) (method : MethodId) (slot : Slot) :
    (cache.closeOccupant method slot).Retired := by
  unfold Cache.closeOccupant
  cases (cache.status method).occupant? slot with
  | none => exact h
  | some id => exact h.modifyHeld id fun blob hzombie => congrArg Liveness.close hzombie

theorem Retired.enter (h : cache.Retired) (blob : Blob) : (cache.enter blob).Retired :=
  h.closeOccupant blob.method blob.slot

theorem Retired.vacate (h : cache.Retired) (method : MethodId) (slot : Slot) :
    (cache.vacate method slot).Retired :=
  h.closeOccupant method slot

theorem Retired.setPlacement (h : cache.Retired) (regions : Regions) (id : BlobId)
    (placement : Placement) : ({ cache with regions }.setPlacement id placement).Retired := by
  have hregions : ({ cache with regions } : Cache).Retired := h
  exact hregions.modifyHeld id fun _ hzombie => hzombie

theorem Retired.lodge {blob : Blob} (h : cache.Retired) (kind : RegionKind) (region : Region)
    (hfresh : cache.held? blob.id = none) : (cache.lodge kind region blob).Retired := by
  intro id old hold
  obtain ⟨hzombie, hgone⟩ := h id old hold
  refine ⟨hzombie, ?_⟩
  rw [get?_registered_lodge, if_neg]
  · exact hgone
  · -- a fresh handle is not that of a reclaimed blob
    rintro rfl
    rw [held?, Option.or_eq_none_iff] at hfresh
    cases hfresh.2.symm.trans hold

theorem Retired.markZombie {blob : Blob} (h : cache.Retired)
    (hblob : cache.registered.get? blob.id = some blob) : (cache.markZombie blob).Retired := by
  intro id old hold
  obtain ⟨hzombie, hgone⟩ := h id old hold
  refine ⟨hzombie, ?_⟩
  rw [get?_registered_markZombie, if_neg]
  · exact hgone
  · -- who is given up is registered
    rintro rfl
    rw [hgone] at hblob
    cases hblob

theorem Retired.strikeOut {blob : Blob} (h : cache.Retired) (region : Region)
    (hstage : blob.liveness = .zombie) : (cache.strikeOut region blob).Retired := by
  intro id old hold
  rw [get?_reclaimed_strikeOut] at hold
  rw [get?_registered_strikeOut]
  split at hold
  · next heq =>
    cases hold
    exact ⟨hstage, if_pos heq⟩
  · next hne =>
    rw [if_neg hne]
    exact h id old hold

theorem retired_step (h : before.Retired) (hhandles : before.Handles made)
    (hroom : made + k < UInt64.size) (hstep : Step operation k before after) : after.Retired := by
  cases hstep with
  | noted hafter => exact h.congr hafter
  | unplaced => exact h
  | entered =>
    refine (h.lodge _ _ ?_).enter _
    exact hhandles.fresh (by omega)
  | vacated => exact h.vacate _ _
  | moved | carried => exact h.setPlacement _ _ _
  | reserved | released => exact h
  | gaveUp _ hblob => exact h.markZombie hblob
  | reclaimed _ _ hstage => exact h.strikeOut _ hstage

/-! ## §6. Records. -/

/-- Looking for the record of a registered blob's method is not in vain. -/
theorem Recorded.not_missing {id : BlobId} {blob : Blob} (h : cache.Recorded)
    (hblob : cache.registered.get? id = some blob) : ¬ cache.hasRecord blob.method = false := by
  rw [h id blob hblob]
  exact Bool.noConfusion

/-- Records stay, so it is enough to know where the registered blobs come from. -/
theorem Recorded.of_same (h : before.Recorded)
    (hback : ∀ {id blob}, after.registered.get? id = some blob →
      ∃ old, before.registered.get? id = some old ∧ blob.method = old.method)
    (hrecord : ∀ method, before.hasRecord method = true → after.hasRecord method = true) :
    after.Recorded := by
  intro id blob hblob
  obtain ⟨old, hold, hmethod⟩ := hback hblob
  rw [hmethod]
  exact hrecord _ (h id old hold)

/-- Changing a blob does not change whose it is. -/
theorem exists_old_of_ite_map {p : Prop} [Decidable p] {found : Option Blob} {blob : Blob}
    {change : Blob → Blob} (h : (if p then found.map change else found) = some blob)
    (hchange : ∀ blob, (change blob).method = blob.method) :
    ∃ old, found = some old ∧ blob.method = old.method := by
  obtain ⟨old, hold, -, rfl | rfl⟩ := exists_of_ite_map h
  · exact ⟨old, hold, hchange old⟩
  · exact ⟨_, hold, rfl⟩

theorem Recorded.setPlacement (h : cache.Recorded) (regions : Regions) (id : BlobId)
    (placement : Placement) : ({ cache with regions }.setPlacement id placement).Recorded := by
  refine h.of_same ?_ fun _ hrecord => hrecord
  intro other blob hblob
  rw [Cache.setPlacement, get?_registered_modifyHeld] at hblob
  exact exists_old_of_ite_map hblob fun _ => rfl

theorem Recorded.vacate (h : cache.Recorded) (method : MethodId) (slot : Slot) :
    (cache.vacate method slot).Recorded := by
  refine h.of_same ?_ fun _ hrecord => hasRecord_vacate.mpr (.inr hrecord)
  intro id blob hblob
  rw [get?_registered_vacate] at hblob
  exact exists_old_of_ite_map hblob fun _ => rfl

/-- Entering a slot makes a record of the method. -/
theorem Recorded.enter (h : cache.Recorded) (kind : RegionKind) (region : Region) (new : Blob) :
    ((cache.lodge kind region new).enter new).Recorded := by
  intro id blob hblob
  rw [get?_registered_enter, get?_registered_lodge] at hblob
  obtain ⟨old, hold, hmethod⟩ := exists_old_of_ite_map hblob fun _ => rfl
  rw [hasRecord_enter, hmethod]
  split at hold
  · cases hold
    exact .inl rfl
  · exact .inr (h id old hold)

theorem Recorded.markZombie {blob : Blob} (h : cache.Recorded)
    (hblob : cache.registered.get? blob.id = some blob) : (cache.markZombie blob).Recorded := by
  refine h.of_same ?_ fun _ hrecord => hrecord
  intro id found hfound
  rw [get?_registered_markZombie] at hfound
  split at hfound
  · next heq =>
    cases hfound
    exact ⟨blob, heq ▸ hblob, rfl⟩
  · exact ⟨found, hfound, rfl⟩

theorem Recorded.strikeOut (h : cache.Recorded) (region : Region) (blob : Blob) :
    (cache.strikeOut region blob).Recorded := by
  refine h.of_same ?_ fun _ hrecord => hrecord
  intro id found hfound
  rw [get?_registered_strikeOut] at hfound
  split at hfound
  · cases hfound
  · exact ⟨found, hfound, rfl⟩

theorem recorded_step (h : before.Recorded) (hstep : Step operation k before after) :
    after.Recorded := by
  cases hstep with
  | noted hafter =>
    refine h.of_same ?_ hafter.recorded
    intro id blob hblob
    exact ⟨blob, hafter.registered ▸ hblob, rfl⟩
  | unplaced => exact h
  | entered => exact h.enter _ _ _
  | vacated => exact h.vacate _ _
  | moved | carried => exact h.setPlacement _ _ _
  | reserved | released => exact h
  | gaveUp _ hblob => exact h.markZombie hblob
  | reclaimed => exact h.strikeOut _ _

/-! ## §7. Everything together. -/

theorem regions_step (h : before.regions.Sound) (hstep : Step operation k before after) :
    after.regions.Sound := by
  cases hstep with
  | noted hafter => exact hafter.regions ▸ h
  | unplaced => exact h
  | entered _ _ hreserve =>
    rw [regions_enter]
    exact Regions.sound_reserve h hreserve
  | vacated =>
    rw [regions_vacate]
    exact h
  | moved _ _ _ htransfer => exact Regions.sound_transfer h htransfer
  | carried _ _ htransfer => exact Regions.sound_transfer h htransfer
  | reserved _ hreserve => exact Regions.sound_reserve h hreserve
  | released _ hrelease => exact Regions.sound_release h hrelease
  | gaveUp => exact h
  | reclaimed _ _ _ hrelease => exact Regions.sound_release h hrelease

theorem regions_steps (h : before.regions.Sound) (hsteps : Steps operation before k after) :
    after.regions.Sound := by
  induction hsteps with
  | refl => exact h
  | tail _ hstep ih => exact regions_step ih hstep

theorem settings_step (hstep : Step operation k before after) :
    after.settings = before.settings := by
  cases hstep with
  | noted hafter => exact hafter.settings
  | entered => exact settings_enter _ _
  | vacated => exact settings_vacate _ _ _
  | _ => rfl

theorem settings_steps (hsteps : Steps operation before k after) :
    after.settings = before.settings := by
  induction hsteps with
  | refl => rfl
  | tail _ hstep ih => exact (settings_step hstep).trans ih

theorem shape_step (hstep : Step operation k before after) :
    before.regions.SameShape after.regions := by
  cases hstep with
  | noted hafter =>
    rw [hafter.regions]
    exact Regions.sameShape_refl _
  | entered _ _ hreserve =>
    rw [regions_enter]
    exact Regions.sameShape_set (Region.sameShape_reserve hreserve)
  | vacated =>
    rw [regions_vacate]
    exact Regions.sameShape_refl _
  | moved _ _ _ htransfer => exact Regions.sameShape_transfer htransfer
  | carried _ _ htransfer => exact Regions.sameShape_transfer htransfer
  | reserved _ hreserve => exact Regions.sameShape_set (Region.sameShape_reserve hreserve)
  | released _ hrelease => exact Regions.sameShape_set (Region.sameShape_release hrelease)
  | reclaimed _ _ _ hrelease => exact Regions.sameShape_set (Region.sameShape_release hrelease)
  | _ => exact Regions.sameShape_refl _

theorem sound_step (h : before.Sound made) (hroom : made + k < UInt64.size)
    (hstep : Step operation k before after) : after.Sound (made + k) where
  filed := filed_step h.filed hstep
  handles := handles_step h.handles hroom hstep
  slots := slots_step h.slots h.handles hroom hstep
  retired := retired_step h.retired h.handles hroom hstep
  recorded := recorded_step h.recorded hstep
  regions := regions_step h.regions hstep
  shape := by
    rw [settings_step hstep]
    exact h.shape.trans (shape_step hstep)

theorem sound_steps (h : before.Sound made) (hroom : made + k < UInt64.size)
    (hsteps : Steps operation before k after) : after.Sound (made + k) :=
  hsteps.preserve h hroom fun hroom h hstep => sound_step h hroom hstep

theorem sound_perform (h : cache.Sound made) (operation : Operation)
    (hroom : made + cache.attempts operation < UInt64.size) :
    (cache.perform operation).2.Sound (made + cache.attempts operation) :=
  sound_steps h hroom (perform_steps h.filed operation)

theorem sound_ofSettings (settings : Settings) : (ofSettings settings).Sound 0 := by
  have hheld : ∀ id blob, (ofSettings settings).held? id ≠ some blob := by
    intro id blob hblob
    cases hblob
  have hregistered : ∀ id blob, (ofSettings settings).registered.get? id ≠ some blob :=
    fun id blob hblob => hheld id blob (held?_of_registered hblob)
  constructor
  case filed => exact filed_ofSettings settings
  case handles => exact ⟨rfl, fun hblob => absurd hblob (hheld _ _)⟩
  case slots =>
    refine ⟨fun hblob => absurd hblob (hregistered _ _), ?_,
      fun hblob => absurd hblob (hregistered _ _)⟩
    intro method slot id hin
    cases slot
    · cases hin
    · cases hin
  case retired =>
    intro id blob hblob
    cases hblob
  case recorded => exact fun id blob hblob => absurd hblob (hregistered id blob)
  case regions => exact Regions.sound_new settings
  case shape => exact Regions.sameShape_refl _

/-- What a session leaves behind is sound if what it started from was. -/
theorem Sound.session {operations : List Operation} (h : cache.Sound made)
    (hroom : made + cache.attemptsIn operations < UInt64.size) :
    (cache.after operations).Sound (made + cache.attemptsIn operations) := by
  -- on the operations; the attempts of the first are those made when the rest begins
  induction operations generalizing cache made with
  | nil => exact h
  | cons operation rest ih =>
    rw [attemptsIn, ← Nat.add_assoc] at hroom ⊢
    exact ih (sound_perform h operation (by omega)) hroom

/-- **A cache is sound after every session**, as long as the handles last. -/
theorem sound_after {settings : Settings} {start : Cache} {operations : List Operation}
    (hnew : Cache.new settings = .ok start) (hroom : start.attemptsIn operations < UInt64.size) :
    (start.after operations).Sound (start.attemptsIn operations) := by
  rw [eq_of_new hnew] at hroom ⊢
  have h := (sound_ofSettings settings).session (by rwa [Nat.zero_add])
  rwa [Nat.zero_add] at h

/-- What every step keeps, a session keeps, however long it is. -/
theorem Filed.session {motive : Cache → Prop} (h : cache.Filed) (hstart : motive cache)
    (hkept : ∀ {operation : Operation} {before after : Cache} {k : Nat},
      Steps operation before k after → motive before → motive after)
    (operations : List Operation) : motive (cache.after operations) := by
  induction operations generalizing cache with
  | nil => exact hstart
  | cons operation rest ih =>
    have hsteps := perform_steps h operation
    rw [after_cons]
    exact ih (filed_steps h hsteps) (hkept hsteps hstart)

/-- A session never changes the settings, however long it is. -/
theorem settings_after {settings : Settings} {start : Cache} (hnew : Cache.new settings = .ok start)
    (operations : List Operation) : (start.after operations).settings = settings := by
  rw [eq_of_new hnew]
  exact (filed_ofSettings settings).session (motive := fun cache => cache.settings = settings) rfl
    (fun hsteps heq => (settings_steps hsteps).trans heq) operations

/-- A session keeps the regions sound, however long it is. -/
theorem regions_after {settings : Settings} {start : Cache} (hnew : Cache.new settings = .ok start)
    (operations : List Operation) : (start.after operations).regions.Sound := by
  rw [eq_of_new hnew]
  exact (filed_ofSettings settings).session (motive := fun cache => cache.regions.Sound)
    (Regions.sound_new settings) (fun hsteps h => regions_steps h hsteps) operations

end Cache

end JitCache
