/-
  JitCache.Proofs.Session.Aging
  ─────────────────────────────
  **What an operation makes of a blob that was there before.**

  A blob that anyone holds stays held, with the same code.  Its liveness stays
  or goes forward by one stage: it is closed by an operation about its slot, or
  given up by a pass that found it in no slot and on no call stack.  It leaves
  the register as a zombie, in a pass, and does not come back.

  `Changes` says what one step makes of a blob.  `Follows` says what a whole
  operation makes of it; because a pass changes no slot it is transitive, so
  what holds of one step holds of the operation.

  Main statements:
    `follows_perform` — what an operation makes of a blob
    `born_perform`    — blobs are born entrant and registered
-/
import JitCache.Proofs.Session.Sound

namespace JitCache

/-! ## §1. Going forward. -/

/-- A blob's liveness stays or goes forward by one stage, for a reason. -/
inductive Blob.Ages (operation : Operation) (cache : Cache) (old new : Blob) : Prop
  /-- Nothing happens to it. -/
  | stays (hsame : new.liveness = old.liveness)
  /-- It leaves its slot. -/
  | closed (hslot : operation.slot? = some (old.method, old.slot))
      (hold : old.liveness = .entrant) (hnew : new.liveness = .nonEntrant)
  /-- A pass finds it in no slot and on no call stack. -/
  | givenUp {policy : CollectionPolicy} {frames : FrameSnapshot}
      (hpass : operation = .collect policy frames)
      (hold : old.liveness = .nonEntrant) (hnew : new.liveness = .zombie)
      (hslots : (cache.status old.method).holds old.id = false)
      (hframes : frames.contains old.entry = false)

/-- What one step makes of a blob. -/
inductive Blob.Changes (operation : Operation) (cache : Cache) (old : Blob) : Blob → Prop
  | kept : Changes operation cache old old
  /-- It leaves its slot. -/
  | closed (hslot : operation.slot? = some (old.method, old.slot))
      (hentrant : old.liveness = .entrant) : Changes operation cache old old.close
  /-- It is carried past the table, or moved for a reason. -/
  | placed {placement : Placement}
      (hwhy : operation.isDirect = true
        ∨ cache.registered.get? old.id = some old ∧ ∃ target, operation.Moves cache old target) :
      Changes operation cache old { old with placement }
  /-- A pass finds it in no slot and on no call stack. -/
  | givenUp {policy : CollectionPolicy} {frames : FrameSnapshot}
      (hpass : operation = .collect policy frames) (hstage : old.liveness = .nonEntrant)
      (hslots : (cache.status old.method).holds old.id = false)
      (hframes : frames.contains old.entry = false) : Changes operation cache old old.giveUp

/-- Whether a blob stays in the register: `new` is in `after` what `old` was in `before`. -/
structure Blob.Stays (operation : Operation) (before after : Cache) (old new : Blob) : Prop where
  registered : before.registered.get? old.id = some old →
    after.registered.get? old.id = some new
      ∨ after.registered.get? old.id = none ∧ new.liveness = .zombie
          ∧ ∃ policy frames, operation = .collect policy frames
  gone : before.registered.get? old.id = none → after.registered.get? old.id = none

/-- What becomes of a blob under an operation. -/
structure Blob.Follows (operation : Operation) (before after : Cache) (old new : Blob) : Prop where
  code : old.SameCode new
  ages : old.Ages operation before new
  stays : old.Stays operation before after new

theorem Blob.Changes.sameCode {operation : Operation} {cache : Cache} {old new : Blob}
    (h : old.Changes operation cache new) : old.SameCode new := by
  cases h with
  | kept => exact .refl old
  | closed => exact .close old
  | placed => exact ⟨rfl, rfl, rfl, rfl, rfl, rfl⟩
  | givenUp => exact .giveUp old

theorem Blob.Changes.ages {operation : Operation} {cache : Cache} {old new : Blob}
    (h : old.Changes operation cache new) : old.Ages operation cache new := by
  cases h with
  | kept => exact .stays rfl
  | closed hslot hentrant => exact .closed hslot hentrant (congrArg Liveness.close hentrant)
  | placed => exact .stays rfl
  | givenUp hpass hstage hslots hframes =>
    exact .givenUp hpass hstage (congrArg Liveness.giveUp hstage) hslots hframes

namespace Cache

variable {before middle after first last cache : Cache} {made k : Nat} {operation : Operation}
  {id : BlobId} {old new : Blob}

/-- A pass changes no slot. -/
theorem occupant?_step (hslot : operation.slot? = none) (hstep : Step operation k before after)
    (method : MethodId) (slot : Slot) :
    (after.status method).occupant? slot = (before.status method).occupant? slot := by
  cases hstep with
  | noted hafter => exact hafter.occupant method slot
  | entered hsome => simp [hslot] at hsome
  | vacated hsome => simp [hslot] at hsome
  | _ => rfl

theorem occupant?_steps (hslot : operation.slot? = none) (hsteps : Steps operation before k after)
    (method : MethodId) (slot : Slot) :
    (after.status method).occupant? slot = (before.status method).occupant? slot := by
  induction hsteps with
  | refl => rfl
  | tail _ hstep ih => exact (occupant?_step hslot hstep method slot).trans ih

theorem holds_eq_false_iff {status : MethodStatus} :
    status.holds id = false ↔ ∀ slot, status.occupant? slot ≠ some id := by
  rw [← Bool.not_eq_true, MethodStatus.holds_iff, not_exists]

/-! ## §2. One step. -/

/-- Where a blob is found as it was, nothing happens to it. -/
theorem changes_of_same (hheld : after.held? old.id = before.held? old.id)
    (hregistered : after.registered.get? old.id = before.registered.get? old.id)
    (hold : before.held? old.id = some old) :
    ∃ new, after.held? old.id = some new ∧ old.Changes operation before new
      ∧ old.Stays operation before after new := by
  refine ⟨old, hheld.trans hold, .kept, ?_, ?_⟩
  · intro hget
    exact .inl (hregistered.trans hget)
  · intro hget
    exact hregistered.trans hget

/-- Closing who is in a slot closes an entrant blob of that slot. -/
theorem changes_of_close {method : MethodId} {slot : Slot} (h : before.Sound made)
    (hslot : operation.slot? = some (method, slot))
    (hheld : after.held? old.id = (before.vacate method slot).held? old.id)
    (hregistered : after.registered.get? old.id = (before.vacate method slot).registered.get? old.id)
    (hold : before.held? old.id = some old) :
    ∃ new, after.held? old.id = some new ∧ old.Changes operation before new
      ∧ old.Stays operation before after new := by
  rw [held?_vacate] at hheld
  rw [get?_registered_vacate] at hregistered
  by_cases hin : (before.status method).occupant? slot = some old.id
  · rw [if_pos hin, hold] at hheld
    rw [if_pos hin] at hregistered
    -- who is in a slot is registered, of that slot and entrant
    obtain ⟨found, hfound, rfl, rfl⟩ := h.slots.occupant hin
    obtain rfl := Option.some.inj (hold.symm.trans (held?_of_registered hfound))
    have hentrant := (h.slots.entrant_iff hfound).mpr hin
    refine ⟨old.close, hheld, .closed hslot hentrant, ?_, ?_⟩
    · intro hget
      rw [hregistered, hget]
      exact .inl rfl
    · intro hget
      simp [hget] at hfound
  · rw [if_neg hin] at hheld hregistered
    exact changes_of_same hheld hregistered hold

/-- A new placement concerns one blob only, wherever that is. -/
theorem changes_setPlacement (regions : Regions) (other : BlobId) (placement : Placement)
    (hwhy : other = old.id → operation.isDirect = true
      ∨ before.registered.get? old.id = some old ∧ ∃ target, operation.Moves before old target)
    (hold : before.held? old.id = some old) :
    ∃ new, ({ before with regions }.setPlacement other placement).held? old.id = some new
      ∧ old.Changes operation before new
      ∧ old.Stays operation before ({ before with regions }.setPlacement other placement) new := by
  by_cases heq : other = old.id
  · refine ⟨{ old with placement }, ?_, .placed (hwhy heq), ?_, ?_⟩
    · rw [setPlacement, held?_modifyHeld, if_pos heq]
      exact congrArg (Option.map _) hold
    · intro hget
      rw [setPlacement, get?_registered_modifyHeld, if_pos heq]
      exact .inl (congrArg (Option.map _) hget)
    · intro hget
      rw [setPlacement, get?_registered_modifyHeld, if_pos heq]
      exact congrArg (Option.map _) hget
  · refine changes_of_same ?_ ?_ hold
    · rw [setPlacement, held?_modifyHeld, if_neg heq]
      rfl
    · rw [setPlacement, get?_registered_modifyHeld, if_neg heq]

/-- A pass gives up a blob for the reason it finds, and leaves the others. -/
theorem changes_markZombie {policy : CollectionPolicy} {frames : FrameSnapshot} {blob : Blob}
    (hpass : operation = .collect policy frames)
    (hblob : before.registered.get? blob.id = some blob) (hstage : blob.liveness = .nonEntrant)
    (hunreferenced : before.isUnreferenced frames blob = true)
    (hold : before.held? old.id = some old) :
    ∃ new, (before.markZombie blob).held? old.id = some new ∧ old.Changes operation before new
      ∧ old.Stays operation before (before.markZombie blob) new := by
  by_cases heq : blob.id = old.id
  · rw [heq] at hblob
    obtain rfl := Option.some.inj (hold.symm.trans (held?_of_registered hblob))
    unfold isUnreferenced at hunreferenced
    rw [Bool.and_eq_true, Bool.not_eq_true', Bool.not_eq_true'] at hunreferenced
    obtain ⟨hslots, hframes⟩ := hunreferenced
    refine ⟨old.giveUp, ?_, .givenUp hpass hstage hslots hframes, ?_, ?_⟩
    · rw [held?_markZombie, if_pos rfl]
    · intro _
      rw [get?_registered_markZombie, if_pos rfl]
      exact .inl rfl
    · intro hget
      simp [hget] at hblob
  · refine changes_of_same ?_ ?_ hold
    · rw [held?_markZombie, if_neg heq]
    · rw [get?_registered_markZombie, if_neg heq]

/-- A pass strikes out a zombie, which stays as it is. -/
theorem changes_strikeOut {policy : CollectionPolicy} {frames : FrameSnapshot} {blob : Blob}
    (region : Region) (hpass : operation = .collect policy frames)
    (hblob : before.registered.get? blob.id = some blob) (hstage : blob.liveness = .zombie)
    (hold : before.held? old.id = some old) :
    ∃ new, (before.strikeOut region blob).held? old.id = some new
      ∧ old.Changes operation before new
      ∧ old.Stays operation before (before.strikeOut region blob) new := by
  by_cases heq : blob.id = old.id
  · rw [heq] at hblob
    obtain rfl := Option.some.inj (hold.symm.trans (held?_of_registered hblob))
    have hgone : (before.strikeOut region old).registered.get? old.id = none := by
      rw [get?_registered_strikeOut, if_pos rfl]
    refine ⟨old, ?_, .kept, ?_, fun _ => hgone⟩
    · rw [held?_strikeOut, if_pos rfl]
    · intro _
      exact .inr ⟨hgone, hstage, policy, frames, hpass⟩
  · refine changes_of_same ?_ ?_ hold
    · rw [held?_strikeOut, if_neg heq]
    · rw [get?_registered_strikeOut, if_neg heq]

theorem changes_step (h : before.Sound made) (hroom : made + k < UInt64.size)
    (hstep : Step operation k before after) (hold : before.held? old.id = some old) :
    ∃ new, after.held? old.id = some new ∧ old.Changes operation before new
      ∧ old.Stays operation before after new := by
  cases hstep with
  | noted hafter =>
    exact changes_of_same (hafter.held? old.id) (by rw [hafter.registered]) hold
  | unplaced => exact changes_of_same rfl rfl hold
  | @entered _ method slot level code kind placement region hslot =>
    -- the new blob has a fresh handle, so beside it only the old occupant changes
    have hne : (before.newBlob method slot level code placement).id ≠ old.id := by
      intro heq
      rw [← heq] at hold
      cases (h.handles.fresh (by omega)).symm.trans hold
    refine changes_of_close h hslot ?_ ?_ hold
    · rw [held?_enter, held?_lodge, if_neg hne, held?_vacate]
      rfl
    · rw [get?_registered_enter, get?_registered_lodge, if_neg hne, get?_registered_vacate]
      rfl
  | vacated hslot => exact changes_of_close h hslot rfl rfl hold
  | @moved _ blob target _ _ hwhy hblob =>
    -- the reason is given for the registered blob, which is the one that is held
    refine changes_setPlacement _ _ _ ?_ hold
    intro heq
    rw [heq] at hblob
    obtain rfl := Option.some.inj ((held?_of_registered hblob).symm.trans hold)
    exact .inr ⟨hblob, target, hwhy⟩
  | carried hdirect => exact changes_setPlacement _ _ _ (fun _ => .inl hdirect) hold
  | reserved | released => exact changes_of_same rfl rfl hold
  | gaveUp hpass hblob hstage hunreferenced =>
    exact changes_markZombie hpass hblob hstage hunreferenced hold
  | reclaimed hpass hblob hstage => exact changes_strikeOut _ hpass hblob hstage hold

theorem follows_step (h : before.Sound made) (hroom : made + k < UInt64.size)
    (hstep : Step operation k before after) (hold : before.held? old.id = some old) :
    ∃ new, after.held? old.id = some new ∧ old.Follows operation before after new := by
  obtain ⟨new, hnew, hchange, hstays⟩ := changes_step h hroom hstep hold
  exact ⟨new, hnew, hchange.sameCode, hchange.ages, hstays⟩

/-! ## §3. One operation. -/

/-- Stages follow each other also over the steps of an operation, in which at most one changes:
an operation about a slot is no pass, and a pass changes no slot. -/
theorem ages_trans {mid : Blob} (hcode : old.SameCode mid)
    (hslots : operation.slot? = none → ∀ method slot,
      (middle.status method).occupant? slot = (first.status method).occupant? slot)
    (h : old.Ages operation first mid) (h' : mid.Ages operation middle new) :
    old.Ages operation first new := by
  cases h with
  | stays hsame =>
    cases h' with
    | stays hsame' => exact .stays (hsame'.trans hsame)
    | closed hslot hmid hnew =>
      rw [hcode.method, hcode.slot] at hslot
      exact .closed hslot (hsame.symm.trans hmid) hnew
    | givenUp hpass hmid hnew hfree hframes =>
      refine .givenUp hpass (hsame.symm.trans hmid) hnew ?_ (hcode.entry ▸ hframes)
      -- found in no slot in the middle of the pass, so in none at its beginning
      rw [hcode.method, hcode.id, holds_eq_false_iff] at hfree
      rw [holds_eq_false_iff]
      intro slot
      rw [← hslots (by rw [hpass]; rfl)]
      exact hfree slot
  | closed hslot hold hmid =>
    cases h' with
    | stays hsame' => exact .closed hslot hold (hsame'.trans hmid)
    | closed _ hmid' => simp [hmid] at hmid'
    | givenUp hpass =>
      rw [hpass] at hslot
      cases hslot
  | givenUp hpass hold hmid hfree hframes =>
    cases h' with
    | stays hsame' => exact .givenUp hpass hold (hsame'.trans hmid) hfree hframes
    | closed _ hmid' => simp [hmid] at hmid'
    | givenUp _ hmid' => simp [hmid] at hmid'

/-- A zombie stays one. -/
theorem zombie_of_ages (h : old.Ages operation cache new) (hold : old.liveness = .zombie) :
    new.liveness = .zombie := by
  cases h with
  | stays hsame => exact hsame.trans hold
  | closed _ hold' => simp [hold] at hold'
  | givenUp _ hold' => simp [hold] at hold'

theorem follows_trans {mid : Blob}
    (hslots : operation.slot? = none → ∀ method slot,
      (middle.status method).occupant? slot = (first.status method).occupant? slot)
    (h : old.Follows operation first middle mid) (h' : mid.Follows operation middle last new) :
    old.Follows operation first last new := by
  have hid := h.code.id
  refine ⟨h.code.trans h'.code, ages_trans h.code hslots h.ages h'.ages, ?_, ?_⟩
  · intro hget
    rcases h.stays.registered hget with hmid | ⟨hmid, hzombie, hpass⟩
    · rw [← hid] at hmid ⊢
      exact h'.stays.registered hmid
    · -- once out of the register it stays out, and a zombie
      rw [← hid] at hmid ⊢
      exact .inr ⟨h'.stays.gone hmid, zombie_of_ages h'.ages hzombie, hpass⟩
  · intro hget
    have hmid := h.stays.gone hget
    rw [← hid] at hmid ⊢
    exact h'.stays.gone hmid

theorem follows_steps (h : first.Sound made) (hroom : made + k < UInt64.size)
    (hsteps : Steps operation first k last) (hold : first.held? old.id = some old) :
    ∃ new, last.held? old.id = some new ∧ old.Follows operation first last new := by
  -- on the steps; soundness of the cache in the middle lets the last one be followed
  induction hsteps with
  | refl => exact ⟨old, hold, .refl old, .stays rfl, .inl, fun hgone => hgone⟩
  | @tail n k middle last hsteps hstep ih =>
    have hroom' : made + n < UInt64.size := by omega
    obtain ⟨mid, hmid, hfollows⟩ := ih hroom'
    have hid := hfollows.code.id
    rw [← hid] at hmid
    obtain ⟨new, hnew, hfollows'⟩ :=
      follows_step (sound_steps h hroom' hsteps) (by omega) hstep hmid
    rw [hid] at hnew
    exact ⟨new, hnew, follows_trans (fun hslot => occupant?_steps hslot hsteps) hfollows hfollows'⟩

/-- What an operation makes of a blob. -/
theorem follows_perform (h : cache.Sound made)
    (hroom : made + cache.attempts operation < UInt64.size) (hold : cache.held? old.id = some old) :
    ∃ new, (cache.perform operation).2.held? old.id = some new
      ∧ old.Follows operation cache (cache.perform operation).2 new :=
  follows_steps h hroom (perform_steps h.filed operation) hold

/-! ## §4. Birth. -/

/-- Only an operation about a slot makes blobs. -/
theorem held_of_steps (hslot : operation.slot? = none) (hsteps : Steps operation first k last)
    (hnew : last.held? id = some new) : ∃ old, first.held? id = some old := by
  induction hsteps generalizing new with
  | refl => exact ⟨new, hnew⟩
  | tail _ hstep ih =>
    rcases held_of_step hstep hnew with ⟨mid, hmid⟩ | ⟨-, -, hsome⟩
    · exact ih hmid
    · exact absurd hslot hsome

/-- What a step makes is entrant and registered. -/
theorem born_step (h : before.Sound made) (hroom : made + k < UInt64.size)
    (hslot : operation.slot? ≠ none) (hstep : Step operation k before after)
    (hnone : before.held? id = none) (hnew : after.held? id = some new) :
    new.liveness = .entrant ∧ after.registered.get? id = some new := by
  have hsame : ∀ {cache : Cache}, cache.held? id = before.held? id → cache.held? id ≠ some new := by
    intro cache heq hsome
    simp [heq.trans hnone] at hsome
  cases hstep with
  | noted hafter => exact absurd hnew (hsame (hafter.held? id))
  | entered =>
    rw [held?_enter] at hnew
    rw [get?_registered_enter]
    split at hnew
    · -- who was in the slot was held before
      next hin =>
      obtain ⟨old, hold, -⟩ := h.slots.occupant hin
      cases hnone.symm.trans (held?_of_registered hold)
    · next hin =>
      rw [if_neg hin, get?_registered_lodge]
      rw [held?_lodge] at hnew
      split at hnew
      · -- the new blob, just lodged
        next heq =>
        cases hnew
        exact ⟨rfl, if_pos heq⟩
      · exact absurd hnew (hsame rfl)
  | vacated =>
    rw [held?_vacate, hnone] at hnew
    split at hnew
    · cases hnew
    · cases hnew
  | moved | carried =>
    rw [setPlacement, held?_modifyHeld] at hnew
    obtain ⟨old, hold, -⟩ := exists_of_ite_map hnew
    cases hnone.symm.trans hold
  | gaveUp hpass =>
    rw [hpass] at hslot
    exact absurd rfl hslot
  | reclaimed hpass =>
    rw [hpass] at hslot
    exact absurd rfl hslot
  | _ => exact absurd hnew (hsame rfl)

/-- Blobs are born entrant and registered. -/
theorem born_perform (h : cache.Sound made)
    (hroom : made + cache.attempts operation < UInt64.size) (hnone : cache.held? id = none)
    (hnew : (cache.perform operation).2.held? id = some new) :
    new.liveness = .entrant ∧ (cache.perform operation).2.registered.get? id = some new := by
  -- an operation about a slot is one step; any other makes no blob
  cases hslot : operation.slot? with
  | none =>
    obtain ⟨old, hold⟩ := held_of_steps hslot (perform_steps h.filed operation) hnew
    simp [hnone] at hold
  | some slot =>
    obtain ⟨middle, hstep, hnote⟩ : StepAndNote operation cache _ _ := perform_step hslot
    rw [hnote.held?] at hnew
    rw [hnote.registered]
    exact born_step h hroom (by rw [hslot]; nofun) hstep hnone hnew

end Cache

end JitCache
