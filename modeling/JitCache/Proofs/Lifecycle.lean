/-
  JitCache.Proofs.Lifecycle
  ─────────────────────────
  **Code that may still be executed is not reclaimed.**

  A frame may execute a blob long after new calls have stopped entering it.  So
  a blob goes entrant → non-entrant → zombie, one stage at a time, and gives its
  room back as a zombie only.  That it became one is the doing of a pass that
  found it in no slot of its method and its address on no call stack, after an
  earlier operation had taken it out of its slot.

  Main statement:
    `blobs_age_safely` — every operation of every session keeps to this
-/
import JitCache.Proofs.Session.Aging
import JitCache.Proofs.Slots
import Mathlib.Data.List.Induction

namespace JitCache

namespace Cache

/-! ## §1. What safety is. -/

/-- One of the operations took the blob out of its slot. -/
def LostSlotIn (start : Cache) (operations : List Operation) (blob : Blob) : Prop :=
  ∃ first loss rest, operations = first ++ loss :: rest
    ∧ ((start.after first).status blob.method).occupant? blob.slot = some blob.id
    ∧ ((start.after (first ++ [loss])).status blob.method).occupant? blob.slot ≠ some blob.id

/-- What an operation may do to the lives of blobs, and what may come of them at the end of the
session; `lost` says who had lost his slot before the operation. -/
structure AgesSafely (before : Cache) (operation : Operation) (after last : Cache)
    (lost : Blob → Prop) : Prop where
  born : ∀ {id new}, before.held? id = none → after.held? id = some new →
    new.liveness = .entrant ∧ after.registered.get? id = some new
  forward : ∀ {id old}, before.held? id = some old →
    ∃ new, after.held? id = some new ∧ old.SameCode new
      ∧ (new.liveness = old.liveness
        ∨ old.liveness = .entrant ∧ new.liveness = .nonEntrant
        ∨ old.liveness = .nonEntrant ∧ new.liveness = .zombie)
  never_back : ∀ {id old}, before.held? id = some old →
    ∃ new, last.held? id = some new ∧ old.SameCode new
      ∧ old.liveness.stage ≤ new.liveness.stage
  leaves_as_zombie : ∀ {id old}, before.registered.get? id = some old →
    after.registered.get? id = none →
      (∃ policy frames, operation = .collect policy frames)
        ∧ ∃ new, after.reclaimed.get? id = some new ∧ new.liveness = .zombie
  never_returns : ∀ {id old}, before.held? id = some old → before.registered.get? id = none →
    last.registered.get? id = none
  given_up : ∀ {id old new}, before.held? id = some old → after.held? id = some new →
    old.liveness ≠ .zombie → new.liveness = .zombie →
      ∃ policy frames, operation = .collect policy frames
        ∧ frames.contains old.entry = false
        ∧ old.liveness = .nonEntrant
        ∧ (∀ slot, (before.status old.method).occupant? slot ≠ some id)
        ∧ lost old
  slots_kept : ∀ {policy frames}, operation = .collect policy frames → ∀ method slot,
    (after.status method).occupant? slot = (before.status method).occupant? slot
  spared : ∀ {policy frames id old}, operation = .collect policy frames →
    before.registered.get? id = some old →
      (old.liveness = .entrant
        ∨ old.liveness = .nonEntrant
          ∧ (frames.contains old.entry = true
            ∨ ∃ slot, (before.status old.method).occupant? slot = some id)) →
      ∃ new, after.registered.get? id = some new ∧ old.SameCode new ∧ new.liveness = old.liveness

variable {start cache : Cache} {made : Nat} {operation : Operation} {operations : List Operation}
  {id : BlobId} {old new : Blob}

/-! ## §2. From one operation to the rest of the session. -/

theorem stage_le_of_ages (h : old.Ages operation cache new) :
    old.liveness.stage ≤ new.liveness.stage := by
  cases h with
  | stays hsame => exact Nat.le_of_eq (congrArg Liveness.stage hsame.symm)
  | closed _ hold hnew =>
    rw [hold, hnew]
    decide
  | givenUp _ hold hnew =>
    rw [hold, hnew]
    decide

/-- Over any number of operations a blob stays held, only ages, and stays out of the register once
it is out. -/
theorem older_after (h : cache.Sound made) (hroom : made + cache.attemptsIn operations < UInt64.size)
    (hold : cache.held? old.id = some old) :
    ∃ new, (cache.after operations).held? old.id = some new ∧ old.SameCode new
      ∧ old.liveness.stage ≤ new.liveness.stage
      ∧ (cache.registered.get? old.id = none →
          (cache.after operations).registered.get? old.id = none) := by
  -- on the operations; what the first makes of the blob is followed through the rest
  induction operations generalizing cache made old with
  | nil => exact ⟨old, hold, .refl old, Nat.le_refl _, fun hgone => hgone⟩
  | cons operation rest ih =>
    rw [attemptsIn, ← Nat.add_assoc] at hroom
    have hroom' : made + cache.attempts operation < UInt64.size := by omega
    obtain ⟨mid, hmid, hfollows⟩ := follows_perform h hroom' hold
    rw [← hfollows.code.id] at hmid
    obtain ⟨new, hnew, hsame, hstage, hgone⟩ := ih (sound_perform h operation hroom') hroom hmid
    rw [hfollows.code.id] at hnew hgone
    rw [after_cons]
    refine ⟨new, hnew, hfollows.code.trans hsame, ?_, ?_⟩
    · exact Nat.le_trans (stage_le_of_ages hfollows.ages) hstage
    · intro hout
      exact hgone (hfollows.stays.gone hout)

/-! ## §3. Losing a slot. -/

theorem LostSlotIn.concat (h : start.LostSlotIn operations old) (hsame : old.SameCode new)
    (last : Operation) : start.LostSlotIn (operations ++ [last]) new := by
  obtain ⟨first, loss, rest, rfl, hin, hout⟩ := h
  refine ⟨first, loss, rest ++ [last], ?_, ?_, ?_⟩
  · rw [List.append_assoc, List.cons_append]
  · rw [hsame.method, hsame.slot, hsame.id]
    exact hin
  · rw [hsame.method, hsame.slot, hsame.id]
    exact hout

/-- Every blob is in its slot or was taken out of it: it was in its slot when it was made. -/
theorem in_slot_or_lost {settings : Settings} (hnew : Cache.new settings = .ok start)
    (hroom : start.attemptsIn operations < UInt64.size)
    (hblob : (start.after operations).held? id = some new) :
    ((start.after operations).status new.method).occupant? new.slot = some id
      ∨ start.LostSlotIn operations new := by
  -- on the last operation: either the slot was lost before it, or just by it
  induction operations using List.reverseRecOn generalizing new with
  | nil =>
    rw [eq_of_new hnew] at hblob
    cases hblob
  | append_singleton operations last ih =>
    have hafter := sound_after hnew hroom
    have hid : new.id = id := hafter.filed.held hblob
    have hentrant := hafter.entrant_iff hblob
    rw [attemptsIn_concat] at hroom
    have hsound := sound_after hnew (Nat.lt_of_le_of_lt (Nat.le_add_right _ _) hroom)
    by_cases hin : ((start.after (operations ++ [last])).status new.method).occupant? new.slot
        = some id
    · exact .inl hin
    · refine .inr ?_
      rw [after_concat] at hblob hin hentrant
      cases hheld : (start.after operations).held? id with
      | none =>
        -- a blob that is made now is in its slot
        have hborn := (born_perform hsound hroom hheld hblob).1
        exact absurd (hentrant.mp hborn) hin
      | some old =>
        have hold : old.id = id := hsound.filed.held hheld
        subst hold
        obtain ⟨found, hfound, hfollows⟩ := follows_perform hsound hroom hheld
        obtain rfl := Option.some.inj (hfound.symm.trans hblob)
        rcases ih (Nat.lt_of_le_of_lt (Nat.le_add_right _ _) hroom) hheld with hwas | hlost
        · refine ⟨operations, last, [], rfl, ?_, ?_⟩
          · rw [hfollows.code.method, hfollows.code.slot, hid]
            exact hwas
          · rw [after_concat, hid]
            exact hin
        · exact hlost.concat hfollows.code last

/-! ## §4. Every operation of every session. -/

/-- A pass that takes a blob out of the register has found or made it a zombie. -/
theorem retired_of_left (h : cache.Sound made)
    (hroom : made + cache.attempts operation < UInt64.size)
    (hold : cache.registered.get? id = some old)
    (hgone : (cache.perform operation).2.registered.get? id = none) :
    (∃ policy frames, operation = .collect policy frames)
      ∧ ∃ new, (cache.perform operation).2.reclaimed.get? id = some new
          ∧ new.liveness = .zombie := by
  have hid := h.filed.registered hold
  subst hid
  obtain ⟨new, hnew, hfollows⟩ := follows_perform h hroom (held?_of_registered hold)
  rcases hfollows.stays.registered hold with hstays | ⟨-, hzombie, hpass⟩
  · simp [hgone] at hstays
  · rcases held?_eq_some_iff.mp hnew with hget | ⟨-, hget⟩
    · simp [hgone] at hget
    · exact ⟨hpass, new, hget, hzombie⟩

/-- Who becomes a zombie was found by a pass, non-entrant, on no call stack and in no slot. -/
theorem found_unreferenced (h : cache.Sound made)
    (hroom : made + cache.attempts operation < UInt64.size) (hold : cache.held? id = some old)
    (hnew : (cache.perform operation).2.held? id = some new) (hnot : old.liveness ≠ .zombie)
    (hzombie : new.liveness = .zombie) :
    ∃ policy frames, operation = .collect policy frames
      ∧ frames.contains old.entry = false
      ∧ old.liveness = .nonEntrant
      ∧ ∀ slot, (cache.status old.method).occupant? slot ≠ some id := by
  have hid := h.filed.held hold
  subst hid
  obtain ⟨found, hfound, hfollows⟩ := follows_perform h hroom hold
  obtain rfl := Option.some.inj (hfound.symm.trans hnew)
  cases hfollows.ages with
  | stays hsame => exact absurd (hsame.symm.trans hzombie) hnot
  | closed _ _ his => simp [his] at hzombie
  | givenUp hpass hwas _ hslots hframes =>
    exact ⟨_, _, hpass, hframes, hwas, holds_eq_false_iff.mp hslots⟩

/-- A pass spares who is entrant, in a slot or on a call stack. -/
theorem spared_of_collect {policy : CollectionPolicy} {frames : FrameSnapshot}
    (h : cache.Sound made)
    (hroom : made + cache.attempts (.collect policy frames) < UInt64.size)
    (hold : cache.registered.get? id = some old)
    (hlive : old.liveness = .entrant
      ∨ old.liveness = .nonEntrant
        ∧ (frames.contains old.entry = true
          ∨ ∃ slot, (cache.status old.method).occupant? slot = some id)) :
    ∃ new, (cache.perform (.collect policy frames)).2.registered.get? id = some new
      ∧ old.SameCode new ∧ new.liveness = old.liveness := by
  have hid := h.filed.registered hold
  subst hid
  obtain ⟨new, -, hfollows⟩ := follows_perform h hroom (held?_of_registered hold)
  have hnot : old.liveness ≠ .zombie := by
    rcases hlive with hstage | ⟨hstage, -⟩
    all_goals
      rw [hstage]
      nofun
  have hsame : new.liveness = old.liveness := by
    cases hfollows.ages with
    | stays hsame => exact hsame
    | closed hslot => cases hslot
    | givenUp hpass hstage _ hslots hframes =>
      cases hpass
      -- given up would be only who is not entrant, on no call stack and in no slot
      rcases hlive with hentrant | ⟨-, hon | ⟨slot, hin⟩⟩
      · simp [hstage] at hentrant
      · simp [hframes] at hon
      · exact absurd hin (holds_eq_false_iff.mp hslots slot)
  refine ⟨new, ?_, hfollows.code, hsame⟩
  -- only zombies leave the register, and the blob has not become one
  rcases hfollows.stays.registered hold with hstays | ⟨-, hzombie, -⟩
  · exact hstays
  · exact absurd (hsame.symm.trans hzombie) hnot

end Cache

/-- **Every operation of every session keeps blobs safe**: they are born entrant, age one stage at
a time, leave the register as zombies, and become zombies only when nothing can execute them. -/
theorem blobs_age_safely {settings : Settings} {start : Cache} {earlier later : List Operation}
    {operation : Operation} (hnew : Cache.new settings = .ok start)
    (hroom : start.attemptsIn (earlier ++ operation :: later) < UInt64.size) :
    (start.after earlier).AgesSafely operation (start.after (earlier ++ [operation]))
      (start.after (earlier ++ operation :: later)) (start.LostSlotIn earlier) := by
  rw [Cache.attemptsIn_append] at hroom
  have hroomEarlier : start.attemptsIn earlier < UInt64.size :=
    Nat.lt_of_le_of_lt (Nat.le_add_right _ _) hroom
  have h := Cache.sound_after hnew hroomEarlier
  have hroomNow :
      start.attemptsIn earlier + (start.after earlier).attempts operation < UInt64.size := by
    rw [Cache.attemptsIn] at hroom
    omega
  rw [Cache.after_concat, Cache.after_append]
  constructor
  case born =>
    intro id new hnone hmade
    exact Cache.born_perform h hroomNow hnone hmade
  case forward =>
    intro id old hold
    have hid := h.filed.held hold
    subst hid
    obtain ⟨new, hget, hfollows⟩ := Cache.follows_perform h hroomNow hold
    refine ⟨new, hget, hfollows.code, ?_⟩
    cases hfollows.ages with
    | stays hsame => exact .inl hsame
    | closed _ hwas his => exact .inr (.inl ⟨hwas, his⟩)
    | givenUp _ hwas his => exact .inr (.inr ⟨hwas, his⟩)
  case never_back =>
    intro id old hold
    have hid := h.filed.held hold
    subst hid
    obtain ⟨new, hget, hsame, hstage, -⟩ := Cache.older_after h hroom hold
    exact ⟨new, hget, hsame, hstage⟩
  case leaves_as_zombie =>
    intro id old hold hgone
    exact Cache.retired_of_left h hroomNow hold hgone
  case never_returns =>
    intro id old hold hgone
    have hid := h.filed.held hold
    subst hid
    obtain ⟨-, -, -, -, hstays⟩ := Cache.older_after h hroom hold
    exact hstays hgone
  case given_up =>
    intro id old new hold hget hnot hzombie
    obtain ⟨policy, frames, hpass, hframes, hwas, hout⟩ :=
      Cache.found_unreferenced h hroomNow hold hget hnot hzombie
    -- it is in no slot now and was in its slot when it was made
    rcases Cache.in_slot_or_lost hnew hroomEarlier hold with hin | hlost
    · exact absurd hin (hout old.slot)
    · exact ⟨policy, frames, hpass, hframes, hwas, hout, hlost⟩
  case slots_kept =>
    intro policy frames hpass method slot
    have hslot : operation.slot? = none := by
      rw [hpass]
      rfl
    exact Cache.occupant?_steps hslot (Cache.perform_steps h.filed operation) method slot
  case spared =>
    intro policy frames id old hpass hold hlive
    subst hpass
    exact Cache.spared_of_collect h hroomNow hold hlive

/-- A blob is installed, loses its slot, is spared by a pass that finds it on a call stack, and is
given up by the next. -/
def retirement : List Operation :=
  [.install ⟨1⟩ ⟨.tier2, ⟨#[1, 2, 3]⟩⟩ .standard, .deoptimize ⟨1⟩ .standard,
    .collect ⟨true, 25, true⟩ (.ofList [.base])]

theorem blobs_age_safely_in_retirement :
    ((Cache.ofSettings {}).after retirement).atStage .nonEntrant ≠ []
      ∧ ((Cache.ofSettings {}).after (retirement ++ [.collect ⟨true, 25, true⟩ {}])).reclaimed.size = 1
      ∧ ((Cache.ofSettings {}).after retirement).AgesSafely (.collect ⟨true, 25, true⟩ {})
          ((Cache.ofSettings {}).after (retirement ++ [.collect ⟨true, 25, true⟩ {}]))
          ((Cache.ofSettings {}).after (retirement ++ [.collect ⟨true, 25, true⟩ {}]))
          ((Cache.ofSettings {}).LostSlotIn retirement) := by
  have hnew : Cache.new {} = .ok (Cache.ofSettings {}) := rfl
  have hroom : (Cache.ofSettings {}).attemptsIn (retirement ++ [.collect ⟨true, 25, true⟩ {}])
      < UInt64.size := by decide
  exact ⟨by decide, by decide, blobs_age_safely hnew hroom⟩

end JitCache
