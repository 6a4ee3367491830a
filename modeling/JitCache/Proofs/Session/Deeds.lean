/-
  JitCache.Proofs.Session.Deeds
  ─────────────────────────────
  **What a session has done to the slots, deed by deed.**

  A granted operation about a slot tells its caller of a blob: the one it has
  made for the slot, or the one it has taken out.  The `Deed` says which it was,
  with the blob as it is at that moment.  The deeds of a session are the past
  that histories, handles and addresses are measured against: they are read off
  the outcomes, not off the tables.

  `Does` says all that an operation can do, to the slots and to what is dealt
  out, and what it tells.

  Main statements:
    `perform_does`  — every operation of a cache in order does just one of these
    `held_of_made`, `made_of_held`
                    — whoever was made is held, and whoever is held was made
    `ascending_blobsMade`
                    — handles ascend in the order in which blobs are made
-/
import JitCache.Proofs.Refusals
import JitCache.Proofs.Session.Aging
import Mathlib.Data.List.Induction

namespace JitCache

/-! ## §1. Deeds. -/

/-- What was done to a slot, with the blob that was made for it or taken out of it. -/
inductive Deed where
  /-- A finished artifact was installed. -/
  | installed (blob : Blob)
  /-- The code of the slot was made again. -/
  | replaced (blob : Blob)
  /-- The slot was emptied. -/
  | emptied (blob : Blob)
  deriving DecidableEq

namespace Deed

/-- The blob that was made or taken out. -/
def blob : Deed → Blob
  | installed blob | replaced blob | emptied blob => blob

/-- The blob that was made. -/
def made? : Deed → Option Blob
  | installed blob | replaced blob => some blob
  | emptied _ => none

theorem blob_of_made? {deed : Deed} {blob : Blob} (h : deed.made? = some blob) :
    deed.blob = blob := by
  cases deed with
  | installed | replaced => exact Option.some.inj h
  | emptied => cases h

end Deed

namespace Operation

/-- The deed of an operation that tells of a blob. -/
def deed : Operation → Blob → Deed
  | replace .. => .replaced
  | deoptimize .. => .emptied
  | _ => .installed

/-- The artifact an operation asks to be installed, and where. -/
def installs? : Operation → Option (MethodId × Artifact × Slot)
  | install method artifact slot => some (method, artifact, slot)
  | handle (.finished method artifact slot) => some (method, artifact, slot)
  | _ => none

end Operation

namespace Cache

/-- What an operation does to a slot, if it tells of a blob. -/
def deed? (cache : Cache) (operation : Operation) : Option Deed :=
  match cache.perform operation with
  | (.blob id, after) => (after.held? id).map operation.deed
  | _ => none

/-- What a session does to the slots, in order. -/
def deeds (cache : Cache) : List Operation → List Deed
  | [] => []
  | operation :: rest => (cache.deed? operation).toList ++ (cache.perform operation).2.deeds rest

/-- The blobs that a session makes, each as it was made, in order. -/
def blobsMade (cache : Cache) (operations : List Operation) : List Blob :=
  (cache.deeds operations).filterMap Deed.made?

theorem deeds_append (cache : Cache) (first second : List Operation) :
    cache.deeds (first ++ second) = cache.deeds first ++ (cache.after first).deeds second := by
  induction first generalizing cache with
  | nil => rfl
  | cons operation rest ih =>
    rw [List.cons_append, deeds, deeds, ih, after_cons, List.append_assoc]

theorem deeds_concat (cache : Cache) (operations : List Operation) (last : Operation) :
    cache.deeds (operations ++ [last])
      = cache.deeds operations ++ ((cache.after operations).deed? last).toList := by
  rw [deeds_append, deeds, deeds, List.append_nil]

/-- Every deed is that of an operation, which was performed after the deeds before it. -/
theorem exists_operation_of_deeds {start : Cache} {operations : List Operation}
    {first later : List Deed} {deed : Deed}
    (h : start.deeds operations = first ++ deed :: later) :
    ∃ earlier operation rest, operations = earlier ++ operation :: rest
      ∧ start.deeds earlier = first ∧ (start.after earlier).deed? operation = some deed := by
  -- on the last operation: the deed is its own, or one of those before it
  induction operations using List.reverseRecOn generalizing later with
  | nil => exact absurd h (by simp [deeds])
  | append_singleton operations last ih =>
    rw [deeds_concat] at h
    cases hlast : (start.after operations).deed? last with
    | none =>
      rw [hlast, Option.toList_none, List.append_nil] at h
      obtain ⟨earlier, operation, rest, rfl, hfirst, hdeed⟩ := ih h
      exact ⟨earlier, operation, rest ++ [last], by simp, hfirst, hdeed⟩
    | some done =>
      rw [hlast, Option.toList_some] at h
      rcases List.eq_nil_or_concat later with rfl | ⟨between, final, rfl⟩
      · obtain ⟨hfirst, hdone⟩ := List.append_inj' h rfl
        exact ⟨operations, last, [], rfl, hfirst, hlast.trans (congrArg some (List.cons.inj hdone).1)⟩
      · rw [List.concat_eq_append, ← List.cons_append, ← List.append_assoc] at h
        obtain ⟨earlier, operation, rest, rfl, hfirst, hdeed⟩ := ih (List.append_inj' h rfl).1
        exact ⟨earlier, operation, rest ++ [last], by simp, hfirst, hdeed⟩

/-! ## §2. What an operation does. -/

/-- The slots, the histories and the address that is dealt next are as before, and nobody is held
anew. -/
structure SameSlots (before after : Cache) : Prop where
  occupant : ∀ method slot, (after.status method).occupant? slot = (before.status method).occupant? slot
  history : ∀ method, (after.status method).history = (before.status method).history
  nextEntry : after.nextEntry = before.nextEntry
  held : ∀ {id new}, after.held? id = some new → ∃ old, before.held? id = some old

/-- A blob is made of what is dealt next, in a region that has reserved its room, and enters its slot. -/
structure Makes (before : Cache) (blob : Blob) (after : Cache) : Prop where
  id : blob.id = before.nextBlob
  entry : blob.entry = before.nextEntry
  entrant : blob.liveness = .entrant
  enters : ∃ kind region,
    (before.regions.get kind).reserve blob.id blob.size = (.ok blob.placement, region)
      ∧ SameHoldings ((before.lodge kind region blob).enter blob) after

/-- What an operation does to the slots, what it tells, and the cache it leaves behind. -/
inductive Does (operation : Operation) (before : Cache) : Option Deed → Outcome → Cache → Prop
  /-- The artifact it asks to be installed is made a blob, of no lower level than the slot has. -/
  | installed {blob : Blob} {after : Cache}
      (hasked : operation.installs? = some (blob.method, ⟨blob.level, blob.code⟩, blob.slot))
      (hlevel : ¬ blob.level < before.level blob.method blob.slot)
      (hattempts : before.attempts operation = 1)
      (hmakes : before.Makes blob after) :
      Does operation before (some (.installed blob)) (.blob blob.id) after
  /-- The code of the slot is made a blob again. -/
  | replaced {level : Option Level} {region : Option RegionKind} {old blob : Blob} {after : Cache}
      (hasked : operation = .replace blob.method blob.slot level region)
      (hold : before.entrant? blob.method blob.slot = some old)
      (hlevel : blob.level = level.getD old.level) (hcode : blob.code = old.code)
      (hattempts : before.attempts operation = 1)
      (hmakes : before.Makes blob after) :
      Does operation before (some (.replaced blob)) (.blob blob.id) after
  /-- The slot is emptied. -/
  | emptied {blob : Blob} {after : Cache}
      (hasked : operation = .deoptimize blob.method blob.slot)
      (hoccupant : (before.status blob.method).occupant? blob.slot = some blob.id)
      (hafter : SameHoldings (before.vacate blob.method blob.slot) after) :
      Does operation before (some (.emptied blob)) (.blob blob.id) after
  /-- No slot is touched. -/
  | nothing {outcome : Outcome} {after : Cache} (htold : ∀ id, outcome ≠ .blob id)
      (hslots : before.SameSlots after) : Does operation before none outcome after

variable {cache before after last : Cache} {made k : Nat} {operation : Operation} {method : MethodId}
  {slot : Slot} {blob : Blob} {id : BlobId} {error : CacheError}

theorem history_step (hslot : operation.slot? = none) (hstep : Step operation k before after)
    (method : MethodId) : (after.status method).history = (before.status method).history := by
  cases hstep with
  | noted hafter => exact hafter.history method
  | entered hsome => simp [hslot] at hsome
  | vacated hsome => simp [hslot] at hsome
  | _ => rfl

theorem nextEntry_step (hslot : operation.slot? = none) (hstep : Step operation k before after) :
    after.nextEntry = before.nextEntry := by
  cases hstep with
  | noted hafter => exact hafter.nextEntry
  | entered hsome => simp [hslot] at hsome
  | vacated hsome => simp [hslot] at hsome
  | _ => rfl

theorem SameHoldings.sameSlots (h : SameHoldings before after) : before.SameSlots after :=
  ⟨h.occupant, h.history, h.nextEntry, fun hnew => ⟨_, h.held? _ ▸ hnew⟩⟩

theorem SameSlots.trans (h : before.SameSlots after) (h' : after.SameSlots last) :
    before.SameSlots last where
  occupant method slot := (h'.occupant method slot).trans (h.occupant method slot)
  history method := (h'.history method).trans (h.history method)
  nextEntry := h'.nextEntry.trans h.nextEntry
  held hnew := by
    obtain ⟨mid, hmid⟩ := h'.held hnew
    exact h.held hmid

/-- An operation that is not about a slot touches none. -/
theorem sameSlots_steps (hslot : operation.slot? = none) (hsteps : Steps operation before k after) :
    before.SameSlots after where
  occupant := occupant?_steps hslot hsteps
  history method := by
    induction hsteps with
    | refl => rfl
    | tail _ hstep ih => exact (history_step hslot hstep method).trans ih
  nextEntry := by
    induction hsteps with
    | refl => rfl
    | tail _ hstep ih => exact (nextEntry_step hslot hstep).trans ih
  held := held_of_steps hslot hsteps

/-- A refused operation touches no slot. -/
theorem Refused.sameSlots (h : cache.Refused operation error after) : cache.SameSlots after := by
  -- the record there may be now says what was said without it
  have hrecord : ∀ method, cache.SameSlots (cache.ensureRecord method) :=
    fun method => (sameHoldings_ensureRecord cache method).sameSlots
  cases h with
  | untouched => exact (sameHoldings_refl _).sameSlots
  | noRoom | taken => exact ⟨(hrecord _).occupant, (hrecord _).history, rfl, fun hnew => ⟨_, hnew⟩⟩

/-! ## §3. Granted operations about a slot. -/

theorem Makes.note (h : cache.Makes blob after) (hnote : SameHoldings after last) :
    cache.Makes blob last := by
  obtain ⟨kind, region, hreserve, hafter⟩ := h.enters
  exact ⟨h.id, h.entry, h.entrant, kind, region, hreserve, hafter.trans hnote⟩

/-- A blob is made of what is dealt next, also if something was noted before. -/
theorem makes_of_makeBlob {noted : Cache} {artifact : Artifact} {candidates : List RegionKind}
    (hnoted : SameHoldings cache noted)
    (h : noted.makeBlob method artifact slot candidates = (.ok blob, after)) :
    (∃ placement, blob = cache.newBlob method slot artifact.level artifact.code placement)
      ∧ cache.Makes blob (after.enter blob) := by
  obtain ⟨kind, placement, region, metrics, hreserve, rfl, rfl⟩ := makeBlob_ok h
  have hblob : noted.newBlob method slot artifact.level artifact.code placement
      = cache.newBlob method slot artifact.level artifact.code placement := by
    unfold newBlob
    rw [hnoted.nextBlob, hnoted.nextEntry]
  rw [hnoted.regions, hnoted.nextBlob] at hreserve
  rw [hblob]
  refine ⟨⟨placement, rfl⟩, rfl, rfl, rfl, kind, region, hreserve, ?_⟩
  exact ((hnoted.lodge kind region _).enter _).trans ((sameHoldings_metrics _ metrics).enter _)

theorem install_ok {artifact : Artifact}
    (h : cache.install method artifact slot = (.ok id, after)) :
    ∃ placement, id = cache.nextBlob ∧ ¬ artifact.level < cache.level method slot
      ∧ cache.installAttempts method artifact.level slot = 1
      ∧ cache.Makes (cache.newBlob method slot artifact.level artifact.code placement) after := by
  rcases cache.install_cases method artifact slot with
    ⟨error, hinstall, -⟩ | ⟨-, hdown, hattempts, hmakes⟩
  · rw [hinstall] at h
    cases h
  rcases hmakes with ⟨error, left, -, hinstall⟩ | ⟨blob, made, hmake, hinstall⟩
  · rw [hinstall] at h
    cases h
  · rw [hinstall] at h
    cases h
    obtain ⟨⟨placement, rfl⟩, hmakes⟩ :=
      makes_of_makeBlob (sameHoldings_ensureRecord cache method) hmake
    refine ⟨placement, rfl, hdown, hattempts, hmakes.note ?_⟩
    -- a granted installation also takes the method off the queue and counts
    exact (sameHoldings_setQueued _ method false).trans (sameHoldings_metrics _ _)

theorem replace_ok {level : Option Level} {region : Option RegionKind}
    (h : cache.replace method slot level region = (.ok id, after)) :
    ∃ old placement, id = cache.nextBlob ∧ cache.entrant? method slot = some old
      ∧ cache.replaceAttempts method slot level = 1
      ∧ cache.Makes (cache.newBlob method slot (level.getD old.level) old.code placement) after := by
  rcases cache.replace_cases method slot level region with
    ⟨error, hreplace, -⟩ | ⟨old, hold, -, hattempts, hmakes⟩
  · rw [hreplace] at h
    cases h
  rcases hmakes with ⟨error, left, -, hreplace⟩ | ⟨blob, made, hmake, hreplace⟩
  · rw [hreplace] at h
    cases h
  · rw [hreplace] at h
    cases h
    obtain ⟨⟨placement, rfl⟩, hmakes⟩ := makes_of_makeBlob (sameHoldings_refl cache) hmake
    exact ⟨old, placement, rfl, hold, hattempts, hmakes.note (sameHoldings_metrics _ _)⟩

theorem deoptimize_ok (h : cache.deoptimize method slot = (.ok id, after)) :
    (cache.status method).occupant? slot = some id
      ∧ SameHoldings (cache.vacate method slot) after := by
  unfold deoptimize at h
  split at h
  · cases h
  · next occupant hoccupant =>
    cases h
    refine ⟨hoccupant, ?_⟩
    unfold vacate closeOccupant
    rw [hoccupant]
    exact ⟨rfl, rfl, rfl, rfl, rfl, rfl, fun _ _ => rfl, fun _ => rfl, fun _ h => h⟩

/-- A blob that is made is held as it was made: who leaves the slot for it is another. -/
theorem Makes.held (h : cache.Makes blob after) (hsound : cache.Sound made)
    (hroom : made + 1 < UInt64.size) : after.held? blob.id = some blob := by
  obtain ⟨kind, region, -, hafter⟩ := h.enters
  rw [hafter.held?, held?_enter, held?_lodge, if_pos rfl, if_neg]
  intro hin
  obtain ⟨old, hold, -⟩ := hsound.slots.occupant hin
  have hfresh := hsound.handles.fresh (by omega)
  rw [← h.id] at hfresh
  cases hfresh.symm.trans (held?_of_registered hold)

/-- A blob that is taken out of its slot is held, closed. -/
theorem held_vacate (hsound : cache.Sound made)
    (hoccupant : (cache.status method).occupant? slot = some id)
    (hafter : SameHoldings (cache.vacate method slot) after) :
    ∃ blob, after.held? id = some blob ∧ blob.id = id ∧ blob.method = method ∧ blob.slot = slot := by
  obtain ⟨old, hold, hmethod, hslot⟩ := hsound.slots.occupant hoccupant
  have hid : old.id = id := hsound.filed.registered hold
  refine ⟨old.close, ?_, hid, hmethod, hslot⟩
  rw [hafter.held?, held?_vacate, if_pos hoccupant, held?_of_registered hold]
  rfl

/-! ## §4. Every operation. -/

/-- Only an operation about a slot tells of a blob. -/
theorem told_of_slot (hslot : operation.slot? = none) (id : BlobId) :
    (cache.perform operation).1 ≠ .blob id := by
  have hattempt : ∀ {α : Type} {tell : α → Outcome} {attempt : Attempt α},
      (∀ value, tell value ≠ .blob id) → (Outcome.ofAttempt tell attempt).1 ≠ .blob id := by
    rintro α tell ⟨outcome | outcome, last⟩ htell
    · exact nofun
    · exact htell outcome
  cases operation with
  | install | replace | deoptimize => cases hslot
  | move | collect | reserveIn | releaseIn | transfer | transferHeld =>
    exact hattempt fun _ => nofun
  | handle report =>
    cases report with
    | finished => cases hslot
    | gaveUp => exact nofun
  | _ => exact nofun

theorem deed?_eq_none (htold : ∀ id, (cache.perform operation).1 ≠ .blob id) :
    cache.deed? operation = none := by
  unfold deed?
  split
  · next id after heq => exact absurd (congrArg Prod.fst heq) (htold id)
  · rfl

theorem deed?_eq_some (hperform : cache.perform operation = (.blob id, after))
    (hheld : after.held? id = some blob) : cache.deed? operation = some (operation.deed blob) := by
  unfold deed?
  rw [hperform]
  exact congrArg (Option.map _) hheld

/-- An operation that tells of no blob does nothing to the slots. -/
theorem does_nothing (htold : ∀ id, (cache.perform operation).1 ≠ .blob id)
    (hslots : cache.SameSlots (cache.perform operation).2) :
    Does operation cache (cache.deed? operation) (cache.perform operation).1
      (cache.perform operation).2 := by
  rw [deed?_eq_none htold]
  exact .nothing htold hslots

theorem does_of_refused (hpass : operation.isPass = false)
    (hperform : cache.perform operation = (.refused error, after)) :
    Does operation cache (cache.deed? operation) (cache.perform operation).1
      (cache.perform operation).2 := by
  refine does_nothing ?_ ?_
  · rw [hperform]
    exact nofun
  · rw [hperform]
    exact (refused_of_perform hpass hperform).sameSlots

/-- A granted installation, direct or reported. -/
theorem does_of_install {artifact : Artifact} (h : cache.Sound made)
    (hroom : made + cache.attempts operation < UInt64.size)
    (hasked : operation.installs? = some (method, artifact, slot))
    (hattempts : cache.attempts operation = cache.installAttempts method artifact.level slot)
    (hdeed : operation.deed = .installed)
    (hinstall : cache.install method artifact slot = (.ok id, after))
    (hperform : cache.perform operation = (.blob id, after)) :
    Does operation cache (cache.deed? operation) (cache.perform operation).1
      (cache.perform operation).2 := by
  obtain ⟨placement, rfl, hlevel, hattempt, hmakes⟩ := install_ok hinstall
  rw [hattempts, hattempt] at hroom
  rw [deed?_eq_some hperform (hmakes.held h hroom), hperform, hdeed]
  exact .installed hasked hlevel (hattempts.trans hattempt) hmakes

/-- **Every operation of a cache in order does one of these**, granted or refused. -/
theorem perform_does (h : cache.Sound made)
    (hroom : made + cache.attempts operation < UInt64.size) :
    Does operation cache (cache.deed? operation) (cache.perform operation).1
      (cache.perform operation).2 := by
  cases hslot : operation.slot? with
  | none =>
    exact does_nothing (told_of_slot hslot) (sameSlots_steps hslot (perform_steps h.filed operation))
  | some place =>
    cases operation with
    | install method artifact slot =>
      rcases hinstall : cache.install method artifact slot with ⟨error | id, after⟩
      · exact does_of_refused rfl (by rw [perform, hinstall]; rfl)
      · exact does_of_install h hroom rfl rfl rfl hinstall (by rw [perform, hinstall]; rfl)
    | replace method slot level region =>
      rcases hreplace : cache.replace method slot level region with ⟨error | id, after⟩
      · exact does_of_refused rfl (by rw [perform, hreplace]; rfl)
      · have hperform : cache.perform (.replace method slot level region) = (.blob id, after) := by
          rw [perform, hreplace]
          rfl
        obtain ⟨old, placement, rfl, hold, hattempts, hmakes⟩ := replace_ok hreplace
        have hroom : made + 1 < UInt64.size := hattempts ▸ hroom
        rw [deed?_eq_some hperform (hmakes.held h hroom), hperform]
        exact .replaced rfl hold rfl rfl hattempts hmakes
    | deoptimize method slot =>
      rcases hdeoptimize : cache.deoptimize method slot with ⟨error | id, after⟩
      · exact does_of_refused rfl (by rw [perform, hdeoptimize]; rfl)
      · have hperform : cache.perform (.deoptimize method slot) = (.blob id, after) := by
          rw [perform, hdeoptimize]
          rfl
        obtain ⟨hoccupant, hafter⟩ := deoptimize_ok hdeoptimize
        obtain ⟨blob, hheld, rfl, rfl, rfl⟩ := held_vacate h hoccupant hafter
        rw [deed?_eq_some hperform hheld, hperform]
        exact .emptied rfl hoccupant hafter
    | handle report =>
      cases report with
      | gaveUp => cases hslot
      | finished method artifact slot =>
        rcases hinstall : cache.install method artifact slot with ⟨error | id, after⟩
        · -- the installation is refused, and the compilation counts as failed
          refine does_nothing ?_ ?_
          · rw [perform_handle_of_refused hinstall]
            rintro id ⟨⟩
          · rw [perform_handle_of_refused hinstall]
            have hrefused : cache.Refused (.install method artifact slot) error after :=
              refused_of_install rfl rfl hinstall
            exact hrefused.sameSlots.trans (sameHoldings_compileFailed after method).sameSlots
        · exact does_of_install h hroom rfl rfl rfl hinstall (by rw [perform, handle, hinstall])
    | _ => cases hslot

/-! ## §5. Whole sessions. -/

theorem Does.makes {deed : Option Deed} {outcome : Outcome}
    (h : Does operation before deed outcome after) (hmade : deed.bind Deed.made? = some blob) :
    before.Makes blob after ∧ before.attempts operation = 1 := by
  cases h with
  | installed _ _ hattempts hmakes | replaced _ _ _ _ hattempts hmakes =>
    cases hmade
    exact ⟨hmakes, hattempts⟩
  | emptied | nothing => cases hmade

theorem Does.sameSlots {outcome : Outcome} (h : Does operation before none outcome after) :
    before.SameSlots after := by
  cases h with
  | nothing _ hslots => exact hslots

/-- Whoever is held afterwards was held before, or has just been made. -/
theorem Does.held {deed : Option Deed} {outcome : Outcome} {new : Blob}
    (h : Does operation before deed outcome after) (hnew : after.held? id = some new) :
    (∃ old, before.held? id = some old) ∨ ∃ blob, deed.bind Deed.made? = some blob ∧ blob.id = id := by
  have hmakes : ∀ {blob}, before.Makes blob after →
      (∃ old, before.held? id = some old) ∨ blob.id = id := by
    intro blob hmakes
    obtain ⟨kind, region, -, hafter⟩ := hmakes.enters
    rw [hafter.held?, held?_enter] at hnew
    obtain ⟨old, hold, -⟩ := exists_of_ite_map hnew
    rw [held?_lodge] at hold
    split at hold
    · next heq => exact .inr heq
    · exact .inl ⟨old, hold⟩
  cases h with
  | installed _ _ _ hmade | replaced _ _ _ _ _ hmade =>
    exact (hmakes hmade).imp_right fun hid => ⟨_, rfl, hid⟩
  | emptied _ _ hafter =>
    rw [hafter.held?, held?_vacate] at hnew
    obtain ⟨old, hold, -⟩ := exists_of_ite_map hnew
    exact .inl ⟨old, hold⟩
  | nothing _ hslots => exact .inl (hslots.held hnew)

theorem blobsMade_concat (start : Cache) (operations : List Operation) (last : Operation) :
    start.blobsMade (operations ++ [last])
      = start.blobsMade operations
        ++ (((start.after operations).deed? last).bind Deed.made?).toList := by
  unfold blobsMade
  rw [deeds_concat, List.filterMap_append]
  congr 1
  cases (start.after operations).deed? last with
  | none => rfl
  | some deed =>
    show [deed].filterMap Deed.made? = deed.made?.toList
    cases hmade : deed.made? <;> simp [hmade]

section Sessions

variable {settings : Settings} {start : Cache} {operations earlier later : List Operation}

/-- Before each operation of a session the cache is in order, and handles are left for it. -/
theorem sound_before (hnew : Cache.new settings = .ok start)
    (hroom : start.attemptsIn (earlier ++ operation :: later) < UInt64.size) :
    start.attemptsIn earlier < UInt64.size
      ∧ (start.after earlier).Sound (start.attemptsIn earlier)
      ∧ start.attemptsIn earlier + (start.after earlier).attempts operation < UInt64.size := by
  rw [attemptsIn_append, attemptsIn] at hroom
  have hearlier : start.attemptsIn earlier < UInt64.size := by omega
  exact ⟨hearlier, sound_after hnew hearlier, by omega⟩

/-- Whoever was made is held from then on, with the code he was made of. -/
theorem held_of_made (hnew : Cache.new settings = .ok start)
    (hroom : start.attemptsIn operations < UInt64.size) (hmade : blob ∈ start.blobsMade operations) :
    ∃ now, (start.after operations).held? blob.id = some now ∧ blob.SameCode now := by
  induction operations using List.reverseRecOn with
  | nil => cases hmade
  | append_singleton operations last ih =>
    obtain ⟨hearlier, hsound, hnow⟩ := sound_before hnew hroom
    rw [blobsMade_concat, List.mem_append, Option.mem_toList] at hmade
    rw [after_concat]
    rcases hmade with hbefore | hjust
    · obtain ⟨old, hold, hsame⟩ := ih hearlier hbefore
      rw [← hsame.id] at hold ⊢
      obtain ⟨now, hget, hfollows⟩ := follows_perform hsound hnow hold
      exact ⟨now, hget, hsame.trans hfollows.code⟩
    · obtain ⟨hmakes, hattempts⟩ := (perform_does hsound hnow).makes hjust
      exact ⟨blob, hmakes.held hsound (hattempts ▸ hnow), .refl blob⟩

/-- Handles ascend in the order in which blobs are made. -/
theorem ascending_blobsMade (hnew : Cache.new settings = .ok start)
    (hroom : start.attemptsIn operations < UInt64.size) :
    (start.blobsMade operations).Pairwise fun first second =>
      first.id.number.toNat < second.id.number.toNat := by
  induction operations using List.reverseRecOn with
  | nil => exact .nil
  | append_singleton operations last ih =>
    obtain ⟨hearlier, hsound, hnow⟩ := sound_before hnew hroom
    rw [blobsMade_concat]
    refine List.pairwise_append.mpr ⟨ih hearlier, ?_, ?_⟩
    · cases ((start.after operations).deed? last).bind Deed.made? with
      | none => exact .nil
      | some blob => exact List.pairwise_singleton _ _
    · intro first hfirst second hsecond
      obtain ⟨hmakes, hattempts⟩ := (perform_does hsound hnow).makes (Option.mem_toList.mp hsecond)
      -- whoever was made before has the handle of one of the attempts before
      obtain ⟨now, hheld, -⟩ := held_of_made hnew hearlier hfirst
      have hdealt := (hsound.handles.dealt hheld).2
      rw [hattempts] at hnow
      rw [hmakes.id, hsound.handles.next, Nat.mod_eq_of_lt hnow]
      exact Nat.lt_succ_of_le hdealt

/-- Whoever is held was made, of the code he has now. -/
theorem made_of_held (hnew : Cache.new settings = .ok start)
    (hroom : start.attemptsIn operations < UInt64.size) {now : Blob}
    (hheld : (start.after operations).held? id = some now) :
    ∃ blob ∈ start.blobsMade operations, blob.SameCode now := by
  induction operations using List.reverseRecOn generalizing now with
  | nil =>
    rw [eq_of_new hnew] at hheld
    cases hheld
  | append_singleton operations last ih =>
    obtain ⟨hearlier, hsound, hnow⟩ := sound_before hnew hroom
    have hdoes := perform_does hsound hnow
    rw [after_concat] at hheld
    rw [blobsMade_concat]
    rcases hdoes.held hheld with ⟨old, hold⟩ | ⟨blob, hjust, rfl⟩
    · obtain rfl := hsound.filed.held hold
      obtain ⟨found, hfound, hfollows⟩ := follows_perform hsound hnow hold
      obtain rfl := Option.some.inj (hfound.symm.trans hheld)
      obtain ⟨blob, hmem, hsame⟩ := ih hearlier hold
      exact ⟨blob, List.mem_append_left _ hmem, hsame.trans hfollows.code⟩
    · obtain ⟨hmakes, hattempts⟩ := hdoes.makes hjust
      obtain rfl := Option.some.inj ((hmakes.held hsound (hattempts ▸ hnow)).symm.trans hheld)
      exact ⟨blob, List.mem_append_right _ (Option.mem_toList.mpr hjust), .refl blob⟩

end Sessions

end Cache

end JitCache
