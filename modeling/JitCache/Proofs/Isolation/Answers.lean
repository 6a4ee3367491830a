/-
  JitCache.Proofs.Isolation.Answers
  ─────────────────────────────────
  **A method on its own, and that caches treat methods so.**

  `MethodView.answer` says what becomes of a method's view, and what the caller
  learns, if all that is known of the rest of the cache is whether there is
  room.  Every cache in order follows it.  What has to be seen for that is that
  each check made before room is looked for is one on the view, that a refusal
  after it is one for want of room, and that what is then made of the view is
  what the deed and the event say.

  Main statement:
    `Consistent.answer` — an operation against the method on its own
-/
import JitCache.Proofs.Collection.Reclaiming
import JitCache.Proofs.Isolation.View

namespace JitCache

/-! ## §1. A method on its own. -/

/-- What the caller of an operation learns, with handles and regions left out. -/
inductive Reply where
  /-- It is done. -/
  | granted
  /-- A report that led to no blob. -/
  | noBlob
  /-- Whether the invocation queued the method. -/
  | counted (queued : Bool)
  /-- No region that was asked had room. -/
  | noRoom
  /-- It was refused for another reason. -/
  | refused (error : CacheError)
  deriving DecidableEq

/-- The reply that an outcome comes to. -/
def Outcome.reply : Outcome → Reply
  | .noBlob => .noBlob
  | .counted queued => .counted queued
  | .refused (.regionFull ..) => .noRoom
  | .refused error => .refused error
  | .done | .blob _ | .collected _ | .placed _ => .granted

namespace MethodView

/-- The level of a slot. -/
def level (view : MethodView) (slot : Slot) : Level :=
  ((view.code slot).map Artifact.level).getD .interpreted

/-- Installs an artifact, if there is room for it. -/
def install (view : MethodView) (method : MethodId) (room : Bool) (artifact : Artifact)
    (slot : Slot) : Reply × MethodView :=
  if artifact.level = .interpreted then (.refused (.uncompiledLevel artifact.level), view)
  else if artifact.level < view.level slot then
    (.refused (.downgrade method slot (view.level slot) artifact.level), view)
  else if room then (.granted, { view.enter slot artifact with queued := false })
  else (.noRoom, view)

/-- Makes the code of a slot again, if there is room for it. -/
def replace (view : MethodView) (method : MethodId) (room : Bool) (slot : Slot)
    (level : Option Level) : Reply × MethodView :=
  match view.code slot with
  | none => (.refused (.noEntrantBlob method slot), view)
  | some old =>
    let level := level.getD old.level
    if level = .interpreted then (.refused (.uncompiledLevel level), view)
    else if room then (.granted, view.enter slot ⟨level, old.code⟩)
    else (.noRoom, view)

/-- Empties a slot. -/
def deoptimize (view : MethodView) (method : MethodId) (slot : Slot) : Reply × MethodView :=
  match view.code slot with
  | none => (.refused (.noEntrantBlob method slot), view)
  | some _ =>
    (.granted,
      { view.empty slot with
        invocations := if slot = .standard then 0 else view.invocations })

/-- Whether the next invocation queues the method. -/
def triggers (view : MethodView) (threshold : UInt64) : Bool :=
  let next := view.invocations + 1
  -- at the largest word the number of the invocation stays there
  !(if next = 0 then view.invocations else next) < threshold
    && !view.queued && (view.code .standard).isNone

/-- Counts an invocation. -/
def invoke (view : MethodView) (threshold : UInt64) : Reply × MethodView :=
  (.counted (view.triggers threshold),
    { view with
      invocations := view.invocations + 1
      queued := view.queued || view.triggers threshold })

/-- Installs finished code that was reported; either way the wait is over. -/
def finish (view : MethodView) (method : MethodId) (room : Bool) (artifact : Artifact)
    (slot : Slot) : Reply × MethodView :=
  match view.install method room artifact slot with
  | (.granted, view) => (.granted, view)
  | (_, view) => (.noBlob, { view with queued := false })

/-- What an operation that is addressed to the method does to its view, and what the caller learns,
given whether there is room if it asks for any. -/
def answer (view : MethodView) (method : MethodId) (threshold : UInt64) (room : Bool) :
    Operation → Reply × MethodView
  | .install _ artifact slot => view.install method room artifact slot
  | .replace _ slot level _ => view.replace method room slot level
  | .deoptimize _ slot => view.deoptimize method slot
  | .queue _ => (.granted, { view with queued := true })
  | .compileFailed _ => (.granted, { view with queued := false })
  | .invoke _ => view.invoke threshold
  | .handle (.gaveUp ..) => (.noBlob, { view with queued := false })
  | .handle (.finished _ artifact slot) => view.finish method room artifact slot
  | _ => (.granted, view)

end MethodView

/-- Room that is as an operation has found it, if it has looked for any. -/
def Fits (found : Option Bool) (room : Bool) : Prop := ∀ there, found = some there → there = room

namespace Cache

/-- Whether an operation found room, if it asked for any. -/
def foundRoom? (cache : Cache) (operation : Operation) : Option Bool :=
  if cache.attempts operation = 0 then none
  else
    match (cache.perform operation).1 with
    | .blob _ => some true
    | _ => some false

variable {cache after : Cache} {operation : Operation} {method : MethodId} {slot : Slot}
  {artifact : Artifact} {id : BlobId} {error : CacheError} {room : Bool} {made : Nat}

/-! ## §2. Filling and emptying slots. -/

theorem level_view (cache : Cache) (method : MethodId) (slot : Slot) :
    (cache.view method).level slot = cache.level method slot := by
  show (((cache.entrant? method slot).map Blob.artifact).map Artifact.level).getD .interpreted = _
  rw [Option.map_map]
  rfl

/-- A consistent cache refuses an attempt only for want of room: no region knows a handle that has
not been dealt yet. -/
theorem Consistent.noRoom_of_refused (h : cache.Consistent made)
    (hrefused : cache.Refused operation error after) (hattempts : cache.attempts operation = 1)
    (hroom : made + 1 < UInt64.size) :
    (Outcome.refused error).reply = .noRoom := by
  cases hrefused with
  | untouched hnone => exact absurd (hnone.symm.trans hattempts) (by decide)
  | noRoom _ _ herror =>
    rw [herror]
    rfl
  | taken _ _ hresident =>
    obtain ⟨resident, hlisted⟩ := Table.contains_iff.mp hresident
    obtain ⟨blob, hblob, -⟩ := h.booked.registered_of_resident hlisted
    cases (h.sound.handles.fresh (by omega)).symm.trans (held?_of_registered hblob)

/-- A granted installation was neither uncompiled nor a downgrade. -/
theorem install_of_ok (hinstall : cache.install method artifact slot = (.ok id, after)) :
    (cache.view method).install method true artifact slot
      = (.granted, { (cache.view method).enter slot artifact with queued := false }) := by
  obtain ⟨-, -, hdown, hattempts, -⟩ := install_ok hinstall
  unfold installAttempts at hattempts
  split at hattempts
  · cases hattempts
  next hlevel =>
  unfold MethodView.install
  rw [if_neg fun hnone => hlevel (.inl hnone), level_view, if_neg hdown, if_pos rfl]

/-- A refused one was, or found no room. -/
theorem Consistent.install_of_error (h : cache.Consistent made)
    (hroom : made + cache.installAttempts method artifact.level slot < UInt64.size)
    (hfound : cache.installAttempts method artifact.level slot = 1 → room = false)
    (hinstall : cache.install method artifact slot = (.error error, after)) :
    (cache.view method).install method room artifact slot
      = ((Outcome.refused error).reply, cache.view method) := by
  by_cases hattempts : cache.installAttempts method artifact.level slot = 1
  · have hrefused : cache.Refused (.install method artifact slot) error after :=
      refused_of_install rfl rfl hinstall
    rw [h.noRoom_of_refused hrefused hattempts (hattempts ▸ hroom), hfound hattempts]
    unfold installAttempts at hattempts
    split at hattempts
    · cases hattempts
    next hasks =>
    unfold MethodView.install
    rw [if_neg fun hlevel => hasks (.inl hlevel), level_view, if_neg fun hdown => hasks (.inr hdown),
      if_neg Bool.false_ne_true]
  · -- no room was asked for: one of the two checks has failed
    unfold installAttempts at hattempts
    unfold install at hinstall
    unfold MethodView.install
    rw [level_view]
    simp only [level_ensureRecord] at hinstall
    by_cases hlevel : artifact.level = .interpreted
    · rw [if_pos hlevel] at hinstall ⊢
      cases hinstall
      rfl
    by_cases hdown : artifact.level < cache.level method slot
    · rw [if_neg hlevel, if_pos hdown] at hinstall ⊢
      cases hinstall
      rfl
    exact absurd (if_neg fun hor => hor.elim hlevel hdown) hattempts

theorem replace_of_ok {level : Option Level} {region : Option RegionKind}
    (hreplace : cache.replace method slot level region = (.ok id, after)) :
    ∃ old, cache.entrant? method slot = some old
      ∧ (cache.view method).replace method true slot level
        = (.granted, (cache.view method).enter slot ⟨level.getD old.level, old.code⟩) := by
  obtain ⟨old, -, -, hold, hattempts, -⟩ := replace_ok hreplace
  unfold replaceAttempts at hattempts
  rw [hold] at hattempts
  simp only at hattempts
  split at hattempts
  · cases hattempts
  next hlevel =>
  refine ⟨old, hold, ?_⟩
  unfold MethodView.replace
  rw [code_view hold]
  show (if level.getD old.level = .interpreted then _ else _) = _
  rw [if_neg hlevel, if_pos rfl]
  rfl

theorem Consistent.replace_of_error {level : Option Level} {region : Option RegionKind}
    (h : cache.Consistent made)
    (hroom : made + cache.replaceAttempts method slot level < UInt64.size)
    (hfound : cache.replaceAttempts method slot level = 1 → room = false)
    (hreplace : cache.replace method slot level region = (.error error, after)) :
    (cache.view method).replace method room slot level
      = ((Outcome.refused error).reply, cache.view method) := by
  have hrefused : cache.Refused (.replace method slot level region) error after :=
    refused_of_replace rfl rfl hreplace
  unfold MethodView.replace
  cases hold : cache.entrant? method slot with
  | none =>
    unfold replace entrant at hreplace
    simp only [hold] at hreplace
    cases hreplace
    rw [code_view_of_none hold]
    rfl
  | some old =>
    rw [code_view hold]
    show (if level.getD old.level = .interpreted then _ else _) = _
    by_cases hlevel : level.getD old.level = .interpreted
    · unfold replace entrant at hreplace
      simp only [hold] at hreplace
      rw [if_pos hlevel] at hreplace ⊢
      cases hreplace
      rfl
    · have hattempts : cache.replaceAttempts method slot level = 1 := by
        unfold replaceAttempts
        rw [hold]
        exact if_neg hlevel
      rw [h.noRoom_of_refused hrefused hattempts (hattempts ▸ hroom), hfound hattempts, if_neg hlevel,
        if_neg Bool.false_ne_true]

theorem Sound.deoptimize_of_ok (h : cache.Sound made)
    (hdeoptimize : cache.deoptimize method slot = (.ok id, after)) :
    (cache.view method).deoptimize method slot
      = (.granted, { (cache.view method).empty slot with
          invocations := if slot = .standard then 0 else cache.invocations.count method }) := by
  obtain ⟨hin, -⟩ := deoptimize_ok hdeoptimize
  obtain ⟨blob, hblob, -⟩ := h.exists_entrant hin
  unfold MethodView.deoptimize
  rw [code_view hblob]
  rfl

/-- It is refused just if calls of the slot enter nothing. -/
theorem deoptimize_of_error (hdeoptimize : cache.deoptimize method slot = (.error error, after)) :
    (cache.view method).deoptimize method slot
      = ((Outcome.refused error).reply, cache.view method) := by
  unfold deoptimize at hdeoptimize
  split at hdeoptimize
  · next hempty =>
    cases hdeoptimize
    unfold MethodView.deoptimize
    rw [code_view_of_none (entrant?_of_empty hempty)]
    rfl
  · cases hdeoptimize

/-! ## §3. One operation. -/

theorem room_of_blob (hfits : Fits (cache.foundRoom? operation) room)
    (hattempts : cache.attempts operation = 1) (htold : (cache.perform operation).1 = .blob id) :
    room = true := by
  refine (hfits true ?_).symm
  unfold foundRoom?
  rw [hattempts, htold]
  rfl

theorem room_of_noted (hfits : Fits (cache.foundRoom? operation) room)
    (htold : ∀ id, (cache.perform operation).1 ≠ .blob id)
    (hattempts : cache.attempts operation = 1) : room = false := by
  refine (hfits false ?_).symm
  unfold foundRoom?
  rw [hattempts, if_neg Nat.one_ne_zero]
  split
  · next id heq => exact absurd heq (htold id)
  · rfl

/-- A refused installation leaves the view alone, a granted one fills the slot and ends the wait. -/
theorem Consistent.answer_install (h : cache.Consistent made)
    (hroom : made + cache.attempts (.install method artifact slot) < UInt64.size)
    (hfits : Fits (cache.foundRoom? (.install method artifact slot)) room) :
    (cache.view method).install method room artifact slot
      = ((cache.perform (.install method artifact slot)).1.reply,
          (cache.perform (.install method artifact slot)).2.view method) := by
  rcases hinstall : cache.install method artifact slot with ⟨error | id, after⟩
  · have hperform : cache.perform (.install method artifact slot) = (.refused error, after) := by
      rw [perform, hinstall]
      rfl
    have htold : ∀ id, (cache.perform (.install method artifact slot)).1 ≠ .blob id := by
      simp [hperform]
    rw [h.install_of_error hroom (room_of_noted hfits htold) hinstall,
      h.sound.view_of_noted hroom htold, event, hperform]
    rfl
  · have htold : (cache.perform (.install method artifact slot)).1 = .blob id := by
      rw [perform, hinstall]
      rfl
    obtain ⟨-, -, -, hattempts, -⟩ := install_ok hinstall
    obtain rfl := room_of_blob hfits hattempts htold
    have hsettles : Event.settles method ⟨.install method artifact slot, .blob id⟩ = true := by
      simp [Event.settles]
    rw [install_of_ok hinstall, h.sound.view_of_install hroom rfl htold, event, htold,
      MethodView.follow, if_pos hsettles]
    rfl

theorem Consistent.answer_replace {level : Option Level} {region : Option RegionKind}
    (h : cache.Consistent made)
    (hroom : made + cache.attempts (.replace method slot level region) < UInt64.size)
    (hfits : Fits (cache.foundRoom? (.replace method slot level region)) room) :
    (cache.view method).replace method room slot level
      = ((cache.perform (.replace method slot level region)).1.reply,
          (cache.perform (.replace method slot level region)).2.view method) := by
  rcases hreplace : cache.replace method slot level region with ⟨error | id, after⟩
  · have hperform : cache.perform (.replace method slot level region) = (.refused error, after) := by
      rw [perform, hreplace]
      rfl
    have htold : ∀ id, (cache.perform (.replace method slot level region)).1 ≠ .blob id := by
      simp [hperform]
    rw [h.replace_of_error hroom (room_of_noted hfits htold) hreplace,
      h.sound.view_of_noted hroom htold, event, hperform]
    rfl
  · have htold : (cache.perform (.replace method slot level region)).1 = .blob id := by
      rw [perform, hreplace]
      rfl
    obtain ⟨-, -, -, -, hattempts, -⟩ := replace_ok hreplace
    obtain rfl := room_of_blob hfits hattempts htold
    obtain ⟨old, hold, hgranted⟩ := replace_of_ok hreplace
    rw [hgranted, h.sound.view_of_replace hroom rfl hold htold, event, htold]
    rfl

theorem Sound.answer_deoptimize (h : cache.Sound made)
    (hroom : made + cache.attempts (.deoptimize method slot) < UInt64.size) :
    (cache.view method).deoptimize method slot
      = ((cache.perform (.deoptimize method slot)).1.reply,
          (cache.perform (.deoptimize method slot)).2.view method) := by
  rcases hdeoptimize : cache.deoptimize method slot with ⟨error | id, after⟩
  · have hperform : cache.perform (.deoptimize method slot) = (.refused error, after) := by
      rw [perform, hdeoptimize]
      rfl
    have hsame : after = cache := deoptimize_error hdeoptimize
    rw [deoptimize_of_error hdeoptimize, hperform, hsame]
  · have htold : (cache.perform (.deoptimize method slot)).1 = .blob id := by
      rw [perform, hdeoptimize]
      rfl
    rw [h.deoptimize_of_ok hdeoptimize, h.view_of_deoptimize hroom rfl htold, event, htold]
    -- only the standard slot has the count start over
    cases slot with
    | standard =>
      have hrestarts : Event.restarts method ⟨.deoptimize method .standard, .blob id⟩ = true := by
        simp [Event.restarts]
      rw [MethodView.follow, if_pos hrestarts]
      rfl
    | osr => rfl

/-- A report ends the wait, whatever comes of the installation. -/
theorem Consistent.answer_finished (h : cache.Consistent made)
    (hroom : made + cache.attempts (.handle (.finished method artifact slot)) < UInt64.size)
    (hfits : Fits (cache.foundRoom? (.handle (.finished method artifact slot))) room) :
    (cache.view method).finish method room artifact slot
      = ((cache.perform (.handle (.finished method artifact slot))).1.reply,
          (cache.perform (.handle (.finished method artifact slot))).2.view method) := by
  have hsettles : ∀ outcome,
      Event.settles method ⟨.handle (.finished method artifact slot), outcome⟩ = true := by
    intro outcome
    simp [Event.settles, CompilerReport.method]
  unfold MethodView.finish
  rcases hinstall : cache.install method artifact slot with ⟨error | id, after⟩
  · have hperform := perform_handle_of_refused hinstall
    have htold : ∀ id, (cache.perform (.handle (.finished method artifact slot))).1 ≠ .blob id := by
      simp [hperform]
    rw [h.install_of_error hroom (room_of_noted hfits htold) hinstall,
      h.sound.view_of_noted hroom htold, event, hperform, MethodView.follow, if_pos (hsettles _)]
    cases error <;> rfl
  · have htold : (cache.perform (.handle (.finished method artifact slot))).1 = .blob id := by
      rw [perform, handle, hinstall]
    obtain ⟨-, -, -, hattempts, -⟩ := install_ok hinstall
    obtain rfl := room_of_blob hfits hattempts htold
    rw [install_of_ok hinstall, h.sound.view_of_install hroom rfl htold, event, htold,
      MethodView.follow, if_pos (hsettles _)]
    rfl

/-- What an invocation answers can be read off the view. -/
theorem triggers_view (cache : Cache) (method : MethodId) :
    (cache.view method).triggers cache.settings.compileThreshold = (cache.invoke method).1 := by
  rw [Bool.eq_iff_iff, invoke_eq_true_iff]
  show (!decide (cache.invocations.ordinal method < cache.settings.compileThreshold)
      && !(cache.status method).queued
      && ((cache.entrant? method .standard).map Blob.artifact).isNone) = true
    ↔ _ ∧ _ ∧ (cache.entrant? method .standard).isSome = false
  simp [and_assoc]

theorem Sound.answer_invoke (h : cache.Sound made)
    (hroom : made + cache.attempts (.invoke method) < UInt64.size) :
    (cache.view method).invoke cache.settings.compileThreshold
      = ((cache.perform (.invoke method)).1.reply,
          (cache.perform (.invoke method)).2.view method) := by
  have hevent : cache.event (.invoke method) = ⟨.invoke method, .counted (cache.invoke method).1⟩ :=
    rfl
  unfold MethodView.invoke
  rw [h.view_of_noted hroom (by simp [perform]), triggers_view, hevent]
  show (Reply.counted (cache.invoke method).1, _) = (Reply.counted (cache.invoke method).1, _)
  cases (cache.invoke method).1 <;>
    simp [MethodView.follow, Event.settles, Event.queues, Event.restarts, Event.invokes]

/-- **An operation that is addressed to a method is answered as if the method were on its own**, but
for whether there is room. -/
theorem Consistent.answer (h : cache.Consistent made)
    (hroom : made + cache.attempts operation < UInt64.size)
    (haddressed : operation.method? = some method)
    (hfits : Fits (cache.foundRoom? operation) room) :
    (cache.view method).answer method cache.settings.compileThreshold room operation
      = ((cache.perform operation).1.reply, (cache.perform operation).2.view method) := by
  cases operation with
  | install other artifact slot =>
    cases haddressed
    exact h.answer_install hroom hfits
  | replace other slot level region =>
    cases haddressed
    exact h.answer_replace hroom hfits
  | deoptimize other slot =>
    cases haddressed
    exact h.sound.answer_deoptimize hroom
  | queue other =>
    cases haddressed
    have hqueues : Event.queues method ⟨.queue method, .done⟩ = true := by simp [Event.queues]
    rw [h.sound.view_of_noted hroom (by simp [perform]), event, perform, MethodView.follow,
      if_pos hqueues]
    rfl
  | compileFailed other =>
    cases haddressed
    have hsettles : Event.settles method ⟨.compileFailed method, .done⟩ = true := by
      simp [Event.settles]
    rw [h.sound.view_of_noted hroom (by simp [perform]), event, perform, MethodView.follow,
      if_pos hsettles]
    rfl
  | invoke other =>
    cases haddressed
    exact h.sound.answer_invoke hroom
  | handle report =>
    cases report with
    | finished other artifact slot =>
      cases haddressed
      exact h.answer_finished hroom hfits
    | gaveUp other reason =>
      obtain rfl : other = method := Option.some.inj haddressed
      have hsettles : Event.settles other ⟨.handle (.gaveUp other reason), .noBlob⟩ = true := by
        simp [Event.settles, CompilerReport.method]
      rw [h.sound.view_of_noted hroom (by simp [perform, handle]), event]
      show _ = (Reply.noBlob,
        (cache.view other).follow other ⟨.handle (.gaveUp other reason), .noBlob⟩)
      rw [MethodView.follow, if_pos hsettles]
      rfl
  | _ => cases haddressed

end Cache

end JitCache
