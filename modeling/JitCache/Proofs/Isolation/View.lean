/-
  JitCache.Proofs.Isolation.View
  ──────────────────────────────
  **What is visible of one method, and which operations change it.**

  A method's view leaves out every handle, address and place: it is its flag,
  its count, the code that calls of its slots enter, and the levels and slots
  of its history.  It changes by the deed that is done to the method, and by
  what the event does to flag and count.  Both are the doing of operations that
  are addressed to the method.  All others, moves of its own blobs and
  collection passes included, leave the view as it is.

  Main statements:
    `Sound.view_of_deed`, `Sound.view_of_spared` — the view after an operation
    `Sound.view_of_other` — operations that are addressed elsewhere
-/
import JitCache.Proofs.History
import JitCache.Proofs.Session.Events
import Mathlib.Logic.Function.Basic

namespace JitCache

/-! ## §1. Views. -/

/-- What is visible of a method, with handles, addresses and places left out. -/
@[ext] structure MethodView where
  queued : Bool := false
  /-- The level and the bytes of what calls of a slot enter. -/
  code : Slot → Option Artifact := fun _ => none
  invocations : UInt64 := 0
  /-- The level and the slot of every installation, oldest first. -/
  history : List (Level × Slot) := []

/-- What a blob was made of. -/
def Blob.artifact (blob : Blob) : Artifact := ⟨blob.level, blob.code⟩

/-- What is visible of a method. -/
def Cache.view (cache : Cache) (method : MethodId) : MethodView where
  queued := (cache.status method).queued
  code slot := (cache.entrant? method slot).map Blob.artifact
  invocations := cache.invocations.count method
  history := (cache.status method).history.map fun entry => (entry.level, entry.slot)

namespace MethodView

/-- Code enters a slot, and the history notes it. -/
def enter (view : MethodView) (slot : Slot) (artifact : Artifact) : MethodView :=
  { view with
    code := Function.update view.code slot (some artifact)
    history := view.history ++ [(artifact.level, slot)] }

/-- A slot is emptied. -/
def empty (view : MethodView) (slot : Slot) : MethodView :=
  { view with code := Function.update view.code slot none }

/-- What a deed makes of the view of the method it was done to. -/
def undergo (view : MethodView) : Deed → MethodView
  | .installed blob | .replaced blob => view.enter blob.slot blob.artifact
  | .emptied blob => view.empty blob.slot

/-- What an event does to the flag and the count. -/
def follow (view : MethodView) (method : MethodId) (event : Event) : MethodView :=
  { view with
    queued :=
      if event.settles method then false else if event.queues method then true else view.queued
    invocations :=
      if event.restarts method then 0
      else if event.invokes method then view.invocations + 1
      else view.invocations }

end MethodView

namespace Cache

variable {cache : Cache} {operation : Operation} {method : MethodId} {slot : Slot} {deed : Deed}
  {artifact : Artifact} {blob : Blob} {id : BlobId} {made : Nat}

/-! ## §2. The code in a slot. -/

theorem code_view (hentrant : cache.entrant? method slot = some blob) :
    (cache.view method).code slot = some blob.artifact :=
  congrArg (Option.map Blob.artifact) hentrant

theorem code_view_of_none (hentrant : cache.entrant? method slot = none) :
    (cache.view method).code slot = none :=
  congrArg (Option.map Blob.artifact) hentrant

theorem entrant?_of_empty (hempty : (cache.status method).occupant? slot = none) :
    cache.entrant? method slot = none := by
  unfold entrant?
  rw [hempty]
  rfl

theorem Sound.exists_entrant (h : cache.Sound made)
    (hin : (cache.status method).occupant? slot = some id) :
    ∃ blob, cache.entrant? method slot = some blob ∧ cache.held? id = some blob ∧ blob.id = id := by
  obtain ⟨blob, hblob, rfl, -⟩ := h.occupant hin
  exact ⟨blob, h.entrant?_eq_some_iff.mpr ⟨hin, hblob⟩, held?_of_registered hblob, rfl⟩

section Operations

variable (h : cache.Sound made) (hroom : made + cache.attempts operation < UInt64.size)

include h hroom

/-- Where the occupant stays, calls enter the same code, wherever it has been moved to. -/
theorem Sound.code_of_occupant
    (hsame : ((cache.perform operation).2.status method).occupant? slot
      = (cache.status method).occupant? slot) :
    ((cache.perform operation).2.view method).code slot = (cache.view method).code slot := by
  cases hin : (cache.status method).occupant? slot with
  | none =>
    rw [code_view_of_none (entrant?_of_empty hin),
      code_view_of_none (entrant?_of_empty (hsame.trans hin))]
  | some id =>
    obtain ⟨old, hold, hheld, rfl⟩ := h.exists_entrant hin
    obtain ⟨new, hnew, hheld', -⟩ :=
      (sound_perform h operation hroom).exists_entrant (hsame.trans hin)
    -- the one is what became of the other
    obtain ⟨found, hfound, hfollows⟩ := follows_perform h hroom hheld
    obtain rfl := Option.some.inj (hfound.symm.trans hheld')
    rw [code_view hold, code_view hnew]
    unfold Blob.artifact
    rw [hfollows.code.level, hfollows.code.code]

/-- Where a blob was made, calls enter the code that it was made of. -/
theorem Sound.code_of_made (hdeed : cache.deed? operation = some deed)
    (hmade : deed.made? = some blob) :
    ((cache.perform operation).2.view blob.method).code blob.slot = some blob.artifact := by
  have hdoes := perform_does h hroom
  rw [hdeed] at hdoes
  obtain ⟨hmakes, hattempts⟩ := hdoes.makes hmade
  have hin := hmakes.occupant blob.method blob.slot
  rw [if_pos ⟨rfl, rfl⟩] at hin
  obtain ⟨new, hnew, hheld, -⟩ := (sound_perform h operation hroom).exists_entrant hin
  obtain rfl := Option.some.inj ((hmakes.held h (hattempts ▸ hroom)).symm.trans hheld)
  exact code_view hnew

/-! ## §3. One operation. -/

/-- A method that nothing was done to follows the event, with its flag and its count. -/
theorem Sound.view_of_spared
    (hspared : ∀ deed, cache.deed? operation = some deed → deed.blob.method ≠ method) :
    (cache.perform operation).2.view method
      = (cache.view method).follow method (cache.event operation) := by
  have hdoes := perform_does h hroom
  ext1
  case queued => exact queued_perform cache operation method
  case invocations => exact count_perform cache operation method
  case code =>
    funext slot
    apply h.code_of_occupant hroom
    cases hdeed : cache.deed? operation with
    | none =>
      rw [hdeed] at hdoes
      exact hdoes.sameSlots.occupant method slot
    | some deed =>
      rw [hdeed] at hdoes
      rw [hdoes.occupant, if_neg fun hat => hspared deed hdeed hat.1]
  case history =>
    show ((cache.perform operation).2.status method).history.map _ = _
    rw [hdoes.history, List.filter_eq_nil_iff.mpr, List.map_nil, List.append_nil]
    · rfl
    · intro blob hmem
      obtain ⟨deed, hdeed, hmade⟩ := Option.bind_eq_some_iff.mp (Option.mem_toList.mp hmem)
      rw [← Deed.blob_of_made? hmade]
      simpa using hspared deed hdeed

/-- A method undergoes what was done to it besides. -/
theorem Sound.view_of_deed (hdeed : cache.deed? operation = some deed)
    (hmethod : deed.blob.method = method) :
    (cache.perform operation).2.view method
      = ((cache.view method).undergo deed).follow method (cache.event operation) := by
  have hdoes := perform_does h hroom
  rw [hdeed] at hdoes
  -- the slot of the deed changes as it says, the other does not
  have hcode : ∀ {found}, ((cache.perform operation).2.view method).code deed.blob.slot = found →
      ((cache.perform operation).2.view method).code
        = Function.update (cache.view method).code deed.blob.slot found := by
    intro found hfound
    funext slot
    by_cases heq : slot = deed.blob.slot
    · rw [heq, hfound, Function.update_self]
    · rw [Function.update_of_ne heq]
      apply h.code_of_occupant hroom
      rw [hdoes.occupant, if_neg fun hat => heq hat.2.symm]
  have hhistory : ((cache.perform operation).2.view method).history
      = (cache.view method).history
        ++ deed.made?.toList.map fun blob => (blob.level, blob.slot) := by
    show ((cache.perform operation).2.status method).history.map _ = _
    rw [hdoes.history, List.map_append, List.map_map]
    cases hmade : deed.made? with
    | none => simp [hmade, view]
    | some blob =>
      rw [Deed.blob_of_made? hmade] at hmethod
      simp [hmade, hmethod, view, Blob.installation]
  subst hmethod
  ext1
  case queued =>
    refine (queued_perform cache operation _).trans ?_
    cases deed <;> rfl
  case invocations =>
    refine (count_perform cache operation _).trans ?_
    cases deed <;> rfl
  case code =>
    cases deed with
    | installed blob | replaced blob => exact hcode (h.code_of_made hroom hdeed rfl)
    | emptied blob =>
      refine hcode (code_view_of_none (entrant?_of_empty ?_))
      rw [hdoes.occupant, if_pos ⟨rfl, rfl⟩]
      rfl
  case history =>
    rw [hhistory]
    cases deed with
    | installed blob | replaced blob => rfl
    | emptied blob => exact List.append_nil _

/-- Nothing is done to anybody if nobody is told of a blob. -/
theorem Sound.view_of_noted (htold : ∀ id, (cache.perform operation).1 ≠ .blob id) :
    (cache.perform operation).2.view method
      = (cache.view method).follow method (cache.event operation) := by
  apply h.view_of_spared hroom
  intro deed hdeed
  cases (deed?_eq_none htold).symm.trans hdeed

/-- Whoever is told of a blob is told of a deed that answers the operation. -/
theorem Sound.exists_deed (htold : (cache.perform operation).1 = .blob id) :
    ∃ deed, cache.deed? operation = some deed ∧ deed.Answers operation cache := by
  have hdoes := perform_does h hroom
  obtain ⟨deed, hdeed, -⟩ := (hdoes.told id).mp htold
  rw [hdeed] at hdoes
  exact ⟨deed, hdeed, hdoes.answers⟩

theorem Sound.view_of_install (hasked : operation.installs? = some (method, artifact, slot))
    (htold : (cache.perform operation).1 = .blob id) :
    (cache.perform operation).2.view method
      = ((cache.view method).enter slot artifact).follow method (cache.event operation) := by
  obtain ⟨deed, hdeed, hanswers⟩ := h.exists_deed hroom htold
  cases deed with
  | installed blob =>
    cases hasked.symm.trans hanswers
    exact h.view_of_deed hroom hdeed rfl
  | replaced blob =>
    obtain ⟨level, region, old, rfl, -⟩ := hanswers
    cases hasked
  | emptied blob =>
    cases hanswers
    cases hasked

theorem Sound.view_of_replace {level : Option Level} {region : Option RegionKind} {old : Blob}
    (hasked : operation = .replace method slot level region)
    (hold : cache.entrant? method slot = some old)
    (htold : (cache.perform operation).1 = .blob id) :
    (cache.perform operation).2.view method
      = ((cache.view method).enter slot ⟨level.getD old.level, old.code⟩).follow method
          (cache.event operation) := by
  obtain ⟨deed, hdeed, hanswers⟩ := h.exists_deed hroom htold
  subst hasked
  cases deed with
  | installed blob => cases hanswers
  | emptied blob => cases hanswers
  | replaced blob =>
    obtain ⟨_, _, found, heq, hfound, hlevel, hcode⟩ := hanswers
    cases heq
    cases hold.symm.trans hfound
    rw [← hlevel, ← hcode]
    exact h.view_of_deed hroom hdeed rfl

theorem Sound.view_of_deoptimize (hasked : operation = .deoptimize method slot)
    (htold : (cache.perform operation).1 = .blob id) :
    (cache.perform operation).2.view method
      = ((cache.view method).empty slot).follow method (cache.event operation) := by
  obtain ⟨deed, hdeed, hanswers⟩ := h.exists_deed hroom htold
  subst hasked
  cases deed with
  | installed blob => cases hanswers
  | replaced blob =>
    obtain ⟨level, region, old, heq, -⟩ := hanswers
    cases heq
  | emptied blob =>
    cases hanswers
    exact h.view_of_deed hroom hdeed rfl

/-! ## §4. Operations that are addressed elsewhere. -/

omit h hroom in
/-- A deed is done to the method that the operation is addressed to. -/
theorem method?_of_answers (h : deed.Answers operation cache) :
    operation.method? = some deed.blob.method := by
  cases deed with
  | installed blob =>
    cases operation with
    | install =>
      cases h
      rfl
    | handle report =>
      cases report with
      | finished =>
        cases h
        rfl
      | gaveUp => cases h
    | _ => cases h
  | replaced blob =>
    obtain ⟨level, region, old, rfl, -⟩ := h
    rfl
  | emptied blob =>
    cases h
    rfl

/-- **Operations that are addressed elsewhere do not change a method's view**: not those on other
methods, no move, not even of its own blobs, and no collection pass. -/
theorem Sound.view_of_other (hother : operation.method? ≠ some method) :
    (cache.perform operation).2.view method = cache.view method := by
  have hspared : ∀ deed, cache.deed? operation = some deed → deed.blob.method ≠ method := by
    intro deed hdeed hmethod
    have hdoes := perform_does h hroom
    rw [hdeed] at hdoes
    exact hother (hmethod ▸ method?_of_answers hdoes.answers)
  rw [h.view_of_spared hroom hspared, MethodView.follow,
    if_neg fun hevent => hother (Event.method?_of_settles hevent),
    if_neg fun hevent => hother (Event.method?_of_queues hevent),
    if_neg fun hevent => hother (Event.method?_of_restarts hevent),
    if_neg fun hevent => hother (Event.method?_of_invokes hevent)]

end Operations

end Cache

end JitCache
