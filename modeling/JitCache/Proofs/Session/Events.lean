/-
  JitCache.Proofs.Session.Events
  ──────────────────────────────
  **What an operation does to the flags and the counts of the methods.**

  An operation and what its caller learnt make an `Event`.  Whether an event
  queues a method, ends its wait, counts an invocation or lets the count start
  over can be read off it: no table has to be looked up.  The two main
  statements say that nothing else matters to the flag and to the count.

  Whatever moves, marks and reclaims blobs leaves the status of every method
  alone (`SameMethods`), also where it is refused half-way.

  Main statements:
    `queued_perform` — the flag of a method after an operation
    `count_perform`  — its count after an operation
-/
import JitCache.Proofs.Session.Operation

namespace JitCache

/-! ## §1. Events. -/

/-- The method an operation is addressed to, if it is about one. -/
def Operation.method? : Operation → Option MethodId
  | install method _ _ | replace method _ _ _ | deoptimize method _ => some method
  | queue method | compileFailed method | invoke method => some method
  | handle report => some report.method
  | _ => none

/-- An operation with what its caller learnt. -/
structure Event where
  operation : Operation
  outcome : Outcome

namespace Event

/-- It counts an invocation of the method. -/
def invokes (method : MethodId) : Event → Bool
  | ⟨.invoke other, _⟩ => other = method
  | _ => false

/-- It empties the method's standard slot. -/
def restarts (method : MethodId) : Event → Bool
  | ⟨.deoptimize other .standard, .blob _⟩ => other = method
  | _ => false

/-- It queues the method, as asked or for having been invoked often enough. -/
def queues (method : MethodId) : Event → Bool
  | ⟨.queue other, _⟩ => other = method
  | ⟨.invoke other, .counted true⟩ => other = method
  | _ => false

/-- It ends the method's wait: code is installed for it, its compilation failed, or the compiler has
reported on it, whatever became of the report. -/
def settles (method : MethodId) : Event → Bool
  | ⟨.install other _ _, .blob _⟩ => other = method
  | ⟨.compileFailed other, _⟩ => other = method
  | ⟨.handle report, _⟩ => report.method = method
  | _ => false

variable {method : MethodId} {event : Event}

/-! What is an event for a method is an operation that is addressed to it. -/

theorem method?_of_invokes (h : event.invokes method = true) :
    event.operation.method? = some method := by
  unfold invokes at h
  split at h
  · exact congrArg some (of_decide_eq_true h)
  · cases h

theorem method?_of_restarts (h : event.restarts method = true) :
    event.operation.method? = some method := by
  unfold restarts at h
  split at h
  · exact congrArg some (of_decide_eq_true h)
  · cases h

theorem method?_of_queues (h : event.queues method = true) :
    event.operation.method? = some method := by
  unfold queues at h
  split at h
  · exact congrArg some (of_decide_eq_true h)
  · exact congrArg some (of_decide_eq_true h)
  · cases h

theorem method?_of_settles (h : event.settles method = true) :
    event.operation.method? = some method := by
  unfold settles at h
  split at h
  · exact congrArg some (of_decide_eq_true h)
  · exact congrArg some (of_decide_eq_true h)
  · exact congrArg some (of_decide_eq_true h)
  · cases h

end Event

namespace Cache

/-- An operation with what its caller learns from this cache. -/
def event (cache : Cache) (operation : Operation) : Event := ⟨operation, (cache.perform operation).1⟩

/-- The events of a session, in order. -/
def events (cache : Cache) : List Operation → List Event
  | [] => []
  | operation :: rest => cache.event operation :: (cache.perform operation).2.events rest

theorem events_append (cache : Cache) (first second : List Operation) :
    cache.events (first ++ second) = cache.events first ++ (cache.after first).events second := by
  induction first generalizing cache with
  | nil => rfl
  | cons operation rest ih =>
    rw [List.cons_append, events, events, ih, after_cons, List.cons_append]

theorem events_concat (cache : Cache) (operations : List Operation) (last : Operation) :
    cache.events (operations ++ [last])
      = cache.events operations ++ [(cache.after operations).event last] :=
  events_append cache operations [last]

/-! ## §2. What leaves flags and counts alone. -/

/-- The status and the count of every method are as before. -/
structure SameMethods (before after : Cache) : Prop where
  status : ∀ method, after.status method = before.status method
  invocations : after.invocations = before.invocations

variable {cache before after last : Cache} {method : MethodId} {slot : Slot}

theorem sameMethods_refl (cache : Cache) : SameMethods cache cache := ⟨fun _ => rfl, rfl⟩

theorem SameMethods.trans (h : SameMethods before after) (h' : SameMethods after last) :
    SameMethods before last :=
  ⟨fun method => (h'.status method).trans (h.status method), h'.invocations.trans h.invocations⟩

/-- A record says of a method what is said of it without one. -/
theorem sameMethods_ensureRecord (cache : Cache) (method : MethodId) :
    SameMethods cache (cache.ensureRecord method) :=
  ⟨status_ensureRecord cache method, rfl⟩

theorem sameMethods_of_makeBlob {artifact : Artifact} {candidates : List RegionKind}
    {outcome : Except CacheError Blob}
    (h : cache.makeBlob method artifact slot candidates = (outcome, after)) :
    SameMethods cache after := by
  unfold makeBlob at h
  simp only at h
  split at h
  · cases h
    exact ⟨fun _ => rfl, rfl⟩
  · cases h
    exact ⟨fun _ => rfl, rfl⟩

theorem sameMethods_carry (cache : Cache) (source target : RegionKind) (blob : Blob) :
    SameMethods cache (cache.carry source target blob).2 := by
  unfold carry
  split
  · exact ⟨fun _ => rfl, rfl⟩
  · exact ⟨fun _ => rfl, rfl⟩

theorem sameMethods_move (cache : Cache) (id : BlobId) (target : RegionKind) :
    SameMethods cache (cache.move id target).2 := by
  rcases cache.move_cases id target with
    ⟨error, hmove⟩ | ⟨blob, -, ⟨-, hmove⟩ | ⟨-, placement, regions, -, hmove⟩⟩
  · rw [hmove]
    exact sameMethods_refl cache
  · rw [hmove]
    exact sameMethods_refl cache
  · rw [hmove]
    exact ⟨fun _ => rfl, rfl⟩

theorem sameMethods_moveToFirst (cache : Cache) (id : BlobId) (targets : List RegionKind) :
    SameMethods cache (cache.moveToFirst id targets).2 := by
  induction targets with
  | nil => exact sameMethods_refl cache
  | cons target rest ih =>
    have hmove := sameMethods_move cache id target
    unfold moveToFirst
    split
    · next heq =>
      rw [heq] at hmove
      exact hmove
    · next heq =>
      -- what was refused has changed nothing, and the next target is tried
      rw [move_error heq]
      split
      · exact ih
      · exact sameMethods_refl cache
      · exact sameMethods_refl cache

theorem sameMethods_drainEach (policy : CollectionPolicy) (source : RegionKind) (ids : List BlobId)
    (report : PassReport) (cache : Cache) :
    SameMethods cache (drainEach policy source ids report cache).2 := by
  induction ids generalizing report cache with
  | nil => exact sameMethods_refl cache
  | cons id rest ih =>
    have hmove := sameMethods_moveToFirst cache id (policy.destinations cache.regions source)
    unfold drainEach
    simp only
    split
    · exact ih report cache
    split
    · next heq =>
      rw [heq] at hmove
      exact hmove
    · next heq =>
      rw [heq] at hmove
      exact hmove.trans (ih _ _)
    · next heq =>
      rw [heq] at hmove
      exact hmove.trans (ih _ _)

theorem sameMethods_drainAll (policy : CollectionPolicy) (sources : List RegionKind)
    (report : PassReport) (cache : Cache) :
    SameMethods cache (drainAll policy sources report cache).2 := by
  induction sources generalizing report cache with
  | nil => exact sameMethods_refl cache
  | cons source rest ih =>
    have hdrain : SameMethods cache (cache.drain policy source report).2 := by
      unfold drain
      simp only
      split
      · exact sameMethods_drainEach _ _ _ _ _
      · exact sameMethods_refl cache
    unfold drainAll
    split
    · next heq =>
      rw [heq] at hdrain
      exact hdrain
    · next heq =>
      rw [heq] at hdrain
      exact hdrain.trans (ih _ _)

theorem sameMethods_markEach (frames : FrameSnapshot) (blobs : List Blob) (count : Nat)
    (cache : Cache) : SameMethods cache (markEach frames blobs count cache).2 := by
  induction blobs generalizing count cache with
  | nil => exact sameMethods_refl cache
  | cons blob rest ih =>
    rw [markEach]
    rcases cache.markIfUnreferenced_cases frames blob with hpassed | ⟨now, -, -, -, hmarked⟩
    · rw [hpassed]
      exact ih count cache
    · rw [hmarked]
      have hmark : SameMethods cache (cache.markZombie now) := ⟨fun _ => rfl, rfl⟩
      exact hmark.trans (ih _ _)

theorem sameMethods_reclaimEach (blobs : List Blob) (report : PassReport) (cache : Cache) :
    SameMethods cache (reclaimEach blobs report cache).2 := by
  induction blobs generalizing report cache with
  | nil => exact sameMethods_refl cache
  | cons blob rest ih =>
    rw [reclaimEach]
    rcases cache.reclaim_cases blob with
      hpassed | ⟨error, hstopped⟩ | ⟨now, placement, region, -, -, -, hreclaimed⟩
    · rw [hpassed]
      exact ih report cache
    · rw [hstopped]
      exact sameMethods_refl cache
    · rw [hreclaimed]
      refine SameMethods.trans ?_ (ih _ _)
      exact ⟨fun _ => rfl, rfl⟩

theorem sameMethods_collect (cache : Cache) (policy : CollectionPolicy) (frames : FrameSnapshot) :
    SameMethods cache (cache.collect policy frames).2 := by
  have hmark : SameMethods cache (cache.markZombies frames).2 := sameMethods_markEach _ _ _ cache
  unfold collect
  generalize cache.markZombies frames = marked at hmark ⊢
  obtain ⟨count, marked⟩ := marked
  have hreclaim : SameMethods marked (marked.reclaimZombies { zombiesMarked := count }).2 :=
    sameMethods_reclaimEach _ _ _
  simp only
  split
  · next heq =>
    rw [heq] at hreclaim
    exact hmark.trans hreclaim
  next report cleared heq =>
  rw [heq] at hreclaim
  have hsofar := hmark.trans hreclaim
  have hdrained : SameMethods cleared (cleared.consolidate policy report).2 := by
    unfold consolidate
    split
    · exact sameMethods_drainAll _ _ _ _
    · exact sameMethods_refl cleared
  split
  · next heq =>
    rw [heq] at hdrained
    exact hsofar.trans hdrained
  · next heq =>
    rw [heq] at hdrained
    exact (hsofar.trans hdrained).trans ⟨fun _ => rfl, rfl⟩

/-- **An operation that is addressed to no method changes the status and the count of none.** -/
theorem sameMethods_perform {operation : Operation} (hmethod : operation.method? = none) :
    SameMethods cache (cache.perform operation).2 := by
  cases operation with
  | move id target =>
    rw [perform, ofAttempt_snd]
    exact sameMethods_move cache id target
  | collect policy frames =>
    rw [perform, ofAttempt_snd]
    exact sameMethods_collect cache policy frames
  | reserveIn kind id size =>
    rw [perform, ofAttempt_snd]
    exact ⟨fun _ => rfl, rfl⟩
  | releaseIn kind id =>
    rw [perform, ofAttempt_snd]
    exact ⟨fun _ => rfl, rfl⟩
  | transfer source target id =>
    rw [perform, ofAttempt_snd]
    unfold transfer
    split
    · exact sameMethods_refl cache
    · exact sameMethods_carry _ _ _ _
  | transferHeld source target id =>
    rw [perform, ofAttempt_snd]
    unfold transferHeld
    split
    · exact sameMethods_refl cache
    · exact sameMethods_carry _ _ _ _
  | resetMetrics => exact ⟨fun _ => rfl, rfl⟩
  | _ => cases hmethod

/-! ## §3. Flags. -/

theorem queued_setQueued (cache : Cache) (method other : MethodId) (queued : Bool) :
    ((cache.setQueued method queued).status other).queued
      = if method = other then queued else (cache.status other).queued := by
  unfold setQueued
  rw [status_setStatus]
  split <;> rfl

theorem queued_setOccupant (status : MethodStatus) (slot : Slot) (occupant : Option BlobId) :
    (status.setOccupant slot occupant).queued = status.queued := by
  cases slot <;> rfl

/-- Filling a slot is not what ends a wait. -/
theorem queued_enter (cache : Cache) (blob : Blob) (method : MethodId) :
    ((cache.enter blob).status method).queued = (cache.status method).queued := by
  unfold enter
  simp only
  rw [status_setStatus, status_closeOccupant]
  by_cases heq : blob.method = method
  · rw [if_pos heq, ← heq]
    exact queued_setOccupant _ _ _
  · rw [if_neg heq]

/-- A granted installation ends the method's wait, and no other's. -/
theorem queued_install {artifact : Artifact} {id : BlobId}
    (h : cache.install method artifact slot = (.ok id, after)) (other : MethodId) :
    (after.status other).queued
      = if method = other then false else (cache.status other).queued := by
  rcases cache.install_cases method artifact slot with
    ⟨error, hinstall, -⟩ | ⟨-, -, -, ⟨error, left, -, hinstall⟩ | ⟨blob, made, hmake, hinstall⟩⟩
  · rw [hinstall] at h
    cases h
  · rw [hinstall] at h
    cases h
  · rw [hinstall] at h
    cases h
    show (((made.enter blob).setQueued method false).status other).queued = _
    rw [queued_setQueued, queued_enter, (sameMethods_of_makeBlob hmake).status,
      status_ensureRecord]

theorem sameMethods_of_install {artifact : Artifact} {error : CacheError}
    (h : cache.install method artifact slot = (.error error, after)) : SameMethods cache after := by
  rcases cache.install_cases method artifact slot with
    ⟨reason, hinstall, -⟩ | ⟨-, -, -, ⟨reason, left, hmake, hinstall⟩ | ⟨blob, made, -, hinstall⟩⟩
  · rw [hinstall] at h
    cases h
    exact sameMethods_refl cache
  · rw [hinstall] at h
    cases h
    exact (sameMethods_ensureRecord cache method).trans (sameMethods_of_makeBlob hmake)
  · rw [hinstall] at h
    cases h

theorem queued_replace (cache : Cache) (method other : MethodId) (slot : Slot)
    (level : Option Level) (region : Option RegionKind) :
    ((cache.replace method slot level region).2.status other).queued
      = (cache.status other).queued := by
  rcases cache.replace_cases method slot level region with ⟨error, hreplace, -⟩
    | ⟨old, -, -, -, ⟨error, after, hmake, hreplace⟩ | ⟨blob, made, hmake, hreplace⟩⟩
  · rw [hreplace]
  · rw [hreplace, (sameMethods_of_makeBlob hmake).status]
  · rw [hreplace]
    show ((made.enter blob).status other).queued = _
    rw [queued_enter, (sameMethods_of_makeBlob hmake).status]

theorem queued_deoptimize (cache : Cache) (method other : MethodId) (slot : Slot) :
    ((cache.deoptimize method slot).2.status other).queued = (cache.status other).queued := by
  unfold deoptimize
  split
  · rfl
  · next id _ =>
    show (((cache.closeBlob id).setStatus method _).status other).queued = _
    rw [status_setStatus]
    by_cases heq : method = other
    · rw [if_pos heq, ← heq, queued_setOccupant]
    · rw [if_neg heq]
      rfl

/-- What an invocation answers, on the state it finds. -/
theorem invoke_eq_true_iff :
    (cache.invoke method).1 = true
      ↔ ¬ cache.invocations.ordinal method < cache.settings.compileThreshold
        ∧ (cache.status method).queued = false
        ∧ (cache.slotState method .standard).compiled = false := by
  show _ ↔ _ ∧ _ ∧ (cache.entrant? method .standard).isSome = false
  have hentrant : ∀ invocations, ({ cache with invocations } : Cache).entrant? method .standard
      = cache.entrant? method .standard := fun _ => rfl
  have hstatus : ∀ invocations, ({ cache with invocations } : Cache).status method
      = cache.status method := fun _ => rfl
  unfold invoke
  simp only [hentrant, hstatus]
  by_cases hcold : cache.invocations.ordinal method < cache.settings.compileThreshold
  · simp [hcold]
  rw [if_neg hcold]
  by_cases htaken : (cache.status method).queued = true ∨ (cache.entrant? method .standard).isSome
  · rw [if_pos htaken]
    rcases htaken with hqueued | hcompiled
    · simp [hqueued]
    · simp [hcompiled]
  · rw [if_neg htaken]
    simp only [not_or, Bool.not_eq_true] at htaken
    exact ⟨fun _ => ⟨hcold, htaken⟩, fun _ => rfl⟩

theorem queued_invoke (cache : Cache) (method other : MethodId) :
    ((cache.invoke method).2.status other).queued
      = if method = other ∧ (cache.invoke method).1 = true then true
        else (cache.status other).queued := by
  unfold invoke
  simp only
  -- not yet hot, taken care of already, or hot just now
  split
  · simp only [Bool.false_eq_true, and_false, if_false]
    rfl
  split
  · simp only [Bool.false_eq_true, and_false, if_false]
    rfl
  · show ((setQueued _ method true).status other).queued = _
    rw [queued_setQueued]
    simp only [and_true]
    rfl

/-- A failed compilation ends the wait of its method; a method without a record does not wait. -/
theorem queued_compileFailed (cache : Cache) (method other : MethodId) :
    ((cache.compileFailed method).status other).queued
      = if method = other then false else (cache.status other).queued := by
  by_cases hrecord : cache.hasRecord method = true
  · rw [compileFailed_of_hasRecord hrecord]
    exact queued_setQueued cache method other false
  · rw [compileFailed_of_not_hasRecord hrecord]
    show (cache.status other).queued = _
    split
    · next heq =>
      rw [← heq, status, Table.contains_eq_false_iff.mp ((Bool.not_eq_true _).mp hrecord)]
      rfl
    · rfl

/-- A report ends the wait of its method, also when nothing comes of it. -/
theorem queued_handle (cache : Cache) (report : CompilerReport) (other : MethodId) :
    ((cache.handle report).2.status other).queued
      = if report.method = other then false else (cache.status other).queued := by
  cases report with
  | gaveUp method reason => exact queued_compileFailed cache method other
  | finished method artifact slot =>
    show _ = if method = other then false else _
    unfold handle
    simp only
    split
    · next hinstall => rw [queued_install hinstall]
    · next hinstall => rw [queued_compileFailed, (sameMethods_of_install hinstall).status]

/-- **The flag of a method after an operation.** -/
theorem queued_perform (cache : Cache) (operation : Operation) (method : MethodId) :
    ((cache.perform operation).2.status method).queued
      = if (cache.event operation).settles method then false
        else if (cache.event operation).queues method then true
        else (cache.status method).queued := by
  unfold event
  cases operation with
  | install other artifact slot =>
    rw [perform]
    cases hinstall : cache.install other artifact slot with
    | mk outcome after =>
      cases outcome with
      | error error =>
        show (after.status method).queued = (cache.status method).queued
        rw [(sameMethods_of_install hinstall).status]
      | ok id =>
        show (after.status method).queued = if decide (other = method) then false else _
        simp only [queued_install hinstall, decide_eq_true_eq]
        rfl
  | replace other slot level region =>
    rw [perform, ofAttempt_snd, queued_replace]
    rfl
  | deoptimize other slot =>
    rw [perform, ofAttempt_snd, queued_deoptimize]
    rfl
  | queue other =>
    show ((cache.setQueued other true).status method).queued
      = if decide (other = method) then true else _
    rw [queued_setQueued]
    simp only [decide_eq_true_eq]
  | compileFailed other =>
    show ((cache.compileFailed other).status method).queued
      = if decide (other = method) then false else _
    rw [queued_compileFailed]
    simp only [decide_eq_true_eq]
    rfl
  | invoke other =>
    show ((cache.invoke other).2.status method).queued
      = if Event.queues method ⟨.invoke other, .counted (cache.invoke other).1⟩ then true else _
    rw [queued_invoke]
    cases (cache.invoke other).1 <;> simp [Event.queues]
  | handle report =>
    rw [perform_handle, queued_handle]
    show _ = if decide (report.method = method) then false else _
    simp only [decide_eq_true_eq]
    rfl
  | _ =>
    rw [(sameMethods_perform rfl).status]
    rfl

/-! ## §4. Counts. -/

theorem invocations_enter (cache : Cache) (blob : Blob) :
    (cache.enter blob).invocations = cache.invocations := by
  unfold enter closeOccupant
  cases (cache.status blob.method).occupant? blob.slot <;> rfl

theorem invocations_install (cache : Cache) (method : MethodId) (artifact : Artifact) (slot : Slot) :
    (cache.install method artifact slot).2.invocations = cache.invocations := by
  rcases cache.install_cases method artifact slot with
    ⟨error, hinstall, -⟩ | ⟨-, -, -, ⟨error, left, hmake, hinstall⟩ | ⟨blob, made, hmake, hinstall⟩⟩
  · rw [hinstall]
  · rw [hinstall]
    exact (sameMethods_of_makeBlob hmake).invocations
  · rw [hinstall]
    show (made.enter blob).invocations = _
    rw [invocations_enter, (sameMethods_of_makeBlob hmake).invocations]
    rfl

theorem invocations_compileFailed (cache : Cache) (method : MethodId) :
    (cache.compileFailed method).invocations = cache.invocations := by
  unfold compileFailed
  split <;> rfl

theorem invocations_replace (cache : Cache) (method : MethodId) (slot : Slot)
    (level : Option Level) (region : Option RegionKind) :
    (cache.replace method slot level region).2.invocations = cache.invocations := by
  rcases cache.replace_cases method slot level region with ⟨error, hreplace, -⟩
    | ⟨old, -, -, -, ⟨error, after, hmake, hreplace⟩ | ⟨blob, made, hmake, hreplace⟩⟩
  · rw [hreplace]
  · rw [hreplace]
    exact (sameMethods_of_makeBlob hmake).invocations
  · rw [hreplace]
    show (made.enter blob).invocations = _
    rw [invocations_enter, (sameMethods_of_makeBlob hmake).invocations]

theorem invocations_handle (cache : Cache) (report : CompilerReport) :
    (cache.handle report).2.invocations = cache.invocations := by
  cases report with
  | gaveUp method reason => exact invocations_compileFailed cache method
  | finished method artifact slot =>
    have hinstall := cache.invocations_install method artifact slot
    unfold handle
    simp only
    split
    · next heq =>
      rw [heq] at hinstall
      exact hinstall
    · next heq =>
      rw [heq] at hinstall
      exact (invocations_compileFailed _ method).trans hinstall

theorem invocations_invoke (cache : Cache) (method : MethodId) :
    (cache.invoke method).2.invocations = cache.invocations.increment method := by
  unfold invoke
  simp only
  split
  · rfl
  split
  · rfl
  · rfl

/-- **The count of a method after an operation.** -/
theorem count_perform (cache : Cache) (operation : Operation) (method : MethodId) :
    (cache.perform operation).2.invocations.count method
      = if (cache.event operation).restarts method then 0
        else if (cache.event operation).invokes method then cache.invocations.count method + 1
        else cache.invocations.count method := by
  unfold event
  cases operation with
  | install other artifact slot =>
    rw [perform, ofAttempt_snd, invocations_install]
    rfl
  | replace other slot level region =>
    rw [perform, ofAttempt_snd, invocations_replace]
    rfl
  | deoptimize other slot =>
    rw [perform]
    unfold deoptimize
    cases (cache.status other).occupant? slot with
    | none => cases slot <;> rfl
    | some id =>
      cases slot with
      | osr => rfl
      | standard =>
        show (cache.invocations.reset other).count method = if decide (other = method) then 0 else _
        rw [Invocations.count_reset]
        simp only [decide_eq_true_eq]
        rfl
  | queue => rfl
  | compileFailed other =>
    show (cache.compileFailed other).invocations.count method = _
    rw [invocations_compileFailed]
    rfl
  | invoke other =>
    show (cache.invoke other).2.invocations.count method
      = if decide (other = method) then cache.invocations.count method + 1 else _
    rw [invocations_invoke, Invocations.count_increment]
    simp only [decide_eq_true_eq]
  | handle report =>
    rw [perform_handle, invocations_handle]
    rfl
  | _ =>
    rw [(sameMethods_perform rfl).invocations]
    rfl

end Cache

end JitCache
