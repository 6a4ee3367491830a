/-
  JitCache.Proofs.Refusals
  ────────────────────────
  **A refused operation changes nothing.**

  Requests are refused at very different depths: before anything is looked at,
  between two candidate regions, before the target of a transfer has reserved.
  Whatever the state of the cache, and even if the regions were called past the
  blob table, a refusal leaves all of it as it was: blobs, slots, flags,
  histories, counts, metrics, and in every region the residents, the used bytes,
  the top and the free spans.

  A transfer that reserves in the target and then fails to release in the source
  would leave the target changed: what it leaves is carried along with the error.
  That this never happens is `Regions.transfer_error`, because a transfer asks
  first whether the source holds the blob at all.

  Only an attempt to make a blob leaves a trace.  It has used up a handle, if it
  was refused for want of room, that is counted, and there may be a record of the
  method now, in its initial state.  A collection pass is no request in this
  sense: it keeps what it has done before it was refused.

  Main statement:
    `refusals_change_nothing` — what a refusal leaves behind
-/
import JitCache.Proofs.Session.Requests

namespace JitCache

/-- Whether an operation is a collection pass. -/
def Operation.isPass : Operation → Bool
  | .collect .. => true
  | _ => false

namespace Cache

/-! ## §1. What a refusal leaves behind. -/

/-- What a refusal for this reason leaves of a cache. -/
inductive Refused (before : Cache) (operation : Operation) (error : CacheError) : Cache → Prop
  /-- Nothing was attempted, and nothing has changed. -/
  | untouched (hattempts : before.attempts operation = 0) :
      Refused before operation error before
  /-- No region asked had room: a handle is used up, and the failure is counted. -/
  | noRoom {method : MethodId} {slot : Slot} {kind : RegionKind} {requested available : Nat}
      (hattempts : before.attempts operation = 1) (hslot : operation.slot? = some (method, slot))
      (herror : error = .regionFull kind requested available) :
      Refused before operation error
        { before.ensureRecord method with
          nextBlob := before.nextBlob.next
          metrics :=
            { before.metrics with allocationFailures := before.metrics.allocationFailures + 1 } }
  /-- A region asked holds the new handle already: it is used up, and no more. -/
  | taken {method : MethodId} {slot : Slot} {kind : RegionKind}
      (hattempts : before.attempts operation = 1) (hslot : operation.slot? = some (method, slot))
      (hresident : (before.regions.get kind).residents.contains before.nextBlob = true)
      (herror : error = .inconsistent (.alreadyResident before.nextBlob (before.regions.get kind).kind)) :
      Refused before operation error
        { before.ensureRecord method with nextBlob := before.nextBlob.next }

variable {cache after : Cache} {error : CacheError} {method : MethodId} {slot : Slot}

/-! ## §2. Attempts to make a blob. -/

/-- Why a search for room ends without any: there is none, or a region holds the handle. -/
theorem firstFit_eq_error {regions left : Regions} {blob : BlobId} {size : Nat}
    {refusal : CacheError} {kinds : List RegionKind} (hrefusal : refusal.mayFitElsewhere = true)
    (h : regions.firstFit blob size refusal kinds = (.error error, left)) :
    error.mayFitElsewhere = true
      ∨ ∃ kind, (regions.get kind).residents.contains blob = true
          ∧ error = .inconsistent (.alreadyResident blob (regions.get kind).kind) := by
  -- on the regions asked; the refusal so far is always one about room
  induction kinds generalizing refusal with
  | nil =>
    cases h
    exact .inl hrefusal
  | cons kind rest ih =>
    rw [Regions.firstFit_cons] at h
    split at h
    · cases h
    · next last region hlast =>
      split at h
      · next hroom => exact ih hroom h
      · next hreason =>
        cases h
        obtain ⟨⟨hresident, herror⟩ | ⟨-, -, herror⟩, -⟩ := Region.reserve_eq_error_iff.mp hlast
        · exact .inr ⟨kind, hresident, herror⟩
        · exact absurd (by rw [herror]; rfl) hreason

/-- A refused attempt leaves its trace, whatever it was made for. -/
theorem refused_of_makeBlob {artifact : Artifact} {candidates : List RegionKind}
    {operation : Operation} (hattempts : cache.attempts operation = 1)
    (hslot : operation.slot? = some (method, slot))
    (h : (cache.ensureRecord method).makeBlob method artifact slot candidates
      = (.error error, after)) :
    cache.Refused operation error after := by
  unfold makeBlob at h
  simp only at h
  split at h
  · next regions hfit =>
    cases h
    obtain rfl := Regions.firstFit_error hfit
    rcases firstFit_eq_error rfl hfit with hroom | ⟨kind, hresident, herror⟩
    · obtain ⟨kind, requested, available, herror⟩ := CacheError.mayFitElsewhere_iff.mp hroom
      rw [if_pos hroom]
      exact .noRoom hattempts hslot herror
    · rw [if_neg]
      · exact .taken hattempts hslot hresident herror
      · rw [herror]
        exact Bool.false_ne_true
  · cases h

theorem refused_of_install {artifact : Artifact} {operation : Operation}
    (hattempts : cache.attempts operation = cache.installAttempts method artifact.level slot)
    (hslot : operation.slot? = some (method, slot))
    (h : cache.install method artifact slot = (.error error, after)) :
    cache.Refused operation error after := by
  rcases cache.install_cases method artifact slot with
    ⟨reason, hinstall, hnone⟩ | ⟨-, -, hone, hmakes⟩
  · -- refused before any room was asked for
    rw [hinstall] at h
    cases h
    exact .untouched (hattempts.trans hnone)
  rcases hmakes with ⟨reason, left, hmake, hinstall⟩ | ⟨blob, made, -, hinstall⟩
  · rw [hinstall] at h
    cases h
    exact refused_of_makeBlob (hattempts.trans hone) hslot hmake
  · rw [hinstall] at h
    cases h

theorem refused_of_replace {level : Option Level} {region : Option RegionKind}
    {operation : Operation}
    (hattempts : cache.attempts operation = cache.replaceAttempts method slot level)
    (hslot : operation.slot? = some (method, slot))
    (h : cache.replace method slot level region = (.error error, after)) :
    cache.Refused operation error after := by
  rcases cache.replace_cases method slot level region with
    ⟨reason, hreplace, hnone⟩ | ⟨old, hold, -, hone, hmakes⟩
  · -- refused before any room was asked for
    rw [hreplace] at h
    cases h
    exact .untouched (hattempts.trans hnone)
  rcases hmakes with ⟨reason, left, hmake, hreplace⟩ | ⟨blob, made, -, hreplace⟩
  · rw [hreplace] at h
    cases h
    -- what is replaced was installed, so there is a record already
    rw [← ensureRecord_of_hasRecord (hasRecord_of_entrant? hold)] at hmake
    exact refused_of_makeBlob (hattempts.trans hone) hslot hmake
  · rw [hreplace] at h
    cases h

/-! ## §3. Requests that make no blob. -/

theorem deoptimize_error (h : cache.deoptimize method slot = (.error error, after)) :
    after = cache := by
  unfold deoptimize at h
  split at h
  · cases h
    rfl
  · cases h

theorem transfer_error {source target : RegionKind} {id : BlobId}
    (h : cache.transfer source target id = (.error error, after)) : after = cache := by
  unfold transfer at h
  split at h
  · cases h
    rfl
  · exact carry_error h

theorem transferHeld_error {source target : RegionKind} {id : BlobId}
    (h : cache.transferHeld source target id = (.error error, after)) : after = cache := by
  unfold transferHeld at h
  split at h
  · cases h
    rfl
  · exact carry_error h

/-! ## §4. Every operation but a pass. -/

/-- An operation is told as refused just if its attempt was. -/
theorem eq_error_of_ofAttempt {α : Type} {tell : α → Outcome} {attempt : Attempt α}
    (h : Outcome.ofAttempt tell attempt = (.refused error, after))
    (htell : ∀ value, tell value ≠ .refused error) : attempt = (.error error, after) := by
  obtain ⟨outcome, last⟩ := attempt
  cases outcome with
  | ok value => exact absurd (Prod.ext_iff.mp h).1 (htell value)
  | error reason =>
    cases h
    rfl

theorem refused_of_perform {operation : Operation} (hpass : operation.isPass = false)
    (h : cache.perform operation = (.refused error, after)) : cache.Refused operation error after := by
  have huntouched : cache.attempts operation = 0 → after = cache →
      cache.Refused operation error after := by
    rintro hattempts rfl
    exact .untouched hattempts
  cases operation <;> rw [perform] at h
  case install => exact refused_of_install rfl rfl (eq_error_of_ofAttempt h fun _ => nofun)
  case replace => exact refused_of_replace rfl rfl (eq_error_of_ofAttempt h fun _ => nofun)
  case deoptimize => exact huntouched rfl (deoptimize_error (eq_error_of_ofAttempt h fun _ => nofun))
  case move => exact huntouched rfl (move_error (eq_error_of_ofAttempt h fun _ => nofun))
  case reserveIn => exact huntouched rfl (reserveIn_error (eq_error_of_ofAttempt h fun _ => nofun))
  case releaseIn => exact huntouched rfl (releaseIn_error (eq_error_of_ofAttempt h fun _ => nofun))
  case transfer => exact huntouched rfl (transfer_error (eq_error_of_ofAttempt h fun _ => nofun))
  case transferHeld =>
    exact huntouched rfl (transferHeld_error (eq_error_of_ofAttempt h fun _ => nofun))
  case collect => cases hpass
  case handle =>
    -- a report is never refused, only the installation in it
    split at h
    · cases h
    · cases h
  case queue | compileFailed | invoke | resetMetrics => cases h

/-! ## §5. Reports of finished code. -/

/-- A report whose installation is refused counts as a failed compilation. -/
theorem perform_handle_of_refused {artifact : Artifact}
    (h : cache.install method artifact slot = (.error error, after)) :
    cache.perform (.handle (.finished method artifact slot))
      = (.noBlob, after.compileFailed method) := by
  rw [perform, handle, h]

/-- Noting a failed compilation and the trace of a refusal do not touch each other. -/
theorem compileFailed_of_trace (cache : Cache) (method : MethodId) (nextBlob : BlobId)
    (metrics : Metrics) :
    ({ cache with nextBlob, metrics } : Cache).compileFailed method
      = { cache.compileFailed method with
          nextBlob
          metrics := { metrics with compileFailures := metrics.compileFailures + 1 } } := by
  -- whether there is a record does not depend on the trace
  have htrace : ({ cache with nextBlob, metrics } : Cache).hasRecord method
      = cache.hasRecord method := rfl
  by_cases hrecord : cache.hasRecord method = true
  · rw [compileFailed_of_hasRecord hrecord, compileFailed_of_hasRecord (htrace.trans hrecord)]
    rfl
  · rw [compileFailed_of_not_hasRecord hrecord,
      compileFailed_of_not_hasRecord (htrace ▸ hrecord)]

theorem metrics_compileFailed (cache : Cache) (method : MethodId) :
    (cache.compileFailed method).metrics
      = { cache.metrics with compileFailures := cache.metrics.compileFailures + 1 } := by
  unfold compileFailed
  split <;> rfl

/-- A failed compilation is noted of the cache as it was, but that there may be a record now. -/
theorem Refused.compileFailed {artifact : Artifact}
    (h : cache.Refused (.install method artifact slot) error after) :
    ∃ known, (known = cache ∨ known = cache.ensureRecord method)
      ∧ after.compileFailed method
        = { known.compileFailed method with
            nextBlob := after.nextBlob
            metrics :=
              { (cache.compileFailed method).metrics with
                allocationFailures := after.metrics.allocationFailures } } := by
  rw [metrics_compileFailed]
  cases h with
  | untouched => exact ⟨cache, .inl rfl, compileFailed_of_trace cache method _ _⟩
  | noRoom _ hslot | taken _ hslot =>
    cases hslot
    exact ⟨_, .inr rfl, compileFailed_of_trace (cache.ensureRecord method) method _ _⟩

end Cache

open Cache in
/-- **A refused operation changes nothing**, whatever the cache, but for the trace of an attempt to
make a blob; and a report of finished code that cannot be installed comes to a failed compilation
with that trace. -/
theorem refusals_change_nothing (cache : Cache) :
    (∀ {operation error after}, operation.isPass = false →
      cache.perform operation = (.refused error, after) → cache.Refused operation error after)
    ∧ ∀ {method artifact slot error after},
        cache.install method artifact slot = (.error error, after) →
          cache.Refused (.install method artifact slot) error after
          ∧ ∃ known, (known = cache ∨ known = cache.ensureRecord method)
              ∧ cache.perform (.handle (.finished method artifact slot))
                = (.noBlob,
                    { known.compileFailed method with
                      nextBlob := after.nextBlob
                      metrics :=
                        { (cache.compileFailed method).metrics with
                          allocationFailures := after.metrics.allocationFailures } }) := by
  refine ⟨refused_of_perform, ?_⟩
  intro method artifact slot error after hinstall
  have htrace : cache.Refused (.install method artifact slot) error after :=
    refused_of_install rfl rfl hinstall
  obtain ⟨known, hknown, hfailed⟩ := htrace.compileFailed
  refine ⟨htrace, known, hknown, ?_⟩
  rw [perform_handle_of_refused hinstall, hfailed]

/-- A cache none of whose regions holds more than two bytes; one method waits for compilation. -/
def narrow : Cache :=
  (Cache.ofSettings { profiledCapacity := 2, nonProfiledCapacity := 2, nonMethodCapacity := 2 }).queue ⟨1⟩

/-- Three bytes of code. -/
def oversized : Artifact := ⟨.tier4, ⟨#[1, 2, 3]⟩⟩

/-- Three bytes find no room in the narrow cache: a handle is used up and the failure counted, and as
a report of the compiler they make the method wait no longer. -/
theorem refusals_change_nothing_for_want_of_room :
    narrow.perform (.install ⟨1⟩ oversized .standard)
        = (.refused (.regionFull .nonMethod 3 2),
            { narrow with nextBlob := ⟨2⟩, metrics := { allocationFailures := 1 } })
      ∧ narrow.Refused (.install ⟨1⟩ oversized .standard) (.regionFull .nonMethod 3 2)
          { narrow with nextBlob := ⟨2⟩, metrics := { allocationFailures := 1 } }
      ∧ narrow.perform (.handle (.finished ⟨1⟩ oversized .standard))
          = (.noBlob,
              { narrow.compileFailed ⟨1⟩ with
                nextBlob := ⟨2⟩
                metrics := { compileFailures := 1, allocationFailures := 1 } }) := by
  have hperform : narrow.perform (.install ⟨1⟩ oversized .standard)
      = (.refused (.regionFull .nonMethod 3 2),
          { narrow with nextBlob := ⟨2⟩, metrics := { allocationFailures := 1 } }) := by decide
  have hinstall : narrow.install ⟨1⟩ oversized .standard
      = (.error (.regionFull .nonMethod 3 2),
          { narrow with nextBlob := ⟨2⟩, metrics := { allocationFailures := 1 } }) := rfl
  obtain ⟨hrefused, hreport⟩ := refusals_change_nothing narrow
  obtain ⟨-, known, hknown, hhandle⟩ := hreport hinstall
  -- a method that waits for compilation has a record
  have hsame : known = narrow := by
    rcases hknown with hknown | hknown
    · exact hknown
    · exact hknown.trans (by decide)
  rw [hsame] at hhandle
  exact ⟨hperform, hrefused rfl hperform, hhandle⟩

end JitCache
