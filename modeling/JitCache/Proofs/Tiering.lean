/-
  JitCache.Proofs.Tiering
  ───────────────────────
  **When a method is queued for compilation, as a law of whole sessions.**

  The flag and the count of a method are each decided by the events since the
  last one that set them back: the count by the invocations since the standard
  slot was last emptied, the flag by whether anything has queued the method
  since its wait last ended.  Nothing about other methods, blobs or regions
  enters into it, and no operation is left out.

  An invocation queues the method if these two, and the standard slot, let it.
  That it then takes an end of the wait before another one does follows from
  the flag alone: it is up after the one and down before the other.

  Main statement:
    `tiering_follows_the_law` — every session obeys it, for every method
-/
import JitCache.Proofs.Session.Events
import JitCache.Proofs.Session.Sound
import Mathlib.Data.List.DropRight
import Mathlib.Data.List.Induction

namespace JitCache

/-! ## §1. The law. -/

/-- The events after the last at which things start over. -/
def eventsSince (startsOver : Event → Bool) (events : List Event) : List Event :=
  events.rtakeWhile fun event => !startsOver event

theorem eventsSince_concat (startsOver : Event → Bool) (events : List Event) (last : Event) :
    eventsSince startsOver (events ++ [last])
      = if startsOver last then [] else eventsSince startsOver events ++ [last] := by
  unfold eventsSince
  rw [List.rtakeWhile_concat]
  cases startsOver last <;> rfl

theorem countP_since_le (startsOver counts : Event → Bool) (events : List Event) :
    (eventsSince startsOver events).countP counts ≤ events.countP counts :=
  (List.rtakeWhile_suffix _ events).sublist.countP_le

/-- The law of tiering, for one method in a session. -/
structure Cache.TiersByLaw (start : Cache) (operations : List Operation) (method : MethodId) :
    Prop where
  /-- Its count is the number of invocations since its standard slot was last emptied. -/
  counted : ((start.after operations).invocations.count method).toNat
    = (eventsSince (Event.restarts method) (start.events operations)).countP (Event.invokes method)
  /-- It is queued if something has queued it since its wait last ended. -/
  queued : ((start.after operations).status method).queued = true
    ↔ ∃ event ∈ eventsSince (Event.settles method) (start.events operations),
        event.queues method = true
  /-- An invocation queues it if, with this one, it has been invoked often enough, and it is neither
  queued nor compiled in its standard slot. -/
  triggered : ∀ {earlier later}, operations = earlier ++ .invoke method :: later →
    (((start.after earlier).perform (.invoke method)).1 = .counted true
      ↔ start.settings.compileThreshold.toNat
          ≤ (eventsSince (Event.restarts method) (start.events earlier)).countP
              (Event.invokes method) + 1
        ∧ ((start.after earlier).status method).queued = false
        ∧ ((start.after earlier).slotState method .standard).compiled = false)
  /-- Between two invocations that queue it, an operation has ended its wait. -/
  settled : ∀ {earlier between later},
    operations = earlier ++ .invoke method :: between ++ .invoke method :: later →
    ((start.after earlier).perform (.invoke method)).1 = .counted true →
    ((start.after (earlier ++ .invoke method :: between)).perform (.invoke method)).1
      = .counted true →
    ∃ first operation rest, between = first ++ operation :: rest
      ∧ ((start.after (earlier ++ .invoke method :: first)).event operation).settles method = true
      ∧ ((start.after (earlier ++ .invoke method :: first)).status method).queued = true
      ∧ ((start.after (earlier ++ .invoke method :: first ++ [operation])).status method).queued
          = false

namespace Cache

variable {settings : Settings} {cache start : Cache} {operations : List Operation}
  {method : MethodId}

/-! ## §2. Counts as numbers. -/

theorem toNat_add_one {count : UInt64} (hroom : count.toNat + 1 < UInt64.size) :
    (count + 1).toNat = count.toNat + 1 := by
  rw [UInt64.toNat_add]
  exact Nat.mod_eq_of_lt hroom

/-- As long as counts fit a word, the invocation that is counted next is one more than the count. -/
theorem toNat_ordinal {invocations : Invocations}
    (hroom : (invocations.count method).toNat + 1 < UInt64.size) :
    (invocations.ordinal method).toNat = (invocations.count method).toNat + 1 := by
  have hsucc := toNat_add_one hroom
  have hpositive : invocations.count method + 1 ≠ 0 := by
    intro hzero
    rw [hzero] at hsucc
    exact absurd hsucc (by simp)
  unfold Invocations.ordinal
  simp only
  rw [if_neg hpositive, hsucc]

/-! ## §3. Whole sessions. -/

/-- Since when the count counts. -/
theorem count_after (hnew : Cache.new settings = .ok start)
    (hroom : (start.events operations).countP (Event.invokes method) < UInt64.size) :
    ((start.after operations).invocations.count method).toNat
      = (eventsSince (Event.restarts method) (start.events operations)).countP
          (Event.invokes method) := by
  -- on the last operation, which sets the count back, is counted, or is neither
  induction operations using List.reverseRecOn with
  | nil =>
    rw [eq_of_new hnew]
    rfl
  | append_singleton operations last ih =>
    rw [events_concat, List.countP_append] at hroom
    have hbefore := ih (by omega)
    rw [after_concat, events_concat, eventsSince_concat, count_perform]
    cases ((start.after operations).event last).restarts method with
    | true => rfl
    | false =>
      simp only [Bool.false_eq_true, if_false]
      rw [List.countP_append, ← hbefore]
      cases hinvokes : ((start.after operations).event last).invokes method with
      | false => simp [hinvokes]
      | true =>
        have hsince := countP_since_le (Event.restarts method) (Event.invokes method)
          (start.events operations)
        simp only [List.countP_singleton, hinvokes, if_true] at hroom ⊢
        exact toNat_add_one (by omega)

/-- What the flag is up for. -/
theorem queued_after (hnew : Cache.new settings = .ok start) :
    ((start.after operations).status method).queued = true
      ↔ ∃ event ∈ eventsSince (Event.settles method) (start.events operations),
          event.queues method = true := by
  induction operations using List.reverseRecOn with
  | nil =>
    rw [eq_of_new hnew]
    show false = true ↔ ∃ event ∈ [], _
    simp
  | append_singleton operations last ih =>
    rw [after_concat, events_concat, eventsSince_concat, queued_perform]
    cases ((start.after operations).event last).settles method with
    | true => simp
    | false =>
      simp only [Bool.false_eq_true, if_false, List.mem_append, List.mem_singleton, or_and_right,
        exists_or, exists_eq_left]
      rw [← ih]
      cases ((start.after operations).event last).queues method <;> simp

/-- A flag that is up at first and down at last was taken down by an operation that ends the wait. -/
theorem exists_settles_of_queued (cache : Cache) (between : List Operation)
    (hfirst : (cache.status method).queued = true)
    (hlast : ((cache.after between).status method).queued = false) :
    ∃ first operation rest, between = first ++ operation :: rest
      ∧ ((cache.after first).event operation).settles method = true
      ∧ ((cache.after first).status method).queued = true
      ∧ ((cache.after (first ++ [operation])).status method).queued = false := by
  induction between using List.reverseRecOn with
  | nil => exact absurd (hfirst.symm.trans hlast) (by simp)
  | append_singleton between last ih =>
    cases hqueued : ((cache.after between).status method).queued with
    | false =>
      obtain ⟨first, operation, rest, rfl, hsettles⟩ := ih hqueued
      exact ⟨first, operation, rest ++ [last], by simp, hsettles⟩
    | true =>
      refine ⟨between, last, [], rfl, ?_, hqueued, hlast⟩
      rw [after_concat, queued_perform, hqueued] at hlast
      by_contra hnot
      rw [if_neg hnot] at hlast
      simp at hlast

/-- What an invocation answers, by the events before it. -/
theorem triggered_after {earlier later : List Operation} (hnew : Cache.new settings = .ok start)
    (hroom : (start.events (earlier ++ .invoke method :: later)).countP (Event.invokes method)
      < UInt64.size) :
    ((start.after earlier).perform (.invoke method)).1 = .counted true
      ↔ start.settings.compileThreshold.toNat
          ≤ (eventsSince (Event.restarts method) (start.events earlier)).countP
              (Event.invokes method) + 1
        ∧ ((start.after earlier).status method).queued = false
        ∧ ((start.after earlier).slotState method .standard).compiled = false := by
  -- this invocation is counted as well, so its number fits a word
  have hcounted : ((start.after earlier).event (.invoke method)).invokes method = true := by
    simp [event, Event.invokes]
  rw [events_append, events, List.countP_append, List.countP_cons_of_pos hcounted] at hroom
  have hcount : ((start.after earlier).invocations.count method).toNat = _ :=
    count_after hnew (by omega)
  have hsince := countP_since_le (Event.restarts method) (Event.invokes method)
    (start.events earlier)
  have hsettings : (start.after earlier).settings = start.settings := by
    rw [settings_after hnew, eq_of_new hnew]
    rfl
  have hperform : ((start.after earlier).perform (.invoke method)).1
      = .counted ((start.after earlier).invoke method).1 := rfl
  rw [hperform, Outcome.counted.injEq, invoke_eq_true_iff, hsettings, UInt64.lt_iff_toNat_lt,
    toNat_ordinal (by omega), hcount, Nat.not_lt]

/-- An invocation that queues the method leaves its flag up. -/
theorem queued_of_triggered (h : (cache.perform (.invoke method)).1 = .counted true) :
    ((cache.perform (.invoke method)).2.status method).queued = true := by
  rw [queued_perform, event, h]
  simp [Event.settles, Event.queues]

end Cache

open Cache in
/-- **Every session obeys the law of tiering**, for every method that is invoked less than a word's
number of times: whatever happens to other methods, to the regions and in the other slot. -/
theorem tiering_follows_the_law {settings : Settings} {start : Cache} {operations : List Operation}
    {method : MethodId} (hnew : Cache.new settings = .ok start)
    (hroom : (start.events operations).countP (Event.invokes method) < UInt64.size) :
    start.TiersByLaw operations method := by
  constructor
  case counted => exact count_after hnew hroom
  case queued => exact queued_after hnew
  case triggered =>
    rintro earlier later rfl
    exact triggered_after hnew hroom
  case settled =>
    rintro earlier between later rfl hfirst hlast
    have hafter : ∀ rest, start.after (earlier ++ .invoke method :: rest)
        = ((start.after earlier).perform (.invoke method)).2.after rest := by
      intro rest
      rw [after_append, after_cons]
    -- the flag is up after the one, and down before the other
    have hup := queued_of_triggered hfirst
    have hdown := ((triggered_after hnew hroom).mp hlast).2.1
    rw [hafter] at hdown
    obtain ⟨first, operation, rest, hbetween, hsettles⟩ :=
      exists_settles_of_queued _ between hup hdown
    refine ⟨first, operation, rest, hbetween, ?_⟩
    rw [List.append_assoc, List.cons_append, hafter, hafter]
    exact hsettles

/-- A method becomes hot, its compilation fails, it becomes hot again, is compiled, emptied, and has
to become hot anew; code in its other slot is no hindrance. -/
def reheating : List Operation :=
  [.invoke ⟨1⟩, .invoke ⟨1⟩, .invoke ⟨1⟩, .handle (.gaveUp ⟨1⟩ "too large"),
    .install ⟨1⟩ ⟨.tier3, ⟨#[1]⟩⟩ .osr, .invoke ⟨1⟩, .install ⟨1⟩ ⟨.tier4, ⟨#[2]⟩⟩ .standard,
    .invoke ⟨1⟩, .deoptimize ⟨1⟩ .standard, .invoke ⟨1⟩, .invoke ⟨1⟩]

theorem tiering_follows_the_law_while_reheating :
    ((Cache.ofSettings { compileThreshold := 2 }).runAll reheating).1
        = [.counted false, .counted true, .counted false, .noBlob, .blob ⟨1⟩, .counted true,
            .blob ⟨2⟩, .counted false, .blob ⟨2⟩, .counted false, .counted true]
      ∧ (Cache.ofSettings { compileThreshold := 2 }).TiersByLaw reheating ⟨1⟩ := by
  have hnew : Cache.new { compileThreshold := 2 }
      = .ok (Cache.ofSettings { compileThreshold := 2 }) := rfl
  exact ⟨by decide, tiering_follows_the_law hnew (by decide)⟩

end JitCache
