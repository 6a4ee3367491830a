/-
  JitCache.Proofs.Isolation
  ─────────────────────────
  **Methods interfere with each other through want of room, and in no other way.**

  After a session, what is visible of a method is what the operations addressed
  to it make of it, with the room that they have found: each of these is
  answered as if the method were on its own, and any other leaves its view
  alone.  Two sessions that have these operations and their luck in common
  agree on the method, however little else they have in common.

  Main statements:
    `Consistent.answers`       — one session, against the method on its own
    `methods_do_not_interfere` — two sessions
-/
import JitCache.Proofs.Isolation.Answers
import Mathlib.Data.List.Forall2

namespace JitCache

/-! ## §1. What sessions have in common. -/

/-- An operation, whichever region it asks a replacement to go to. -/
def Operation.request : Operation → Operation
  | .replace method slot level _ => .replace method slot level none
  | operation => operation

/-- What operations ask of a method. -/
def requestsTo (method : MethodId) (operations : List Operation) : List Operation :=
  (operations.filter fun operation => operation.method? = some method).map Operation.request

/-- Where both have looked for room, both have found some, or both none. -/
def Agree (found found' : Option Bool) : Prop :=
  ∀ there, found = some there → ∀ there', found' = some there' → there = there'

instance (found found' : Option Bool) : Decidable (Agree found found') :=
  inferInstanceAs (Decidable (∀ _, _))

/-- What operations that are addressed to the method do, one after the other, with the room that is
there for each. -/
def MethodView.answerAll (method : MethodId) (threshold : UInt64) :
    MethodView → List Operation → List Bool → List Reply × MethodView
  | view, request :: requests, room :: rooms =>
    let (reply, view) := view.answer method threshold room request
    let (replies, view) := view.answerAll method threshold requests rooms
    (reply :: replies, view)
  | view, _, _ => ([], view)

namespace Cache

/-- What there is to tell of the operations of a session that are addressed to a method, each with
the cache that it finds. -/
def tellEach {α : Type} (tell : Cache → Operation → α) (method : MethodId) (cache : Cache) :
    List Operation → List α
  | [] => []
  | operation :: rest =>
    let others := (cache.perform operation).2.tellEach tell method rest
    if operation.method? = some method then tell cache operation :: others else others

/-- The replies to the operations that are addressed to a method. -/
def repliesTo (cache : Cache) (method : MethodId) (operations : List Operation) : List Reply :=
  cache.tellEach (fun cache operation => (cache.perform operation).1.reply) method operations

/-- Which of them asked for room, and whether there was any. -/
def roomsFor (cache : Cache) (method : MethodId) (operations : List Operation) :
    List (Option Bool) :=
  cache.tellEach foundRoom? method operations

/-- Nothing tells what the one cache has of a method from what the other has, but for handles,
addresses and places. -/
structure LooksAlike (method : MethodId) (first second : Cache) : Prop where
  slots : ∀ slot, first.slotState method slot = second.slotState method slot
  code : ∀ slot, (first.entrant? method slot).map (fun blob => (blob.code, blob.slot))
    = (second.entrant? method slot).map fun blob => (blob.code, blob.slot)
  invocations : first.invocations.count method = second.invocations.count method
  history : (first.status method).history.map (fun entry => (entry.level, entry.slot))
    = (second.status method).history.map fun entry => (entry.level, entry.slot)

variable {cache : Cache} {operation : Operation} {method : MethodId} {made : Nat}

/-! ## §2. One session. -/

theorem answer_request (view : MethodView) (method : MethodId) (threshold : UInt64) (room : Bool)
    (operation : Operation) :
    view.answer method threshold room operation.request
      = view.answer method threshold room operation := by
  cases operation <;> rfl

theorem consistent_perform (h : cache.Consistent made) (hmanaged : operation.isDirect = false)
    (hroom : made + cache.attempts operation < UInt64.size) :
    (cache.perform operation).2.Consistent (made + cache.attempts operation) where
  room := hroom
  sound := sound_perform h.sound operation hroom
  booked := booked_steps h.booked h.sound hroom hmanaged (perform_steps h.sound.filed operation)

/-- **After a session a method is what it makes of the operations addressed to it**, with the room
that they have found. -/
theorem Consistent.answers {operations : List Operation} {rooms : List Bool}
    (h : cache.Consistent made) (hmanaged : ∀ operation ∈ operations, operation.isDirect = false)
    (hroom : made + cache.attemptsIn operations < UInt64.size)
    (hrooms : List.Forall₂ Fits (cache.roomsFor method operations) rooms) :
    (cache.view method).answerAll method cache.settings.compileThreshold
        (requestsTo method operations) rooms
      = (cache.repliesTo method operations, (cache.after operations).view method) := by
  induction operations generalizing cache made rooms with
  | nil =>
    cases hrooms
    rfl
  | cons operation rest ih =>
    rw [attemptsIn, ← Nat.add_assoc] at hroom
    have hnow : made + cache.attempts operation < UInt64.size := by omega
    have hnext := consistent_perform h (hmanaged operation List.mem_cons_self) hnow
    have hsettings : (cache.perform operation).2.settings = cache.settings :=
      settings_steps (perform_steps h.sound.filed operation)
    have hrest := fun other hmem => hmanaged other (List.mem_cons_of_mem _ hmem)
    unfold roomsFor tellEach at hrooms
    unfold repliesTo tellEach requestsTo
    simp only at hrooms ⊢
    by_cases haddressed : operation.method? = some method
    · -- it is answered from the view, and the others from the view that it leaves
      rw [if_pos haddressed] at hrooms ⊢
      rw [List.filter_cons_of_pos (by simpa using haddressed), List.map_cons]
      cases hrooms with
      | cons hfits hothers =>
      have hothers := ih hnext hrest hroom hothers
      rw [hsettings] at hothers
      unfold MethodView.answerAll
      rw [answer_request, h.answer hnow haddressed hfits]
      simp only
      unfold requestsTo at hothers
      rw [hothers]
      rfl
    · rw [if_neg haddressed] at hrooms ⊢
      rw [List.filter_cons_of_neg (by simpa using haddressed)]
      have hothers := ih hnext hrest hroom hrooms
      rw [hsettings, h.sound.view_of_other hnow haddressed] at hothers
      exact hothers

/-- The same from the beginning, when nothing is known of the method. -/
theorem answers_after {settings : Settings} {start : Cache} {operations : List Operation}
    {rooms : List Bool} (hnew : Cache.new settings = .ok start)
    (hmanaged : ∀ operation ∈ operations, operation.isDirect = false)
    (hroom : start.attemptsIn operations < UInt64.size)
    (hrooms : List.Forall₂ Fits (start.roomsFor method operations) rooms) :
    MethodView.answerAll method settings.compileThreshold {} (requestsTo method operations) rooms
      = (start.repliesTo method operations, (start.after operations).view method) := by
  have hstart : start.Consistent 0 := by
    show (start.after []).Consistent (start.attemptsIn [])
    exact consistent_after hnew nofun (Nat.zero_lt_of_lt hroom)
  have hview : start.view method = {} := by
    rw [eq_of_new hnew]
    ext1
    case code =>
      funext slot
      cases slot <;> rfl
    all_goals rfl
  have hsettings : start.settings = settings := settings_after hnew []
  rw [← hview, ← hsettings]
  exact hstart.answers hmanaged (by omega) hrooms

/-! ## §3. Two sessions. -/

/-- Where both have found room, or have not, there is room that fits both. -/
theorem exists_rooms {first second : List (Option Bool)} (h : List.Forall₂ Agree first second) :
    ∃ rooms, List.Forall₂ Fits first rooms ∧ List.Forall₂ Fits second rooms := by
  induction h with
  | nil => exact ⟨[], .nil, .nil⟩
  | @cons found found' _ _ hagree _ ih =>
    obtain ⟨rooms, hfirst, hsecond⟩ := ih
    refine ⟨(found.or found').getD false :: rooms, .cons ?_ hfirst, .cons ?_ hsecond⟩
    · rintro there rfl
      rfl
    · rintro there rfl
      cases found with
      | none => rfl
      | some other => exact (hagree other rfl there rfl).symm

theorem Sound.map_entrant? (h : cache.Sound made) (method : MethodId) (slot : Slot) :
    (cache.entrant? method slot).map (fun blob => (blob.code, blob.slot))
      = ((cache.view method).code slot).map fun artifact => (artifact.code, slot) := by
  show _ = ((cache.entrant? method slot).map Blob.artifact).map _
  rw [Option.map_map]
  apply Option.map_congr
  intro blob hblob
  obtain ⟨hin, hget⟩ := h.entrant?_eq_some_iff.mp hblob
  obtain ⟨found, hfound, -, -, hslot, -⟩ := h.occupant hin
  obtain rfl := Option.some.inj (hget.symm.trans hfound)
  rw [hslot]
  rfl

theorem looksAlike_of_view {other : Cache} {made' : Nat} (h : cache.Sound made)
    (h' : other.Sound made') (hview : cache.view method = other.view method) :
    LooksAlike method cache other where
  slots slot := by
    have hqueued : (cache.status method).queued = (other.status method).queued :=
      congrArg MethodView.queued hview
    have hlevel : cache.level method slot = other.level method slot := by
      rw [← level_view, ← level_view, hview]
    have hcompiled : (cache.entrant? method slot).isSome = (other.entrant? method slot).isSome := by
      have hcode := congrArg (fun view => (view.code slot).isSome) hview
      simpa only [view, Option.isSome_map] using hcode
    unfold slotState
    rw [hqueued, hlevel, hcompiled]
  code slot := by rw [h.map_entrant?, h'.map_entrant?, hview]
  invocations := congrArg MethodView.invocations hview
  history := congrArg MethodView.history hview

end Cache

open Cache in
/-- **Methods do not interfere, but for want of room.** Take two sessions, on caches that are set up
differently but have methods queued after as many invocations. If they ask the same of a method, in
the same order, and where both look for room for it, both find some or none, then they reply the
same, and in the end the method looks alike: whatever they ask of other methods, wherever they move
blobs, and whenever and with whatever frames they collect. -/
theorem methods_do_not_interfere {settings settings' : Settings} {start start' : Cache}
    {operations operations' : List Operation} {method : MethodId}
    (hnew : Cache.new settings = .ok start) (hnew' : Cache.new settings' = .ok start')
    (hthreshold : settings.compileThreshold = settings'.compileThreshold)
    (hmanaged : ∀ operation ∈ operations, operation.isDirect = false)
    (hmanaged' : ∀ operation ∈ operations', operation.isDirect = false)
    (hroom : start.attemptsIn operations < UInt64.size)
    (hroom' : start'.attemptsIn operations' < UInt64.size)
    (hasked : requestsTo method operations = requestsTo method operations')
    (hfound : List.Forall₂ Agree (start.roomsFor method operations)
      (start'.roomsFor method operations')) :
    LooksAlike method (start.after operations) (start'.after operations')
      ∧ start.repliesTo method operations = start'.repliesTo method operations' := by
  obtain ⟨rooms, hrooms, hrooms'⟩ := exists_rooms hfound
  have hanswers := answers_after hnew hmanaged hroom hrooms
  have hanswers' := answers_after hnew' hmanaged' hroom' hrooms'
  -- both are what the same requests make of a fresh method with the same room
  rw [hthreshold, hasked, hanswers', Prod.mk.injEq] at hanswers
  obtain ⟨hreplies, hview⟩ := hanswers
  exact ⟨looksAlike_of_view (sound_after hnew hroom) (sound_after hnew' hroom') hview.symm,
    hreplies.symm⟩

/-- Small regions, and two invocations to get hot. -/
def small : Settings :=
  { profiledCapacity := 64, nonProfiledCapacity := 32, nonMethodCapacity := 32,
    compileThreshold := 2 }

/-- Somewhat larger ones, with a shorter search for room. -/
def medium : Settings :=
  { profiledCapacity := 96, nonProfiledCapacity := 64, nonMethodCapacity := 32,
    compileThreshold := 2, maxFitProbes := 1 }

/-- One method gets hot, is compiled and compiled again higher; then it is to be compiled lower, and
again with too much code. -/
def alone : List Operation :=
  [.invoke ⟨1⟩, .invoke ⟨1⟩, .handle (.finished ⟨1⟩ ⟨.tier3, ⟨#[1, 2]⟩⟩ .standard),
    .replace ⟨1⟩ .standard (some .tier4) none, .install ⟨1⟩ ⟨.tier1, ⟨#[3]⟩⟩ .standard,
    .install ⟨1⟩ ⟨.tier2, ⟨.replicate 97 0⟩⟩ .osr, .compileFailed ⟨1⟩]

/-- The same in company: another method comes and goes, blobs are moved, and passes drain regions. -/
def inCompany : List Operation :=
  [.install ⟨2⟩ ⟨.tier2, ⟨#[5]⟩⟩ .standard, .invoke ⟨1⟩, .invoke ⟨2⟩, .invoke ⟨1⟩, .queue ⟨2⟩,
    .handle (.finished ⟨1⟩ ⟨.tier3, ⟨#[1, 2]⟩⟩ .standard), .move ⟨2⟩ .nonProfiled,
    .replace ⟨1⟩ .standard (some .tier4) (some .profiled), .deoptimize ⟨2⟩ .standard,
    .collect ⟨true, 50, true⟩ {}, .install ⟨1⟩ ⟨.tier1, ⟨#[3]⟩⟩ .standard,
    .install ⟨1⟩ ⟨.tier2, ⟨.replicate 97 0⟩⟩ .osr, .move ⟨3⟩ .nonMethod, .compileFailed ⟨1⟩,
    .collect ⟨true, 50, true⟩ {}]

theorem methods_do_not_interfere_in_company :
    (Cache.ofSettings small).repliesTo ⟨1⟩ alone
        = [.counted false, .counted true, .granted, .granted,
            .refused (.downgrade ⟨1⟩ .standard .tier4 .tier1), .noRoom, .granted]
      ∧ Cache.LooksAlike ⟨1⟩ ((Cache.ofSettings small).after alone)
          ((Cache.ofSettings medium).after inCompany)
      ∧ (Cache.ofSettings small).repliesTo ⟨1⟩ alone
        = (Cache.ofSettings medium).repliesTo ⟨1⟩ inCompany := by
  have hsmall : Cache.new small = .ok (Cache.ofSettings small) := rfl
  have hmedium : Cache.new medium = .ok (Cache.ofSettings medium) := rfl
  refine ⟨by decide, ?_⟩
  exact methods_do_not_interfere hsmall hmedium rfl (by decide) (by decide) (by decide) (by decide)
    rfl (by decide)

end JitCache
