/-
  JitCache.Proofs.Session.Step
  ────────────────────────────
  **What an operation can do to a cache, one elementary change at a time.**

  Every operation is a sequence of a few kinds of `Step`: a blob is made and
  enters its slot, a slot is emptied, a blob is moved, given up or reclaimed, a
  region is called directly, or only flags, counts and metrics change.  A step
  says exactly what it does to blobs, slots, regions and handles, and when it is
  possible.  What every step keeps, every operation keeps, refused or not.

  Steps carry the number of attempts to make a blob.  `Cache.attempts` is the
  number for an operation, read off its arguments and the cache before.

  The steps themselves are here; that every operation consists of them is
  proved in `JitCache.Proofs.Session.Operation`.
-/
import JitCache.Operation

namespace JitCache

/-! ## §1. What an operation is about. -/

namespace Operation

/-- The slot an operation fills or empties, if it is about one. -/
def slot? : Operation → Option (MethodId × Slot)
  | install method _ slot => some (method, slot)
  | replace method slot _ _ => some (method, slot)
  | deoptimize method slot => some (method, slot)
  | handle (.finished method _ slot) => some (method, slot)
  | _ => none

/-- Whether an operation works on the regions directly, past the blob table. -/
def isDirect : Operation → Bool
  | reserveIn .. | releaseIn .. | transfer .. | transferHeld .. => true
  | _ => false

/-- Why an operation moves a blob to a region: it was asked to, or it is a pass that drains a
method region the blob is resident in and found the target to be a fuller one. -/
def Moves (operation : Operation) (cache : Cache) (blob : Blob) (target : RegionKind) : Prop :=
  operation = .move blob.id target
    ∨ ∃ policy frames source resident, operation = .collect policy frames
        ∧ policy.consolidate = true ∧ blob.liveness = .entrant ∧ source.holdsMethods = true
        ∧ (cache.regions.get source).residents.get? blob.id = some resident
        ∧ target ∈ policy.destinations cache.regions source

end Operation

/-! ## §2. Parts of a step. -/

namespace Cache

/-- Blobs, slots, regions and handles are as before; flags, counts and metrics need not be, and
methods may have got a record. -/
structure SameHoldings (before after : Cache) : Prop where
  settings : after.settings = before.settings
  regions : after.regions = before.regions
  registered : after.registered = before.registered
  reclaimed : after.reclaimed = before.reclaimed
  nextBlob : after.nextBlob = before.nextBlob
  nextEntry : after.nextEntry = before.nextEntry
  occupant : ∀ method slot, (after.status method).occupant? slot = (before.status method).occupant? slot
  history : ∀ method, (after.status method).history = (before.status method).history
  recorded : ∀ method, before.hasRecord method = true → after.hasRecord method = true

theorem sameHoldings_refl (cache : Cache) : SameHoldings cache cache :=
  ⟨rfl, rfl, rfl, rfl, rfl, rfl, fun _ _ => rfl, fun _ => rfl, fun _ h => h⟩

theorem SameHoldings.trans {a b c : Cache} (hab : SameHoldings a b) (hbc : SameHoldings b c) :
    SameHoldings a c :=
  ⟨hbc.settings.trans hab.settings, hbc.regions.trans hab.regions,
    hbc.registered.trans hab.registered, hbc.reclaimed.trans hab.reclaimed,
    hbc.nextBlob.trans hab.nextBlob, hbc.nextEntry.trans hab.nextEntry,
    fun method slot => (hbc.occupant method slot).trans (hab.occupant method slot),
    fun method => (hbc.history method).trans (hab.history method),
    fun method h => hbc.recorded method (hab.recorded method h)⟩

/-- What is held is the same. -/
theorem SameHoldings.held? {before after : Cache} (h : SameHoldings before after) (id : BlobId) :
    after.held? id = before.held? id := by
  unfold Cache.held?
  rw [h.registered, h.reclaimed]

theorem sameHoldings_metrics (cache : Cache) (metrics : Metrics) :
    SameHoldings cache { cache with metrics } :=
  ⟨rfl, rfl, rfl, rfl, rfl, rfl, fun _ _ => rfl, fun _ => rfl, fun _ h => h⟩

theorem sameHoldings_setQueued (cache : Cache) (method : MethodId) (queued : Bool) :
    SameHoldings cache (cache.setQueued method queued) := by
  refine ⟨rfl, rfl, rfl, rfl, rfl, rfl, ?_, ?_, ?_⟩
  · intro other slot
    rw [setQueued, status_setStatus]
    split
    · next heq => subst heq; cases slot <;> rfl
    · rfl
  · intro other
    rw [setQueued, status_setStatus]
    split
    · next heq => subst heq; rfl
    · rfl
  · intro other hrecord
    exact (hasRecord_setStatus _).mpr (.inr hrecord)

theorem sameHoldings_ensureRecord (cache : Cache) (method : MethodId) :
    SameHoldings cache (cache.ensureRecord method) := by
  refine ⟨rfl, rfl, rfl, rfl, rfl, rfl, ?_, ?_, ?_⟩
  · intro other slot
    rw [status_ensureRecord]
  · intro other
    rw [status_ensureRecord]
  · intro other hrecord
    exact (hasRecord_setStatus _).mpr (.inr hrecord)

/-- The blob that is made next. -/
def newBlob (cache : Cache) (method : MethodId) (slot : Slot) (level : Level) (code : ByteArray)
    (placement : Placement) : Blob :=
  { id := cache.nextBlob, method, entry := cache.nextEntry, slot, level, code, placement }

/-- Registers a new blob in a region that has reserved its room. -/
def lodge (cache : Cache) (kind : RegionKind) (region : Region) (blob : Blob) : Cache :=
  { cache with
    regions := cache.regions.set kind region
    registered := cache.registered.insert blob.id blob
    nextBlob := cache.nextBlob.next
    nextEntry := cache.nextEntry.advance blob.placement.span.length }

/-- Closes the occupant of a slot and empties the slot. -/
def vacate (cache : Cache) (method : MethodId) (slot : Slot) : Cache :=
  (cache.closeOccupant method slot).setStatus method ((cache.status method).setOccupant slot none)

/-- Takes a blob out of the register, its region having released it. -/
def strikeOut (cache : Cache) (region : Region) (blob : Blob) : Cache :=
  { cache with
    regions := cache.regions.set blob.region region
    registered := cache.registered.erase blob.id
    reclaimed := cache.reclaimed.insert blob.id blob }

/-- Every blob is filed under its own handle. -/
structure Filed (cache : Cache) : Prop where
  registered : ∀ {id blob}, cache.registered.get? id = some blob → blob.id = id
  reclaimed : ∀ {id blob}, cache.reclaimed.get? id = some blob → blob.id = id

end Cache

/-! ## §3. Steps. -/

open Cache in
/-- One elementary change that an operation makes, with the number of attempts to make a blob. -/
inductive Step (operation : Operation) : Nat → Cache → Cache → Prop
  /-- Only flags, counts and metrics change. -/
  | noted {before after : Cache} (hafter : SameHoldings before after) :
      Step operation 0 before after
  /-- A handle is used up, but no blob is made. -/
  | unplaced {before : Cache} :
      Step operation 1 before { before with nextBlob := before.nextBlob.next }
  /-- A blob is made and enters its slot. -/
  | entered {before : Cache} {method : MethodId} {slot : Slot} {level : Level}
      {code : ByteArray} {kind : RegionKind} {placement : Placement} {region : Region}
      (hslot : operation.slot? = some (method, slot))
      (hlevel : level ≠ .interpreted)
      (hreserve : (before.regions.get kind).reserve before.nextBlob code.size
        = (.ok placement, region)) :
      Step operation 1 before
        ((before.lodge kind region (before.newBlob method slot level code placement)).enter
          (before.newBlob method slot level code placement))
  /-- A slot is emptied. -/
  | vacated {before : Cache} {method : MethodId} {slot : Slot} {id : BlobId}
      (hslot : operation.slot? = some (method, slot))
      (hoccupant : (before.status method).occupant? slot = some id) :
      Step operation 0 before (before.vacate method slot)
  /-- A registered blob is moved out of its region. -/
  | moved {before : Cache} {blob : Blob} {target : RegionKind} {placement : Placement}
      {regions : Regions}
      (hwhy : operation.Moves before blob target)
      (hblob : before.registered.get? blob.id = some blob)
      (htarget : blob.region ≠ target)
      (htransfer : before.regions.transfer blob.region target blob.id blob.size blob.placement
        = (.ok placement, regions)) :
      Step operation 0 before ({ before with regions }.setPlacement blob.id placement)
  /-- A blob is carried between two regions, wherever it is placed. -/
  | carried {before : Cache} {source target : RegionKind} {blob : Blob} {placement : Placement}
      {regions : Regions}
      (hdirect : operation.isDirect = true)
      (hblob : before.held? blob.id = some blob)
      (htransfer : before.regions.transfer source target blob.id blob.size blob.placement
        = (.ok placement, regions)) :
      Step operation 0 before ({ before with regions }.setPlacement blob.id placement)
  /-- Room is reserved in a region directly. -/
  | reserved {before : Cache} {kind : RegionKind} {id : BlobId} {size : Nat}
      {placement : Placement} {region : Region}
      (hdirect : operation.isDirect = true)
      (hreserve : (before.regions.get kind).reserve id size = (.ok placement, region)) :
      Step operation 0 before { before with regions := before.regions.set kind region }
  /-- A region is made to release a resident directly. -/
  | released {before : Cache} {kind : RegionKind} {id : BlobId} {placement : Placement}
      {region : Region}
      (hdirect : operation.isDirect = true)
      (hrelease : (before.regions.get kind).release id = (.ok placement, region)) :
      Step operation 0 before { before with regions := before.regions.set kind region }
  /-- A pass gives up a non-entrant blob that nothing refers to. -/
  | gaveUp {before : Cache} {policy : CollectionPolicy} {frames : FrameSnapshot} {blob : Blob}
      (hpass : operation = .collect policy frames)
      (hblob : before.registered.get? blob.id = some blob)
      (hstage : blob.liveness = .nonEntrant)
      (hunreferenced : before.isUnreferenced frames blob = true) :
      Step operation 0 before (before.markZombie blob)
  /-- A pass reclaims a zombie. -/
  | reclaimed {before : Cache} {policy : CollectionPolicy} {frames : FrameSnapshot}
      {blob : Blob} {placement : Placement} {region : Region}
      (hpass : operation = .collect policy frames)
      (hblob : before.registered.get? blob.id = some blob)
      (hstage : blob.liveness = .zombie)
      (hrelease : (before.regions.get blob.region).release blob.id = (.ok placement, region)) :
      Step operation 0 before (before.strikeOut region blob)

/-- A sequence of steps of one operation, with the attempts added up. -/
inductive Steps (operation : Operation) (first : Cache) : Nat → Cache → Prop
  | refl : Steps operation first 0 first
  | tail {n k : Nat} {middle last : Cache} (hsteps : Steps operation first n middle)
      (hstep : Step operation k middle last) : Steps operation first (n + k) last

/-- One step at most, after which only flags, counts and metrics change. -/
def StepAndNote (operation : Operation) (first : Cache) (k : Nat) (last : Cache) : Prop :=
  ∃ middle, Step operation k first middle ∧ Cache.SameHoldings middle last

theorem StepAndNote.refl {operation : Operation} (cache : Cache) :
    StepAndNote operation cache 0 cache :=
  ⟨cache, .noted (Cache.sameHoldings_refl cache), Cache.sameHoldings_refl cache⟩

namespace Steps

variable {operation : Operation} {n k : Nat} {first middle last : Cache}

theorem single (h : Step operation k first last) : Steps operation first k last := by
  rw [← Nat.zero_add k]
  exact .tail .refl h

theorem trans (h : Steps operation first n middle) (h' : Steps operation middle k last) :
    Steps operation first (n + k) last := by
  -- on the later steps, which are put behind the earlier ones
  induction h' with
  | refl => exact h
  | tail _ hstep ih =>
    rw [← Nat.add_assoc]
    exact .tail ih hstep

/-- Flags, counts and metrics may change afterwards. -/
theorem note {noted : Cache} (h : Steps operation first k last)
    (hnoted : Cache.SameHoldings last noted) : Steps operation first k noted :=
  h.tail (.noted hnoted)

/-- Steps that attempt nothing go before others without changing their number. -/
theorem zero_trans (h : Steps operation first 0 middle) (h' : Steps operation middle k last) :
    Steps operation first k last := by
  rw [← Nat.zero_add k]
  exact h.trans h'

theorem of_stepAndNote (h : StepAndNote operation first k last) : Steps operation first k last := by
  obtain ⟨middle, hstep, hnote⟩ := h
  exact (single hstep).note hnote

/-- What every step preserves, as long as the handles last, a sequence of steps preserves. -/
theorem preserve {P : Nat → Cache → Prop} {made : Nat} (h : Steps operation first k last)
    (hfirst : P made first) (hroom : made + k < UInt64.size)
    (hstep : ∀ {n k a b}, n + k < UInt64.size → P n a → Step operation k a b → P (n + k) b) :
    P (made + k) last := by
  -- attempts so far and attempts to come never leave a word, so no step runs out of handles
  induction h with
  | refl => exact hfirst
  | tail _ hlast ih =>
    rw [← Nat.add_assoc] at hroom ⊢
    exact hstep hroom (ih (by omega)) hlast

end Steps

/-! ## §4. Attempts, and whole sessions. -/

namespace Cache

/-- How often installing an artifact of a level gets as far as asking for room. -/
def installAttempts (cache : Cache) (method : MethodId) (level : Level) (slot : Slot) : Nat :=
  if level = .interpreted ∨ level < cache.level method slot then 0 else 1

/-- How often replacing the code of a slot gets as far as asking for room. -/
def replaceAttempts (cache : Cache) (method : MethodId) (slot : Slot) (level : Option Level) :
    Nat :=
  match cache.entrant? method slot with
  | none => 0
  | some old => if level.getD old.level = .interpreted then 0 else 1

/-- How many attempts to make a blob an operation comes to. -/
def attempts (cache : Cache) : Operation → Nat
  | .install method artifact slot => cache.installAttempts method artifact.level slot
  | .handle (.finished method artifact slot) => cache.installAttempts method artifact.level slot
  | .replace method slot level _ => cache.replaceAttempts method slot level
  | _ => 0

/-- How many attempts a session comes to. -/
def attemptsIn (cache : Cache) : List Operation → Nat
  | [] => 0
  | operation :: rest => cache.attempts operation + (cache.perform operation).2.attemptsIn rest

/-- The cache after a session. -/
def after (cache : Cache) (operations : List Operation) : Cache := (cache.runAll operations).2

theorem after_cons (cache : Cache) (operation : Operation) (rest : List Operation) :
    cache.after (operation :: rest) = (cache.perform operation).2.after rest := rfl

theorem after_append (cache : Cache) (first second : List Operation) :
    cache.after (first ++ second) = (cache.after first).after second := by
  unfold after
  rw [runAll_append]

theorem attemptsIn_append (cache : Cache) (first second : List Operation) :
    cache.attemptsIn (first ++ second)
      = cache.attemptsIn first + (cache.after first).attemptsIn second := by
  induction first generalizing cache with
  | nil => exact (Nat.zero_add _).symm
  | cons operation rest ih =>
    rw [List.cons_append, attemptsIn, attemptsIn, ih, after_cons, Nat.add_assoc]

theorem after_concat (cache : Cache) (operations : List Operation) (last : Operation) :
    cache.after (operations ++ [last]) = ((cache.after operations).perform last).2 := by
  rw [after_append]
  rfl

theorem attemptsIn_concat (cache : Cache) (operations : List Operation) (last : Operation) :
    cache.attemptsIn (operations ++ [last])
      = cache.attemptsIn operations + (cache.after operations).attempts last := by
  rw [attemptsIn_append]
  rfl

end Cache

end JitCache
