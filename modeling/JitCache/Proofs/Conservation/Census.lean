/-
  JitCache.Proofs.Conservation.Census
  ───────────────────────────────────
  **Counting everybody who was ever made.**

  A blob is never forgotten: it is registered, and once reclaimed it is kept
  beside the register.  So a sum over both tables, the census, is a sum over all
  blobs ever made.  Relocating, giving up and reclaiming leave it as it is, as
  long as the measure asks only for the code and for whether calls enter it.  An
  operation about a slot adds whom it makes and closes who leaves the slot.

  Main statements:
    `census_steps` — an operation that is about no slot leaves the census
    `Does.adds`    — what a deed makes of it
-/
import JitCache.Proofs.Session.Deeds

namespace JitCache

namespace Blob

/-- The measure depends on the code of a blob only. -/
def CodeMeasure (measure : Blob → Nat) : Prop :=
  ∀ {old new : Blob}, old.SameCode new → measure new = measure old

/-- The measure depends on the code of a blob and on whether calls enter it. -/
def LastingMeasure (measure : Blob → Nat) : Prop :=
  ∀ {old new : Blob}, old.SameCode new → new.isEntrant = old.isEntrant → measure new = measure old

/-- Counts the blobs that calls do not enter. -/
def closedCount (blob : Blob) : Nat := if blob.isEntrant then 0 else 1

theorem CodeMeasure.lasting {measure : Blob → Nat} (h : CodeMeasure measure) :
    LastingMeasure measure := fun hsame _ => h hsame

theorem codeMeasure_one : CodeMeasure fun _ => 1 := fun _ => rfl

theorem codeMeasure_size : CodeMeasure size := fun hsame => congrArg ByteArray.size hsame.code

theorem lastingMeasure_closedCount : LastingMeasure closedCount := by
  intro old new _ hentrant
  unfold closedCount
  rw [hentrant]

end Blob

namespace Cache

/-- The sum over all blobs, registered or reclaimed. -/
def census (cache : Cache) (measure : Blob → Nat) : Nat :=
  cache.registered.total measure + cache.reclaimed.total measure

variable {cache before after : Cache} {made k : Nat} {operation : Operation} {method : MethodId}
  {slot : Slot} {id : BlobId} {old blob : Blob} {measure : Blob → Nat}

theorem census_congr (hregistered : after.registered = cache.registered)
    (hreclaimed : after.reclaimed = cache.reclaimed) (measure : Blob → Nat) :
    after.census measure = cache.census measure := by
  unfold census
  rw [hregistered, hreclaimed]

/-! ## §1. Operations that are about no slot. -/

theorem census_setPlacement (hmeasure : Blob.LastingMeasure measure) (cache : Cache)
    (regions : Regions) (id : BlobId) (placement : Placement) :
    ({ cache with regions }.setPlacement id placement).census measure = cache.census measure := by
  have hsame : ∀ blob : Blob, measure { blob with placement } = measure blob :=
    fun blob => hmeasure ⟨rfl, rfl, rfl, rfl, rfl, rfl⟩ rfl
  unfold census
  show (cache.registered.modify id _).total measure + (cache.reclaimed.modify id _).total measure = _
  rw [Table.total_modify_of_same hsame, Table.total_modify_of_same hsame]

theorem census_markZombie (hmeasure : Blob.LastingMeasure measure)
    (hblob : cache.registered.get? blob.id = some blob) (hstage : blob.liveness = .nonEntrant) :
    (cache.markZombie blob).census measure = cache.census measure := by
  have hentrant : blob.giveUp.isEntrant = blob.isEntrant := by
    unfold Blob.isEntrant Blob.giveUp
    rw [hstage]
    rfl
  have hsame : measure blob.giveUp = measure blob := hmeasure (.giveUp blob) hentrant
  have hreplace := Table.total_replace hblob measure blob.giveUp
  unfold census
  show (cache.registered.insert blob.id blob.giveUp).total measure + cache.reclaimed.total measure = _
  omega

/-- Who is reclaimed passes from one table to the other. -/
theorem census_strikeOut (hblob : cache.registered.get? blob.id = some blob)
    (hnew : cache.reclaimed.get? blob.id = none) (region : Region) (measure : Blob → Nat) :
    (cache.strikeOut region blob).census measure = cache.census measure := by
  have herase := Table.total_erase hblob measure
  unfold census
  show (cache.registered.erase blob.id).total measure
    + (cache.reclaimed.insert blob.id blob).total measure = _
  rw [Table.total_insert hnew]
  omega

/-- Who is registered has not been reclaimed. -/
theorem Retired.get?_reclaimed (h : cache.Retired) (hblob : cache.registered.get? id = some blob) :
    cache.reclaimed.get? id = none := by
  cases hreclaimed : cache.reclaimed.get? id with
  | none => rfl
  | some gone =>
    rw [(h id gone hreclaimed).2] at hblob
    cases hblob

theorem census_step (hmeasure : Blob.LastingMeasure measure) (h : before.Sound made)
    (hslot : operation.slot? = none) (hstep : Step operation k before after) :
    after.census measure = before.census measure := by
  cases hstep with
  | noted hafter => exact census_congr hafter.registered hafter.reclaimed measure
  | unplaced | reserved | released => rfl
  | entered hsome => simp [hslot] at hsome
  | vacated hsome => simp [hslot] at hsome
  | moved | carried => exact census_setPlacement hmeasure _ _ _ _
  | gaveUp _ hblob hstage => exact census_markZombie hmeasure hblob hstage
  | reclaimed _ hblob => exact census_strikeOut hblob (h.retired.get?_reclaimed hblob) _ measure

/-- **An operation that is about no slot leaves the census.** -/
theorem census_steps (hmeasure : Blob.LastingMeasure measure) (h : before.Sound made)
    (hroom : made + k < UInt64.size) (hslot : operation.slot? = none)
    (hsteps : Steps operation before k after) : after.census measure = before.census measure := by
  induction hsteps with
  | refl => rfl
  | @tail n k middle last hsteps hstep ih =>
    have hroom' : made + n < UInt64.size := by omega
    exact (census_step hmeasure (sound_steps h hroom' hsteps) hslot hstep).trans (ih hroom')

/-! ## §2. Deeds. -/

/-- How many blobs leave a slot when it is filled or emptied. -/
def leavers (cache : Cache) (method : MethodId) (slot : Slot) : Nat :=
  ((cache.status method).occupant? slot).toList.length

theorem census_lodge (hnew : cache.registered.get? blob.id = none) (kind : RegionKind)
    (region : Region) (measure : Blob → Nat) :
    (cache.lodge kind region blob).census measure = measure blob + cache.census measure := by
  unfold census
  show (cache.registered.insert blob.id blob).total measure + cache.reclaimed.total measure = _
  rw [Table.total_insert hnew, Nat.add_assoc]

/-- Closing who is in a slot exchanges his measure, and touches nobody who was reclaimed. -/
theorem census_closeBlob (hold : cache.registered.get? id = some old)
    (hgone : cache.reclaimed.get? id = none) (measure : Blob → Nat) :
    (cache.closeBlob id).census measure + measure old = cache.census measure + measure old.close := by
  have hclose := Table.total_modify hold measure Blob.close
  unfold census
  show (cache.registered.modify id Blob.close).total measure
    + (cache.reclaimed.modify id Blob.close).total measure + measure old = _
  rw [Table.modify_of_none hgone]
  omega

theorem reclaimed_closeBlob (hgone : cache.reclaimed.get? id = none) :
    (cache.closeBlob id).reclaimed = cache.reclaimed :=
  Table.modify_of_none hgone Blob.close

/-- What a deed adds to the census: whom it has made, and one closed blob if somebody left the slot.
It reclaims nobody. -/
structure Adds (before : Cache) (deed : Deed) (after : Cache) : Prop where
  reclaimed : after.reclaimed = before.reclaimed
  code : ∀ {measure}, Blob.CodeMeasure measure → after.census measure
    = before.census measure + (deed.made?.toList.map measure).sum
  closed : after.census Blob.closedCount
    = before.census Blob.closedCount + before.leavers deed.blob.method deed.blob.slot

theorem census_closeOccupant
    (hoccupant : ∀ {id}, (cache.status method).occupant? slot = some id →
      ∃ old, cache.registered.get? id = some old ∧ old.liveness = .entrant
        ∧ cache.reclaimed.get? id = none) :
    (cache.closeOccupant method slot).reclaimed = cache.reclaimed
      ∧ (∀ {measure}, Blob.CodeMeasure measure →
          (cache.closeOccupant method slot).census measure = cache.census measure)
      ∧ (cache.closeOccupant method slot).census Blob.closedCount
          = cache.census Blob.closedCount + cache.leavers method slot := by
  unfold closeOccupant leavers
  cases hin : (cache.status method).occupant? slot with
  | none => exact ⟨rfl, fun _ => rfl, rfl⟩
  | some id =>
    obtain ⟨old, hold, hstage, hgone⟩ := hoccupant hin
    refine ⟨reclaimed_closeBlob hgone, ?_, ?_⟩
    · intro measure hmeasure
      have hclose := census_closeBlob hold hgone measure
      rw [hmeasure (Blob.SameCode.close old)] at hclose
      exact Nat.add_right_cancel hclose
    · -- he was entrant, and counts from now on
      have hclose := census_closeBlob hold hgone Blob.closedCount
      have hopen : old.closedCount = 0 := by simp [Blob.closedCount, Blob.isEntrant, hstage]
      have hclosed : old.close.closedCount = 1 := by
        simp [Blob.closedCount, Blob.isEntrant, Blob.liveness_close_ne]
      rw [hopen, hclosed] at hclose
      exact hclose

theorem Sound.leaver (h : cache.Sound made)
    (hin : (cache.status method).occupant? slot = some id) :
    ∃ old, cache.registered.get? id = some old ∧ old.liveness = .entrant
      ∧ cache.reclaimed.get? id = none := by
  obtain ⟨old, hold, hmethod, hslot⟩ := h.slots.occupant hin
  subst hmethod hslot
  exact ⟨old, hold, (h.slots.entrant_iff hold).mpr hin, h.retired.get?_reclaimed hold⟩

theorem Adds.note {deed : Deed} {last : Cache} (h : before.Adds deed after)
    (hnote : SameHoldings after last) : before.Adds deed last where
  reclaimed := hnote.reclaimed.trans h.reclaimed
  code hmeasure := (census_congr hnote.registered hnote.reclaimed _).trans (h.code hmeasure)
  closed := (census_congr hnote.registered hnote.reclaimed _).trans h.closed

theorem Makes.adds {deed : Deed} (hmade : deed.made? = some blob) (hmakes : before.Makes blob after)
    (h : before.Sound made) (hroom : made + 1 < UInt64.size) : before.Adds deed after := by
  obtain ⟨kind, region, -, hafter⟩ := hmakes.enters
  have hfresh := h.handles.fresh (by omega)
  rw [← hmakes.id] at hfresh
  have hfreshRegistered := (Option.or_eq_none_iff.mp hfresh).1
  have hlodge := census_lodge hfreshRegistered kind region
  have hleaver : ∀ {id}, ((before.lodge kind region blob).status blob.method).occupant? blob.slot
      = some id → ∃ old, (before.lodge kind region blob).registered.get? id = some old
        ∧ old.liveness = .entrant ∧ (before.lodge kind region blob).reclaimed.get? id = none := by
    intro id hin
    obtain ⟨old, hold, hstage, hgone⟩ := h.leaver hin
    refine ⟨old, ?_, hstage, hgone⟩
    -- whoever leaves the slot is another
    rw [get?_registered_lodge, if_neg, hold]
    rintro rfl
    rw [hfreshRegistered] at hold
    cases hold
  obtain ⟨hreclaimed, hcode, hclosed⟩ := census_closeOccupant hleaver
  have henter : before.Adds deed ((before.lodge kind region blob).enter blob) := by
    constructor
    case reclaimed => exact hreclaimed
    case code =>
      intro measure hmeasure
      rw [hmade]
      show ((before.lodge kind region blob).closeOccupant blob.method blob.slot).census measure = _
      rw [hcode hmeasure, hlodge, Nat.add_comm]
      simp
    case closed =>
      rw [Deed.blob_of_made? hmade]
      show ((before.lodge kind region blob).closeOccupant blob.method blob.slot).census _ = _
      have hopen : blob.closedCount = 0 := by
        simp [Blob.closedCount, Blob.isEntrant, hmakes.entrant]
      rw [hclosed, hlodge, hopen, Nat.zero_add]
      rfl
  exact henter.note hafter

/-- **What a deed adds to the census.** -/
theorem Does.adds {deed : Deed} {outcome : Outcome}
    (hdoes : Does operation before (some deed) outcome after) (h : before.Sound made)
    (hroom : made + before.attempts operation < UInt64.size) : before.Adds deed after := by
  cases hdoes with
  | installed _ _ hattempts hmakes | replaced _ _ _ _ hattempts hmakes =>
    rw [hattempts] at hroom
    exact hmakes.adds rfl h hroom
  | @emptied blob _ _ hoccupant hafter =>
    obtain ⟨hreclaimed, hcode, hclosed⟩ := before.census_closeOccupant fun hin => h.leaver hin
    have hvacate : before.Adds (.emptied blob) (before.vacate blob.method blob.slot) :=
      ⟨hreclaimed, hcode, hclosed⟩
    exact hvacate.note hafter

end Cache

end JitCache
