/-
  JitCache.Proofs.Accounting
  ──────────────────────────
  **The books agree after every session.**

  Where a blob is, is written down four times: the blob table registers it, the
  blob knows its placement, a region lists it as a resident, and the region's
  used bytes count it.  Making, moving and reclaiming a blob update them one by
  one, with refusals in between.  As long as nobody calls the regions past the
  blob table, all four say the same.

  The invariant is `Booked`: what a region lists is what the registered blobs
  say of themselves.  Sums and the audit follow from it.

  Main statement:
    `books_agree` — after every session, and who moves between two states of it
-/
import JitCache.Proofs.Audit
import JitCache.Proofs.Session.Aging

namespace JitCache

/-- What the region of a kind would list of a blob. -/
def Blob.residentIn (kind : RegionKind) (blob : Blob) : Option Resident :=
  if blob.region = kind then some ⟨blob.placement.span, blob.size⟩ else none

namespace Cache

/-- The regions list the registered blobs that are placed in them, and nobody else. -/
def Booked (cache : Cache) : Prop :=
  ∀ kind id, (cache.regions.get kind).residents.get? id
    = (cache.registered.get? id).bind (Blob.residentIn kind)

/-- All books agree. -/
structure BooksAgree (cache : Cache) : Prop where
  audit : cache.audit = .ok ()
  resident : ∀ {id blob}, cache.registered.get? id = some blob → ∀ kind,
    (cache.regions.get kind).residents.get? id
      = if blob.region = kind then some ⟨blob.placement.span, blob.size⟩ else none
  registered : ∀ {kind id resident},
    (cache.regions.get kind).residents.get? id = some resident →
      ∃ blob, cache.registered.get? id = some blob ∧ blob.region = kind
  used : ∀ kind, (cache.regions.get kind).used
    = cache.registered.total fun blob => if blob.region = kind then blob.size else 0
  used_le : ∀ kind, (cache.regions.get kind).used ≤ (cache.regions.get kind).capacity.toNat
  capacity : ∀ kind, (cache.regions.get kind).capacity
    = ((Regions.new cache.settings).get kind).capacity
  apart : ∀ {a b first second}, cache.registered.get? a = some first →
    cache.registered.get? b = some second → a ≠ b → first.region = second.region →
      ∀ byte ∈ first.placement.span, byte ∉ second.placement.span

variable {cache before after first last : Cache} {made k : Nat} {operation : Operation}
  {id : BlobId} {old new : Blob}

/-! ## §1. Every step keeps the books. -/

/-- Being closed concerns no region. -/
theorem bind_residentIn_close {p : Prop} [Decidable p] (found : Option Blob) (kind : RegionKind) :
    (if p then found.map Blob.close else found).bind (Blob.residentIn kind)
      = found.bind (Blob.residentIn kind) := by
  split
  · cases found <;> rfl
  · rfl

theorem region_of_reserve {kind : RegionKind} {blob : BlobId} {size : Nat} {placement : Placement}
    {region : Region} (h : cache.regions.Sound)
    (hreserve : (cache.regions.get kind).reserve blob size = (.ok placement, region)) :
    placement.region = kind := by
  obtain ⟨-, -, hregion, -⟩ := Region.reserve_eq_ok_iff.mp hreserve
  exact hregion.trans (h.kind kind)

theorem Booked.congr (h : before.Booked) (hafter : SameHoldings before after) : after.Booked := by
  intro kind id
  rw [hafter.regions, hafter.registered]
  exact h kind id

theorem Booked.vacate (h : cache.Booked) (method : MethodId) (slot : Slot) :
    (cache.vacate method slot).Booked := by
  intro kind id
  rw [regions_vacate, get?_registered_vacate, bind_residentIn_close]
  exact h kind id

/-- A new blob is listed by the region that has reserved its room. -/
theorem Booked.enter {kind : RegionKind} {region : Region} {new : Blob} (h : cache.Booked)
    (hregions : cache.regions.Sound) (hfresh : cache.registered.get? new.id = none)
    (hreserve : (cache.regions.get kind).reserve new.id new.size = (.ok new.placement, region)) :
    ((cache.lodge kind region new).enter new).Booked := by
  have hregion : new.region = kind := region_of_reserve hregions hreserve
  intro other id
  rw [regions_enter, get?_registered_enter, bind_residentIn_close,
    get?_registered_lodge]
  show ((cache.regions.set kind region).get other).residents.get? id = _
  rw [Regions.get_set]
  by_cases hid : new.id = id
  · rw [if_pos hid]
    show _ = new.residentIn other
    unfold Blob.residentIn
    rw [hregion]
    -- the region that has reserved lists the blob; no other knows of its fresh handle
    by_cases hkind : kind = other
    · rw [if_pos hkind, if_pos hkind, Region.get?_residents_reserve hreserve, if_pos hid]
    · rw [if_neg hkind, if_neg hkind, h other id, ← hid, hfresh]
      rfl
  · rw [if_neg hid, ← h other id]
    by_cases hkind : kind = other
    · rw [if_pos hkind, Region.get?_residents_reserve hreserve, if_neg hid, hkind]
    · rw [if_neg hkind]

/-- A transfer changes the lists of two regions as it changes the blob's placement. -/
theorem Booked.transfer {blob : Blob} {target : RegionKind} {placement : Placement}
    {regions : Regions} (h : cache.Booked) (hregions : cache.regions.Sound)
    (hblob : cache.registered.get? blob.id = some blob) (hne : blob.region ≠ target)
    (htransfer : cache.regions.transfer blob.region target blob.id blob.size blob.placement
      = (.ok placement, regions)) :
    ({ cache with regions }.setPlacement blob.id placement).Booked := by
  have hregion : placement.region = target := by
    rcases Regions.transfer_eq_ok_iff.mp htransfer with ⟨heq, -⟩ | ⟨-, _, _, _, hreserve, -⟩
    · exact absurd heq hne
    · exact region_of_reserve hregions hreserve
  intro kind id
  rw [setPlacement, get?_registered_modifyHeld]
  show (regions.get kind).residents.get? id = _
  rw [Regions.get?_residents_transfer hne htransfer]
  by_cases hid : blob.id = id
  · subst hid
    rw [if_pos rfl, if_pos rfl]
    show _ = ((cache.registered.get? blob.id).map _).bind _
    rw [hblob]
    show _ = if placement.region = kind then some (Resident.mk placement.span blob.size) else none
    rw [hregion]
    -- the source has the blob no more, and only the target lists it now
    by_cases hsource : blob.region = kind
    · rw [if_pos hsource, if_neg]
      exact fun heq => hne (hsource.trans heq.symm)
    · rw [if_neg hsource, h kind blob.id, hblob]
      split
      · rfl
      · exact if_neg hsource
  · rw [if_neg hid, if_neg hid]
    exact h kind id

theorem Booked.markZombie {blob : Blob} (h : cache.Booked)
    (hblob : cache.registered.get? blob.id = some blob) : (cache.markZombie blob).Booked := by
  intro kind id
  rw [get?_registered_markZombie]
  -- giving a blob up leaves its placement and its size
  show (cache.regions.get kind).residents.get? id = _
  rw [h kind id]
  split
  · next heq =>
    rw [← heq, hblob]
    rfl
  · rfl

/-- Who is struck out of the register has been released by the region that listed him. -/
theorem Booked.strikeOut {blob : Blob} {placement : Placement} {region : Region} (h : cache.Booked)
    (hblob : cache.registered.get? blob.id = some blob)
    (hrelease : (cache.regions.get blob.region).release blob.id = (.ok placement, region)) :
    (cache.strikeOut region blob).Booked := by
  intro kind id
  rw [get?_registered_strikeOut]
  show ((cache.regions.set blob.region region).get kind).residents.get? id = _
  rw [Regions.get_set]
  by_cases hid : blob.id = id
  · subst hid
    rw [if_pos rfl]
    by_cases hkind : blob.region = kind
    · rw [if_pos hkind, Region.get?_residents_release hrelease, if_pos rfl]
      rfl
    · rw [if_neg hkind, h kind blob.id, hblob]
      exact if_neg hkind
  · rw [if_neg hid, ← h kind id]
    by_cases hkind : blob.region = kind
    · rw [if_pos hkind, Region.get?_residents_release hrelease, if_neg hid, hkind]
    · rw [if_neg hkind]

theorem booked_step (h : before.Booked) (hsound : before.Sound made) (hroom : made + k < UInt64.size)
    (hmanaged : operation.isDirect = false) (hstep : Step operation k before after) :
    after.Booked := by
  cases hstep with
  | noted hafter => exact h.congr hafter
  | unplaced => exact h
  | entered _ _ hreserve =>
    have hfresh := hsound.handles.fresh (by omega)
    rw [held?, Option.or_eq_none_iff] at hfresh
    exact h.enter hsound.regions hfresh.1 hreserve
  | vacated => exact h.vacate _ _
  | moved _ hblob hne htransfer => exact h.transfer hsound.regions hblob hne htransfer
  | carried hdirect | reserved hdirect | released hdirect => simp [hmanaged] at hdirect
  | gaveUp _ hblob => exact h.markZombie hblob
  | reclaimed _ hblob _ hrelease => exact h.strikeOut hblob hrelease

theorem booked_steps (h : first.Booked) (hsound : first.Sound made) (hroom : made + k < UInt64.size)
    (hmanaged : operation.isDirect = false) (hsteps : Steps operation first k last) :
    last.Booked := by
  induction hsteps with
  | refl => exact h
  | @tail n k middle last hsteps hstep ih =>
    have hroom' : made + n < UInt64.size := by omega
    exact booked_step (ih hroom') (sound_steps hsound hroom' hsteps) (by omega) hmanaged hstep

/-! ## §2. Sums and the audit. -/

/-- A region's list is a view of the register. -/
theorem Booked.residents_eq (h : cache.Booked) (kind : RegionKind) :
    (cache.regions.get kind).residents = cache.registered.filterMap (Blob.residentIn kind) := by
  apply Table.ext
  intro id
  rw [Table.get?_filterMap]
  exact h kind id

/-- Summing over a region's list is summing over the blobs placed there. -/
theorem Booked.total_residents (h : cache.Booked) (kind : RegionKind) (measure : Resident → Nat) :
    (cache.regions.get kind).residents.total measure
      = cache.registered.total fun blob =>
          if blob.region = kind then measure ⟨blob.placement.span, blob.size⟩ else 0 := by
  rw [h.residents_eq kind, Table.total_filterMap]
  congr 1
  funext blob
  unfold Blob.residentIn
  split <;> rfl

theorem Booked.used_eq (h : cache.Booked) (hregions : cache.regions.Sound) (kind : RegionKind) :
    (cache.regions.get kind).used
      = cache.registered.total fun blob => if blob.region = kind then blob.size else 0 := by
  rw [(hregions.region kind).used_eq, Region.residentBytes]
  exact h.total_residents kind Resident.size

/-- Whoever is listed is registered, placed in the region and of the size that is listed. -/
theorem Booked.registered_of_resident (h : cache.Booked) {kind : RegionKind} {resident : Resident}
    (hresident : (cache.regions.get kind).residents.get? id = some resident) :
    ∃ blob, cache.registered.get? id = some blob ∧ blob.region = kind
      ∧ blob.placement.span = resident.span ∧ blob.size = resident.size := by
  rw [h kind id] at hresident
  obtain ⟨blob, hblob, hlisted⟩ := Option.bind_eq_some_iff.mp hresident
  unfold Blob.residentIn at hlisted
  split at hlisted
  · next hregion =>
    cases hlisted
    exact ⟨blob, hblob, hregion, rfl, rfl⟩
  · cases hlisted

theorem Booked.registerMatches (h : cache.Booked) : cache.RegisterMatches := by
  have hresident : ∀ {kind id resident},
      (cache.regions.get kind).residents.get? id = some resident →
        ∃ blob, cache.registered.get? id = some blob ∧ blob.region = kind
          ∧ blob.size = resident.size := by
    intro kind id resident hget
    obtain ⟨blob, hblob, hregion, -, hsize⟩ := h.registered_of_resident hget
    exact ⟨blob, hblob, hregion, hsize⟩
  refine listingsCoincide_iff.mp fun id kind size => ⟨?_, ?_⟩
  · intro hregistered
    obtain ⟨blob, hblob, hregion, hsize⟩ := hregistered
    exact ⟨_, by rw [h kind id, hblob, Option.bind_some, Blob.residentIn, if_pos hregion], hsize⟩
  · intro hlisted
    obtain ⟨resident, hget, hsize⟩ := hlisted
    exact hsize ▸ hresident hget

/-- An audit of agreeing books passes. -/
theorem Booked.audit_eq_ok (h : cache.Booked) (hregions : cache.regions.Sound) :
    cache.audit = .ok () :=
  (audit_eq_ok_iff_matches hregions).mpr h.registerMatches

theorem Booked.booksAgree (h : cache.Booked) (hsound : cache.Sound made) : cache.BooksAgree where
  audit := h.audit_eq_ok hsound.regions
  resident := by
    intro id blob hblob kind
    rw [h kind id, hblob]
    rfl
  registered := by
    intro kind id resident hresident
    obtain ⟨blob, hblob, hregion, -⟩ := h.registered_of_resident hresident
    exact ⟨blob, hblob, hregion⟩
  used := h.used_eq hsound.regions
  used_le kind := (hsound.regions.region kind).used_le
  capacity kind := (hsound.shape kind).capacity
  apart := by
    intro a b first second hfirst hsecond hne hregion
    have hlisted : ∀ {id blob}, cache.registered.get? id = some blob →
        blob.region = second.region →
        (cache.regions.get second.region).residents.get? id
          = some ⟨blob.placement.span, blob.size⟩ := by
      intro id blob hblob heq
      rw [h second.region id, hblob]
      exact if_pos heq
    exact (hsound.regions.region second.region).apart (hlisted hfirst hregion)
      (hlisted hsecond rfl) hne

/-! ## §3. Who is moved. -/

/-- Why an operation that is not past the table changes where a blob is placed. -/
def MayMove (operation : Operation) (blob : Blob) : Prop :=
  (∃ target, operation = .move blob.id target)
    ∨ ∃ policy frames, operation = .collect policy frames ∧ policy.consolidate = true
        ∧ blob.liveness = .entrant ∧ blob.region.holdsMethods = true

/-- A pass moves a blob out of the region it drains: by the books, the blob's own. -/
theorem mayMove_of_moves {target : RegionKind} (h : cache.Booked)
    (hblob : cache.registered.get? old.id = some old) (hwhy : operation.Moves cache old target) :
    MayMove operation old := by
  rcases hwhy with hmove | ⟨policy, frames, source, resident, hpass, hconsolidate, hentrant,
    hmethods, hresident, -⟩
  · exact .inl ⟨target, hmove⟩
  · obtain ⟨blob, hfound, hregion, -⟩ := h.registered_of_resident hresident
    obtain rfl := Option.some.inj (hfound.symm.trans hblob)
    exact .inr ⟨policy, frames, hpass, hconsolidate, hentrant, hregion ▸ hmethods⟩

theorem placement_step (h : before.Booked) (hsound : before.Sound made)
    (hroom : made + k < UInt64.size) (hmanaged : operation.isDirect = false)
    (hstep : Step operation k before after) (hold : before.held? old.id = some old)
    (hnew : after.held? old.id = some new) :
    new.placement = old.placement ∨ MayMove operation old := by
  obtain ⟨found, hfound, hchange, -⟩ := changes_step hsound hroom hstep hold
  obtain rfl := Option.some.inj (hfound.symm.trans hnew)
  cases hchange with
  | kept | closed | givenUp => exact .inl rfl
  | placed hwhy =>
    rcases hwhy with hdirect | ⟨hblob, target, hmoves⟩
    · simp [hmanaged] at hdirect
    · exact .inr (mayMove_of_moves h hblob hmoves)

/-- What may be moved by a later step of an operation could be moved by the operation: until then
it was where it had been, and no pass makes a blob entrant. -/
theorem MayMove.of_ages {mid : Blob} (h : MayMove operation mid) (hcode : old.SameCode mid)
    (hages : old.Ages operation cache mid) (hplacement : mid.placement = old.placement) :
    MayMove operation old := by
  rcases h with ⟨target, hmove⟩ | ⟨policy, frames, hpass, hconsolidate, hentrant, hmethods⟩
  · rw [hcode.id] at hmove
    exact .inl ⟨target, hmove⟩
  · refine .inr ⟨policy, frames, hpass, hconsolidate, ?_, ?_⟩
    · cases hages with
      | stays hsame => exact hsame.symm.trans hentrant
      | closed _ _ hmid => simp [hmid] at hentrant
      | givenUp _ _ hmid => simp [hmid] at hentrant
    · unfold Blob.region at hmethods ⊢
      rw [← hplacement]
      exact hmethods

theorem placement_steps (h : first.Booked) (hsound : first.Sound made)
    (hroom : made + k < UInt64.size) (hmanaged : operation.isDirect = false)
    (hsteps : Steps operation first k last) (hold : first.held? old.id = some old)
    (hnew : last.held? old.id = some new) :
    new.placement = old.placement ∨ MayMove operation old := by
  induction hsteps generalizing new with
  | refl =>
    obtain rfl := Option.some.inj (hold.symm.trans hnew)
    exact .inl rfl
  | @tail n k middle last hsteps hstep ih =>
    have hroom' : made + n < UInt64.size := by omega
    have hsound' := sound_steps hsound hroom' hsteps
    obtain ⟨mid, hmid, hfollows⟩ := follows_steps hsound hroom' hsteps hold
    rcases ih hroom' hmid with hplacement | hmoved
    · -- not placed anew so far: the last step decides
      rw [← hfollows.code.id] at hmid hnew
      rcases placement_step (booked_steps h hsound hroom' hmanaged hsteps) hsound' (by omega)
        hmanaged hstep hmid hnew with hsame | hmoved
      · exact .inl (hsame.trans hplacement)
      · exact .inr (hmoved.of_ages hfollows.code hfollows.ages hplacement)
    · exact .inr hmoved

/-! ## §4. After every session. -/

theorem booked_after {operations : List Operation} (h : cache.Booked) (hsound : cache.Sound made)
    (hroom : made + cache.attemptsIn operations < UInt64.size)
    (hmanaged : ∀ operation ∈ operations, operation.isDirect = false) :
    (cache.after operations).Booked := by
  induction operations generalizing cache made with
  | nil => exact h
  | cons operation rest ih =>
    rw [attemptsIn, ← Nat.add_assoc] at hroom
    have hroom' : made + cache.attempts operation < UInt64.size := by omega
    have hnow := hmanaged operation List.mem_cons_self
    rw [after_cons]
    refine ih ?_ (sound_perform hsound operation hroom') hroom ?_
    · exact booked_steps h hsound hroom' hnow (perform_steps hsound.filed operation)
    · exact fun other hmem => hmanaged other (List.mem_cons_of_mem _ hmem)

theorem booked_ofSettings (settings : Settings) : (ofSettings settings).Booked := by
  intro kind id
  cases kind <;> rfl

end Cache

open Cache in
/-- **The books agree after every session** that leaves the regions to the cache; and between two
states of it only those are placed elsewhere whom an operation may move. -/
theorem books_agree {settings : Settings} {start : Cache} {operations : List Operation}
    (hnew : Cache.new settings = .ok start)
    (hmanaged : ∀ operation ∈ operations, operation.isDirect = false)
    (hroom : start.attemptsIn operations < UInt64.size) :
    (start.after operations).BooksAgree
      ∧ ∀ earlier operation later, operations = earlier ++ operation :: later →
          ∀ {id old new}, (start.after earlier).held? id = some old →
            (start.after (earlier ++ [operation])).held? id = some new →
              new.placement ≠ old.placement →
                (∃ target, operation = .move id target)
                  ∨ ∃ policy frames, operation = .collect policy frames
                      ∧ policy.consolidate = true
                      ∧ old.liveness = .entrant ∧ old.region.holdsMethods = true := by
  have hbooked : ∀ {operations : List Operation},
      (∀ operation ∈ operations, operation.isDirect = false) →
      start.attemptsIn operations < UInt64.size → (start.after operations).Booked := by
    intro operations hmanaged hroom
    rw [eq_of_new hnew] at hroom ⊢
    exact booked_after (booked_ofSettings settings) (sound_ofSettings settings)
      (by rwa [Nat.zero_add]) hmanaged
  refine ⟨(hbooked hmanaged hroom).booksAgree (sound_after hnew hroom), ?_⟩
  rintro earlier operation later rfl id old new hold hget hne
  rw [attemptsIn_append, attemptsIn] at hroom
  have hroomEarlier : start.attemptsIn earlier < UInt64.size := by omega
  have hsound := sound_after hnew hroomEarlier
  have hid := hsound.filed.held hold
  subst hid
  rw [after_concat] at hget
  rcases placement_steps
    (hbooked (fun other hmem => hmanaged other (List.mem_append_left _ hmem)) hroomEarlier) hsound
    (by omega) (hmanaged operation (List.mem_append_right _ List.mem_cons_self))
    (perform_steps hsound.filed operation) hold hget with hsame | hmoved
  · exact absurd hsame hne
  · exact hmoved

/-- Two methods are compiled, the one in a region of its own; a pass empties that region into the
fuller one, after which the second method's code is made again. -/
def relocation : List Operation :=
  [.install ⟨1⟩ ⟨.tier4, ⟨#[1, 2, 3]⟩⟩ .standard, .install ⟨2⟩ ⟨.tier2, ⟨#[4, 5]⟩⟩ .osr,
    .collect ⟨true, 25, true⟩ {}, .replace ⟨2⟩ .osr none none]

theorem books_agree_after_relocation :
    ((Cache.ofSettings {}).after relocation).registered.size = 3
      ∧ (((Cache.ofSettings {}).after relocation).held? ⟨2⟩).map Blob.region = some .nonProfiled
      ∧ ((Cache.ofSettings {}).after relocation).BooksAgree := by
  have hnew : Cache.new {} = .ok (Cache.ofSettings {}) := rfl
  have hmanaged : ∀ operation ∈ relocation, operation.isDirect = false := by decide
  exact ⟨by decide, by decide, (books_agree hnew hmanaged (by decide)).1⟩

end JitCache
