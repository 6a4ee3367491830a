/-
  JitCache.Proofs.Collection.Reclaiming
  ─────────────────────────────────────
  **What marking and reclaiming leave of a consistent cache.**

  The first two phases of a pass work on lists read off the table, and look
  everything up again when a blob has its turn.  On a cache in order that is to
  no avail: whoever is on the list is registered at that stage, and its method
  has a record, so nobody is passed over (`markIfUnreferenced_eq`,
  `reclaim_of_resident`, `reclaim_of_not_resident`).  If the books agree as well,
  every zombie is resident where its placement says, and reclaiming never stops
  half-way.  Together the two phases do one thing: they take out of the register
  who is neither entrant nor on a call stack, and count whom they took.

  Main statements:
    `Sound.markZombies_eq`      — the first phase gives up whom nothing can execute
    `registered_markZombies`    — what it makes of the register
    `reclaimEach_append`        — the second phase, as far as it is not refused
    `Consistent.reclaimZombies` — on a consistent cache it never is
    `Consistent.clear`          — both phases together
-/
import JitCache.Proofs.Accounting
import JitCache.Proofs.Collection.Report

namespace JitCache

/-- Whether a pass keeps a blob: new calls enter it, or a frame executes it. -/
def FrameSnapshot.keeps (frames : FrameSnapshot) (blob : Blob) : Bool :=
  blob.isEntrant || frames.contains blob.entry

/-- Whether a pass gives up a blob: it is non-entrant, and no frame executes it. -/
def Blob.Doomed (frames : FrameSnapshot) (blob : Blob) : Prop :=
  blob.liveness = .nonEntrant ∧ frames.contains blob.entry = false

instance (frames : FrameSnapshot) (blob : Blob) : Decidable (blob.Doomed frames) :=
  inferInstanceAs (Decidable (_ ∧ _))

/-- A blob after the first phase of a pass. -/
def Blob.marked (frames : FrameSnapshot) (blob : Blob) : Blob :=
  if blob.Doomed frames then blob.giveUp else blob

namespace Cache

/-- A cache in order whose books agree, with handles left to deal out. -/
structure Consistent (made : Nat) (cache : Cache) : Prop where
  room : made < UInt64.size
  sound : cache.Sound made
  booked : cache.Booked

/-- Gives up these blobs, one after the other. -/
def markAll (blobs : List Blob) (cache : Cache) : Cache := blobs.foldl markZombie cache

/-- Files blobs under their handles. -/
def fileAll (blobs : List Blob) (table : Table BlobId Blob) : Table BlobId Blob :=
  blobs.foldl (fun table blob => table.insert blob.id blob) table

/-- No zombie waits for reclamation. -/
def Swept (cache : Cache) : Prop :=
  ∀ id blob, cache.registered.get? id = some blob → blob.liveness ≠ .zombie

/-- The registered blobs that a pass with these frames does not keep. -/
def leaving (cache : Cache) (frames : FrameSnapshot) : Table BlobId Blob :=
  cache.registered.filterMap fun blob => if frames.keeps blob then none else some blob

variable {cache after : Cache} {made : Nat} {operation : Operation} {policy : CollectionPolicy}
  {frames : FrameSnapshot} {blob : Blob} {blobs : List Blob} {id : BlobId}

/-! ## §1. Consistent caches. -/

theorem Consistent.steps (h : cache.Consistent made) (hmanaged : operation.isDirect = false)
    (hsteps : Steps operation cache 0 after) : after.Consistent made where
  room := h.room
  sound := sound_steps h.sound h.room hsteps
  booked := booked_steps h.booked h.sound h.room hmanaged hsteps

theorem consistent_after {settings : Settings} {start : Cache} {operations : List Operation}
    (hnew : Cache.new settings = .ok start)
    (hmanaged : ∀ operation ∈ operations, operation.isDirect = false)
    (hroom : start.attemptsIn operations < UInt64.size) :
    (start.after operations).Consistent (start.attemptsIn operations) where
  room := hroom
  sound := sound_after hnew hroom
  booked := by
    rw [eq_of_new hnew] at hroom ⊢
    exact booked_after (booked_ofSettings settings) (sound_ofSettings settings)
      (by rwa [Nat.zero_add]) hmanaged

/-- A registered blob is resident where its placement says. -/
theorem Consistent.resident (h : cache.Consistent made)
    (hblob : cache.registered.get? id = some blob) :
    (cache.regions.get blob.region).residents.get? id
      = some ⟨blob.placement.span, blob.size⟩ := by
  rw [h.booked blob.region id, hblob]
  exact if_pos rfl

/-- The residents of a region are the registered blobs that are placed there. -/
theorem Consistent.mem_residents_iff (h : cache.Consistent made) {kind : RegionKind} :
    id ∈ (cache.region kind).residents.keys ↔
      ∃ blob, cache.registered.get? id = some blob ∧ blob.region = kind := by
  rw [Table.mem_keys_iff, Table.contains_iff]
  constructor
  · rintro ⟨resident, hresident⟩
    obtain ⟨blob, hblob, hregion, -⟩ := h.booked.registered_of_resident hresident
    exact ⟨blob, hblob, hregion⟩
  · rintro ⟨blob, hblob, rfl⟩
    exact ⟨_, h.resident hblob⟩

/-! ## §2. Marking. -/

/-- Who is non-entrant is in no slot, so only frames can refer to it. -/
theorem Sound.isUnreferenced_eq (h : cache.Sound made)
    (hblob : cache.registered.get? blob.id = some blob) (hstage : blob.liveness = .nonEntrant) :
    cache.isUnreferenced frames blob = !frames.contains blob.entry := by
  have hslots : (cache.status blob.method).holds blob.id = false := by
    rw [holds_eq_false_iff]
    intro slot hin
    obtain ⟨other, hother, -, hslot⟩ := h.slots.occupant hin
    obtain rfl := Option.some.inj (hblob.symm.trans hother)
    rw [← hslot] at hin
    have hentrant := (h.slots.entrant_iff hblob).mpr hin
    rw [hstage] at hentrant
    cases hentrant
  unfold isUnreferenced
  rw [hslots, Bool.not_false, Bool.true_and]

/-- The blobs a pass gives up: non-entrant ones that no frame executes. -/
theorem Sound.mem_unreferenced_iff (h : cache.Sound made) :
    blob ∈ (cache.atStage .nonEntrant).filter (cache.isUnreferenced frames) ↔
      cache.registered.get? blob.id = some blob ∧ blob.liveness = .nonEntrant
        ∧ frames.contains blob.entry = false := by
  rw [List.mem_filter, h.filed.mem_atStage_iff, and_assoc]
  refine and_congr_right fun hblob => and_congr_right fun hstage => ?_
  rw [h.isUnreferenced_eq hblob hstage, Bool.not_eq_true']

/-- Who is registered and non-entrant is given up just if nothing can execute it. -/
theorem markIfUnreferenced_eq (hrecorded : cache.Recorded)
    (hblob : cache.registered.get? blob.id = some blob) (hstage : blob.liveness = .nonEntrant) :
    cache.markIfUnreferenced frames blob
      = if cache.isUnreferenced frames blob then (true, cache.markZombie blob)
        else (false, cache) := by
  unfold markIfUnreferenced
  rw [hblob]
  simp only
  rw [if_neg (hrecorded.not_missing hblob)]
  by_cases hunreferenced : cache.isUnreferenced frames blob = true
  · rw [if_pos hunreferenced, if_neg (by rw [hunreferenced]; exact Bool.noConfusion), if_pos hstage]
  · rw [if_neg hunreferenced, if_pos ((Bool.not_eq_true _).mp hunreferenced)]

/-- Of a list read off the register, those are given up that nothing can execute. -/
theorem markEach_eq (hall : cache.AllAt .nonEntrant blobs) (hrecorded : cache.Recorded)
    {count : Nat} (hcount : count ≤ Word.maxValue) :
    markEach frames blobs count cache
      = (Word.add count (blobs.filter (cache.isUnreferenced frames)).length,
          markAll (blobs.filter (cache.isUnreferenced frames)) cache) := by
  induction blobs generalizing cache count with
  | nil =>
    rw [markEach, List.filter_nil, List.length_nil, Word.add_zero hcount]
    rfl
  | cons blob rest ih =>
    have hblob := hall.registered blob List.mem_cons_self
    have hstage := hall.stage blob List.mem_cons_self
    rw [markEach, markIfUnreferenced_eq hrecorded hblob hstage]
    by_cases hunreferenced : cache.isUnreferenced frames blob = true
    · -- whoever it is, the others are as they were, and referred to as they were
      have hrest : (cache.markZombie blob).AllAt .nonEntrant rest := by
        refine hall.rest fun other hne => ?_
        rw [get?_registered_markZombie, if_neg hne]
      rw [if_pos hunreferenced, List.filter_cons_of_pos hunreferenced]
      dsimp only
      rw [ih hrest (hrecorded.markZombie hblob) (Word.add_le count 1), Word.add_add,
        List.length_cons, Nat.add_comm _ 1]
      rfl
    · rw [if_neg hunreferenced, List.filter_cons_of_neg hunreferenced]
      exact ih (hall.rest fun _ _ => rfl) hrecorded hcount

/-- **The first phase gives up the non-entrant blobs that nothing can execute**, all of them. -/
theorem Sound.markZombies_eq (h : cache.Sound made) (frames : FrameSnapshot) :
    cache.markZombies frames
      = (Word.add 0 ((cache.atStage .nonEntrant).filter (cache.isUnreferenced frames)).length,
          markAll ((cache.atStage .nonEntrant).filter (cache.isUnreferenced frames)) cache) :=
  markEach_eq (h.filed.allAt_atStage .nonEntrant) h.recorded (Nat.zero_le _)

/-- Marking changes blobs only. -/
theorem regions_markAll (blobs : List Blob) (cache : Cache) :
    (markAll blobs cache).regions = cache.regions := by
  unfold markAll
  induction blobs generalizing cache with
  | nil => rfl
  | cons blob rest ih =>
    rw [List.foldl_cons, ih]
    rfl

theorem get?_registered_markAll_of_ne (hother : ∀ blob ∈ blobs, blob.id ≠ id) :
    (markAll blobs cache).registered.get? id = cache.registered.get? id := by
  unfold markAll
  induction blobs generalizing cache with
  | nil => rfl
  | cons blob rest ih =>
    rw [List.foldl_cons, ih fun other hmem => hother other (List.mem_cons_of_mem _ hmem),
      get?_registered_markZombie, if_neg (hother blob List.mem_cons_self)]

theorem get?_registered_markAll_of_mem (hall : cache.AllAt .nonEntrant blobs)
    (hmem : blob ∈ blobs) :
    (markAll blobs cache).registered.get? blob.id = some blob.giveUp := by
  induction blobs generalizing cache with
  | nil => cases hmem
  | cons head rest ih =>
    obtain ⟨hapart, -⟩ := List.pairwise_cons.mp hall.apart
    show (markAll rest (cache.markZombie head)).registered.get? blob.id = _
    rcases List.mem_cons.mp hmem with rfl | hlater
    · -- nobody after it has its handle
      rw [get?_registered_markAll_of_ne fun other hother => (hapart other hother).symm,
        get?_registered_markZombie, if_pos rfl]
    · refine ih (hall.rest fun other hne => ?_) hlater
      rw [get?_registered_markZombie, if_neg hne]

/-- Marking gives up the non-entrant blobs that no frame executes, and leaves the others. -/
theorem registered_markZombies (h : cache.Sound made) (frames : FrameSnapshot) :
    (cache.markZombies frames).2.registered
      = cache.registered.filterMap fun blob => some (blob.marked frames) := by
  have hall : cache.AllAt .nonEntrant
      ((cache.atStage .nonEntrant).filter (cache.isUnreferenced frames)) :=
    (h.filed.allAt_atStage .nonEntrant).filter _
  apply Table.ext
  intro id
  rw [Table.get?_filterMap, h.markZombies_eq]
  cases hget : cache.registered.get? id with
  | none =>
    rw [get?_registered_markAll_of_ne, hget, Option.bind_none]
    rintro blob hmem rfl
    rw [(h.mem_unreferenced_iff.mp hmem).1] at hget
    cases hget
  | some blob =>
    obtain rfl := h.filed.registered hget
    rw [Option.bind_some]
    unfold Blob.marked
    split
    · next hdoomed =>
      exact get?_registered_markAll_of_mem hall (h.mem_unreferenced_iff.mpr ⟨hget, hdoomed⟩)
    · next hspared =>
      rw [get?_registered_markAll_of_ne, hget]
      intro other hmem heq
      obtain ⟨hother, hdoomed⟩ := h.mem_unreferenced_iff.mp hmem
      rw [heq, hget] at hother
      obtain rfl := Option.some.inj hother
      exact hspared hdoomed

/-- Those given up are no more than the handles dealt out, so they are counted exactly. -/
theorem Sound.fst_markZombies_eq_length (h : cache.Sound made) (hroom : made < UInt64.size)
    (frames : FrameSnapshot) :
    (cache.markZombies frames).1
      = ((cache.atStage .nonEntrant).filter (cache.isUnreferenced frames)).length := by
  have hfew := h.length_atStage_le hroom .nonEntrant
  have hfewer := List.length_filter_le (cache.isUnreferenced frames) (cache.atStage .nonEntrant)
  rw [h.markZombies_eq, Word.add_of_le (by omega), Nat.zero_add]

/-- The number of blobs given up. -/
theorem fst_markZombies (h : cache.Sound made) (hroom : made < UInt64.size)
    (frames : FrameSnapshot) :
    (cache.markZombies frames).1
      = cache.registered.total fun blob => if blob.Doomed frames then 1 else 0 := by
  rw [h.fst_markZombies_eq_length hroom]
  unfold atStage
  rw [List.filter_filter, Table.length_filter_values]
  refine Table.total_congr fun id blob hget => ?_
  obtain rfl := h.filed.registered hget
  unfold Blob.Doomed
  by_cases hstage : blob.liveness = .nonEntrant
  · rw [h.isUnreferenced_eq hget hstage]
    simp [hstage]
  · simp [hstage]

theorem Consistent.markZombies (h : cache.Consistent made) (frames : FrameSnapshot) :
    (cache.markZombies frames).2.Consistent made := by
  have hsteps : Steps (.collect ⟨false, 0, false⟩ frames) cache 0 (cache.markZombies frames).2 :=
    markZombies_steps h.sound.filed rfl
  exact h.steps rfl hsteps

/-! ## §3. Reclaiming. -/

/-- Whether a blob is resident in the region that its placement names. -/
def IsResident (cache : Cache) (blob : Blob) : Prop :=
  (cache.regions.get blob.region).residents.contains blob.id = true

instance (cache : Cache) (blob : Blob) : Decidable (cache.IsResident blob) :=
  inferInstanceAs (Decidable (_ = true))

/-- These blobs have left the register and the regions of their placements.  Everyone else is
registered as before, and resident wherever he was. -/
structure Removes (before : Cache) (blobs : List Blob) (after : Cache) : Prop where
  unregistered : ∀ blob ∈ blobs, after.registered.get? blob.id = none
  registered : ∀ id, (∀ blob ∈ blobs, blob.id ≠ id) →
    after.registered.get? id = before.registered.get? id
  released : ∀ blob ∈ blobs, (after.regions.get blob.region).residents.get? blob.id = none
  resident : ∀ kind id, (∀ blob ∈ blobs, blob.id = id → blob.region ≠ kind) →
    (after.regions.get kind).residents.get? id = (before.regions.get kind).residents.get? id

/-- These blobs are removed, filed as reclaimed and counted, and that is all. -/
structure Reclaims (before : Cache) (blobs : List Blob) (after : Cache) : Prop where
  removes : before.Removes blobs after
  rest : after = { before with
    regions := after.regions
    registered := after.registered
    reclaimed := fileAll blobs before.reclaimed
    metrics := { before.metrics with
      blobsReclaimed := before.metrics.blobsReclaimed + UInt64.ofNat blobs.length
      bytesReclaimed :=
        before.metrics.bytesReclaimed + UInt64.ofNat (blobs.map Blob.size).sum } }

/-- Who is registered as a zombie is not passed over: reclaiming it is up to its region. -/
theorem reclaim_eq (hrecorded : cache.Recorded)
    (hblob : cache.registered.get? blob.id = some blob) (hstage : blob.liveness = .zombie) :
    cache.reclaim blob
      = match (cache.regions.get blob.region).release blob.id with
        | (.error error, region) =>
          (.error error, { cache with regions := cache.regions.set blob.region region })
        | (.ok _, region) =>
          (.ok (some blob.size),
            { cache.strikeOut region blob with
              metrics :=
                { cache.metrics with
                  blobsReclaimed := cache.metrics.blobsReclaimed + 1
                  bytesReclaimed := cache.metrics.bytesReclaimed + UInt64.ofNat blob.size } }) := by
  unfold Cache.reclaim
  rw [hblob]
  simp only
  rw [if_neg (hrecorded.not_missing hblob), if_neg (not_not_intro hstage)]
  rfl

/-- Who is resident where his placement says is reclaimed without refusal. -/
theorem reclaim_of_resident (hrecorded : cache.Recorded)
    (hblob : cache.registered.get? blob.id = some blob) (hstage : blob.liveness = .zombie)
    (hresident : cache.IsResident blob) :
    ∃ next, cache.reclaim blob = (.ok (some blob.size), next)
      ∧ next.registered = cache.registered.erase blob.id ∧ cache.Reclaims [blob] next := by
  obtain ⟨resident, hget⟩ := Table.contains_iff.mp hresident
  obtain ⟨placement, region, hrelease⟩ :
      ∃ placement region, (cache.regions.get blob.region).release blob.id = (.ok placement, region) :=
    ⟨_, _, Region.release_eq_ok_iff.mpr ⟨resident, hget, rfl, rfl⟩⟩
  rw [reclaim_eq hrecorded hblob hstage, hrelease]
  refine ⟨_, rfl, rfl, ?_, rfl⟩
  constructor
  case unregistered =>
    intro other hmem
    rw [List.mem_singleton.mp hmem]
    exact Table.get?_erase_self _ _
  case registered =>
    intro id hne
    exact Table.get?_erase_of_ne _ (hne blob List.mem_cons_self)
  case released =>
    intro other hmem
    rw [List.mem_singleton.mp hmem]
    show ((cache.regions.set blob.region region).get blob.region).residents.get? blob.id = none
    rw [Regions.get_set_same, Region.get?_residents_release hrelease, if_pos rfl]
  case resident =>
    intro kind id hother
    show ((cache.regions.set blob.region region).get kind).residents.get? id = _
    rw [Regions.get_set]
    split
    · next hkind =>
      -- in the region of the blob, only the blob itself has left
      rw [Region.get?_residents_release hrelease, if_neg, hkind]
      exact fun hid => hother blob List.mem_cons_self hid hkind
    · rfl

/-- Who is not stays where he is, and reclaiming stops. -/
theorem reclaim_of_not_resident (hrecorded : cache.Recorded)
    (hblob : cache.registered.get? blob.id = some blob) (hstage : blob.liveness = .zombie)
    (hresident : ¬ cache.IsResident blob) :
    cache.reclaim blob = (.error (.unknownBlob blob.id), cache) := by
  have hnone : (cache.regions.get blob.region).residents.get? blob.id = none :=
    Table.contains_eq_false_iff.mp (Bool.eq_false_iff.mpr hresident)
  have hrelease : (cache.regions.get blob.region).release blob.id
      = (.error (.unknownBlob blob.id), cache.regions.get blob.region) :=
    Region.release_eq_error_iff.mpr ⟨⟨hnone, rfl⟩, rfl⟩
  rw [reclaim_eq hrecorded hblob hstage, hrelease]
  dsimp only
  rw [Regions.set_of_release_error hrelease]

theorem removes_nil (cache : Cache) : cache.Removes [] cache :=
  ⟨nofun, fun _ _ => rfl, nofun, fun _ _ _ => rfl⟩

theorem reclaims_nil (cache : Cache) : cache.Reclaims [] cache :=
  ⟨removes_nil cache, by simp [fileAll]⟩

/-- First one blob is removed, then others. -/
theorem Removes.cons {next : Cache} (hfirst : cache.Removes [blob] next)
    (hrest : next.Removes blobs after) (hapart : ∀ other ∈ blobs, blob.id ≠ other.id) :
    cache.Removes (blob :: blobs) after where
  unregistered := by
    refine List.forall_mem_cons.mpr ⟨?_, hrest.unregistered⟩
    rw [hrest.registered _ fun other hmem => (hapart other hmem).symm]
    exact hfirst.unregistered blob List.mem_cons_self
  registered id hne := by
    obtain ⟨hblob, hothers⟩ := List.forall_mem_cons.mp hne
    rw [hrest.registered id hothers, hfirst.registered id (by simpa using hblob)]
  released := by
    refine List.forall_mem_cons.mpr ⟨?_, hrest.released⟩
    rw [hrest.resident _ _ fun other hmem heq => absurd heq.symm (hapart other hmem)]
    exact hfirst.released blob List.mem_cons_self
  resident kind id hother := by
    obtain ⟨hblob, hothers⟩ := List.forall_mem_cons.mp hother
    rw [hrest.resident kind id hothers, hfirst.resident kind id (by simpa using hblob)]

theorem Reclaims.cons {next : Cache} (hfirst : cache.Reclaims [blob] next)
    (hrest : next.Reclaims blobs after) (hapart : ∀ other ∈ blobs, blob.id ≠ other.id) :
    cache.Reclaims (blob :: blobs) after where
  removes := hfirst.removes.cons hrest.removes hapart
  rest := by
    rw [hrest.rest, hfirst.rest]
    simp [fileAll, UInt64.ofNat_add, UInt64.add_assoc, UInt64.add_comm 1]

/-- Reclaiming touches no record. -/
theorem Reclaims.recorded (h : cache.Reclaims blobs after) (hrecorded : cache.Recorded) :
    after.Recorded := by
  have hmethods : after.methods = cache.methods := by rw [h.rest]
  refine hrecorded.of_same ?_ fun method hrecord => ?_
  · intro id new hnew
    refine ⟨new, ?_, rfl⟩
    rwa [h.removes.registered] at hnew
    -- who is registered still is none of those removed
    rintro blob hmem rfl
    rw [h.removes.unregistered blob hmem] at hnew
    cases hnew
  · unfold hasRecord
    rw [hmethods]
    exact hrecord

/-- **Residents at the head of the list are reclaimed**, whoever comes after them. -/
theorem reclaimEach_append (hall : cache.AllAt .zombie blobs) (hrecorded : cache.Recorded)
    (hresident : ∀ blob ∈ blobs, cache.IsResident blob) :
    ∃ after, cache.Reclaims blobs after ∧ ∀ rest report, report.Fits →
      Cache.reclaimEach (blobs ++ rest) report cache
        = Cache.reclaimEach rest (report.reclaim blobs.length (blobs.map Blob.size).sum) after := by
  induction blobs generalizing cache with
  | nil =>
    refine ⟨cache, reclaims_nil cache, fun rest report hfits => ?_⟩
    rw [List.length_nil, List.map_nil, List.sum_nil, hfits.reclaim_zero]
    rfl
  | cons blob blobs ih =>
    obtain ⟨hhead, -⟩ := List.pairwise_cons.mp hall.apart
    obtain ⟨hblob, hothers⟩ := List.forall_mem_cons.mp hresident
    obtain ⟨next, hreclaim, hregistered, hfirst⟩ := reclaim_of_resident hrecorded
      (hall.registered blob List.mem_cons_self) (hall.stage blob List.mem_cons_self) hblob
    have hnext : next.AllAt .zombie blobs := by
      refine hall.rest fun other hne => ?_
      rw [hregistered, Table.get?_erase_of_ne _ hne]
    have hkept : ∀ other ∈ blobs, next.IsResident other := by
      intro other hmem
      unfold IsResident Table.contains
      rw [hfirst.removes.resident _ _ (by simpa using fun heq => absurd heq (hhead other hmem))]
      exact hothers other hmem
    obtain ⟨after, hrest, hreclaims⟩ := ih hnext (hfirst.recorded hrecorded) hkept
    refine ⟨after, hfirst.cons hrest hhead, fun rest report hfits => ?_⟩
    have honce : Cache.reclaimEach (blob :: (blobs ++ rest)) report cache
        = Cache.reclaimEach (blobs ++ rest) (report.reclaim 1 blob.size) next := by
      rw [Cache.reclaimEach, hreclaim]
      rfl
    rw [List.cons_append, honce, hreclaims rest _ (hfits.reclaim 1 blob.size),
      PassReport.reclaim_reclaim, List.length_cons, List.map_cons, List.sum_cons, Nat.add_comm 1]

theorem Consistent.isResident (h : cache.Consistent made)
    (hblob : cache.registered.get? blob.id = some blob) : cache.IsResident blob :=
  Table.contains_iff.mpr ⟨_, h.resident hblob⟩

/-- A registered zombie is reclaimed without refusal. -/
theorem Consistent.reclaim (h : cache.Consistent made)
    (hblob : cache.registered.get? blob.id = some blob) (hstage : blob.liveness = .zombie) :
    ∃ cleared, cache.reclaim blob = (.ok (some blob.size), cleared) ∧ cleared.Consistent made
      ∧ cleared.registered = cache.registered.erase blob.id
      ∧ cleared.settings = cache.settings := by
  obtain ⟨cleared, hreclaim, hregistered, -⟩ :=
    reclaim_of_resident h.sound.recorded hblob hstage (h.isResident hblob)
  have hsteps : Steps (.collect ⟨false, 0, false⟩ {}) cache 0 (Cache.reclaimEach [blob] {} cache).2 :=
    reclaimEach_steps h.sound.filed rfl
  rw [Cache.reclaimEach, hreclaim] at hsteps
  exact ⟨cleared, hreclaim, h.steps rfl hsteps, hregistered, settings_steps hsteps⟩

/-- Zombies that were read off the register are reclaimed one after the other, without refusal. -/
theorem Consistent.reclaimEach (h : cache.Consistent made) (hall : cache.AllAt .zombie blobs) :
    ∃ cleared, (∀ report, report.Fits → Cache.reclaimEach blobs report cache
        = (.ok (report.reclaim blobs.length (blobs.map Blob.size).sum), cleared))
      ∧ cleared.Consistent made ∧ cache.Reclaims blobs cleared := by
  obtain ⟨cleared, hreclaims, hloop⟩ := reclaimEach_append hall h.sound.recorded
    fun blob hmem => h.isResident (hall.registered blob hmem)
  have hok := hloop []
  rw [List.append_nil] at hok
  have hsteps : Steps (.collect ⟨false, 0, false⟩ {}) cache 0 (Cache.reclaimEach blobs {} cache).2 :=
    reclaimEach_steps h.sound.filed rfl
  rw [hok {} (PassReport.fits_marked 0)] at hsteps
  exact ⟨cleared, hok, h.steps rfl hsteps, hreclaims⟩

/-- The second phase takes the zombies out of the register. -/
theorem Consistent.reclaimZombies (h : cache.Consistent made) :
    ∃ cleared, (∀ report, report.Fits → cache.reclaimZombies report
        = (.ok (report.reclaim (cache.atStage .zombie).length
            ((cache.atStage .zombie).map Blob.size).sum), cleared))
      ∧ cleared.Consistent made ∧ cache.Reclaims (cache.atStage .zombie) cleared
      ∧ cleared.registered = cache.registered.filterMap fun blob =>
          if blob.liveness = .zombie then none else some blob := by
  obtain ⟨cleared, hreclaim, hcleared, hreclaims⟩ :=
    h.reclaimEach (h.sound.filed.allAt_atStage .zombie)
  have hremoves := hreclaims.removes
  refine ⟨cleared, hreclaim, hcleared, hreclaims, Table.ext fun id => ?_⟩
  rw [Table.get?_filterMap]
  by_cases hzombie : ∃ blob ∈ cache.atStage .zombie, blob.id = id
  · obtain ⟨zombie, hmem, rfl⟩ := hzombie
    obtain ⟨hget, hstage⟩ := h.sound.filed.mem_atStage_iff.mp hmem
    rw [hremoves.unregistered zombie hmem, hget, Option.bind_some, if_pos hstage]
  · rw [hremoves.registered id fun blob hmem heq => hzombie ⟨blob, hmem, heq⟩]
    cases hget : cache.registered.get? id with
    | none => rfl
    | some blob =>
      obtain rfl := h.sound.filed.registered hget
      rw [Option.bind_some, if_neg]
      exact fun hstage => hzombie ⟨blob, h.sound.filed.mem_atStage_iff.mpr ⟨hget, hstage⟩, rfl⟩

/-! ## §4. Both phases. -/

/-- Where no zombie waits, the blobs given up are those the pass does not keep. -/
theorem doomed_iff (hstage : blob.liveness ≠ .zombie) :
    blob.Doomed frames ↔ frames.keeps blob = false := by
  unfold Blob.Doomed FrameSnapshot.keeps Blob.isEntrant
  cases hliveness : blob.liveness with
  | entrant => simp
  | nonEntrant => simp
  | zombie => exact absurd hliveness hstage

/-- The zombies after marking are the blobs given up. -/
theorem zombie_marked_iff (hstage : blob.liveness ≠ .zombie) :
    (blob.marked frames).liveness = .zombie ↔ blob.Doomed frames := by
  unfold Blob.marked
  split
  · next hdoomed => exact iff_of_true (congrArg Liveness.giveUp hdoomed.1) hdoomed
  · next hspared => exact iff_of_false hstage hspared

theorem size_marked (frames : FrameSnapshot) (blob : Blob) :
    (blob.marked frames).size = blob.size := by
  unfold Blob.marked
  split <;> rfl

theorem total_leaving (cache : Cache) (frames : FrameSnapshot) (measure : Blob → Nat) :
    (cache.leaving frames).total measure
      = cache.registered.total fun blob => if frames.keeps blob = false then measure blob else 0 := by
  unfold leaving
  rw [Table.total_filterMap]
  congr 1
  funext blob
  cases frames.keeps blob <;> rfl

/-- A sum over the zombies after marking is a sum over who is not kept. -/
theorem Consistent.sum_zombies_marked (h : cache.Consistent made) (hswept : cache.Swept)
    {measure : Blob → Nat} (hmeasure : ∀ blob, measure (blob.marked frames) = measure blob) :
    (((cache.markZombies frames).2.atStage .zombie).map measure).sum
      = (cache.leaving frames).total measure := by
  unfold atStage
  rw [Table.sum_filter_values, registered_markZombies h.sound, Table.total_filterMap,
    total_leaving]
  refine Table.total_congr fun id blob hget => ?_
  have hstage := hswept id blob hget
  simp [zombie_marked_iff hstage, doomed_iff hstage, hmeasure]

theorem Consistent.length_zombies_marked (h : cache.Consistent made) (hswept : cache.Swept)
    (frames : FrameSnapshot) :
    ((cache.markZombies frames).2.atStage .zombie).length = (cache.leaving frames).size := by
  rw [Table.size_eq_total, ← h.sum_zombies_marked hswept fun _ => rfl, List.map_const',
    List.sum_replicate_nat, Nat.mul_one]

/-- Who is given up is who is not kept. -/
theorem Consistent.fst_markZombies (h : cache.Consistent made) (hswept : cache.Swept)
    (frames : FrameSnapshot) : (cache.markZombies frames).1 = (cache.leaving frames).size := by
  rw [Cache.fst_markZombies h.sound h.room, Table.size_eq_total, total_leaving]
  refine Table.total_congr fun id blob hget => ?_
  simp only [doomed_iff (hswept id blob hget)]

/-- The cache after the first two phases of a pass. -/
def cleared (cache : Cache) (frames : FrameSnapshot) : Cache :=
  ((cache.markZombies frames).2.reclaimZombies {}).2

/-- What a pass that does not drain reports.  Only the bytes may come to the largest word. -/
def clearReport (cache : Cache) (frames : FrameSnapshot) : PassReport where
  zombiesMarked := (cache.leaving frames).size
  blobsReclaimed := (cache.leaving frames).size
  bytesReclaimed := min ((cache.leaving frames).total Blob.size) Word.maxValue

theorem Consistent.size_leaving_le (h : cache.Consistent made) (frames : FrameSnapshot) :
    (cache.leaving frames).size ≤ Word.maxValue := by
  have hleaving : (cache.leaving frames).size ≤ cache.registered.size := Table.size_filterMap_le _ _
  have hsize := h.sound.size_registered_le
  have hword : made ≤ Word.maxValue := Nat.le_pred_of_lt h.room
  omega

theorem Consistent.fits_clearReport (h : cache.Consistent made) (frames : FrameSnapshot) :
    (cache.clearReport frames).Fits :=
  ⟨h.size_leaving_le frames, Nat.min_le_right _ _, Nat.zero_le _, Nat.zero_le _⟩

/-- **Marking and reclaiming take out of the register who is not kept**, and count whom they took. -/
theorem Consistent.clear (h : cache.Consistent made) (hswept : cache.Swept)
    (frames : FrameSnapshot) :
    (cache.markZombies frames).2.reclaimZombies { zombiesMarked := (cache.markZombies frames).1 }
        = (.ok (cache.clearReport frames), cache.cleared frames)
      ∧ (cache.cleared frames).Consistent made
      ∧ (cache.markZombies frames).2.Reclaims ((cache.markZombies frames).2.atStage .zombie)
          (cache.cleared frames)
      ∧ (cache.cleared frames).registered = cache.registered.filterMap fun blob =>
          if frames.keeps blob then some blob else none := by
  obtain ⟨last, hreclaim, hlast, hreclaims, hleft⟩ := (h.markZombies frames).reclaimZombies
  have hcleared : cache.cleared frames = last := by
    unfold cleared
    rw [hreclaim _ (PassReport.fits_marked 0)]
  rw [hcleared]
  refine ⟨?_, hlast, hreclaims, ?_⟩
  · rw [hreclaim _ (PassReport.fits_marked _), h.sum_zombies_marked hswept (size_marked frames),
      h.length_zombies_marked hswept, h.fst_markZombies hswept,
      PassReport.reclaim_eq rfl rfl (h.size_leaving_le frames)]
    rfl
  · rw [hleft, registered_markZombies h.sound, Table.filterMap_filterMap]
    refine Table.filterMap_congr fun id blob hget => ?_
    have hstage := hswept id blob hget
    simp only [Option.bind_some, zombie_marked_iff hstage, doomed_iff hstage]
    -- a blob that is kept is not marked either
    cases hkeeps : frames.keeps blob with
    | false => rfl
    | true =>
      have hspared : ¬ blob.Doomed frames := by simp [doomed_iff hstage, hkeeps]
      simp [Blob.marked, hspared]

end Cache

end JitCache
