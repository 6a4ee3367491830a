/-
  JitCache.Proofs.Collection.Clearing
  ───────────────────────────────────
  **Everything that marking and reclaiming leave of a cache.**

  `Consistent.clear` says who is registered after the first two phases of a
  pass.  Here the rest is said: who was reclaimed and as what, how the counters
  have grown, and that the slots, the histories and all that is dealt next are
  as before.  The regions need no equation: the register determines them.

  Main statements:
    `Consistent.clears`     — the cache after both phases, part by part
    `Consistent.regions_eq` — the same register, the same regions
-/
import JitCache.Proofs.Collection.Reclaiming
import JitCache.Proofs.Space.Canonical

namespace JitCache

/-- The counters after so many blobs, with so much code, were given up and reclaimed. -/
def Metrics.cleared (metrics : Metrics) (count bytes : Nat) : Metrics :=
  { metrics with
    zombiesMarked := metrics.zombiesMarked + UInt64.ofNat count
    blobsReclaimed := metrics.blobsReclaimed + UInt64.ofNat count
    bytesReclaimed := metrics.bytesReclaimed + UInt64.ofNat bytes }

theorem Metrics.cleared_cleared (metrics : Metrics) (count count' bytes bytes' : Nat) :
    (metrics.cleared count bytes).cleared count' bytes'
      = metrics.cleared (count + count') (bytes + bytes') := by
  simp [Metrics.cleared, UInt64.ofNat_add, UInt64.add_assoc]

namespace Cache

/-- What the first two phases of a pass make of a cache. -/
structure Clears (before : Cache) (frames : FrameSnapshot) (after : Cache) : Prop where
  settings : after.settings = before.settings
  methods : after.methods = before.methods
  nextBlob : after.nextBlob = before.nextBlob
  nextEntry : after.nextEntry = before.nextEntry
  invocations : after.invocations = before.invocations
  registered : after.registered
    = before.registered.filterMap fun blob => if frames.keeps blob then some blob else none
  reclaimed : ∀ id, after.reclaimed.get? id
    = (((before.leaving frames).get? id).map Blob.giveUp).or (before.reclaimed.get? id)
  metrics : after.metrics
    = before.metrics.cleared (before.leaving frames).size ((before.leaving frames).total Blob.size)

variable {cache after : Cache} {made made' : Nat} {frames : FrameSnapshot} {blob : Blob}
  {blobs : List Blob} {id : BlobId}

/-! ## §1. The register determines the regions. -/

/-- **The same settings and the same register, the same regions**, down to their free spans. -/
theorem Consistent.regions_eq (h : cache.Consistent made) (h' : after.Consistent made')
    (hsettings : after.settings = cache.settings) (hregistered : after.registered = cache.registered) :
    after.regions = cache.regions := by
  apply Regions.ext_get
  intro kind
  have hsame : (after.regions.get kind).residents = (cache.regions.get kind).residents := by
    rw [h.booked.residents_eq, h'.booked.residents_eq, hregistered]
  have hshape := h.sound.shape kind
  have hshape' := h'.sound.shape kind
  rw [hsettings] at hshape'
  refine Region.ext_of_residents (h.sound.regions.region kind) (h'.sound.regions.region kind) ?_ hsame
  exact ⟨hshape'.kind.trans hshape.kind.symm, hshape'.capacity.trans hshape.capacity.symm,
    hshape'.probes.trans hshape.probes.symm⟩

/-! ## §2. The two phases. -/

/-- Marking changes blobs, and counts them. -/
theorem markAll_eq (blobs : List Blob) (cache : Cache) :
    markAll blobs cache
      = { cache with
          registered := (markAll blobs cache).registered
          metrics :=
            { cache.metrics with
              zombiesMarked := cache.metrics.zombiesMarked + UInt64.ofNat blobs.length } } := by
  unfold markAll
  induction blobs generalizing cache with
  | nil => simp
  | cons blob rest ih =>
    rw [List.foldl_cons, ih]
    simp [markZombie, UInt64.ofNat_add, UInt64.add_assoc, UInt64.add_comm 1]

/-- Nothing but the register changes in the first phase, and one counter. -/
theorem Sound.snd_markZombies_eq (h : cache.Sound made) (hroom : made < UInt64.size)
    (frames : FrameSnapshot) :
    (cache.markZombies frames).2
      = { cache with
          registered := (cache.markZombies frames).2.registered
          metrics :=
            { cache.metrics with
              zombiesMarked :=
                cache.metrics.zombiesMarked + UInt64.ofNat (cache.markZombies frames).1 } } := by
  rw [h.fst_markZombies_eq_length hroom, h.markZombies_eq]
  exact markAll_eq _ cache

theorem get?_fileAll_of_ne {table : Table BlobId Blob} (hother : ∀ blob ∈ blobs, blob.id ≠ id) :
    (fileAll blobs table).get? id = table.get? id := by
  unfold fileAll
  induction blobs generalizing table with
  | nil => rfl
  | cons head rest ih =>
    rw [List.foldl_cons, ih fun other hmem => hother other (List.mem_cons_of_mem _ hmem),
      Table.get?_insert_of_ne _ _ (hother head List.mem_cons_self)]

theorem get?_fileAll_of_mem {table : Table BlobId Blob}
    (hapart : blobs.Pairwise fun a b => a.id ≠ b.id) (hmem : blob ∈ blobs) :
    (fileAll blobs table).get? blob.id = some blob := by
  unfold fileAll
  induction blobs generalizing table with
  | nil => cases hmem
  | cons head rest ih =>
    obtain ⟨hhead, hrest⟩ := List.pairwise_cons.mp hapart
    rw [List.foldl_cons]
    rcases List.mem_cons.mp hmem with rfl | hlater
    · -- nobody after it has its handle
      have hkept : (fileAll rest (table.insert blob.id blob)).get? blob.id
          = (table.insert blob.id blob).get? blob.id :=
        get?_fileAll_of_ne fun other hother => (hhead other hother).symm
      unfold fileAll at hkept
      rw [hkept, Table.get?_insert_self]
    · exact ih hrest hlater

/-- Who is reclaimed is filed as it was given up; who was reclaimed before stays filed. -/
theorem Consistent.get?_reclaimed (h : cache.Consistent made) (hswept : cache.Swept)
    (frames : FrameSnapshot) (id : BlobId) :
    (fileAll ((cache.markZombies frames).2.atStage .zombie) cache.reclaimed).get? id
      = (((cache.leaving frames).get? id).map Blob.giveUp).or (cache.reclaimed.get? id) := by
  have hmarked := h.markZombies frames
  have hregistered := registered_markZombies h.sound frames
  have hall := hmarked.sound.filed.allAt_atStage .zombie
  unfold leaving
  rw [Table.get?_filterMap]
  cases hget : cache.registered.get? id with
  | none =>
    rw [get?_fileAll_of_ne]
    · rfl
    · rintro blob hmem rfl
      have hblob := hall.registered blob hmem
      rw [hregistered, Table.get?_filterMap, hget] at hblob
      cases hblob
  | some old =>
    obtain rfl := h.sound.filed.registered hget
    have hnow : (cache.markZombies frames).2.registered.get? old.id = some (old.marked frames) := by
      rw [hregistered, Table.get?_filterMap, hget]
      rfl
    have hstage := hswept old.id old hget
    rw [Option.bind_some]
    cases hkeeps : frames.keeps old with
    | true =>
      rw [get?_fileAll_of_ne]
      · rfl
      · -- who is kept is no zombie
        intro blob hmem hid
        have hblob := hall.registered blob hmem
        rw [hid, hnow] at hblob
        obtain rfl := Option.some.inj hblob
        have hzombie := hall.stage _ hmem
        rw [zombie_marked_iff hstage, doomed_iff hstage, hkeeps] at hzombie
        cases hzombie
    | false =>
      have hdoomed := (doomed_iff hstage).mpr hkeeps
      have hmarked_eq : old.marked frames = old.giveUp := if_pos hdoomed
      rw [hmarked_eq] at hnow
      have hmem : old.giveUp ∈ (cache.markZombies frames).2.atStage .zombie :=
        hmarked.sound.filed.mem_atStage_iff.mpr ⟨hnow, congrArg Liveness.giveUp hdoomed.1⟩
      exact get?_fileAll_of_mem hall.apart hmem

/-- **What both phases leave**, part by part. -/
theorem Consistent.clears (h : cache.Consistent made) (hswept : cache.Swept)
    (frames : FrameSnapshot) : cache.Clears frames (cache.cleared frames) := by
  obtain ⟨-, -, hreclaims, hregistered⟩ := h.clear hswept frames
  have hreclaim := hreclaims.rest
  have hmark := h.sound.snd_markZombies_eq h.room frames
  rw [h.fst_markZombies hswept] at hmark
  rw [h.length_zombies_marked hswept, h.sum_zombies_marked hswept (size_marked frames)] at hreclaim
  constructor
  case settings => rw [congrArg settings hreclaim, congrArg settings hmark]
  case methods => rw [congrArg methods hreclaim, congrArg methods hmark]
  case nextBlob => rw [congrArg nextBlob hreclaim, congrArg nextBlob hmark]
  case nextEntry => rw [congrArg nextEntry hreclaim, congrArg nextEntry hmark]
  case invocations => rw [congrArg invocations hreclaim, congrArg invocations hmark]
  case registered => exact hregistered
  case reclaimed =>
    intro id
    rw [← h.get?_reclaimed hswept, congrArg reclaimed hreclaim, congrArg reclaimed hmark]
  case metrics =>
    rw [congrArg metrics hreclaim]
    simp only
    rw [congrArg metrics hmark]
    rfl

end Cache

end JitCache
