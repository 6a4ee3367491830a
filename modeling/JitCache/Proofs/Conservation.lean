/-
  JitCache.Proofs.Conservation
  ────────────────────────────
  **The counters balance.**

  Every blob that was made is entered in a history, registered or reclaimed, and
  closed or in its slot; its code is in a region or was reclaimed.  The counters
  are bumped in a dozen places, and none of these sums is ever checked while the
  cache runs.  They hold after every session that leaves the regions to the
  cache and never resets the counters.

  The counters are words.  Each is shown to be the word of what it counts
  (`Counted`), whatever the number; as long as the exact totals fit a word the
  words are the totals.

  Main statement:
    `counters_balance` — the counters, and what each pass reports
-/
import JitCache.Proofs.Conservation.Counters
import JitCache.Proofs.History
import Mathlib.Algebra.BigOperators.Finprod
import Mathlib.Data.Set.Card

namespace JitCache

/-! ## §1. What balances. -/

/-- The blob that was made again. -/
def Deed.replaced? : Deed → Option Blob
  | replaced blob => some blob
  | _ => none

/-- Whoever is made was installed or made again. -/
theorem Deed.length_made (deeds : List Deed) :
    (deeds.filterMap made?).length
      = (deeds.filterMap installed?).length + (deeds.filterMap replaced?).length := by
  induction deeds with
  | nil => rfl
  | cons deed rest ih =>
    cases deed <;> simp [made?, installed?, replaced?, List.filterMap_cons, ih] <;> omega

namespace Cache

/-- Every counter is the word of what it counts. -/
structure Counted (cache : Cache) (deeds : List Deed) (relocations passes : Nat) : Prop where
  installs : cache.metrics.installs = .ofNat (deeds.filterMap Deed.installed?).length
  replacements : cache.metrics.replacements = .ofNat (deeds.filterMap Deed.replaced?).length
  closed : cache.metrics.closed = .ofNat (cache.census Blob.closedCount)
  zombiesMarked : cache.metrics.zombiesMarked = .ofNat cache.reclaimed.size
  blobsReclaimed : cache.metrics.blobsReclaimed = .ofNat cache.reclaimed.size
  bytesReclaimed : cache.metrics.bytesReclaimed = .ofNat (cache.reclaimed.total Blob.size)
  relocations : cache.metrics.relocations = .ofNat relocations
  collections : cache.metrics.collections = .ofNat passes
  /-- The census is a sum over all blobs ever made. -/
  made : ∀ {measure}, Blob.CodeMeasure measure →
    cache.census measure = ((deeds.filterMap Deed.made?).map measure).sum

/-- The exact totals that the number of attempts does not bound fit a word. -/
structure TotalsFit (start : Cache) (operations : List Operation) : Prop where
  bytes : (start.after operations).reclaimed.total Blob.size < UInt64.size
  relocations : start.relocationsIn operations < UInt64.size
  passes : operations.countP Operation.isPass < UInt64.size

/-- A pass is granted, and its report is what the counters have grown by. -/
structure PassCounted (before : Cache) (policy : CollectionPolicy) (frames : FrameSnapshot)
    (report : PassReport) (after : Cache) : Prop where
  granted : before.collect policy frames = (.ok report, after)
  zombiesMarked : after.metrics.zombiesMarked.toNat
    = before.metrics.zombiesMarked.toNat + report.zombiesMarked
  blobsReclaimed : after.metrics.blobsReclaimed.toNat
    = before.metrics.blobsReclaimed.toNat + report.blobsReclaimed
  bytesReclaimed : after.metrics.bytesReclaimed.toNat
    = before.metrics.bytesReclaimed.toNat + report.bytesReclaimed
  relocations : after.metrics.relocations.toNat
    = before.metrics.relocations.toNat + report.blobsRelocated
  collections : after.metrics.collections.toNat = before.metrics.collections.toNat + 1

/-- The sums that the counters of a session satisfy. -/
structure Balanced (start : Cache) (operations : List Operation) (cache : Cache) : Prop where
  histories : cache.metrics.installs.toNat + cache.metrics.replacements.toNat
    = ∑ᶠ method, (cache.status method).history.length
  blobs : cache.metrics.installs.toNat + cache.metrics.replacements.toNat
    = cache.registered.size + cache.metrics.blobsReclaimed.toNat
  closed : cache.metrics.closed.toNat
    = (cache.atStage .nonEntrant).length + cache.metrics.zombiesMarked.toNat
  zombies : cache.metrics.zombiesMarked = cache.metrics.blobsReclaimed
  entrant : cache.metrics.installs.toNat + cache.metrics.replacements.toNat
    = cache.metrics.closed.toNat + (cache.atStage .entrant).length
  compiled : (cache.atStage .entrant).length
    = {place : MethodId × Slot | (cache.slotState place.1 place.2).compiled = true}.ncard
  bytes : cache.metrics.bytesReclaimed.toNat + cache.usedBytes
    = ((start.blobsMade operations).map Blob.size).sum
  passes : ∀ {earlier policy frames later}, operations = earlier ++ .collect policy frames :: later →
    ∃ report after, (start.after earlier).PassCounted policy frames report after

variable {cache before after : Cache} {made relocations relocations' passes passes' : Nat}
  {operation : Operation} {deeds : List Deed} {deed : Deed} {leaving : Table BlobId Blob}

/-! ## §2. One operation. -/

/-- A deed is counted, and so is who left the slot. -/
theorem Counted.adds (h : before.Counted deeds relocations passes) (hadds : before.Adds deed after)
    (hmetrics : after.metrics.audited
      = ((before.metrics.closing (before.leavers deed.blob.method deed.blob.slot)).noting
          deed).audited) :
    after.Counted (deeds ++ [deed]) relocations passes := by
  have hkept := (before.metrics.closing
    (before.leavers deed.blob.method deed.blob.slot)).keeps_noting deed
  constructor
  case installs =>
    refine (congrArg Metrics.installs hmetrics).trans ?_
    rw [List.filterMap_append, List.length_append, UInt64.ofNat_add, ← h.installs]
    cases deed with
    | installed => rfl
    | replaced | emptied => exact (UInt64.add_zero _).symm
  case replacements =>
    refine (congrArg Metrics.replacements hmetrics).trans ?_
    rw [List.filterMap_append, List.length_append, UInt64.ofNat_add, ← h.replacements]
    cases deed with
    | replaced => rfl
    | installed | emptied => exact (UInt64.add_zero _).symm
  case closed =>
    rw [hadds.closed, UInt64.ofNat_add, ← h.closed]
    exact (congrArg Metrics.closed hmetrics).trans hkept.closed
  case zombiesMarked =>
    rw [hadds.reclaimed, ← h.zombiesMarked]
    exact (congrArg Metrics.zombiesMarked hmetrics).trans hkept.zombiesMarked
  case blobsReclaimed =>
    rw [hadds.reclaimed, ← h.blobsReclaimed]
    exact (congrArg Metrics.blobsReclaimed hmetrics).trans hkept.blobsReclaimed
  case bytesReclaimed =>
    rw [hadds.reclaimed, ← h.bytesReclaimed]
    exact (congrArg Metrics.bytesReclaimed hmetrics).trans hkept.bytesReclaimed
  case relocations =>
    exact ((congrArg Metrics.relocations hmetrics).trans hkept.relocations).trans h.relocations
  case collections =>
    exact ((congrArg Metrics.collections hmetrics).trans hkept.collections).trans h.collections
  case made =>
    intro measure hmeasure
    rw [hadds.code hmeasure, h.made hmeasure, List.filterMap_append, List.map_append,
      List.sum_append]
    cases deed <;> rfl

/-- So is everything else that happens. -/
theorem Counted.shifts (h : before.Counted deeds relocations passes)
    (hshifts : before.Shifts leaving relocations' passes' after) :
    after.Counted deeds (relocations + relocations') (passes + passes') := by
  have hsize := hshifts.size_reclaimed
  have hmetrics := hshifts.metrics
  constructor
  case installs => exact (congrArg Metrics.installs hmetrics).trans h.installs
  case replacements => exact (congrArg Metrics.replacements hmetrics).trans h.replacements
  case closed =>
    rw [hshifts.census Blob.lastingMeasure_closedCount]
    exact (congrArg Metrics.closed hmetrics).trans h.closed
  case zombiesMarked =>
    rw [hsize, UInt64.ofNat_add, ← h.zombiesMarked]
    exact congrArg Metrics.zombiesMarked hmetrics
  case blobsReclaimed =>
    rw [hsize, UInt64.ofNat_add, ← h.blobsReclaimed]
    exact congrArg Metrics.blobsReclaimed hmetrics
  case bytesReclaimed =>
    rw [hshifts.reclaimed Blob.codeMeasure_size, UInt64.ofNat_add, ← h.bytesReclaimed]
    exact congrArg Metrics.bytesReclaimed hmetrics
  case relocations =>
    rw [UInt64.ofNat_add, ← h.relocations]
    exact congrArg Metrics.relocations hmetrics
  case collections =>
    rw [UInt64.ofNat_add, ← h.collections]
    exact congrArg Metrics.collections hmetrics
  case made =>
    intro measure hmeasure
    rw [hshifts.census hmeasure.lasting, h.made hmeasure]

/-- An operation that does a deed relocates nobody and is no pass. -/
theorem Does.quiet {outcome : Outcome} (hdoes : Does operation before (some deed) outcome after) :
    before.relocations operation = 0 ∧ operation.isPass = false := by
  cases hdoes with
  | installed hasked =>
    cases operation with
    | install | handle => exact ⟨rfl, rfl⟩
    | _ => cases hasked
  | replaced hasked | emptied hasked =>
    subst hasked
    exact ⟨rfl, rfl⟩

theorem Does.not_told {outcome : Outcome} (hdoes : Does operation before none outcome after)
    (id : BlobId) : outcome ≠ .blob id := by
  cases hdoes with
  | nothing htold => exact htold id

/-- In the books, what an operation comes to: a deed, or a shift of who was made before. -/
inductive Reckons (operation : Operation) (before : Cache) : Option Deed → Cache → Prop
  | adds {deed : Deed} {after : Cache} (hrelocations : before.relocations operation = 0)
      (hpass : operation.isPass = false) (hadds : before.Adds deed after)
      (hmetrics : after.metrics.audited
        = ((before.metrics.closing (before.leavers deed.blob.method deed.blob.slot)).noting
            deed).audited) :
      Reckons operation before (some deed) after
  | shifts {leaving : Table BlobId Blob} {after : Cache}
      (hshifts : before.Shifts leaving (before.relocations operation)
        (if operation.isPass then 1 else 0) after) :
      Reckons operation before none after

theorem Consistent.reckons (h : cache.Consistent made) (hswept : cache.Swept)
    (hmanaged : operation.isDirect = false) (hcounting : operation.isReset = false)
    (hroom : made + cache.attempts operation < UInt64.size) :
    Reckons operation cache (cache.deed? operation) (cache.perform operation).2 := by
  have hdoes := perform_does h.sound hroom
  cases hdeed : cache.deed? operation with
  | some deed =>
    rw [hdeed] at hdoes
    obtain ⟨hrelocations, hpass⟩ := hdoes.quiet
    exact .adds hrelocations hpass (hdoes.adds h.sound hroom) (hdoes.audited rfl)
  | none =>
    rw [hdeed] at hdoes
    obtain ⟨leaving, hshifts⟩ := h.shifts hswept hmanaged hcounting hdoes.not_told
    exact .shifts hshifts

/-- However it is reckoned, it is counted. -/
theorem Counted.reckons {deed : Option Deed} (h : before.Counted deeds relocations passes)
    (hreckons : Reckons operation before deed after) :
    after.Counted (deeds ++ deed.toList) (relocations + before.relocations operation)
      (passes + if operation.isPass then 1 else 0) := by
  cases hreckons with
  | adds hrelocations hpass hadds hmetrics =>
    rw [hrelocations, hpass]
    exact h.adds hadds hmetrics
  | shifts hshifts =>
    rw [Option.toList_none, List.append_nil]
    exact h.shifts hshifts

/-- Nobody comes back from the reclaimed. -/
theorem Reckons.reclaimed_le {deed : Option Deed} {measure : Blob → Nat}
    (h : Reckons operation before deed after) (hmeasure : Blob.CodeMeasure measure) :
    before.reclaimed.total measure ≤ after.reclaimed.total measure := by
  cases h with
  | adds _ _ hadds => rw [hadds.reclaimed]
  | shifts hshifts =>
    rw [hshifts.reclaimed hmeasure]
    exact Nat.le_add_right _ _

/-! ## §3. Whole sessions. -/

/-- A session of a new cache that leaves the regions to it and never resets the counters, with
handles left at the end. -/
structure Accountable (settings : Settings) (start : Cache) (operations : List Operation) : Prop where
  new : Cache.new settings = .ok start
  managed : ∀ operation ∈ operations, operation.isDirect = false
  counting : ∀ operation ∈ operations, operation.isReset = false
  room : start.attemptsIn operations < UInt64.size

section Sessions

variable {settings : Settings} {start : Cache} {operations earlier later : List Operation}
  {last : Operation}

theorem Accountable.of_append (h : Accountable settings start (earlier ++ later)) :
    Accountable settings start earlier where
  new := h.new
  managed := (List.forall_mem_append.mp h.managed).1
  counting := (List.forall_mem_append.mp h.counting).1
  room := by
    have hroom := h.room
    rw [attemptsIn_append] at hroom
    omega

theorem Accountable.consistent (h : Accountable settings start operations) :
    (start.after operations).Consistent (start.attemptsIn operations) :=
  consistent_after h.new h.managed h.room

theorem Accountable.swept (h : Accountable settings start operations) :
    (start.after operations).Swept :=
  swept_after h.new h.managed h.room

theorem Accountable.reckons (h : Accountable settings start (operations ++ [last])) :
    Reckons last (start.after operations) ((start.after operations).deed? last)
      (start.after (operations ++ [last])) := by
  have hmem : last ∈ operations ++ [last] := List.mem_append_right _ List.mem_cons_self
  have hroom := h.room
  rw [attemptsIn_concat] at hroom
  rw [after_concat]
  exact h.of_append.consistent.reckons h.of_append.swept (h.managed last hmem)
    (h.counting last hmem) hroom

/-- **Every counter is the word of what it counts.** -/
theorem Accountable.counted (h : Accountable settings start operations) :
    (start.after operations).Counted (start.deeds operations) (start.relocationsIn operations)
      (operations.countP Operation.isPass) := by
  induction operations using List.reverseRecOn with
  | nil =>
    rw [eq_of_new h.new]
    exact ⟨rfl, rfl, rfl, rfl, rfl, rfl, rfl, rfl, fun _ => rfl⟩
  | append_singleton operations last ih =>
    rw [deeds_concat, relocationsIn_append, List.countP_append, List.countP_singleton]
    exact (ih h.of_append).reckons h.reckons

/-- What was reclaimed stays reclaimed. -/
theorem Accountable.reclaimed_le {measure : Blob → Nat} (hmeasure : Blob.CodeMeasure measure)
    (h : Accountable settings start (earlier ++ later)) :
    (start.after earlier).reclaimed.total measure
      ≤ (start.after (earlier ++ later)).reclaimed.total measure := by
  induction later using List.reverseRecOn with
  | nil => rw [List.append_nil]
  | append_singleton later last ih =>
    rw [← List.append_assoc] at h ⊢
    exact (ih h.of_append).trans (h.reckons.reclaimed_le hmeasure)

/-- Every blob takes an attempt. -/
theorem Accountable.length_blobsMade (h : Accountable settings start operations) :
    (start.blobsMade operations).length ≤ start.attemptsIn operations := by
  induction operations using List.reverseRecOn with
  | nil => exact Nat.zero_le _
  | append_singleton operations last ih =>
    obtain ⟨-, hsound, hnow⟩ := sound_before h.new h.room
    have hbefore := ih h.of_append
    rw [blobsMade_concat, List.length_append, attemptsIn_concat]
    cases hmade : ((start.after operations).deed? last).bind Deed.made? with
    | none => exact hbefore.trans (Nat.le_add_right _ _)
    | some blob =>
      rw [((perform_does hsound hnow).makes hmade).2]
      exact Nat.succ_le_succ hbefore

end Sessions

/-! ## §4. Sums over the tables. -/

/-- Every blob is in the history of one method. -/
theorem finsum_length_filter (blobs : List Blob) :
    ∑ᶠ method, (blobs.filter fun blob => blob.method = method).length = blobs.length := by
  have hcount : ∀ method, (blobs.filter fun blob => blob.method = method).length
      = (blobs.map Blob.method).count method := by
    intro method
    rw [List.count, List.countP_map, List.countP_eq_length_filter]
    rfl
  have hsupport : (Function.support fun method => (blobs.map Blob.method).count method)
      ⊆ (blobs.map Blob.method).toFinset := by
    intro method hmem
    exact List.mem_toFinset.mpr (List.count_pos_iff.mp (Nat.pos_of_ne_zero hmem))
  rw [finsum_congr hcount, finsum_eq_sum_of_support_subset _ hsupport,
    List.sum_toFinset_count_eq_length, List.length_map]

/-- Who is registered is entrant or non-entrant, where no zombie waits. -/
theorem Swept.length_stages (hswept : cache.Swept) :
    (cache.atStage .entrant).length + (cache.atStage .nonEntrant).length = cache.registered.size := by
  unfold atStage
  rw [Table.length_filter_values, Table.length_filter_values, Table.total_add, Table.size_eq_total]
  refine Table.total_congr fun id blob hblob => ?_
  have hstage := hswept id blob hblob
  cases hliveness : blob.liveness with
  | zombie => exact absurd hliveness hstage
  | _ => rfl

/-- The closed blobs are the non-entrant ones and those that were reclaimed. -/
theorem Sound.census_closed (h : cache.Sound made) (hswept : cache.Swept) :
    cache.census Blob.closedCount = (cache.atStage .nonEntrant).length + cache.reclaimed.size := by
  unfold census atStage
  rw [Table.length_filter_values, Table.size_eq_total]
  congr 1
  · refine Table.total_congr fun id blob hblob => ?_
    have hstage := hswept id blob hblob
    unfold Blob.closedCount Blob.isEntrant
    cases hliveness : blob.liveness with
    | zombie => exact absurd hliveness hstage
    | _ => rfl
  · refine Table.total_congr fun id blob hblob => ?_
    unfold Blob.closedCount Blob.isEntrant
    rw [(h.retired id blob hblob).1]
    rfl

/-- The compiled slots are those of the entrant blobs. -/
theorem Sound.compiled_iff (h : cache.Sound made) (method : MethodId) (slot : Slot) :
    (cache.slotState method slot).compiled = true ↔
      ∃ blob ∈ cache.atStage .entrant, blob.method = method ∧ blob.slot = slot := by
  show (cache.entrant? method slot).isSome = true ↔ _
  rw [Option.isSome_iff_exists]
  constructor
  · rintro ⟨blob, hblob⟩
    obtain ⟨hin, hget⟩ := h.entrant?_eq_some_iff.mp hblob
    obtain ⟨found, hfound, -, hmethod, hslot, hstage⟩ := h.occupant hin
    obtain rfl := Option.some.inj (hfound.symm.trans hget)
    exact ⟨found, h.filed.mem_atStage_iff.mpr ⟨hget, hstage⟩, hmethod, hslot⟩
  · rintro ⟨blob, hmem, rfl, rfl⟩
    obtain ⟨hget, hstage⟩ := h.filed.mem_atStage_iff.mp hmem
    exact ⟨blob, h.entrant?_eq_some_iff.mpr ⟨(h.slots.entrant_iff hget).mp hstage, hget⟩⟩

/-- No two entrant blobs are in the same slot, so there are as many of them as compiled slots. -/
theorem Sound.length_entrant (h : cache.Sound made) :
    (cache.atStage .entrant).length
      = {place : MethodId × Slot | (cache.slotState place.1 place.2).compiled = true}.ncard := by
  have hnodup : ((cache.atStage .entrant).map fun blob => (blob.method, blob.slot)).Nodup := by
    have hall := h.filed.allAt_atStage .entrant
    refine List.pairwise_map.mpr (hall.apart.imp_of_mem fun {a b} ha hb hne heq => hne ?_)
    obtain ⟨hmethod, hslot⟩ := Prod.mk.inj heq
    have hina := (h.slots.entrant_iff (hall.registered a ha)).mp (hall.stage a ha)
    have hinb := (h.slots.entrant_iff (hall.registered b hb)).mp (hall.stage b hb)
    rw [hmethod, hslot, hinb] at hina
    exact (Option.some.inj hina).symm
  have hplaces : {place : MethodId × Slot | (cache.slotState place.1 place.2).compiled = true}
      = ((cache.atStage .entrant).map fun blob => (blob.method, blob.slot)).toFinset := by
    ext ⟨method, slot⟩
    rw [Set.mem_ofPred_eq, h.compiled_iff, List.coe_toFinset, Set.mem_ofPred_eq, List.mem_map]
    simp only [Prod.mk.injEq]
  rw [hplaces, Set.ncard_coe_finset, List.toFinset_card_of_nodup hnodup, List.length_map]

/-- Whoever was made is registered or was reclaimed. -/
theorem Counted.size_add_size (h : cache.Counted deeds relocations passes) :
    cache.registered.size + cache.reclaimed.size = (deeds.filterMap Deed.made?).length := by
  have hone := h.made Blob.codeMeasure_one
  rw [List.map_const', List.sum_replicate_nat, Nat.mul_one] at hone
  rw [← hone, Table.size_eq_total, Table.size_eq_total]
  rfl

/-! ## §5. The words are the totals. -/

/-- The counters, read as numbers. -/
structure Read (cache : Cache) (deeds : List Deed) (relocations passes : Nat) : Prop where
  made : cache.metrics.installs.toNat + cache.metrics.replacements.toNat
    = (deeds.filterMap Deed.made?).length
  closed : cache.metrics.closed.toNat = (cache.atStage .nonEntrant).length + cache.reclaimed.size
  zombiesMarked : cache.metrics.zombiesMarked.toNat = cache.reclaimed.size
  blobsReclaimed : cache.metrics.blobsReclaimed.toNat = cache.reclaimed.size
  bytesReclaimed : cache.metrics.bytesReclaimed.toNat = cache.reclaimed.total Blob.size
  relocations : cache.metrics.relocations.toNat = relocations
  collections : cache.metrics.collections.toNat = passes

section Sessions

variable {settings : Settings} {start : Cache} {operations earlier later : List Operation}

/-- Totals only grow. -/
theorem TotalsFit.of_append (htotals : start.TotalsFit (earlier ++ later))
    (h : Accountable settings start (earlier ++ later)) : start.TotalsFit earlier where
  bytes := (h.reclaimed_le Blob.codeMeasure_size).trans_lt htotals.bytes
  relocations := by
    have hall := htotals.relocations
    rw [relocationsIn_append] at hall
    omega
  passes := by
    have hall := htotals.passes
    rw [List.countP_append] at hall
    omega

/-- **The words are the totals**, as long as these fit. -/
theorem Accountable.read (h : Accountable settings start operations)
    (htotals : start.TotalsFit operations) :
    (start.after operations).Read (start.deeds operations) (start.relocationsIn operations)
      (operations.countP Operation.isPass) := by
  have hcounted := h.counted
  have hclosed := h.consistent.sound.census_closed h.swept
  -- no counter of blobs exceeds the number of blobs, and each of those took an attempt
  have hmade := Deed.length_made (start.deeds operations)
  have hattempts : ((start.deeds operations).filterMap Deed.made?).length
      ≤ start.attemptsIn operations := h.length_blobsMade
  have hroom := h.room
  have hsizes := hcounted.size_add_size
  have hstages := h.swept.length_stages
  constructor
  case made =>
    rw [hcounted.installs, hcounted.replacements, UInt64.toNat_ofNat_of_lt' (by omega),
      UInt64.toNat_ofNat_of_lt' (by omega), hmade]
  case closed => rw [hcounted.closed, UInt64.toNat_ofNat_of_lt' (by omega), hclosed]
  case zombiesMarked => rw [hcounted.zombiesMarked, UInt64.toNat_ofNat_of_lt' (by omega)]
  case blobsReclaimed => rw [hcounted.blobsReclaimed, UInt64.toNat_ofNat_of_lt' (by omega)]
  case bytesReclaimed => rw [hcounted.bytesReclaimed, UInt64.toNat_ofNat_of_lt' htotals.bytes]
  case relocations => rw [hcounted.relocations, UInt64.toNat_ofNat_of_lt' htotals.relocations]
  case collections => rw [hcounted.collections, UInt64.toNat_ofNat_of_lt' htotals.passes]

/-- What the counters grow by in a pass is what it reports. -/
theorem Accountable.passCounted {policy : CollectionPolicy} {frames : FrameSnapshot}
    (h : Accountable settings start (earlier ++ [.collect policy frames]))
    (htotals : start.TotalsFit (earlier ++ [.collect policy frames])) :
    ∃ report after, (start.after earlier).PassCounted policy frames report after := by
  have hbefore := h.of_append.read (htotals.of_append h)
  have hafter := h.read htotals
  have hshifts := h.of_append.consistent.shifts_collect h.of_append.swept policy frames
  obtain ⟨report, after, hcollect, hmarked, hreclaimed, hbytes, hrelocated, -⟩ :=
    h.of_append.consistent.collect_counts h.of_append.swept policy frames
  have hlast : start.after (earlier ++ [.collect policy frames]) = after := by
    rw [after_concat, perform, ofAttempt_snd, hcollect]
  rw [hlast, relocationsIn_append, List.countP_append] at hafter
  rw [hcollect] at hshifts
  have hsize := hshifts.size_reclaimed
  have htotal : after.reclaimed.total Blob.size = (start.after earlier).reclaimed.total Blob.size
      + ((start.after earlier).leaving frames).total Blob.size :=
    hshifts.reclaimed Blob.codeMeasure_size
  -- all that was ever reclaimed fits a word, so the report is not clipped
  have hword : ((start.after earlier).leaving frames).total Blob.size ≤ Word.maxValue := by
    have hfits := htotals.bytes
    rw [hlast, htotal] at hfits
    exact Nat.le_pred_of_lt (Nat.lt_of_le_of_lt (Nat.le_add_left _ _) hfits)
  refine ⟨report, after, hcollect, ?_, ?_, ?_, ?_, ?_⟩
  · rw [hafter.zombiesMarked, hbefore.zombiesMarked, hmarked, hsize]
  · rw [hafter.blobsReclaimed, hbefore.blobsReclaimed, hreclaimed, hsize]
  · rw [hafter.bytesReclaimed, hbefore.bytesReclaimed, hbytes, Nat.min_eq_left hword, htotal]
  · rw [hafter.relocations, hbefore.relocations, hrelocated]
    rfl
  · rw [hafter.collections, hbefore.collections]
    rfl

end Sessions

end Cache

open Cache in
/-- **The counters balance**, after every session that leaves the regions to the cache and never
resets them, as long as handles are left and the totals fit a word: they agree with the histories,
with who is registered and in which slot, with the bytes in the regions, and with what each pass
reported. -/
theorem counters_balance {settings : Settings} {start : Cache} {operations : List Operation}
    (hnew : Cache.new settings = .ok start)
    (hmanaged : ∀ operation ∈ operations, operation.isDirect = false)
    (hcounting : ∀ operation ∈ operations, operation.isReset = false)
    (hroom : start.attemptsIn operations < UInt64.size) (htotals : start.TotalsFit operations) :
    start.Balanced operations (start.after operations) := by
  have h : Accountable settings start operations := ⟨hnew, hmanaged, hcounting, hroom⟩
  have hread := h.read htotals
  have hsizes := h.counted.size_add_size
  have hstages := h.swept.length_stages
  constructor
  case histories =>
    have hlengths : ∀ method, ((start.after operations).status method).history.length
        = ((start.blobsMade operations).filter fun blob => blob.method = method).length := by
      intro method
      rw [history_after hnew hroom, List.length_map]
    rw [hread.made, finsum_congr hlengths, finsum_length_filter]
    rfl
  case blobs => rw [hread.made, hread.blobsReclaimed, hsizes]
  case closed => rw [hread.closed, hread.zombiesMarked]
  case zombies => rw [h.counted.zombiesMarked, h.counted.blobsReclaimed]
  case entrant =>
    rw [hread.made, hread.closed]
    omega
  case compiled => exact h.consistent.sound.length_entrant
  case bytes =>
    rw [hread.bytesReclaimed, h.consistent.usedBytes_eq, Nat.add_comm]
    exact h.counted.made Blob.codeMeasure_size
  case passes =>
    intro earlier policy frames later hsplit
    have hsplit : operations = (earlier ++ [.collect policy frames]) ++ later := by
      rw [hsplit, List.append_assoc]
      rfl
    subst hsplit
    exact h.of_append.passCounted (htotals.of_append h)

/-- One method is compiled twice over and gives up its osr slot; the code of another is moved, spared
from a lower level, and made again at the end. In between two passes reclaim two blobs, as the frames
allow, and relocate one. -/
def turnover : List Operation :=
  [.install ⟨1⟩ ⟨.tier2, ⟨#[1, 2, 3]⟩⟩ .standard, .replace ⟨1⟩ .standard none none,
    .install ⟨1⟩ ⟨.tier4, ⟨#[4, 5]⟩⟩ .osr, .deoptimize ⟨1⟩ .osr,
    .handle (.finished ⟨2⟩ ⟨.tier4, ⟨#[6]⟩⟩ .standard), .move ⟨4⟩ .nonMethod,
    .install ⟨2⟩ ⟨.tier1, ⟨#[7]⟩⟩ .standard, .collect ⟨true, 25, true⟩ (.ofList [.base]),
    .collect ⟨true, 25, true⟩ {}, .replace ⟨2⟩ .standard none none]

theorem counters_balance_after_turnover :
    ((Cache.ofSettings {}).after turnover).metrics
        = { installs := 3, replacements := 2, deoptimizations := 1, closed := 3, zombiesMarked := 2
            blobsReclaimed := 2, bytesReclaimed := 5, relocations := 2, collections := 2 }
      ∧ (Cache.ofSettings {}).Balanced turnover ((Cache.ofSettings {}).after turnover) := by
  have hnew : Cache.new {} = .ok (Cache.ofSettings {}) := rfl
  have hmanaged : ∀ operation ∈ turnover, operation.isDirect = false := by decide
  have hcounting : ∀ operation ∈ turnover, operation.isReset = false := by decide
  have htotals : (Cache.ofSettings {}).TotalsFit turnover := ⟨by decide, by decide, by decide⟩
  exact ⟨by decide, counters_balance hnew hmanaged hcounting (by decide) htotals⟩

end JitCache
