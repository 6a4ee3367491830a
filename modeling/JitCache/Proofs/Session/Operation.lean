/-
  JitCache.Proofs.Session.Operation
  ─────────────────────────────────
  **Every operation consists of steps, also when it is refused half-way.**

  A collection pass works through lists of blobs that were read off the table
  before it began to change them.  Whoever has his turn is looked up again, so
  a turn is a step or nothing, whatever the list.  What is read off is a list of
  different registered blobs at one stage (`AllAt`); treating the first leaves
  the others as they are.

  Main statements:
    `markIfUnreferenced_cases`, `reclaim_cases` — all that a blob's turn can come to
    `perform_steps` — an operation takes a cache where its steps take it
-/
import JitCache.Proofs.Session.Requests

namespace JitCache

namespace Cache

variable {cache after : Cache} {operation : Operation} {policy : CollectionPolicy}
  {frames : FrameSnapshot}

/-! ## §1. Lists of blobs at one stage. -/

/-- Different registered blobs at one stage of life. -/
structure AllAt (cache : Cache) (liveness : Liveness) (blobs : List Blob) : Prop where
  apart : blobs.Pairwise fun a b => a.id ≠ b.id
  registered : ∀ blob ∈ blobs, cache.registered.get? blob.id = some blob
  stage : ∀ blob ∈ blobs, blob.liveness = liveness

/-- Blobs are registered in the order of their handles. -/
theorem Filed.ascending_values (h : cache.Filed) :
    cache.registered.values.Pairwise fun a b => number a.id < number b.id := by
  have hid : ∀ entry ∈ cache.registered.entries, entry.2.id = entry.1 :=
    fun entry hmem => h.registered (Table.mem_entries_iff.mp hmem)
  -- entries with ascending keys, each value with its key for a handle
  refine List.pairwise_map.mpr (cache.registered.ascending.imp_of_mem ?_)
  intro a b ha hb hlt
  rw [hid a ha, hid b hb]
  exact hlt

theorem Filed.ascending_atStage (h : cache.Filed) (liveness : Liveness) :
    (cache.atStage liveness).Pairwise fun a b => number a.id < number b.id :=
  h.ascending_values.filter _

theorem Filed.mem_atStage_iff (h : cache.Filed) {liveness : Liveness} {blob : Blob} :
    blob ∈ cache.atStage liveness
      ↔ cache.registered.get? blob.id = some blob ∧ blob.liveness = liveness := by
  unfold atStage
  rw [List.mem_filter, decide_eq_true_eq, Table.mem_values_iff]
  refine and_congr_left fun _ => ⟨?_, fun hget => ⟨_, hget⟩⟩
  rintro ⟨id, hget⟩
  rw [h.registered hget]
  exact hget

theorem Filed.allAt_atStage (h : cache.Filed) (liveness : Liveness) :
    cache.AllAt liveness (cache.atStage liveness) where
  apart := (h.ascending_atStage liveness).imp fun hlt heq => Nat.ne_of_lt hlt (congrArg number heq)
  registered _ hmem := (h.mem_atStage_iff.mp hmem).1
  stage _ hmem := (h.mem_atStage_iff.mp hmem).2

theorem AllAt.filter {liveness : Liveness} {blobs : List Blob} (h : cache.AllAt liveness blobs)
    (keep : Blob → Bool) : cache.AllAt liveness (blobs.filter keep) where
  apart := h.apart.filter _
  registered blob hmem := h.registered blob (List.mem_filter.mp hmem).1
  stage blob hmem := h.stage blob (List.mem_filter.mp hmem).1

/-- Once the first is dealt with, the others are as they were. -/
theorem AllAt.rest {liveness : Liveness} {blob : Blob} {rest : List Blob}
    (h : cache.AllAt liveness (blob :: rest))
    (hframe : ∀ id, blob.id ≠ id → after.registered.get? id = cache.registered.get? id) :
    after.AllAt liveness rest where
  apart := (List.pairwise_cons.mp h.apart).2
  registered other hmem := by
    rw [hframe other.id ((List.pairwise_cons.mp h.apart).1 other hmem)]
    exact h.registered other (List.mem_cons_of_mem _ hmem)
  stage other hmem := h.stage other (List.mem_cons_of_mem _ hmem)

/-! ## §2. Giving up and reclaiming. -/

/-- What a blob's turn in the first phase comes to: it is passed over, or it is given up. -/
theorem markIfUnreferenced_cases (cache : Cache) (frames : FrameSnapshot) (blob : Blob) :
    cache.markIfUnreferenced frames blob = (false, cache)
    ∨ ∃ now, cache.registered.get? blob.id = some now ∧ now.liveness = .nonEntrant
        ∧ cache.isUnreferenced frames now = true
        ∧ cache.markIfUnreferenced frames blob = (true, cache.markZombie now) := by
  unfold markIfUnreferenced
  cases hblob : cache.registered.get? blob.id with
  | none => exact .inl rfl
  | some now =>
    simp only
    by_cases hrecord : cache.hasRecord now.method = false
    · rw [if_pos hrecord]
      exact .inl rfl
    rw [if_neg hrecord]
    by_cases hreferenced : cache.isUnreferenced frames now = false
    · rw [if_pos hreferenced]
      exact .inl rfl
    rw [if_neg hreferenced]
    by_cases hstage : now.liveness = .nonEntrant
    · rw [if_pos hstage]
      exact .inr ⟨now, rfl, hstage, Bool.of_not_eq_false hreferenced, rfl⟩
    · rw [if_neg hstage]
      exact .inl rfl

/-- What a blob's turn in the second phase comes to: it is passed over, the region does not know it
and the pass stops, or it is reclaimed. -/
theorem reclaim_cases (cache : Cache) (blob : Blob) :
    cache.reclaim blob = (.ok none, cache)
    ∨ (∃ error, cache.reclaim blob = (.error error, cache))
    ∨ ∃ now placement region, cache.registered.get? blob.id = some now ∧ now.liveness = .zombie
        ∧ (cache.regions.get now.region).release now.id = (.ok placement, region)
        ∧ cache.reclaim blob
          = (.ok (some now.size),
              { cache.strikeOut region now with
                metrics :=
                  { cache.metrics with
                    blobsReclaimed := cache.metrics.blobsReclaimed + 1
                    bytesReclaimed := cache.metrics.bytesReclaimed + UInt64.ofNat now.size } }) := by
  unfold reclaim region
  cases hblob : cache.registered.get? blob.id with
  | none => exact .inl rfl
  | some now =>
    simp only
    by_cases hrecord : cache.hasRecord now.method = false
    · rw [if_pos hrecord]
      exact .inl rfl
    rw [if_neg hrecord]
    by_cases hstage : now.liveness = .zombie
    · rw [if_neg (not_not_intro hstage)]
      rcases hrelease : (cache.regions.get now.region).release now.id with
        ⟨error | placement, region⟩
      · dsimp only
        rw [Regions.set_of_release_error hrelease]
        exact .inr (.inl ⟨error, rfl⟩)
      · exact .inr (.inr ⟨now, placement, region, rfl, hstage, hrelease, rfl⟩)
    · rw [if_pos hstage]
      exact .inl rfl

theorem markEach_steps {blobs : List Blob} {count : Nat} (hfiled : cache.Filed)
    (hpass : operation = .collect policy frames) :
    Steps operation cache 0 (markEach frames blobs count cache).2 := by
  induction blobs generalizing cache count with
  | nil => exact .refl
  | cons blob rest ih =>
    rw [markEach]
    rcases cache.markIfUnreferenced_cases frames blob with
      hpassed | ⟨now, hblob, hstage, hunreferenced, hmarked⟩
    · rw [hpassed]
      exact ih hfiled
    · rw [hmarked]
      have hid := hfiled.registered hblob
      have hstep : Step operation 0 cache (cache.markZombie now) :=
        .gaveUp hpass (hid ▸ hblob) hstage hunreferenced
      exact (Steps.single hstep).zero_trans (ih (hfiled.markZombie now))

theorem markZombies_steps (hfiled : cache.Filed) (hpass : operation = .collect policy frames) :
    Steps operation cache 0 (cache.markZombies frames).2 :=
  markEach_steps hfiled hpass

theorem reclaimEach_steps {blobs : List Blob} {report : PassReport} (hfiled : cache.Filed)
    (hpass : operation = .collect policy frames) :
    Steps operation cache 0 (reclaimEach blobs report cache).2 := by
  induction blobs generalizing cache report with
  | nil => exact .refl
  | cons blob rest ih =>
    rw [reclaimEach]
    rcases cache.reclaim_cases blob with
      hpassed | ⟨error, hrefused⟩ | ⟨now, placement, region, hblob, hstage, hrelease, hreclaimed⟩
    · rw [hpassed]
      exact ih hfiled
    · -- the pass stops here, and what it has done so far stays done
      rw [hrefused]
      exact .refl
    · rw [hreclaimed]
      have hid := hfiled.registered hblob
      have hstep : Step operation 0 cache (cache.strikeOut region now) :=
        .reclaimed hpass (hid ▸ hblob) hstage hrelease
      have hstruck := hfiled.strikeOut region now
      exact ((Steps.single hstep).note (sameHoldings_metrics _ _)).zero_trans
        (ih ⟨hstruck.registered, hstruck.reclaimed⟩)

theorem reclaimZombies_steps (report : PassReport) (hfiled : cache.Filed)
    (hpass : operation = .collect policy frames) :
    Steps operation cache 0 (cache.reclaimZombies report).2 :=
  reclaimEach_steps hfiled hpass

/-! ## §3. Draining. -/

/-- All tries are made on the same cache: a refused move changes nothing. -/
theorem moveToFirst_steps {id : BlobId} {targets : List RegionKind} (hfiled : cache.Filed)
    (hwhy : ∀ target ∈ targets, ∀ {blob}, cache.registered.get? id = some blob →
      operation.Moves cache blob target) :
    Steps operation cache 0 (cache.moveToFirst id targets).2 := by
  induction targets with
  | nil => exact .refl
  | cons target rest ih =>
    have hmove := move_steps hfiled (hwhy target List.mem_cons_self)
    have hrest := ih fun other hmem => hwhy other (List.mem_cons_of_mem _ hmem)
    unfold moveToFirst
    split
    · next heq =>
      rw [heq] at hmove
      exact hmove
    · next heq =>
      rw [move_error heq]
      split
      · exact hrest
      · exact .refl
      · exact .refl

/-- A move concerns one blob: the others stay resident where they are. -/
theorem residents_move {id other : BlobId} (hfiled : cache.Filed) (hne : id ≠ other)
    (target kind : RegionKind) :
    ((cache.move id target).2.regions.get kind).residents.get? other
      = (cache.regions.get kind).residents.get? other := by
  rcases cache.move_cases id target with
    ⟨error, hmove⟩ | ⟨blob, hblob, ⟨-, hmove⟩ | ⟨hregion, placement, regions, htransfer, hmove⟩⟩
  · rw [hmove]
  · rw [hmove]
  · rw [hmove]
    show (regions.get kind).residents.get? other = _
    rw [Regions.get?_residents_transfer hregion htransfer, if_neg]
    rw [hfiled.registered hblob]
    exact hne

theorem residents_moveToFirst {id other : BlobId} (hfiled : cache.Filed) (hne : id ≠ other)
    (targets : List RegionKind) (kind : RegionKind) :
    ((cache.moveToFirst id targets).2.regions.get kind).residents.get? other
      = (cache.regions.get kind).residents.get? other := by
  induction targets with
  | nil => rfl
  | cons target rest ih =>
    have hmove := residents_move hfiled hne target kind
    unfold moveToFirst
    split
    · next heq =>
      rw [heq] at hmove
      exact hmove
    · next heq =>
      rw [move_error heq]
      split
      · exact ih
      · rfl
      · rfl

/-- The blobs still to be drained are different residents of the source: draining one leaves the
others there. -/
structure Drainable (cache : Cache) (source : RegionKind) (ids : List BlobId) : Prop where
  apart : ids.Pairwise (· ≠ ·)
  resident : ∀ id ∈ ids, ∃ resident, (cache.regions.get source).residents.get? id = some resident

theorem drainable_keys (cache : Cache) (source : RegionKind) :
    cache.Drainable source (cache.regions.get source).residents.keys where
  apart := by
    refine List.pairwise_map.mpr ((cache.regions.get source).residents.ascending.imp ?_)
    intro a b hlt heq
    rw [heq] at hlt
    exact Nat.lt_irrefl _ hlt
  resident _ hmem := Table.contains_iff.mp (Table.mem_keys_iff.mp hmem)

theorem Drainable.rest {source : RegionKind} {id : BlobId} {rest : List BlobId}
    (h : cache.Drainable source (id :: rest))
    (hframe : ∀ other, id ≠ other → (after.regions.get source).residents.get? other
      = (cache.regions.get source).residents.get? other) : after.Drainable source rest where
  apart := (List.pairwise_cons.mp h.apart).2
  resident other hmem := by
    rw [hframe other ((List.pairwise_cons.mp h.apart).1 other hmem)]
    exact h.resident other (List.mem_cons_of_mem _ hmem)

theorem drainEach_steps {source : RegionKind} {ids : List BlobId} {report : PassReport}
    (hfiled : cache.Filed) (hpass : operation = .collect policy frames)
    (hconsolidate : policy.consolidate = true) (hmethods : source.holdsMethods = true)
    (hdrain : cache.Drainable source ids) :
    Steps operation cache 0 (drainEach policy source ids report cache).2 := by
  induction ids generalizing cache report with
  | nil => exact .refl
  | cons id rest ih =>
    unfold drainEach
    simp only
    split
    · exact ih hfiled (hdrain.rest fun _ _ => rfl)
    · next hmoves =>
      -- the pass has checked all that a move needs for a reason
      have hwhy : ∀ target ∈ policy.destinations cache.regions source, ∀ {blob},
          cache.registered.get? id = some blob → operation.Moves cache blob target := by
        intro target htarget blob hblob
        have hentrant : ¬ ((cache.registered.get? id).map Blob.isEntrant).getD false = false :=
          fun hclosed => hmoves (.inl hclosed)
        rw [hblob] at hentrant
        obtain ⟨resident, hresident⟩ := hdrain.resident id List.mem_cons_self
        refine .inr ⟨policy, frames, source, resident, hpass, hconsolidate, ?_, hmethods, ?_, htarget⟩
        · exact of_decide_eq_true (Bool.of_not_eq_false hentrant)
        · rw [hfiled.registered hblob]
          exact hresident
      have hmove := moveToFirst_steps hfiled hwhy
      have hrest := hdrain.rest fun other hne =>
        residents_moveToFirst hfiled hne (policy.destinations cache.regions source) source
      -- a failure ends the draining, moved or stuck it goes on
      split
      · next heq =>
        rw [heq] at hmove
        exact hmove
      · next heq =>
        rw [heq] at hmove hrest
        exact hmove.zero_trans (ih (filed_steps hfiled hmove) hrest)
      · next heq =>
        rw [heq] at hmove hrest
        exact hmove.zero_trans (ih (filed_steps hfiled hmove) hrest)

theorem drainAll_steps {sources : List RegionKind} {report : PassReport}
    (hfiled : cache.Filed) (hpass : operation = .collect policy frames)
    (hconsolidate : policy.consolidate = true)
    (hmethods : ∀ source ∈ sources, source.holdsMethods = true) :
    Steps operation cache 0 (drainAll policy sources report cache).2 := by
  induction sources generalizing cache report with
  | nil => exact .refl
  | cons source rest ih =>
    have hdrain : Steps operation cache 0 (cache.drain policy source report).2 := by
      unfold drain
      simp only
      split
      · exact drainEach_steps hfiled hpass hconsolidate (hmethods source List.mem_cons_self)
          (cache.drainable_keys source)
      · exact .refl
    unfold drainAll
    split
    · next heq =>
      rw [heq] at hdrain
      exact hdrain
    · next heq =>
      rw [heq] at hdrain
      apply hdrain.zero_trans
      apply ih (filed_steps hfiled hdrain)
      intro other hmem
      exact hmethods other (List.mem_cons_of_mem _ hmem)

theorem consolidate_steps (report : PassReport) (hfiled : cache.Filed)
    (hpass : operation = .collect policy frames) :
    Steps operation cache 0 (cache.consolidate policy report).2 := by
  unfold consolidate
  split
  · next hconsolidate =>
    exact drainAll_steps hfiled hpass hconsolidate fun _ hmem => (List.mem_filter.mp hmem).2
  · exact .refl

/-- The phases of a pass, each from where the one before has left off. -/
theorem collect_steps (hfiled : cache.Filed) (hpass : operation = .collect policy frames) :
    Steps operation cache 0 (cache.collect policy frames).2 := by
  have hmark := markZombies_steps hfiled hpass
  unfold collect
  generalize cache.markZombies frames = marked at hmark ⊢
  obtain ⟨count, marked⟩ := marked
  have hreclaim := reclaimZombies_steps { zombiesMarked := count }
    (filed_steps hfiled hmark) hpass
  simp only
  split
  · -- reclaiming has failed: the pass ends with what is marked and reclaimed so far
    next heq =>
    rw [heq] at hreclaim
    exact hmark.zero_trans hreclaim
  · next report cleared heq =>
    rw [heq] at hreclaim
    have hsofar := hmark.zero_trans hreclaim
    have hdrained := consolidate_steps report (filed_steps hfiled hsofar) hpass
    split
    · next heq =>
      rw [heq] at hdrained
      exact hsofar.zero_trans hdrained
    · next heq =>
      rw [heq] at hdrained
      exact (hsofar.zero_trans hdrained).note (sameHoldings_metrics _ _)

/-! ## §4. Every operation. -/

theorem ofAttempt_snd {α : Type} (tell : α → Outcome) (attempt : Attempt α) :
    (Outcome.ofAttempt tell attempt).2 = attempt.2 := by
  obtain ⟨outcome, after⟩ := attempt
  cases outcome <;> rfl

theorem perform_handle (cache : Cache) (report : CompilerReport) :
    (cache.perform (.handle report)).2 = (cache.handle report).2 := by
  rw [perform]
  split
  · next heq => rw [heq]
  · next heq => rw [heq]

/-- An operation about a slot is one step. -/
theorem perform_step {slot : MethodId × Slot} (hslot : operation.slot? = some slot) :
    StepAndNote operation cache (cache.attempts operation) (cache.perform operation).2 := by
  cases operation with
  | install method artifact slot =>
    rw [perform, ofAttempt_snd]
    exact install_step rfl
  | replace method slot level region =>
    rw [perform, ofAttempt_snd]
    exact replace_step rfl
  | deoptimize method slot =>
    rw [perform, ofAttempt_snd]
    exact deoptimize_step rfl
  | handle report =>
    rw [perform_handle]
    cases report with
    | finished method artifact slot => exact handle_finished_step rfl
    | gaveUp => cases hslot
  | _ => cases hslot

/-- **An operation takes a cache where its steps take it**, granted or refused. -/
theorem perform_steps (h : cache.Filed) (operation : Operation) :
    Steps operation cache (cache.attempts operation) (cache.perform operation).2 := by
  cases operation with
  | install => exact .of_stepAndNote (perform_step rfl)
  | replace => exact .of_stepAndNote (perform_step rfl)
  | deoptimize => exact .of_stepAndNote (perform_step rfl)
  | move blob target =>
    rw [perform, ofAttempt_snd]
    refine move_steps h fun hblob => .inl ?_
    rw [h.registered hblob]
  | queue method => exact .single (.noted (sameHoldings_setQueued cache method true))
  | compileFailed method => exact .single (.noted (sameHoldings_compileFailed cache method))
  | invoke method => exact .single (.noted (sameHoldings_invoke cache method))
  | handle report =>
    cases report with
    | finished => exact .of_stepAndNote (perform_step rfl)
    | gaveUp method =>
      rw [perform_handle]
      exact .single (.noted (sameHoldings_compileFailed cache method))
  | collect policy frames =>
    rw [perform, ofAttempt_snd]
    exact collect_steps h rfl
  | reserveIn kind blob size =>
    rw [perform, ofAttempt_snd]
    exact reserveIn_steps rfl
  | releaseIn kind blob =>
    rw [perform, ofAttempt_snd]
    exact releaseIn_steps rfl
  | transfer source target blob =>
    rw [perform, ofAttempt_snd]
    exact transfer_steps h rfl
  | transferHeld source target blob =>
    rw [perform, ofAttempt_snd]
    exact transferHeld_steps h rfl
  | resetMetrics => exact .single (.noted (sameHoldings_metrics cache {}))

end Cache

end JitCache
