/-
  JitCache.Proofs.History
  ───────────────────────
  **A method's history is a faithful log.**

  Each method keeps one log for both of its slots, and emptying a slot leaves no
  entry.  So the log is measured against the deeds of the whole session: it
  lists the blobs made for the method, in order; the last deed in a slot says
  who is in it; and the code that is there goes back, through all replacements,
  to the latest installation.

  That a slot's level goes down from one entry to the next is not seen from the
  log alone.  It takes a replacement, which may ask for any level, or a slot
  that was emptied in between.

  Main statement:
    `history_is_faithful` — the histories, the slots and the code in them
-/
import JitCache.Proofs.Session.Deeds
import JitCache.Proofs.Slots

namespace JitCache

/-! ## §1. What a faithful history is. -/

/-- The entry that a blob has in its method's history. -/
def Blob.installation (blob : Blob) : Installation := ⟨blob.id, blob.level, blob.slot⟩

namespace Deed

variable {deed : Deed} {method : MethodId} {slot : Slot}

/-- It was done to this slot. -/
def IsAt (method : MethodId) (slot : Slot) (deed : Deed) : Prop :=
  deed.blob.method = method ∧ deed.blob.slot = slot

instance (method : MethodId) (slot : Slot) (deed : Deed) : Decidable (deed.IsAt method slot) :=
  inferInstanceAs (Decidable (_ ∧ _))

/-- The blob that was installed. -/
def installed? : Deed → Option Blob
  | installed blob => some blob
  | _ => none

/-- The entry it leaves in the history, as far as one slot is concerned. -/
def logged? (method : MethodId) (slot : Slot) (deed : Deed) : Option Installation :=
  if deed.IsAt method slot then deed.made?.map Blob.installation else none

/-- It is what the operation asks of the cache: the artifact that is to be installed, the code in the
slot at the level asked for or at its own, or the slot that is to be emptied. -/
def Answers (operation : Operation) (cache : Cache) : Deed → Prop
  | installed blob =>
    operation.installs? = some (blob.method, ⟨blob.level, blob.code⟩, blob.slot)
  | replaced blob => ∃ level region old,
    operation = .replace blob.method blob.slot level region
      ∧ cache.entrant? blob.method blob.slot = some old
      ∧ blob.level = level.getD old.level ∧ blob.code = old.code
  | emptied blob => operation = .deoptimize blob.method blob.slot

/-- The blob that is in a slot after these deeds: the last one there decides. -/
def current? (method : MethodId) (slot : Slot) (deeds : List Deed) : Option Blob :=
  (deeds.filter fun deed => deed.IsAt method slot).getLast?.bind made?

/-- The blob that was last installed in a slot. -/
def source? (method : MethodId) (slot : Slot) (deeds : List Deed) : Option Blob :=
  ((deeds.filter fun deed => deed.IsAt method slot).filterMap installed?).getLast?

theorem isAt_of_made? {blob : Blob} (h : deed.made? = some blob) (method : MethodId) (slot : Slot) :
    deed.IsAt method slot ↔ blob.method = method ∧ blob.slot = slot := by
  unfold IsAt
  rw [blob_of_made? h]

theorem current?_concat (method : MethodId) (slot : Slot) (deeds : List Deed) (deed : Deed) :
    current? method slot (deeds ++ [deed])
      = if deed.IsAt method slot then deed.made? else current? method slot deeds := by
  unfold current?
  rw [List.filter_append]
  split
  · next hat => simp [hat]
  · next hat => simp [hat]

theorem source?_concat (method : MethodId) (slot : Slot) (deeds : List Deed) (deed : Deed) :
    source? method slot (deeds ++ [deed])
      = if deed.IsAt method slot then deed.installed?.or (source? method slot deeds)
        else source? method slot deeds := by
  unfold source?
  rw [List.filter_append, List.filterMap_append, List.getLast?_append]
  split
  · next hat => cases deed <;> simp [hat, installed?]
  · next hat => simp [hat]

/-- Deeds elsewhere leave a slot alone. -/
theorem current?_append {first second : List Deed}
    (helsewhere : ∀ deed ∈ second, ¬ deed.IsAt method slot) :
    current? method slot (first ++ second) = current? method slot first := by
  have hnone : (second.filter fun deed => deed.IsAt method slot) = [] :=
    List.filter_eq_nil_iff.mpr fun deed hmem => by simp [helsewhere deed hmem]
  unfold current?
  rw [List.filter_append, hnone, List.append_nil]

/-- Who is in a slot was made for it by one of the deeds. -/
theorem mem_of_current? {deeds : List Deed} {blob : Blob}
    (h : current? method slot deeds = some blob) :
    blob ∈ deeds.filterMap made? ∧ blob.method = method ∧ blob.slot = slot := by
  obtain ⟨deed, hlast, hmade⟩ := Option.bind_eq_some_iff.mp h
  obtain ⟨hmem, hat⟩ := List.mem_filter.mp (List.mem_of_getLast? hlast)
  refine ⟨List.mem_filterMap.mpr ⟨deed, hmem, hmade⟩, ?_⟩
  exact (isAt_of_made? hmade method slot).mp (of_decide_eq_true hat)

end Deed

namespace Cache

/-- The histories of a session tell what it has done to the slots, and the slots agree with them. -/
structure Faithful (start : Cache) (operations : List Operation) : Prop where
  told : ∀ {earlier operation later}, operations = earlier ++ operation :: later → ∀ id,
    ((start.after earlier).perform operation).1 = .blob id ↔
      ∃ deed, (start.after earlier).deed? operation = some deed ∧ deed.blob.id = id
  answers : ∀ {earlier operation later}, operations = earlier ++ operation :: later → ∀ {deed},
    (start.after earlier).deed? operation = some deed → deed.Answers operation (start.after earlier)
  history : ∀ method, ((start.after operations).status method).history
    = ((start.blobsMade operations).filter fun blob => blob.method = method).map Blob.installation
  ascending : ∀ method, ((start.after operations).status method).history.Pairwise
    fun first second => first.blob.number < second.blob.number
  apart : ∀ {method other first second}, first ∈ ((start.after operations).status method).history →
    second ∈ ((start.after operations).status other).history → first.blob = second.blob →
      method = other
  occupied : ∀ {method slot id}, ((start.after operations).status method).occupant? slot = some id →
    ∃ blob source, (start.after operations).entrant? method slot = some blob ∧ blob.id = id
      ∧ (((start.after operations).status method).history.filter (·.slot = slot)).getLast?
          = some blob.installation
      ∧ Deed.source? method slot (start.deeds operations) = some source ∧ blob.code = source.code
  drops : ∀ {method slot before first second after},
    ((start.after operations).status method).history.filter (·.slot = slot)
      = before ++ first :: second :: after → second.level < first.level →
    ∃ earlier deed between deed' later,
      start.deeds operations = earlier ++ deed :: between ++ deed' :: later
        ∧ deed.logged? method slot = some first ∧ deed'.logged? method slot = some second
        ∧ ((∃ blob, deed' = .replaced blob)
          ∨ ∃ blob, .emptied blob ∈ between ∧ blob.method = method ∧ blob.slot = slot)

variable {cache before after : Cache} {operation : Operation} {outcome : Outcome}
  {method : MethodId} {slot : Slot} {blob : Blob} {made : Nat}

/-! ## §2. One operation. -/

theorem history_setOccupant (status : MethodStatus) (slot : Slot) (occupant : Option BlobId) :
    (status.setOccupant slot occupant).history = status.history := by
  cases slot <;> rfl

/-- Entering a slot adds one entry to the method's history. -/
theorem history_enter (cache : Cache) (blob : Blob) (method : MethodId) :
    ((cache.enter blob).status method).history
      = (cache.status method).history
        ++ if blob.method = method then [blob.installation] else [] := by
  unfold enter
  simp only
  rw [status_setStatus, status_closeOccupant]
  by_cases heq : blob.method = method
  · rw [if_pos heq, if_pos heq, ← heq]
    show ((cache.status blob.method).setOccupant blob.slot _).history ++ [blob.installation] = _
    rw [history_setOccupant]
  · rw [if_neg heq, if_neg heq, List.append_nil]

/-- Emptying a slot adds none. -/
theorem history_vacate (cache : Cache) (method other : MethodId) (slot : Slot) :
    ((cache.vacate method slot).status other).history = (cache.status other).history := by
  unfold vacate
  rw [status_setStatus, status_closeOccupant]
  by_cases heq : method = other
  · rw [if_pos heq, ← heq, history_setOccupant]
  · rw [if_neg heq]

theorem Makes.history (h : before.Makes blob after) (method : MethodId) :
    (after.status method).history
      = (before.status method).history
        ++ if blob.method = method then [blob.installation] else [] := by
  obtain ⟨kind, region, -, hafter⟩ := h.enters
  rw [hafter.history]
  exact history_enter _ _ _

theorem Makes.occupant (h : before.Makes blob after) (method : MethodId) (slot : Slot) :
    (after.status method).occupant? slot
      = if blob.method = method ∧ blob.slot = slot then some blob.id
        else (before.status method).occupant? slot := by
  obtain ⟨kind, region, -, hafter⟩ := h.enters
  rw [hafter.occupant]
  exact occupant?_enter _ _ _ _

/-- The history of a method grows by the blob that is made for it. -/
theorem Does.history {deed : Option Deed} (h : Does operation before deed outcome after)
    (method : MethodId) :
    (after.status method).history
      = (before.status method).history
        ++ (((deed.bind Deed.made?).toList.filter fun blob => blob.method = method).map
            Blob.installation) := by
  have hmakes : ∀ {blob}, before.Makes blob after →
      (after.status method).history = (before.status method).history
        ++ (([blob].filter fun blob => blob.method = method).map Blob.installation) := by
    intro blob hmakes
    rw [hmakes.history]
    by_cases heq : blob.method = method <;> simp [heq]
  cases h with
  | installed _ _ _ hmade | replaced _ _ _ _ _ hmade => exact hmakes hmade
  | emptied _ _ hafter =>
    rw [hafter.history, history_vacate]
    exact (List.append_nil _).symm
  | nothing _ hslots =>
    rw [hslots.history]
    exact (List.append_nil _).symm

/-- A deed changes who is in the slot that it is done to. -/
theorem Does.occupant {deed : Deed} (h : Does operation before (some deed) outcome after)
    (method : MethodId) (slot : Slot) :
    (after.status method).occupant? slot
      = if deed.IsAt method slot then deed.made?.map Blob.id
        else (before.status method).occupant? slot := by
  cases h with
  | installed _ _ _ hmade | replaced _ _ _ _ _ hmade => exact hmade.occupant method slot
  | emptied _ _ hafter =>
    rw [hafter.occupant]
    exact occupant?_vacate _ _ _ _ _

theorem Does.answers {deed : Deed} (h : Does operation before (some deed) outcome after) :
    deed.Answers operation before := by
  cases h with
  | installed hasked => exact hasked
  | replaced hasked hold hlevel hcode => exact ⟨_, _, _, hasked, hold, hlevel, hcode⟩
  | emptied hasked => exact hasked

theorem Does.not_lower (h : Does operation before (some (.installed blob)) outcome after) :
    ¬ blob.level < before.level blob.method blob.slot := by
  cases h with
  | installed _ hlevel => exact hlevel

theorem Does.told {deed : Option Deed} (h : Does operation before deed outcome after) (id : BlobId) :
    outcome = .blob id ↔ ∃ done, deed = some done ∧ done.blob.id = id := by
  cases h with
  | nothing htold => simp [htold id]
  | _ => simp [Deed.blob]

/-! ## §3. Whole sessions. -/

section Sessions

variable {settings : Settings} {start : Cache} {operations : List Operation}

/-- The history of a method lists the blobs made for it. -/
theorem history_after (hnew : Cache.new settings = .ok start)
    (hroom : start.attemptsIn operations < UInt64.size) (method : MethodId) :
    ((start.after operations).status method).history
      = ((start.blobsMade operations).filter fun blob => blob.method = method).map
          Blob.installation := by
  induction operations using List.reverseRecOn with
  | nil =>
    rw [eq_of_new hnew]
    rfl
  | append_singleton operations last ih =>
    obtain ⟨hearlier, hsound, hnow⟩ := sound_before hnew hroom
    rw [after_concat, (perform_does hsound hnow).history, ih hearlier, blobsMade_concat,
      List.filter_append, List.map_append]

/-- The last deed in a slot says who is in it. -/
theorem occupant_after (hnew : Cache.new settings = .ok start)
    (hroom : start.attemptsIn operations < UInt64.size) (method : MethodId) (slot : Slot) :
    ((start.after operations).status method).occupant? slot
      = (Deed.current? method slot (start.deeds operations)).map Blob.id := by
  induction operations using List.reverseRecOn with
  | nil =>
    rw [eq_of_new hnew]
    cases slot <;> rfl
  | append_singleton operations last ih =>
    obtain ⟨hearlier, hsound, hnow⟩ := sound_before hnew hroom
    have hdoes := perform_does hsound hnow
    rw [after_concat, deeds_concat]
    cases hdeed : (start.after operations).deed? last with
    | none =>
      rw [hdeed] at hdoes
      rw [hdoes.sameSlots.occupant, ih hearlier, Option.toList_none, List.append_nil]
    | some deed =>
      rw [hdeed] at hdoes
      rw [hdoes.occupant, ih hearlier, Option.toList_some, Deed.current?_concat]
      split <;> rfl

/-- Who is in a slot by the deeds is who calls enter there. -/
theorem entrant_of_current (hnew : Cache.new settings = .ok start)
    (hroom : start.attemptsIn operations < UInt64.size)
    (hcurrent : Deed.current? method slot (start.deeds operations) = some blob) :
    ∃ now, (start.after operations).entrant? method slot = some now ∧ blob.SameCode now := by
  have hsound := sound_after hnew hroom
  have hin := occupant_after hnew hroom method slot
  rw [hcurrent, Option.map_some] at hin
  obtain ⟨now, hnow, hid, -⟩ := hsound.occupant hin
  -- he was made, and is held as the code he was made of
  obtain ⟨held, hheld, hsame⟩ := held_of_made hnew hroom (Deed.mem_of_current? hcurrent).1
  obtain rfl := Option.some.inj (hheld.symm.trans (held?_of_registered hnow))
  refine ⟨held, hsound.entrant?_eq_some_iff.mpr ?_, hsame⟩
  rw [hid]
  exact ⟨hin, hnow⟩

theorem current_of_entrant (hnew : Cache.new settings = .ok start)
    (hroom : start.attemptsIn operations < UInt64.size) {now : Blob}
    (hentrant : (start.after operations).entrant? method slot = some now) :
    ∃ blob, Deed.current? method slot (start.deeds operations) = some blob ∧ blob.SameCode now := by
  have hin := ((sound_after hnew hroom).entrant?_eq_some_iff.mp hentrant).1
  rw [occupant_after hnew hroom] at hin
  obtain ⟨blob, hcurrent, -⟩ := Option.map_eq_some_iff.mp hin
  obtain ⟨found, hfound, hsame⟩ := entrant_of_current hnew hroom hcurrent
  obtain rfl := Option.some.inj (hfound.symm.trans hentrant)
  exact ⟨blob, hcurrent, hsame⟩

/-- The code in a slot is that of the latest installation there, however often it was made again. -/
theorem source_of_current (hnew : Cache.new settings = .ok start)
    (hroom : start.attemptsIn operations < UInt64.size)
    (hcurrent : Deed.current? method slot (start.deeds operations) = some blob) :
    ∃ source, Deed.source? method slot (start.deeds operations) = some source
      ∧ blob.code = source.code := by
  induction operations using List.reverseRecOn generalizing blob with
  | nil => cases hcurrent
  | append_singleton operations last ih =>
    obtain ⟨hearlier, hsound, hnow⟩ := sound_before hnew hroom
    have hdoes := perform_does hsound hnow
    rw [deeds_concat] at hcurrent ⊢
    cases hdeed : (start.after operations).deed? last with
    | none =>
      rw [hdeed, Option.toList_none, List.append_nil] at hcurrent
      rw [Option.toList_none, List.append_nil]
      exact ih hearlier hcurrent
    | some deed =>
      rw [hdeed] at hdoes
      rw [hdeed, Option.toList_some, Deed.current?_concat] at hcurrent
      rw [Option.toList_some, Deed.source?_concat]
      by_cases hat : deed.IsAt method slot
      · rw [if_pos hat] at hcurrent ⊢
        cases deed with
        | emptied => cases hcurrent
        | installed => exact ⟨_, rfl, congrArg Blob.code (Option.some.inj hcurrent).symm⟩
        | replaced =>
          obtain rfl := Option.some.inj hcurrent
          obtain ⟨rfl, rfl⟩ := hat
          -- the code is that of who was in the slot
          obtain ⟨level, region, old, -, hold, -, hcode⟩ := hdoes.answers
          obtain ⟨before, hbefore, hsame⟩ := current_of_entrant hnew hearlier hold
          obtain ⟨source, hsource, hfrom⟩ := ih hearlier hbefore
          exact ⟨source, hsource, hcode.trans (hsame.code.trans hfrom)⟩
      · rw [if_neg hat] at hcurrent ⊢
        exact ih hearlier hcurrent

/-- An installation does not lower the level of its slot. -/
theorem not_lower_of_installed (hnew : Cache.new settings = .ok start)
    (hroom : start.attemptsIn operations < UInt64.size) {first later : List Deed} {old : Blob}
    (hdeeds : start.deeds operations = first ++ .installed blob :: later)
    (hcurrent : Deed.current? blob.method blob.slot first = some old) :
    ¬ blob.level < old.level := by
  obtain ⟨earlier, operation, rest, rfl, rfl, hdeed⟩ := exists_operation_of_deeds hdeeds
  obtain ⟨hearlier, hsound, hnow⟩ := sound_before hnew hroom
  have hdoes := perform_does hsound hnow
  rw [hdeed] at hdoes
  obtain ⟨now, hentrant, hsame⟩ := entrant_of_current hnew hearlier hcurrent
  have hlevel := hdoes.not_lower
  unfold level at hlevel
  rw [hentrant] at hlevel
  rw [← hsame.level]
  exact hlevel

end Sessions

end Cache

/-! ## §4. Entries and deeds. -/

namespace Deed

variable {method : MethodId} {slot : Slot} {deeds : List Deed}

/-- One slot's entries are left by the deeds in that slot. -/
theorem filter_entries (method : MethodId) (slot : Slot) (deeds : List Deed) :
    (((deeds.filterMap made?).filter fun blob => blob.method = method).map
        Blob.installation).filter (·.slot = slot)
      = deeds.filterMap (logged? method slot) := by
  rw [List.filter_map, List.filter_filter, ← List.filterMap_eq_map, ← List.filterMap_eq_filter,
    List.filterMap_filterMap, List.filterMap_filterMap]
  congr 1
  funext deed
  cases hmade : deed.made? with
  | none => simp [logged?, hmade]
  | some blob =>
    have hat := isAt_of_made? hmade method slot
    by_cases hmethod : blob.method = method <;> by_cases hslot : blob.slot = slot <;>
      simp [logged?, hat, hmade, hmethod, hslot, Blob.installation, Option.guard]

/-- The last entry of a slot is that of who is in it. -/
theorem getLast?_entries {blob : Blob} (h : current? method slot deeds = some blob) :
    (deeds.filterMap (logged? method slot)).getLast? = some blob.installation := by
  induction deeds using List.reverseRecOn with
  | nil => cases h
  | append_singleton deeds last ih =>
    rw [current?_concat] at h
    rw [List.filterMap_append, List.getLast?_append]
    by_cases hat : last.IsAt method slot
    · rw [if_pos hat] at h
      simp [logged?, hat, h]
    · rw [if_neg hat] at h
      simp [logged?, hat, ih h]

/-- Two entries of a slot in a row are left by two deeds there, with none that leaves an entry in
between. -/
theorem exists_deeds_of_entries {before after : List Installation} {first second : Installation}
    (h : deeds.filterMap (logged? method slot) = before ++ first :: second :: after) :
    ∃ earlier deed between deed' later, deeds = earlier ++ deed :: between ++ deed' :: later
      ∧ deed.logged? method slot = some first ∧ deed'.logged? method slot = some second
      ∧ ∀ other ∈ between, other.logged? method slot = none := by
  obtain ⟨early, rest, rfl, -, hrest⟩ := List.filterMap_eq_append_iff.mp h
  obtain ⟨none, deed, rest, rfl, -, hfirst, hrest⟩ := List.filterMap_eq_cons_iff.mp hrest
  obtain ⟨between, deed', later, rfl, hbetween, hsecond, -⟩ := List.filterMap_eq_cons_iff.mp hrest
  exact ⟨early ++ none, deed, between, deed', later, by simp, hfirst, hsecond, hbetween⟩

theorem logged?_eq_some {deed : Deed} {entry : Installation}
    (h : deed.logged? method slot = some entry) :
    ∃ blob, deed.made? = some blob ∧ blob.installation = entry
      ∧ blob.method = method ∧ blob.slot = slot := by
  unfold logged? at h
  split at h
  · next hat =>
    obtain ⟨blob, hmade, hentry⟩ := Option.map_eq_some_iff.mp h
    exact ⟨blob, hmade, hentry, (isAt_of_made? hmade method slot).mp hat⟩
  · cases h

/-- A deed in a slot that leaves no entry there has emptied it. -/
theorem emptied_of_logged?_eq_none {deed : Deed} (h : deed.logged? method slot = none)
    (hat : deed.IsAt method slot) : ∃ blob, deed = .emptied blob := by
  unfold logged? at h
  rw [if_pos hat, Option.map_eq_none_iff] at h
  cases deed with
  | installed | replaced => cases h
  | emptied blob => exact ⟨blob, rfl⟩

end Deed

namespace Cache

/-- What lowers the level of a slot from one entry to the next. -/
theorem lowered_by {settings : Settings} {start : Cache} {operations : List Operation}
    {method : MethodId} {slot : Slot} {earlier between later : List Deed} {deed deed' : Deed}
    {first second : Installation} (hnew : Cache.new settings = .ok start)
    (hroom : start.attemptsIn operations < UInt64.size)
    (hdeeds : start.deeds operations = earlier ++ deed :: between ++ deed' :: later)
    (hfirst : deed.logged? method slot = some first)
    (hsecond : deed'.logged? method slot = some second)
    (hbetween : ∀ other ∈ between, other.logged? method slot = none)
    (hdrop : second.level < first.level) :
    (∃ blob, deed' = .replaced blob)
      ∨ ∃ blob, .emptied blob ∈ between ∧ blob.method = method ∧ blob.slot = slot := by
  obtain ⟨old, hold, rfl, hmethod, hslot⟩ := Deed.logged?_eq_some hfirst
  obtain ⟨lower, hmade, rfl, rfl, rfl⟩ := Deed.logged?_eq_some hsecond
  by_cases hemptied : ∃ blob, .emptied blob ∈ between ∧ blob.method = lower.method ∧ blob.slot = lower.slot
  · exact .inr hemptied
  · cases deed' with
    | emptied => cases hmade
    | replaced blob => exact .inl ⟨blob, rfl⟩
    | installed lower =>
      obtain rfl := Option.some.inj hmade
      -- the slot still holds the old blob, and an installation does not go below it
      have helsewhere : ∀ other ∈ between, ¬ other.IsAt lower.method lower.slot := by
        intro other hmem hat
        obtain ⟨out, rfl⟩ := Deed.emptied_of_logged?_eq_none (hbetween other hmem) hat
        exact hemptied ⟨out, hmem, hat⟩
      have hcurrent : Deed.current? lower.method lower.slot (earlier ++ deed :: between) = some old := by
        rw [← List.singleton_append, ← List.append_assoc, Deed.current?_append helsewhere,
          Deed.current?_concat, if_pos ((Deed.isAt_of_made? hold _ _).mpr ⟨hmethod, hslot⟩), hold]
      exact absurd hdrop (not_lower_of_installed hnew hroom hdeeds hcurrent)

end Cache

open Cache in
/-- **A method's history is a faithful log of every session**, as long as handles last: it lists the
installations and replacements in order; the slots hold their last entries, with the code that was
last installed; and a slot's level goes down only by a replacement or after the slot was emptied. -/
theorem history_is_faithful {settings : Settings} {start : Cache} {operations : List Operation}
    (hnew : Cache.new settings = .ok start) (hroom : start.attemptsIn operations < UInt64.size) :
    start.Faithful operations := by
  have hhistory := history_after hnew hroom
  have hslot : ∀ method slot,
      ((start.after operations).status method).history.filter (·.slot = slot)
        = (start.deeds operations).filterMap (Deed.logged? method slot) := by
    intro method slot
    rw [hhistory]
    exact Deed.filter_entries method slot _
  constructor
  case told =>
    rintro earlier operation later rfl id
    obtain ⟨-, hsound, hnow⟩ := sound_before hnew hroom
    exact (perform_does hsound hnow).told id
  case answers =>
    rintro earlier operation later rfl deed hdeed
    obtain ⟨-, hsound, hnow⟩ := sound_before hnew hroom
    have hdoes := perform_does hsound hnow
    rw [hdeed] at hdoes
    exact hdoes.answers
  case history => exact hhistory
  case ascending =>
    intro method
    rw [hhistory]
    exact List.pairwise_map.mpr ((ascending_blobsMade hnew hroom).filter _)
  case apart =>
    intro method other first second hfirst hsecond heq
    rw [hhistory] at hfirst hsecond
    obtain ⟨a, ha, rfl⟩ := List.mem_map.mp hfirst
    obtain ⟨b, hb, rfl⟩ := List.mem_map.mp hsecond
    obtain ⟨hina, hmethod⟩ := List.mem_filter.mp ha
    obtain ⟨hinb, hother⟩ := List.mem_filter.mp hb
    -- of one handle there is one blob, of one method
    obtain ⟨now, hheld, hsame⟩ := held_of_made hnew hroom hina
    obtain ⟨now', hheld', hsame'⟩ := held_of_made hnew hroom hinb
    have hid : a.id = b.id := heq
    rw [hid, hheld'] at hheld
    obtain rfl := Option.some.inj hheld
    rw [← of_decide_eq_true hmethod, ← of_decide_eq_true hother, ← hsame.method, ← hsame'.method]
  case occupied =>
    intro method slot id hin
    rw [occupant_after hnew hroom] at hin
    obtain ⟨blob, hcurrent, rfl⟩ := Option.map_eq_some_iff.mp hin
    obtain ⟨now, hentrant, hsame⟩ := entrant_of_current hnew hroom hcurrent
    obtain ⟨source, hsource, hcode⟩ := source_of_current hnew hroom hcurrent
    refine ⟨now, source, hentrant, hsame.id, ?_, hsource, hsame.code.trans hcode⟩
    have hentry : now.installation = blob.installation := by
      unfold Blob.installation
      rw [hsame.id, hsame.level, hsame.slot]
    rw [hslot, Deed.getLast?_entries hcurrent, hentry]
  case drops =>
    intro method slot before first second after hentries hlower
    rw [hslot] at hentries
    obtain ⟨earlier, deed, between, deed', later, hdeeds, hfirst, hsecond, hbetween⟩ :=
      Deed.exists_deeds_of_entries hentries
    exact ⟨earlier, deed, between, deed', later, hdeeds, hfirst, hsecond,
      lowered_by hnew hroom hdeeds hfirst hsecond hbetween hlower⟩

/-- A method is compiled at a high level, its slot emptied and compiled low again; the other slot's
code is made again at a lower level and moved; a third installation of a lower level is refused. -/
def tiering : List Operation :=
  [.handle (.finished ⟨1⟩ ⟨.tier4, ⟨#[1, 2]⟩⟩ .standard), .install ⟨1⟩ ⟨.tier3, ⟨#[3]⟩⟩ .osr,
    .deoptimize ⟨1⟩ .standard, .install ⟨1⟩ ⟨.tier2, ⟨#[4]⟩⟩ .standard,
    .replace ⟨1⟩ .osr (some .tier1) none, .collect ⟨true, 25, true⟩ {},
    .install ⟨1⟩ ⟨.tier1, ⟨#[5]⟩⟩ .standard]

theorem history_is_faithful_to_tiering :
    (((Cache.ofSettings {}).after tiering).status ⟨1⟩).history
        = [⟨⟨1⟩, .tier4, .standard⟩, ⟨⟨2⟩, .tier3, .osr⟩, ⟨⟨3⟩, .tier2, .standard⟩, ⟨⟨4⟩, .tier1, .osr⟩]
      ∧ (Cache.ofSettings {}).Faithful tiering := by
  have hnew : Cache.new {} = .ok (Cache.ofSettings {}) := rfl
  exact ⟨by decide, history_is_faithful hnew (by decide)⟩

end JitCache
