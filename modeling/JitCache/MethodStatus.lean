/-
  JitCache.MethodStatus
  ─────────────────────
  **What the cache remembers of a method.**

  Whether it waits for compilation, which blob occupies each of its two slots,
  and every installation it went through, oldest first.
-/
import JitCache.Id
import JitCache.Level
import JitCache.Slot

namespace JitCache

/-- One installation in a method's history. -/
structure Installation where
  blob : BlobId
  level : Level
  slot : Slot
  deriving DecidableEq

/-- The compilation state of a method. -/
structure MethodStatus where
  /-- Whether the method waits for compilation. -/
  queued : Bool := false
  /-- The blob in the standard slot. -/
  standard : Option BlobId := none
  /-- The blob in the osr slot. -/
  osr : Option BlobId := none
  /-- Every installation, oldest first. -/
  history : List Installation := []
  deriving DecidableEq

/-- What is reported of a slot. -/
structure SlotState where
  queued : Bool := false
  compiled : Bool := false
  level : Level := .interpreted
  deriving DecidableEq

namespace MethodStatus

instance : Inhabited MethodStatus := ⟨{}⟩

/-- The blob in a slot. -/
def occupant? (status : MethodStatus) : Slot → Option BlobId
  | .standard => status.standard
  | .osr => status.osr

/-- Fills or empties a slot. -/
def setOccupant (status : MethodStatus) (slot : Slot) (occupant : Option BlobId) : MethodStatus :=
  match slot with
  | .standard => { status with standard := occupant }
  | .osr => { status with osr := occupant }

/-- Whether the blob is in one of the slots. -/
def holds (status : MethodStatus) (blob : BlobId) : Bool :=
  status.standard = some blob ∨ status.osr = some blob

/-- Notes an installation at the end of the history. -/
def note (status : MethodStatus) (change : Installation) : MethodStatus :=
  { status with history := status.history ++ [change] }

theorem holds_iff {status : MethodStatus} {blob : BlobId} :
    status.holds blob = true ↔ ∃ slot, status.occupant? slot = some blob := by
  simp only [holds, decide_eq_true_eq]
  constructor
  · rintro (h | h)
    · exact ⟨.standard, h⟩
    · exact ⟨.osr, h⟩
  · rintro ⟨slot, h⟩
    cases slot
    · exact .inl h
    · exact .inr h

@[simp] theorem occupant?_setOccupant_same (status : MethodStatus) (slot : Slot)
    (occupant : Option BlobId) : (status.setOccupant slot occupant).occupant? slot = occupant := by
  cases slot <;> rfl

theorem occupant?_setOccupant_of_ne (status : MethodStatus) {slot other : Slot}
    (occupant : Option BlobId) (h : slot ≠ other) :
    (status.setOccupant slot occupant).occupant? other = status.occupant? other := by
  cases slot <;> cases other <;> simp_all [occupant?, setOccupant]

end MethodStatus

end JitCache
