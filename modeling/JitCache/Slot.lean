/-
  JitCache.Slot
  ─────────────
  **The two entries of a method.**

  A method is entered by a call, through its standard slot, or in the middle of
  a running loop by on-stack replacement, through its osr slot.  The two are
  compiled and installed independently.
-/

namespace JitCache

/-- An entry of a method that code can be installed at. -/
inductive Slot where
  /-- Entered by calls. -/
  | standard
  /-- Entered by on-stack replacement. -/
  | osr
  deriving DecidableEq, Inhabited

namespace Slot

/-- The name of a slot. -/
def name : Slot → String
  | standard => "standard"
  | osr => "osr"

/-- The other slot. -/
def other : Slot → Slot
  | standard => osr
  | osr => standard

end Slot

end JitCache
