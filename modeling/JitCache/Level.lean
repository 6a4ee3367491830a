/-
  JitCache.Level
  ──────────────
  **Compilation levels.**

  A method is interpreted or compiled at one of four tiers.  The order is the
  order of upgrades: installing below the level a slot has is a downgrade.
  Tiers 2 and 3 collect profile data, and code of a level is first placed in
  the region that fits it.
-/
import JitCache.RegionKind

namespace JitCache

/-- How far a method has been compiled. -/
inductive Level where
  /-- Nothing is compiled. -/
  | interpreted
  /-- Simple code, no profiling. -/
  | tier1
  /-- Invocation and loop counters. -/
  | tier2
  /-- Full profiling. -/
  | tier3
  /-- Fully optimised. -/
  | tier4
  deriving DecidableEq, Inhabited

namespace Level

/-- All levels, lowest first. -/
def all : List Level := [interpreted, tier1, tier2, tier3, tier4]

/-- The levels that code can have, lowest first. -/
def compiled : List Level := [tier1, tier2, tier3, tier4]

/-- The number of a level; a higher level has a higher number. -/
def rank : Level → Nat
  | interpreted => 0
  | tier1 => 1
  | tier2 => 2
  | tier3 => 3
  | tier4 => 4

/-- The level of a number. -/
def ofRank? (rank : Nat) : Option Level := all[rank]?

instance : LT Level := ⟨fun a b => a.rank < b.rank⟩

instance : DecidableRel (fun a b : Level => a < b) :=
  fun a b => inferInstanceAs (Decidable (a.rank < b.rank))

/-- Whether there is code at this level. -/
def isCompiled (level : Level) : Bool := level ≠ interpreted

/-- Whether code at this level collects profile data. -/
def collectsProfile : Level → Bool
  | tier2 | tier3 => true
  | _ => false

/-- The region in which code of this level is placed first. -/
def homeRegion (level : Level) : RegionKind :=
  if level.collectsProfile then .profiled else .nonProfiled

/-- The name of a level. -/
def name : Level → String
  | interpreted => "None"
  | tier1 => "Tier1"
  | tier2 => "Tier2"
  | tier3 => "Tier3"
  | tier4 => "Tier4"

/-- The level of a name. -/
def ofName? (text : String) : Option Level := all.find? fun level => level.name = text

/-- In messages a level is written as its number. -/
def text (level : Level) : String := toString level.rank

end Level

end JitCache
