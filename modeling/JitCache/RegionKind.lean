/-
  JitCache.RegionKind
  ───────────────────
  **The three regions of code space.**

  Profiled and non-profiled code live in two *method regions*, each the sibling
  of the other; the non-method region holds stubs and code moved out of the
  method regions.  The order profiled, non-profiled, non-method is the order in
  which regions are listed, checked and consolidated.
-/

namespace JitCache

/-- The region a span of code space belongs to. -/
inductive RegionKind where
  /-- Code that collects profile data. -/
  | profiled
  /-- Code that collects none. -/
  | nonProfiled
  /-- Stubs, and cold code moved out of the method regions. -/
  | nonMethod
  deriving DecidableEq, Inhabited

namespace RegionKind

/-- All regions, in order. -/
def all : List RegionKind := [profiled, nonProfiled, nonMethod]

/-- The place of a region in the order. -/
def index : RegionKind → Nat
  | profiled => 0
  | nonProfiled => 1
  | nonMethod => 2

/-- The region at a place of the order. -/
def ofIndex? (index : Nat) : Option RegionKind := all[index]?

/-- The regions that hold method code. -/
def holdsMethods (kind : RegionKind) : Bool := kind ≠ nonMethod

/-- The other method region. -/
def sibling? : RegionKind → Option RegionKind
  | profiled => some nonProfiled
  | nonProfiled => some profiled
  | nonMethod => none

/-- The name of a region. -/
def name : RegionKind → String
  | profiled => "profiled"
  | nonProfiled => "non-profiled"
  | nonMethod => "non-method"

/-- The region of a name. -/
def ofName? (text : String) : Option RegionKind := all.find? fun kind => kind.name = text

theorem mem_all (kind : RegionKind) : kind ∈ all := by
  cases kind <;> decide

end RegionKind

end JitCache
