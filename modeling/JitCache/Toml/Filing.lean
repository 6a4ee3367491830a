/-
  JitCache.Toml.Filing
  ────────────────────
  **Putting values at their place in nested tables.**

  A path of keys leads through tables to the place of its last key.  Tables
  that are missing on the way are made.  Whether an existing table may be
  entered depends on how it came about and on who asks: a dotted key enters
  only tables that no header has opened, and puts its value only into one that
  dotted keys made; a header enters every table but an inline one.
-/
import JitCache.Toml.Value

namespace JitCache.Toml

/-- Who follows a path. -/
inductive Route where
  /-- A dotted key. -/
  | dottedKey
  /-- A header. -/
  | header
  deriving DecidableEq

namespace Route

/-- How a table made on the way came about. -/
def origin : Route → Origin
  | dottedKey => .dotted
  | header => .parent

/-- Whether a table may be entered; `isLast` if the last key is to be put there. -/
def enters (route : Route) (isLast : Bool) (origin : Origin) : Bool :=
  match route with
  | dottedKey => origin = .dotted ∨ (origin = .parent ∧ !isLast)
  | header => origin ≠ .inline

/-- Whether the last element of an array of tables may be entered. -/
def entersElement (route : Route) (isLast : Bool) : Bool := route = header ∨ !isLast

end Route

namespace Entries

/-- Follows a path and puts at its end what `put` makes of the value there.
Fails where the path is barred, or where `put` does. -/
def file (route : Route) (put : Option Value → Option Value) :
    List String → Entries → Option Entries
  | [], _ => none
  | [key], entries => (put (entries.value? key)).map fun value => entries.set key value
  | key :: next :: rest, entries =>
    match entries.value? key with
    -- made on the way
    | none =>
      (file route put (next :: rest) []).map fun inner =>
        entries.set key (.table route.origin inner)
    | some (.table origin inner) =>
      if route.enters rest.isEmpty origin then
        (file route put (next :: rest) inner).map fun inner =>
          entries.set key (.table origin inner)
      else none
    | some (.tables earlier last) =>
      if route.entersElement rest.isEmpty then
        (file route put (next :: rest) last).map fun last =>
          entries.set key (.tables earlier last)
      else none
    | some _ => none

/-- Files a value under a dotted key that has none yet. -/
def assign (entries : Entries) (path : List String) (value : Value) : Option Entries :=
  entries.file .dottedKey (fun held => if held.isSome then none else some value) path

/-- Opens the table of a header: a new one, or one so far only named on the way
to others. -/
def openTable (entries : Entries) (path : List String) : Option Entries :=
  entries.file .header
    (fun
      | none => some (.table .header [])
      | some (.table .parent inner) => some (.table .header inner)
      | some _ => none)
    path

/-- Opens a new element of an array of tables. -/
def openElement (entries : Entries) (path : List String) : Option Entries :=
  entries.file .header
    (fun
      | none => some (.tables [] [])
      | some (.tables earlier last) => some (.tables (earlier ++ [last]) [])
      | some _ => none)
    path

/-- Changes the table that the last header has opened. -/
def within (change : Entries → Option Entries) : List String → Entries → Option Entries
  | [], entries => change entries
  | key :: rest, entries =>
    match entries.value? key with
    | some (.table origin inner) =>
      (within change rest inner).map fun inner => entries.set key (.table origin inner)
    | some (.tables earlier last) =>
      (within change rest last).map fun last => entries.set key (.tables earlier last)
    | _ => none

end Entries

end JitCache.Toml
