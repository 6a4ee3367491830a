/-
  JitCache.Toml.Value
  ───────────────────
  **What a TOML document says.**

  A document is a table: keys with values, each key once.  A value is a string,
  a number, a truth value, a point in time, an array, a table, or the elements
  of an array of tables.  Tables remember how they came about, because that
  decides whether the text may add to them later.
-/

namespace JitCache.Toml

/-- How a table came about. -/
inductive Origin where
  /-- Written between braces; nothing is added to it. -/
  | inline
  /-- Opened by its own header. -/
  | header
  /-- Named on the way to a table below it, in a header. -/
  | parent
  /-- Named on the way to a key below it, in a dotted key. -/
  | dotted
  deriving DecidableEq

/-- A floating-point number as written. -/
inductive FloatLiteral where
  /-- The digits, times a power of ten. -/
  | decimal (negative : Bool) (digits : Nat) (exponent : Int)
  | infinity (negative : Bool)
  | notANumber

/-- A day of the calendar. -/
structure Date where
  year : Nat
  month : Nat
  day : Nat

/-- A time of day; the fraction of the second is a list of decimal digits. -/
structure Time where
  hour : Nat
  minute : Nat
  second : Nat
  fraction : List Char

/-- A point in time, as far as it is given; the offset is in minutes. -/
structure DateTime where
  date : Option Date
  time : Option Time
  offset : Option Int

/-- A TOML value. -/
inductive Value where
  | string (text : String)
  | integer (value : Int)
  | float (value : FloatLiteral)
  | boolean (value : Bool)
  | dateTime (value : DateTime)
  | array (items : List Value)
  | table (origin : Origin) (entries : List (String × Value))
  /-- The elements of an array of tables: the closed ones, and the last, which
  the text may still add to. -/
  | tables (earlier : List (List (String × Value))) (last : List (String × Value))

/-- The keys of a table with their values, in the order of the text. -/
abbrev Entries := List (String × Value)

namespace Entries

/-- The value of a key. -/
def value? (key : String) : Entries → Option Value
  | [] => none
  | entry :: rest => if entry.1 = key then some entry.2 else value? key rest

/-- Gives a key a value: in place of the one it has, else at the end. -/
def set (key : String) (value : Value) : Entries → Entries
  | [] => [(key, value)]
  | entry :: rest => if entry.1 = key then (key, value) :: rest else entry :: set key value rest

end Entries

end JitCache.Toml
