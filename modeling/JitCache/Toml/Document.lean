/-
  JitCache.Toml.Document
  ──────────────────────
  **From the text of a document to the table it describes.**

  A document is read in two steps: its lines first, then the table they build
  up, line by line.  A line assigns a value to a key, opens a table or an array
  element, or says nothing.  Each assignment goes into the table opened last.

  The modules of this directory are the outer layer of the program.  They take
  the part of a library that reads such documents, so that settings can be given
  as a text; what is proved about the cache starts from settings as they are,
  and says nothing about texts.
-/
import JitCache.Toml.Calendar
import JitCache.Toml.Filing
import JitCache.Toml.Number

namespace JitCache.Toml

open Scan

/-! ## §1. Values. -/

/-- A value without values inside. -/
def scalar : Scan Value :=
  Value.string <$> string
    -- dates and times begin like numbers, and floats like integers
    <|> Value.dateTime <$> dateTime
    <|> Value.float <$> float
    <|> Value.integer <$> integer
    <|> (do word "true"; return .boolean true)
    <|> (do word "false"; return .boolean false)

/-- An array; its items may be spread over lines, and a comma may follow the
last. -/
def array (item : Scan Value) : Scan Value := do
  char '['
  let items ←
    (do
      let items ← separatedBy (do filler; let value ← item; filler; return value) (char ',')
      let _ ← maybe (char ',')
      return items)
    <|> pure []
  filler
  char ']'
  return .array items

/-- A key with its value. -/
def assignment (item : Scan Value) : Scan (List String × Value) := do
  let path ← key
  char '='
  blank
  return (path, ← item)

/-- The table of some assignments, if no two of them are at odds. -/
def tableOf? (pairs : List (List String × Value)) : Option Entries :=
  pairs.foldlM (fun entries (path, value) => entries.assign path value) []

/-- A table between braces, on one line. -/
def inlineTable (item : Scan Value) : Scan Value := do
  char '{'
  let pairs ←
    separatedBy (do let pair ← assignment item; blank; return pair) (char ',')
    <|> (do blank; return [])
  char '}'
  match tableOf? pairs with
  | some entries => return .table .inline entries
  | none => failure

/-- A value with at most so many levels of arrays and inline tables. -/
def valueWithin : Nat → Scan Value
  | 0 => scalar
  | depth + 1 => scalar <|> array (valueWithin depth) <|> inlineTable (valueWithin depth)

/-- The most levels of arrays and inline tables. -/
def maxDepth : Nat := 79

/-- A value. -/
def value : Scan Value := valueWithin maxDepth

/-! ## §2. Lines. -/

/-- What a line says. -/
inductive Line where
  /-- A key has a value. -/
  | assign (path : List String) (value : Value)
  /-- A table begins. -/
  | table (path : List String)
  /-- An element of an array of tables begins. -/
  | element (path : List String)
  /-- Nothing. -/
  | empty

/-- What a line says, its blanks and comment apart. -/
def statement : Scan Line :=
  (do word "[["; let path ← key; word "]]"; return .element path)
    <|> (do char '['; let path ← key; char ']'; return .table path)
    <|> (do let (path, held) ← assignment value; return .assign path held)
    <|> pure .empty

/-- A line without its end. -/
def line : Scan Line := do
  blank
  let said ← statement
  blank
  let _ ← maybe comment
  return said

/-- The lines of a document; a byte order mark may stand in front. -/
def lines : Scan (List Line) := do
  let _ ← maybe (char '\ufeff')
  separatedBy line newline

/-! ## §3. The table. -/

/-- What the lines so far describe, and where the next assignment goes. -/
structure Draft where
  entries : Entries := []
  /-- The path of the last header. -/
  current : List String := []

/-- Adds a line. -/
def Draft.add (draft : Draft) : Line → Option Draft
  | .assign path value =>
    (draft.entries.within (·.assign path value) draft.current).map fun entries =>
      { draft with entries }
  | .table path => (draft.entries.openTable path).map fun entries => ⟨entries, path⟩
  | .element path => (draft.entries.openElement path).map fun entries => ⟨entries, path⟩
  | .empty => some draft

/-- The table that lines describe, if no two of them are at odds. -/
def build? (lines : List Line) : Option Entries :=
  (lines.foldlM Draft.add {}).map Draft.entries

/-- The table a document describes. -/
def read? (text : String) : Option Entries := (lines.whole? text).bind build?

end JitCache.Toml
