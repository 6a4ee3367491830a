/-
  JitCache.Toml.Scan
  ──────────────────
  **Reading a text from the front.**

  A `Scan α` takes characters off the front of a text and makes an `α` of them,
  or fails.  After a failure the text is as before, so `a <|> b` tries `b` on the
  same text.  Repetition is bounded by the length of the text: an item that is
  repeated takes at least one character each time.
-/

namespace JitCache.Toml

/-- A reader of the front of a text. -/
abbrev Scan := StateT (List Char) Option

namespace Scan

variable {α β : Type}

/-- One character of a kind. -/
def satisfying (accepts : Char → Bool) : Scan Char
  | c :: rest => if accepts c then some (c, rest) else none
  | [] => none

/-- Exactly this character. -/
def char (expected : Char) : Scan Unit := do
  let _ ← satisfying (· = expected)

/-- Exactly these characters. -/
def word (expected : String) : Scan Unit := expected.toList.forM char

/-- As many characters of a kind as there are. -/
def run (accepts : Char → Bool) : Scan (List Char) := fun text =>
  some (text.takeWhile accepts, text.dropWhile accepts)

/-- As many characters of a kind as there are, at least one. -/
def runOf (accepts : Char → Bool) : Scan (List Char) := do
  return (← satisfying accepts) :: (← run accepts)

/-- Exactly so many characters of a kind. -/
def exactly (accepts : Char → Bool) : Nat → Scan (List Char)
  | 0 => pure []
  | count + 1 => do
    let c ← satisfying accepts
    return c :: (← exactly accepts count)

/-- The end of the text. -/
def atEnd : Scan Unit
  | [] => some ((), [])
  | _ :: _ => none

/-- An item, if there is one. -/
def maybe (item : Scan α) : Scan (Option α) := (some <$> item) <|> pure none

/-- Items in a row, at most so many. -/
def atMost (item : Scan α) : Nat → Scan (List α)
  | 0 => pure []
  | count + 1 => (do return (← item) :: (← atMost item count)) <|> pure []

/-- Items in a row, as many as there are. -/
def many (item : Scan α) : Scan (List α) := fun text => atMost item text.length text

/-- At least one item, with a separator between any two. -/
def separatedBy (item : Scan α) (separator : Scan β) : Scan (List α) := do
  return (← item) :: (← many (do let _ ← separator; item))

/-- Reads a whole text. -/
def whole? (item : Scan α) (text : String) : Option α :=
  ((do let result ← item; atEnd; return result : Scan α) text.toList).map (·.1)

end Scan

end JitCache.Toml
