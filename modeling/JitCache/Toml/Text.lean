/-
  JitCache.Toml.Text
  ──────────────────
  **Blanks, comments, strings and keys.**

  Between its quotes a basic string spells some characters with a backslash; a
  literal string takes every character for itself.  Either kind extends over
  several lines between tripled quotes, where up to two quotes in a row stand
  for themselves.  Control characters other than the tab stand nowhere.
-/
import JitCache.Toml.Scan

namespace JitCache.Toml

open Scan

/-! ## §1. Characters. -/

/-- Characters that may stand in a comment, and in strings too. -/
def isTextChar (c : Char) : Bool := c = '\t' ∨ (0x20 ≤ c.toNat ∧ c.toNat ≠ 0x7F)

/-- Characters that may stand in a key without quotes. -/
def isBareKeyChar (c : Char) : Bool := c.isAlphanum ∨ c = '_' ∨ c = '-'

def isBlank (c : Char) : Bool := c = ' ' ∨ c = '\t'

def isHexDigit (c : Char) : Bool :=
  c.isDigit ∨ ('a' ≤ c ∧ c ≤ 'f') ∨ ('A' ≤ c ∧ c ≤ 'F')

/-- The value of a digit in any base up to sixteen. -/
def digitValue (c : Char) : Nat :=
  if c.isDigit then c.toNat - '0'.toNat
  else if c.isLower then c.toNat - 'a'.toNat + 10
  else c.toNat - 'A'.toNat + 10

/-- The number that digits write in a base. -/
def digitsValue (base : Nat) (digits : List Char) : Nat :=
  digits.foldl (fun n c => base * n + digitValue c) 0

/-! ## §2. Blanks, line ends and comments. -/

/-- Spaces and tabs. -/
def blank : Scan Unit := do
  let _ ← run isBlank

/-- The end of a line. -/
def newline : Scan Unit := char '\n' <|> (do char '\x0d'; char '\n')

/-- A comment, up to the end of its line. -/
def comment : Scan Unit := do
  char '#'
  let _ ← run isTextChar

/-- Blanks, comments and line ends, wherever a value may extend over lines. -/
def filler : Scan Unit := do
  blank
  let _ ← many (do
    let _ ← maybe comment
    newline
    blank)

/-! ## §3. Strings. -/

/-- The character with a number, if there is one. -/
def codePoint (digits : List Char) : Scan Char :=
  let number := digitsValue 16 digits
  if number.isValidChar then pure (Char.ofNat number) else failure

/-- A character spelt with a backslash. -/
def escaped : Scan Char := do
  char '\\'
  match ← satisfying fun _ => true with
  | 'b' => return '\x08'
  | 't' => return '\t'
  | 'n' => return '\n'
  | 'f' => return '\x0c'
  | 'r' => return '\x0d'
  | '"' => return '"'
  | '\\' => return '\\'
  | 'u' => codePoint (← exactly isHexDigit 4)
  | 'U' => codePoint (← exactly isHexDigit 8)
  | _ => failure

/-- Characters that stand for themselves in a basic string. -/
def isBasicChar (c : Char) : Bool := isTextChar c ∧ c ≠ '"' ∧ c ≠ '\\'

/-- Characters that stand for themselves in a literal string. -/
def isLiteralChar (c : Char) : Bool := isTextChar c ∧ c ≠ '\''

/-- Characters of a basic string, written plainly or with a backslash. -/
def basicChars : Scan (List Char) :=
  runOf isBasicChar <|> (do return [← escaped])

/-- A string on one line, between double quotes. -/
def basicString : Scan String := do
  char '"'
  let pieces ← many basicChars
  char '"'
  return String.ofList pieces.flatten

/-- A string on one line, between single quotes. -/
def literalString : Scan String := do
  char '\''
  let text ← run isLiteralChar
  char '\''
  return String.ofList text

/-- A line end within a string is written as a line feed. -/
def lineBreak : Scan (List Char) := do
  newline
  return ['\n']

/-- A backslash at the end of a line joins it with the next text. -/
def joinedLines : Scan (List Char) := do
  char '\\'
  blank
  newline
  let _ ← many (newline <|> (do let _ ← satisfying isBlank))
  return []

/-- One or two quotes that do not end the string. -/
def innerQuotes (quote : Char) : Scan (List Char) := do
  let quotes ← run (· = quote)
  if quotes.length = 1 ∨ quotes.length = 2 then return quotes else failure

/-- The tripled quote that ends a string, and up to two quotes before it that
still belong to the string. -/
def closingQuotes (quote : Char) : Scan (List Char) := do
  let quotes ← run (· = quote)
  if 3 ≤ quotes.length ∧ quotes.length ≤ 5 then return quotes.drop 3 else failure

/-- A string over several lines.  A line end right after the opening quotes is
not part of it. -/
def multiLine (quote : Char) (piece : Scan (List Char)) : Scan String := do
  let _ ← exactly (· = quote) 3
  let _ ← maybe newline
  let pieces ← many (piece <|> lineBreak <|> innerQuotes quote)
  let last ← closingQuotes quote
  return String.ofList (pieces.flatten ++ last)

/-- A string over several lines, between tripled double quotes. -/
def multiLineBasic : Scan String :=
  multiLine '"' (joinedLines <|> basicChars)

/-- A string over several lines, between tripled single quotes. -/
def multiLineLiteral : Scan String :=
  multiLine '\'' (runOf isLiteralChar)

/-- A string of any kind. -/
def string : Scan String :=
  multiLineBasic <|> basicString <|> multiLineLiteral <|> literalString

/-! ## §4. Keys. -/

/-- A key without quotes. -/
def bareKey : Scan String := String.ofList <$> runOf isBareKeyChar

/-- The most parts that a dotted key has. -/
def maxKeyParts : Nat := 79

/-- A key: one or more parts with dots between them, blanks around each. -/
def key : Scan (List String) := do
  let parts ← separatedBy
    (do blank; let part ← basicString <|> literalString <|> bareKey; blank; return part)
    (char '.')
  if parts.length ≤ maxKeyParts then return parts else failure

end JitCache.Toml
