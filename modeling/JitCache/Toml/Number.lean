/-
  JitCache.Toml.Number
  ────────────────────
  **Integers and floating-point numbers.**

  Integers are decimal, hexadecimal, octal or binary and fit 64 bits with a
  sign.  Single underscores may stand between digits.  A floating-point number
  is accepted as written, unless it is so large that it would be read as
  positive infinity.
-/
import JitCache.Toml.Text
import JitCache.Toml.Value

namespace JitCache.Toml

open Scan

/-! ## §1. Digits. -/

/-- Digits with single underscores between them. -/
def digits (isDigit : Char → Bool) : Scan (List Char) := do
  let first ← satisfying isDigit
  return first :: (← many (satisfying isDigit <|> (do char '_'; satisfying isDigit)))

/-- Decimal digits without superfluous zeros in front. -/
def wholeDigits : Scan (List Char) :=
  (do char '0'; return ['0']) <|> digits Char.isDigit

/-- A sign, plus if there is none.  Answers whether it is minus. -/
def sign : Scan Bool :=
  (do char '-'; return true) <|> (do char '+'; return false) <|> pure false

/-- The number with a sign. -/
def signed (negative : Bool) (n : Nat) : Int := if negative then -(n : Int) else n

/-! ## §2. Integers. -/

/-- An integer after a mark for its base. -/
def basedInteger (mark : String) (base : Nat) (isDigit : Char → Bool) : Scan Int := do
  word mark
  return digitsValue base (← digits isDigit)

/-- An integer, whatever its size. -/
def anyInteger : Scan Int :=
  basedInteger "0x" 16 isHexDigit
    <|> basedInteger "0o" 8 (fun c => '0' ≤ c ∧ c ≤ '7')
    <|> basedInteger "0b" 2 (fun c => c = '0' ∨ c = '1')
    <|> (do return signed (← sign) (digitsValue 10 (← wholeDigits)))

/-- An integer of 64 bits. -/
def integer : Scan Int := do
  let n ← anyInteger
  if Int64.minValue.toInt ≤ n ∧ n ≤ Int64.maxValue.toInt then return n else failure

/-! ## §3. Floating-point numbers. -/

/-- From here on, numbers are rounded to infinity in double precision: half a
unit above the largest double. -/
def doubleLimit : Nat := (Nat.pow 2 54 - 1) * Nat.pow 2 970

/-- Whether digits times a power of ten reach `doubleLimit`.  Numbers far from
the limit are told by the place of their leading digit. -/
def exceedsDouble (digits : Nat) (exponent : Int) : Bool :=
  let places : Int := (Nat.toDigits 10 digits).length + exponent
  if digits = 0 ∨ places ≤ 308 then false
  else if 310 ≤ places then true
  else if 0 ≤ exponent then doubleLimit ≤ digits * Nat.pow 10 exponent.toNat
  else doubleLimit * Nat.pow 10 (-exponent).toNat ≤ digits

/-- The power of ten after a number. -/
def exponent : Scan Int := do
  char 'e' <|> char 'E'
  return signed (← sign) (digitsValue 10 (← digits Char.isDigit))

/-- The digits after the point. -/
def fraction : Scan (List Char) := do
  char '.'
  digits Char.isDigit

/-- A number with a point, a power of ten, or both. -/
def decimalFloat : Scan FloatLiteral := do
  let negative ← sign
  let whole ← wholeDigits
  let (part, power) ←
    (do return ([], ← exponent)) <|> (do return (← fraction, (← maybe exponent).getD 0))
  let mantissa := digitsValue 10 (whole ++ part)
  let power := power - part.length
  -- no negative number is too large
  if !negative && exceedsDouble mantissa power then failure
  else return .decimal negative mantissa power

/-- A number without a numeral. -/
def specialFloat : Scan FloatLiteral := do
  let negative ← sign
  (do word "inf"; return .infinity negative) <|> (do word "nan"; return .notANumber)

/-- A floating-point number. -/
def float : Scan FloatLiteral := decimalFloat <|> specialFloat

end JitCache.Toml
