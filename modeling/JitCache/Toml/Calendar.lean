/-
  JitCache.Toml.Calendar
  ──────────────────────
  **Dates and times.**

  A date has a month and a day that exist in its year; a time may have a leap
  second.  Date and time are written next to each other with a `T` or a blank
  between them, and then an offset may follow.
-/
import JitCache.Toml.Text
import JitCache.Toml.Value

namespace JitCache.Toml

open Scan

/-- Whether a year has a leap day. -/
def isLeapYear (year : Nat) : Bool := year % 4 = 0 ∧ (year % 100 ≠ 0 ∨ year % 400 = 0)

/-- The days of a month. -/
def daysOfMonth (year month : Nat) : Nat :=
  if month = 2 then if isLeapYear year then 29 else 28
  else if month = 4 ∨ month = 6 ∨ month = 9 ∨ month = 11 then 30
  else 31

/-- A number of so many digits between bounds. -/
def numberWithin (count low high : Nat) : Scan Nat := do
  let n := digitsValue 10 (← exactly Char.isDigit count)
  if low ≤ n ∧ n ≤ high then return n else failure

/-- A day of the calendar. -/
def date : Scan Date := do
  let year ← numberWithin 4 0 9999
  char '-'
  let month ← numberWithin 2 1 12
  char '-'
  let day ← numberWithin 2 1 (daysOfMonth year month)
  return { year, month, day }

/-- A time of day. -/
def time : Scan Time := do
  let hour ← numberWithin 2 0 23
  char ':'
  let minute ← numberWithin 2 0 59
  char ':'
  let second ← numberWithin 2 0 60
  let fraction ← maybe (do
    char '.'
    runOf Char.isDigit)
  return { hour, minute, second, fraction := fraction.getD [] }

/-- The offset from universal time, in minutes. -/
def offset : Scan Int :=
  (do char 'Z' <|> char 'z'; return 0) <|> do
    let west ← (do char '-'; return true) <|> (do char '+'; return false)
    let hours ← numberWithin 2 0 23
    char ':'
    let minutes ← numberWithin 2 0 59
    let total : Int := 60 * hours + minutes
    return if west then -total else total

/-- A point in time, as far as it is given. -/
def dateTime : Scan DateTime :=
  (do
    let day ← date
    let rest ← maybe (do
      char 'T' <|> char 't' <|> char ' '
      return (← time, ← maybe offset))
    return { date := some day, time := rest.map (·.1), offset := rest.bind (·.2) })
  <|> (do return { date := none, time := some (← time), offset := none })

end JitCache.Toml
