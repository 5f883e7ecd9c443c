import SettingsLint.Config.Scan
import SettingsLint.Number.Decimal

/-! # Dates and times

A date, a time of day, or a date with a time of day, and for the latter an offset from
universal time. The day has to exist in its month, and the second 60 is allowed for
leap seconds.
-/

namespace SettingsLint.Config

structure Date where
  year : Nat
  month : Nat
  day : Nat
  deriving DecidableEq, Repr

structure Time where
  hour : Nat
  minute : Nat
  second : Nat
  /-- The digits of the fraction of a second. -/
  fraction : List Char
  deriving DecidableEq, Repr

/-- A date, a time of day or both. -/
inductive DateTime where
  | date (date : Date)
  | time (time : Time)
  /-- A moment, with the distance from universal time in minutes if that is given. -/
  | moment (date : Date) (time : Time) (offset : Option Int)
  deriving DecidableEq, Repr

namespace DateTime

def daysInMonth (year month : Nat) : Nat :=
  let isLeap := year % 4 = 0 && (year % 100 ≠ 0 || year % 400 = 0)
  match month with
  | 2 => if isLeap then 29 else 28
  | 4 | 6 | 9 | 11 => 30
  | _ => 31

/-- Reads a number of exactly `digits` digits between the bounds. -/
def number (digits low high : Nat) : Scan Nat :=
  (digitsValue 10 <$> Scan.exactly Char.isDigit digits).suchThat
    fun n => low ≤ n && n ≤ high

def readDate : Scan Date := do
  let year ← number 4 0 9999
  Scan.word "-"
  let month ← number 2 1 12
  Scan.word "-"
  let day ← number 2 1 (daysInMonth year month)
  return ⟨year, month, day⟩

def readFraction : Scan (List Char) := do
  Scan.word "."
  (Scan.run Char.isDigit).suchThat fun digits => !digits.isEmpty

def readTime : Scan Time := do
  let hour ← number 2 0 23
  Scan.word ":"
  let minute ← number 2 0 59
  Scan.word ":"
  let second ← number 2 0 60
  let fraction ← Scan.optional readFraction
  return ⟨hour, minute, second, fraction.getD []⟩

/-- Reads the distance from universal time in minutes. -/
def readOffset : Scan Int :=
  (do let _ ← Scan.one fun c => c = 'Z' || c = 'z'; return 0) <|> do
    let sign ← Scan.one fun c => c = '+' || c = '-'
    let hours ← number 2 0 23
    Scan.word ":"
    let minutes ← number 2 0 59
    let distance : Int := hours * 60 + minutes
    return if sign = '-' then -distance else distance

/-- Reads a time of day after a date. -/
def readTimeAfterDate (date : Date) : Scan DateTime := do
  let _ ← Scan.one fun c => c = 'T' || c = 't' || c = ' '
  let time ← readTime
  return .moment date time (← Scan.optional readOffset)

def read : Scan DateTime :=
  (do
    let date ← readDate
    return (← Scan.optional (readTimeAfterDate date)).getD (.date date)) <|>
  .time <$> readTime

end DateTime

end SettingsLint.Config
