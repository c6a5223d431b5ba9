import ErrorMigration.Text.Blank
import ErrorMigration.Text.Bytes
import ErrorMigration.Text.Digits
import ErrorMigration.Text.Search

/-! Instants and the proleptic Gregorian calendar in UTC. An instant is written to a time stamp for
reports and to a compact name for run directories, and read from a lenient time stamp. -/
namespace ErrorMigration

/-- A day of the calendar; the year may be negative or have more than four digits. -/
structure Day where
  year : Int
  month : Nat
  day : Nat
  deriving DecidableEq, Repr

namespace Day

/-- The day that is `n` days after 1970-01-01. Years are counted from March, in eras of four
hundred. -/
def ofNumber (n : Int) : Day :=
  let shifted := n + 719468
  let era := shifted / 146097
  let dayOfEra := (shifted % 146097).toNat
  let yearOfEra := (dayOfEra - dayOfEra / 1460 + dayOfEra / 36524 - dayOfEra / 146096) / 365
  let dayOfYear := dayOfEra - (365 * yearOfEra + yearOfEra / 4 - yearOfEra / 100)
  let marchMonth := (5 * dayOfYear + 2) / 153
  let day := dayOfYear - (153 * marchMonth + 2) / 5 + 1
  let month := if marchMonth < 10 then marchMonth + 3 else marchMonth - 9
  ⟨yearOfEra + era * 400 + (if month ≤ 2 then 1 else 0), month, day⟩

/-- Days after 1970-01-01. -/
def toNumber (d : Day) : Int :=
  let year := d.year - (if d.month ≤ 2 then 1 else 0)
  let era := year / 400
  let yearOfEra := (year % 400).toNat
  let marchMonth := if d.month > 2 then d.month - 3 else d.month + 9
  let dayOfYear := (153 * marchMonth + 2) / 5 + d.day - 1
  let dayOfEra := yearOfEra * 365 + yearOfEra / 4 - yearOfEra / 100 + dayOfYear
  era * 146097 + dayOfEra - 719468

def isLeapYear (year : Int) : Bool :=
  year % 4 = 0 && (year % 100 ≠ 0 || year % 400 = 0)

def daysIn (year : Int) (month : Nat) : Nat :=
  if month = 2 then if isLeapYear year then 29 else 28
  else if month = 4 || month = 6 || month = 9 || month = 11 then 30
  else 31

def covers (year : Int) : Bool := -262143 ≤ year && year ≤ 262142

def isValid (d : Day) : Bool :=
  covers d.year && 1 ≤ d.month && d.month ≤ 12 && 1 ≤ d.day && d.day ≤ daysIn d.year d.month

end Day

/-- Seconds since 1970-01-01T00:00:00Z and nanoseconds into that second. A leap second is told
by nanoseconds of a thousand million and more, on the second before it. -/
structure Moment where
  seconds : Int
  nanos : Nat
  deriving DecidableEq, Repr

namespace Moment

def nanosPerSecond : Nat := 1000000000

def secondsPerDay : Nat := 86400

def day (m : Moment) : Day := .ofNumber (m.seconds / secondsPerDay)

def secondOfDay (m : Moment) : Nat := (m.seconds % secondsPerDay).toNat

/-- A leap second stands behind the last second of a minute. -/
def isLeap (m : Moment) : Bool := nanosPerSecond ≤ m.nanos && m.seconds % 60 = 59

def secondOfMinute (m : Moment) : Nat := if m.isLeap then 60 else m.secondOfDay % 60

/-- Four digits at least; a sign when the year is negative or has more than four. -/
def yearText (year : Int) : List Char :=
  if 0 ≤ year && year ≤ 9999 then Text.zeroPadded 4 year.toNat
  else (if year < 0 then '-' else '+') :: Text.zeroPadded 4 year.natAbs

def two (n : Nat) : List Char := Text.zeroPadded 2 n

/-- Date and time to the second, without separators but one. -/
def stamp (m : Moment) : String :=
  let d := m.day
  let s := m.secondOfDay
  String.ofList (yearText d.year ++ two d.month ++ two d.day ++
    '_' :: two (s / 3600) ++ two (s / 60 % 60) ++ two m.secondOfMinute)

/-- None, three, six or nine digits, the fewest that are exact. -/
def fractionText (nanos : Nat) : List Char :=
  if nanos = 0 then []
  else if nanos % 1000000 = 0 then '.' :: Text.zeroPadded 3 (nanos / 1000000)
  else if nanos % 1000 = 0 then '.' :: Text.zeroPadded 6 (nanos / 1000)
  else '.' :: Text.zeroPadded 9 nanos

def text (m : Moment) : String :=
  let d := m.day
  let s := m.secondOfDay
  String.ofList (yearText d.year ++ '-' :: two d.month ++ '-' :: two d.day ++
    'T' :: two (s / 3600) ++ ':' :: two (s / 60 % 60) ++
    ':' :: two m.secondOfMinute ++ fractionText (m.nanos % nanosPerSecond) ++ ['Z'])

/-- At least one digit and at most `most`, after blanks. -/
def number? (most : Nat) (cs : List Char) : Option (Nat × List Char) :=
  let cs := Text.trimStart cs
  let digits := (cs.take most).takeWhile Char.isDigit
  if digits.isEmpty then none else some (Text.numberOf digits, cs.drop digits.length)

/-- A year of up to four digits, or of any number of digits after a sign. -/
def year? (cs : List Char) : Option (Int × List Char) :=
  match Text.trimStart cs with
  | '-' :: rest => (signed rest).map fun p => (-(p.1 : Int), p.2)
  | '+' :: rest => (signed rest).map fun p => ((p.1 : Int), p.2)
  | cs => (number? 4 cs).map fun p => ((p.1 : Int), p.2)
where
  signed (cs : List Char) : Option (Nat × List Char) :=
    let digits := cs.takeWhile Char.isDigit
    if digits.isEmpty then none else some (Text.numberOf digits, cs.drop digits.length)

def mark? (c : Char) (cs : List Char) : Option (List Char) := Text.skip? [c] (Text.trimStart cs)

/-- Nanoseconds from the digits after a point; those behind the ninth do not count. -/
def fraction? : List Char → Option (Nat × List Char)
  | '.' :: cs =>
    let digits := cs.takeWhile Char.isDigit
    if digits.isEmpty then none
    else
      let used := digits.take 9
      some (Text.numberOf used * Nat.pow 10 (9 - used.length), cs.drop digits.length)
  | cs => some (0, cs)

/-- Hours and minutes after a sign, in seconds; between them may stand colons and blanks. -/
def clockOffset? (cs : List Char) : Option (Nat × List Char) :=
  match cs with
  | h1 :: h2 :: rest =>
    match rest.dropWhile fun c => c == ':' || Text.isBlank c with
    | m1 :: m2 :: rest =>
      if h1.isDigit && h2.isDigit && m1.isDigit && m2.isDigit && m1.toNat ≤ '5'.toNat then
        some (3600 * Text.numberOf [h1, h2] + 60 * Text.numberOf [m1, m2], rest)
      else none
    | _ => none
  | _ => none

/-- The offset from UTC in seconds: a letter or word for none, or a signed time of less than a
day. -/
def offset? (cs : List Char) : Option (Int × List Char) :=
  if (cs.take 3).map Char.toUpper = ['U', 'T', 'C'] then some (0, cs.drop 3)
  else
    match cs with
    | c :: rest =>
      if c == 'Z' || c == 'z' then some (0, rest)
      else if c == '+' then (clockOffset? rest).map fun p => ((p.1 : Int), p.2)
      else if c == '-' || c == '\u2212' then (clockOffset? rest).map fun p => (-(p.1 : Int), p.2)
      else none
    | [] => none

def ofFields? (day : Day) (hour minute second nanos : Nat) (offset : Int) : Option Moment :=
  let leap := second = 60
  let seconds := day.toNumber * secondsPerDay + (3600 * hour + 60 * minute : Nat) +
    (if leap then 59 else second : Nat) - offset
  let m : Moment := ⟨seconds, if leap then nanos + nanosPerSecond else nanos⟩
  if day.isValid && hour ≤ 23 && minute ≤ 59 && second ≤ 60 && offset.natAbs < secondsPerDay &&
      Day.covers m.day.year then
    some m
  else none

/-- Read a time stamp: date, a letter or blank, time, and an offset that has to be there. Blanks may
stand between its parts. -/
def ofText? (s : String) : Option Moment := do
  let (year, cs) ← year? s.toList
  let cs ← mark? '-' cs
  let (month, cs) ← number? 2 cs
  let cs ← mark? '-' cs
  let (day, cs) ← number? 2 cs
  let cs ← match cs with
    | c :: cs => if c == 'T' || c == 't' || c == ' ' then some cs else none
    | [] => none
  let (hour, cs) ← number? 2 cs
  let cs ← mark? ':' cs
  let (minute, cs) ← number? 2 cs
  let cs ← mark? ':' cs
  let (second, cs) ← number? 2 cs
  let (nanos, cs) ← fraction? cs
  let (offset, cs) ← offset? (Text.trimStart cs)
  if (Text.trimStart cs).isEmpty then ofFields? ⟨year, month, day⟩ hour minute second nanos offset
  else none

end Moment

end ErrorMigration
