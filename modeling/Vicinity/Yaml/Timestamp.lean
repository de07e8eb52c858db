import Vicinity.Config.Fault

/-!
# Dates and times

The forms in which dates and times are written, and whether they are in the calendar.
-/

namespace Vicinity.Yaml

/-- A date, perhaps with a time of day. -/
structure Timestamp where
  year : Nat
  month : Nat
  day : Nat
  /-- Whether month and day are written with two digits. -/
  isPadded : Bool
  /-- Hour, minute and second. -/
  time : Option (Nat × Nat × Nat) := none
  /-- The difference of the clock from that of the zero meridian in minutes, without its sign. -/
  offset : Nat := 0
  deriving DecidableEq, Repr

namespace Timestamp

/-- A number of at least `least` and at most `most` digits, the number of its digits, and what follows. -/
def number? (least most : Nat) (text : List Char) : Option (Nat × Nat × List Char) :=
  let digits := (text.take most).takeWhile (·.isDigit)
  if digits.length < least then none
  else
    let n := digits.foldl (fun n c => 10 * n + (c.toNat - '0'.toNat)) 0
    some (n, digits.length, text.drop digits.length)

/-- What follows a character, which comes first. -/
def after? (c : Char) : List Char → Option (List Char)
  | d :: rest => if c = d then some rest else none
  | [] => none

/-- A blank in a time. -/
def isGap (c : Char) : Bool := c == ' ' || c == '\t'

/-- Reads the difference of the clock at the end of a time; there may be none. -/
def readOffset (text : List Char) : Option Nat :=
  if text.isEmpty then some 0
  else match text.dropWhile isGap with
    | ['Z'] => some 0
    | sign :: rest =>
      if sign == '+' || sign == '-' then do
        let (hours, _, rest) ← number? 1 2 rest
        if rest.isEmpty then some (60 * hours)
        else
          let (minutes, _, rest) ← number? 2 2 (← after? ':' rest)
          if rest.isEmpty then some (60 * hours + minutes) else none
      else none
    | [] => none

/-- Reads a date, and a time if more follows. -/
def ofText? (text : List Char) : Option Timestamp := do
  let (year, _, rest) ← number? 4 4 text
  let (month, m, rest) ← number? 1 2 (← after? '-' rest)
  let (day, d, rest) ← number? 1 2 (← after? '-' rest)
  let date : Timestamp := { year, month, day, isPadded := m == 2 && d == 2 }
  match rest with
  | [] => some date
  | c :: more => do
    let rest ←
      if c == 'T' || c == 't' then some more
      else if isGap c then some (more.dropWhile isGap)
      else none
    let (hour, _, rest) ← number? 1 2 rest
    let (minute, _, rest) ← number? 2 2 (← after? ':' rest)
    let (second, _, rest) ← number? 2 2 (← after? ':' rest)
    let rest := match rest with
      | '.' :: fraction => fraction.dropWhile (·.isDigit)
      | rest => rest
    let offset ← readOffset rest
    some { date with time := some (hour, minute, second), offset }

/-- Whether a year has a day more. -/
def isLeap (year : Nat) : Bool := year % 4 == 0 && (year % 100 != 0 || year % 400 == 0)

/-- The number of days of a month. -/
def daysIn (year month : Nat) : Nat :=
  if month = 2 then if isLeap year then 29 else 28
  else if [4, 6, 9, 11].contains month then 30 else 31

/-- What is wrong with a date and time, if anything is. -/
def fault? (t : Timestamp) : Option CalendarFault :=
  let (hour, minute, second) := t.time.getD (0, 0, 0)
  if t.offset ≥ 24 * 60 then some .offset
  else if t.year = 0 then some .year
  else if t.month = 0 ∨ 12 < t.month then some .month
  else if t.day = 0 ∨ daysIn t.year t.month < t.day then some .day
  else if 23 < hour then some .hour
  else if 59 < minute then some .minute
  else if 59 < second then some .second
  else none

/-- Whether a text is a date or a time without being marked as one. -/
def isForm (text : List Char) : Bool :=
  (ofText? text).any fun t => t.isPadded || t.time.isSome

end Timestamp

end Vicinity.Yaml
