import Mend.Text.Blank

/-!
# Moments in time

A moment is a number of nanoseconds since the start of 1970 in UTC. It is written in the form of
RFC 3339 with the mark `Z`, and with no fraction, or one of three, six or nine digits: the fewest
that say it exactly. A looser form is read: numbers may have fewer digits, blanks may stand in front
of numbers, marks and the offset, a year may have a sign and then any number of digits, and any
offset will do. A second sixty stands for the last second of its minute with a whole second more on
the fraction.
-/

namespace Mend

/-- Whole seconds since the start of 1970, and the fraction in nanoseconds. A moment inside a second
numbered sixty has a fraction of one second or more, so that it sorts after the second before. -/
structure Time where
  seconds : Int
  nanos : Nat
  deriving Repr, DecidableEq

namespace Time

/-- Order by second, then by fraction. -/
def before (a b : Time) : Bool :=
  a.seconds < b.seconds || (a.seconds == b.seconds && a.nanos < b.nanos)

/-- The number of the day of a date in the Gregorian calendar, with 1970-01-01 as day zero. Years
count from March, so that a leap day comes last. -/
def dayNumber (year : Int) (month day : Nat) : Int :=
  let y := if month ≤ 2 then year - 1 else year
  let era := y.fdiv 400
  let yearOfEra := y - era * 400
  let shifted : Int := if 2 < month then (month : Int) - 3 else (month : Int) + 9
  let dayOfYear := (153 * shifted + 2).fdiv 5 + (day : Int) - 1
  let dayOfEra := yearOfEra * 365 + yearOfEra.fdiv 4 - yearOfEra.fdiv 100 + dayOfYear
  era * 146097 + dayOfEra - 719468

/-- The date of a day number: year, month and day. -/
def dateOf (day : Int) : Int × Nat × Nat :=
  let z := day + 719468
  let era := z.fdiv 146097
  let dayOfEra := z - era * 146097
  let yearOfEra :=
    (dayOfEra - dayOfEra.fdiv 1460 + dayOfEra.fdiv 36524 - dayOfEra.fdiv 146096).fdiv 365
  let dayOfYear := dayOfEra - (365 * yearOfEra + yearOfEra.fdiv 4 - yearOfEra.fdiv 100)
  let shifted := (5 * dayOfYear + 2).fdiv 153
  let day := dayOfYear - (153 * shifted + 2).fdiv 5 + 1
  let month := if shifted < 10 then shifted + 3 else shifted - 9
  let year := yearOfEra + era * 400 + if month ≤ 2 then 1 else 0
  (year, month.toNat, day.toNat)

/-- The number of days of a month. -/
def daysIn (year : Int) (month : Nat) : Nat :=
  if month == 2 then
    if year % 4 == 0 && (year % 100 != 0 || year % 400 == 0) then 29 else 28
  else if month == 4 || month == 6 || month == 9 || month == 11 then 30
  else 31

/-- A number with zeros in front, at least `n` digits. -/
def padded (n : Nat) (k : Nat) : String :=
  let digits := toString k
  String.ofList (List.replicate (n - digits.length) '0') ++ digits

/-- A year: four digits, with a sign where they do not do. -/
def yearText (year : Int) : String :=
  if 0 ≤ year ∧ year ≤ 9999 then padded 4 year.toNat
  else (if year < 0 then "-" else "+") ++ padded 4 year.natAbs

/-- The fraction of a second, in the fewest of no, three, six or nine digits. -/
def fractionText (nanos : Nat) : String :=
  if nanos == 0 then ""
  else if nanos % 1000000 == 0 then "." ++ padded 3 (nanos / 1000000)
  else if nanos % 1000 == 0 then "." ++ padded 6 (nanos / 1000)
  else "." ++ padded 9 nanos

/-- The moment in UTC. -/
def text (t : Time) : String :=
  let (year, month, day) := dateOf (t.seconds.fdiv 86400)
  let second := (t.seconds.fmod 86400).toNat
  let (s, nanos) :=
    if t.nanos < 1000000000 then (second % 60, t.nanos)
    else (second % 60 + 1, t.nanos - 1000000000)
  yearText year ++ "-" ++ padded 2 month ++ "-" ++ padded 2 day ++ "T"
    ++ padded 2 (second / 3600) ++ ":" ++ padded 2 (second / 60 % 60) ++ ":" ++ padded 2 s
    ++ fractionText nanos ++ "Z"

/-- The moment in the compact form of file names: date and time of day down to the millisecond. -/
def stamp (t : Time) : String :=
  let (year, month, day) := dateOf (t.seconds.fdiv 86400)
  let second := (t.seconds.fmod 86400).toNat
  yearText year ++ padded 2 month ++ padded 2 day ++ "T" ++ padded 2 (second / 3600)
    ++ padded 2 (second / 60 % 60) ++ padded 2 (second % 60) ++ "." ++ padded 3 (t.nanos / 1000000)

/-! ## Reading -/

/-- Exactly `n` decimal digits. -/
def digits? (n : Nat) (s : List Char) : Option (Nat × List Char) :=
  let front := s.take n
  if front.length == n && front.all Char.isDigit then
    some (front.foldl (fun k c => k * 10 + (c.toNat - '0'.toNat)) 0, s.drop n)
  else none

/-- One expected character. -/
def mark? (allowed : List Char) : List Char → Option (List Char)
  | c :: s => if allowed.contains c then some s else none
  | [] => none

/-- The fraction of a second, if there is one; digits past the ninth are dropped. -/
def fraction? : List Char → Option (Nat × List Char)
  | '.' :: s =>
    let digits := s.takeWhile Char.isDigit
    if digits.isEmpty then none
    else
      let nine := (digits ++ List.replicate 9 '0').take 9
      some (nine.foldl (fun k c => k * 10 + (c.toNat - '0'.toNat)) 0, s.dropWhile Char.isDigit)
  | s => some (0, s)

/-- A number of at most `most` decimal digits, after any blanks. -/
def number? (most : Nat) (s : List Char) : Option (Nat × List Char) :=
  let s := Text.trimStart s
  let count := ((s.take most).takeWhile Char.isDigit).length
  if count = 0 then none else digits? count s

/-- A year, after any blanks: at most four digits, or a sign and any number of digits. -/
def year? (s : List Char) : Option (Int × List Char) :=
  let unbounded (r : List Char) := if r.head?.any Char.isDigit then number? r.length r else none
  match Text.trimStart s with
  | '-' :: r => (unbounded r).map fun (n, r) => (-(n : Int), r)
  | '+' :: r => (unbounded r).map fun (n, r) => ((n : Int), r)
  | r => (number? 4 r).map fun (n, r) => ((n : Int), r)

/-- The offset from UTC in seconds. Colons and blanks may stand between hours and minutes. -/
def offset? : List Char → Option (Int × List Char)
  | 'Z' :: s | 'z' :: s => some (0, s)
  | sign :: s =>
    if sign == '+' || sign == '-' || sign == '\u2212' then do
      let (hours, s) ← digits? 2 s
      let (minutes, s) ← digits? 2 (s.dropWhile fun c => c == ':' || Text.isBlank c)
      if hours < 24 && minutes < 60 then
        let n : Int := hours * 3600 + minutes * 60
        pure (if sign == '+' then n else -n, s)
      else none
    else none
  | [] => none

/-- The offset from UTC in seconds; the letters UTC stand for none. -/
def zone? (s : List Char) : Option (Int × List Char) :=
  if (s.take 3).map Char.toUpper == "UTC".toList then some (0, s.drop 3) else offset? s

/-- The years that a date can have. -/
def isYear (year : Int) : Bool := -262143 ≤ year && year ≤ 262142

/-- Read a moment in a loose form of RFC 3339; a space may stand between date and time. -/
def read? (text : String) : Option Time := do
  let (year, s) ← year? text.toList
  let s ← mark? ['-'] (Text.trimStart s)
  let (month, s) ← number? 2 s
  let s ← mark? ['-'] (Text.trimStart s)
  let (day, s) ← number? 2 s
  let s ← mark? ['T', 't', ' '] s
  let (hour, s) ← number? 2 s
  let s ← mark? [':'] (Text.trimStart s)
  let (minute, s) ← number? 2 s
  let s ← mark? [':'] (Text.trimStart s)
  let (second, s) ← number? 2 s
  let (nanos, s) ← fraction? s
  let (offset, s) ← zone? (Text.trimStart s)
  if s.all Text.isBlank && isYear year && 1 ≤ month && month ≤ 12 && 1 ≤ day
      && day ≤ daysIn year month && hour < 24 && minute < 60 && second ≤ 60 then
    let inMinute := min second 59
    let extra := if second == 60 then 1000000000 else 0
    let t : Time :=
      ⟨dayNumber year month day * 86400 + hour * 3600 + minute * 60 + inMinute - offset,
        nanos + extra⟩
    if isYear (dateOf (t.seconds.fdiv 86400)).1 then pure t else none
  else none

/-- The next moment that a clock can show. -/
def next (t : Time) : Time :=
  if t.nanos + 1 < 1000000000 then ⟨t.seconds, t.nanos + 1⟩ else ⟨t.seconds + 1, 0⟩

end Time

end Mend
