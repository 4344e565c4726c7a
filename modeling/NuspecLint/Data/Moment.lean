/-!
# Dates and times

Calendar dates, times of day and their combination, as data values hold them, with the two ways
of writing them: the notation of messages and the international one.
-/

namespace NuspecLint

/-- A decimal number filled with zeros to the given width. -/
def zeroPadded (width n : Nat) : String :=
  let digits := Nat.toDigits 10 n
  String.ofList (List.replicate (width - digits.length) '0' ++ digits)

/-- A day of the calendar. -/
structure Date where
  year : Nat
  month : Nat
  day : Nat
  deriving Repr, DecidableEq

namespace Date

/-- The leap years of the Gregorian calendar. -/
def isLeap (year : Nat) : Bool :=
  year % 4 == 0 && (year % 100 != 0 || year % 400 == 0)

/-- The number of days of a month. -/
def daysIn (year month : Nat) : Nat :=
  if month = 2 then (if isLeap year then 29 else 28)
  else if month = 4 ∨ month = 6 ∨ month = 9 ∨ month = 11 then 30
  else 31

/-- The calendar starts with the year one. -/
def isValid (d : Date) : Bool :=
  1 ≤ d.year && 1 ≤ d.month && d.month ≤ 12 && 1 ≤ d.day && d.day ≤ daysIn d.year d.month

/-- The parts of a date in messages. -/
def parts (d : Date) : List Nat :=
  [d.year, d.month, d.day]

/-- Year, month and day with dashes between them. -/
def iso (d : Date) : String :=
  zeroPadded 4 d.year ++ "-" ++ zeroPadded 2 d.month ++ "-" ++ zeroPadded 2 d.day

end Date

/-- A time of day. -/
structure Time where
  hour : Nat
  minute : Nat
  second : Nat
  micro : Nat
  deriving Repr, DecidableEq

namespace Time

/-- The parts of a time in messages; trailing zeros after the minutes are left out. -/
def parts (t : Time) : List Nat :=
  if t.micro ≠ 0 then [t.hour, t.minute, t.second, t.micro]
  else if t.second ≠ 0 then [t.hour, t.minute, t.second]
  else [t.hour, t.minute]

/-- Hours, minutes and seconds with colons between them, and a fraction unless it is zero. -/
def iso (t : Time) : String :=
  zeroPadded 2 t.hour ++ ":" ++ zeroPadded 2 t.minute ++ ":" ++ zeroPadded 2 t.second ++
    (if t.micro = 0 then "" else "." ++ zeroPadded 6 t.micro)

end Time

/-- How far a clock is ahead of universal time, in minutes. -/
structure Offset where
  minutes : Int
  deriving Repr, DecidableEq

namespace Offset

/-- The offset in messages: whole days, then the seconds of a part of a day. -/
def text (o : Offset) : String :=
  if o.minutes = 0 then "datetime.timezone.utc"
  else
    let days := o.minutes.fdiv 1440
    let seconds := o.minutes.fmod 1440 * 60
    let parts :=
      (if days = 0 then [] else ["days=" ++ toString days]) ++
        (if seconds = 0 then [] else ["seconds=" ++ toString seconds])
    "datetime.timezone(datetime.timedelta(" ++ ", ".intercalate parts ++ "))"

/-- Sign, hours and minutes with a colon between them. -/
def iso (o : Offset) : String :=
  (if o.minutes < 0 then "-" else "+") ++
    zeroPadded 2 (o.minutes.natAbs / 60) ++ ":" ++ zeroPadded 2 (o.minutes.natAbs % 60)

end Offset

/-- A date, a time, or both, with or without an offset from universal time. -/
inductive Moment where
  | date (d : Date)
  | time (t : Time)
  | dateTime (d : Date) (t : Time) (offset : Option Offset)
  deriving Repr, DecidableEq

namespace Moment

/-- The moment in messages. -/
def text : Moment → String
  | date d => "datetime.date(" ++ commaList d.parts ++ ")"
  | time t => "datetime.time(" ++ commaList t.parts ++ ")"
  | dateTime d t none => "datetime.datetime(" ++ commaList (d.parts ++ t.parts) ++ ")"
  | dateTime d t (some o) =>
      "datetime.datetime(" ++ commaList (d.parts ++ t.parts) ++ ", tzinfo=" ++ o.text ++ ")"
where
  /-- Numbers with commas between them. -/
  commaList (ns : List Nat) : String :=
    ", ".intercalate (ns.map toString)

/-- The moment in international notation. -/
def iso : Moment → String
  | date d => d.iso
  | time t => t.iso
  | dateTime d t offset => d.iso ++ "T" ++ t.iso ++ (offset.map Offset.iso).getD ""

end Moment

end NuspecLint
