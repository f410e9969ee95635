import TemplateRecovery.Text.Join

/-!
# Days and times

A `Moment` is a day of the calendar, or a day and a time of it. Days are those of the calendar in use
today, carried back and forth over the years one to 9999. A time may say in which zone it is meant:
two times with zones are the same if they are one instant, and a time without a zone is never the
same as one that has a zone.

* `Moment.Day.ofParts`, `Moment.Clock.ofParts` and `Moment.Zone.ofParts` check the parts of a day, of
  a time and of a zone.
* `Moment.later?` moves a time by a number of seconds.
* `Moment.same` and `Moment.less?` compare two moments.
* `Moment.text` writes a moment, `Moment.repr` writes the call that makes it.
-/

namespace TemplateRecovery

namespace Moment

/-- A day of the calendar. -/
structure Day where
  year : Nat
  month : Nat
  day : Nat
  deriving DecidableEq, Inhabited, Repr

/-- A time of day; `fraction` counts millionths of a second. -/
structure Clock where
  hour : Nat
  minute : Nat
  second : Nat
  fraction : Nat
  deriving DecidableEq, Inhabited, Repr

/-- A zone: its distance from the zero meridian in minutes, eastwards, and its name. -/
structure Zone where
  minutes : Int
  name : String
  deriving DecidableEq, Inhabited, Repr

/-- The call that makes a span of minutes: whole days, which may be negative, and the seconds that
are left over. -/
def span (minutes : Int) : String :=
  let days := minutes.fdiv 1440
  let seconds := 60 * minutes.fmod 1440
  let parts :=
    (if days = 0 then [] else ["days=" ++ toString days]) ++
      (if seconds = 0 then [] else ["seconds=" ++ toString seconds])
  "datetime.timedelta(" ++ (if parts.isEmpty then "0" else Text.join ", " parts) ++ ")"

/-- Why parts make no day, no time or no zone. -/
inductive Problem where
  | year (n : Nat)
  | month
  | day
  | hour
  | minute
  | second
  | zone (minutes : Int)
  deriving DecidableEq, Inhabited, Repr

def Problem.message : Problem → String
  | .year n => "year " ++ toString n ++ " is out of range"
  | .month => "month must be in 1..12"
  | .day => "day is out of range for month"
  | .hour => "hour must be in 0..23"
  | .minute => "minute must be in 0..59"
  | .second => "second must be in 0..59"
  | .zone minutes =>
    "offset must be a timedelta strictly between -timedelta(hours=24) and timedelta(hours=24), not " ++
      span minutes ++ "."

/-- Whether a year has a day more. -/
def isLeap (year : Nat) : Bool := year % 4 == 0 && (year % 100 != 0 || year % 400 == 0)

def daysInMonth (year month : Nat) : Nat :=
  if month = 2 then (if isLeap year then 29 else 28)
  else if month = 4 ∨ month = 6 ∨ month = 9 ∨ month = 11 then 30
  else 31

def Day.ofParts (year month day : Nat) : Except Problem Day :=
  if year = 0 ∨ 9999 < year then .error (.year year)
  else if month = 0 ∨ 12 < month then .error .month
  else if day = 0 ∨ daysInMonth year month < day then .error .day
  else .ok ⟨year, month, day⟩

def Clock.ofParts (hour minute second fraction : Nat) : Except Problem Clock :=
  if 23 < hour then .error .hour
  else if 59 < minute then .error .minute
  else if 59 < second then .error .second
  else .ok ⟨hour, minute, second, fraction⟩

/-- The zone with these parts, which is less than a day away from the zero meridian. -/
def Zone.ofParts (minutes : Int) (name : String) : Except Problem Zone :=
  if -1440 < minutes ∧ minutes < 1440 then .ok ⟨minutes, name⟩ else .error (.zone minutes)

def daysBeforeYear (year : Nat) : Nat :=
  let y := year - 1
  365 * y + y / 4 - y / 100 + y / 400

def daysBeforeMonth (year : Nat) : Nat → Nat
  | 0 => 0
  | 1 => 0
  | month + 1 => daysBeforeMonth year month + daysInMonth year month

/-- The number of a day, counted from the first day of the year one. -/
def Day.number (d : Day) : Nat :=
  daysBeforeYear d.year + daysBeforeMonth d.year d.month + (d.day - 1)

/-- The month and the day of a month, given the number of days since the start of a month. -/
def monthFrom (year : Nat) : Nat → Nat → Nat → Day
  | 0, month, rest => ⟨year, month, rest + 1⟩
  | fuel + 1, month, rest =>
    if rest < daysInMonth year month then ⟨year, month, rest + 1⟩
    else monthFrom year fuel (month + 1) (rest - daysInMonth year month)

/-- The day with a number; the years one to 9999 are all there is. -/
def Day.ofNumber? (n : Int) : Option Day :=
  if n < 0 ∨ daysBeforeYear 10000 ≤ n.toNat then none
  else
    let n := n.toNat
    let guess := n / 366 + 1
    let year := (List.range 40).foldl
      (fun y _ => if daysBeforeYear (y + 1) ≤ n then y + 1 else y) guess
    some (monthFrom year 12 1 (n - daysBeforeYear year))

def Clock.seconds (c : Clock) : Nat := 3600 * c.hour + 60 * c.minute + c.second

/-- The time so many seconds after midnight. -/
def Clock.ofSeconds (n fraction : Nat) : Clock := ⟨n / 3600, n / 60 % 60, n % 60, fraction⟩

end Moment

/-- A day, or a time of a day, maybe in a zone. -/
inductive Moment where
  | day (d : Moment.Day)
  | time (d : Moment.Day) (c : Moment.Clock) (zone : Option Moment.Zone)
  deriving DecidableEq, Inhabited, Repr

namespace Moment

/-- A time of a day, moved by a number of seconds; none if that leaves the calendar. -/
def later? (d : Day) (c : Clock) (seconds : Int) : Option (Day × Clock) :=
  let total := (86400 * d.number + c.seconds : Int) + seconds
  let rest := total % 86400
  (Day.ofNumber? ((total - rest) / 86400)).map fun d => (d, Clock.ofSeconds rest.toNat c.fraction)

/-- The millionths of a second from the start of the calendar to a time, as a clock at a distance of
so many minutes from the zero meridian shows it. -/
def instant (d : Day) (c : Clock) (minutes : Int) : Int :=
  1000000 * (86400 * d.number + c.seconds - 60 * minutes) + c.fraction

def same : Moment → Moment → Bool
  | .day a, .day b => a == b
  | .time a c none, .time b d none => a == b && c == d
  | .time a c (some z), .time b d (some w) => instant a c z.minutes == instant b d w.minutes
  | _, _ => false

/-- Whether a moment comes before another; none if the two cannot be compared. -/
def less? : Moment → Moment → Option Bool
  | .day a, .day b => some (decide (a.number < b.number))
  | .time a c none, .time b d none => some (decide (instant a c 0 < instant b d 0))
  | .time a c (some z), .time b d (some w) =>
    some (decide (instant a c z.minutes < instant b d w.minutes))
  | _, _ => none

/-- A number with zeros in front of it. -/
def padded (width n : Nat) : String :=
  let ds := Nat.toDigits 10 n
  String.ofList (List.replicate (width - ds.length) '0' ++ ds)

def Day.text (d : Day) : String :=
  padded 4 d.year ++ "-" ++ padded 2 d.month ++ "-" ++ padded 2 d.day

def Clock.text (c : Clock) : String :=
  padded 2 c.hour ++ ":" ++ padded 2 c.minute ++ ":" ++ padded 2 c.second ++
    (if c.fraction = 0 then "" else "." ++ padded 6 c.fraction)

/-- The text of the distance of a zone from the zero meridian. -/
def Zone.text (z : Zone) : String :=
  let n := z.minutes.natAbs
  (if z.minutes < 0 then "-" else "+") ++ padded 2 (n / 60) ++ ":" ++ padded 2 (n % 60)

def text : Moment → String
  | .day d => d.text
  | .time d c zone => d.text ++ " " ++ c.text ++ (zone.map Zone.text).getD ""

/-- The parts of a time that are written: the minute always, what follows it up to the last part that
is not zero. -/
def Clock.parts (c : Clock) : List Nat :=
  if c.fraction ≠ 0 then [c.hour, c.minute, c.second, c.fraction]
  else if c.second ≠ 0 then [c.hour, c.minute, c.second]
  else [c.hour, c.minute]

def Zone.repr (z : Zone) : String :=
  "datetime.timezone(" ++ span z.minutes ++ ", '" ++ z.name ++ "')"

def repr : Moment → String
  | .day d => "datetime.date(" ++ Text.join ", " ([d.year, d.month, d.day].map toString) ++ ")"
  | .time d c zone =>
    let parts := ([d.year, d.month, d.day] ++ c.parts).map toString
    let parts := parts ++ (zone.map fun z => "tzinfo=" ++ z.repr).toList
    "datetime.datetime(" ++ Text.join ", " parts ++ ")"

def typeName : Moment → String
  | .day _ => "date"
  | .time _ _ _ => "datetime"

end Moment

end TemplateRecovery
