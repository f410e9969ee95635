import TemplateRecovery.Moment

/-!
# Days and times as option files write them

A day is written as year, month and day with hyphens between them. A time may follow after a `T` or
after blanks, with a fraction of a second and with the distance of its zone from the zero meridian.

* `Timestamp.ofText?` takes a text apart.
* `Timestamp.moment` is the day or the time meant.
-/

namespace TemplateRecovery

namespace Yaml

/-- A time of day as it is written. -/
structure WrittenTime where
  hour : Nat
  minute : Nat
  second : Nat
  /-- The digits after the point. -/
  fraction : List Char
  /-- The distance from the zero meridian in minutes, with its spelling. -/
  zone : Option (Int × String)
  deriving Inhabited, Repr

/-- A day as it is written, maybe with a time. -/
structure Timestamp where
  year : Nat
  month : Nat
  day : Nat
  time : Option WrittenTime
  deriving Inhabited, Repr

namespace Timestamp

def value (ds : List Char) : Nat := ds.foldl (fun n c => 10 * n + (c.toNat - '0'.toNat)) 0

/-- A run of digits whose length lies between two bounds, and what follows it. -/
def digits? (least most : Nat) (cs : List Char) : Option (Nat × List Char) :=
  let ds := (cs.take most).takeWhile Char.isDigit
  if least ≤ ds.length then some (value ds, cs.drop ds.length) else none

def after? (c : Char) : List Char → Option (List Char)
  | d :: rest => if c = d then some rest else none
  | [] => none

def isSpace (c : Char) : Bool := c == ' ' || c == '\t'

/-- The distance from the zero meridian in minutes that ends a text, without its sign. -/
def distance? (cs : List Char) : Option Int := do
  let (hour, cs) ← digits? 1 2 cs
  match cs with
  | [] => return 60 * hour
  | ':' :: cs =>
    let (minute, cs) ← digits? 2 2 cs
    if cs.isEmpty then return 60 * hour + minute else none
  | _ => none

/-- The zone that ends a text; its spelling leaves out the blanks in front of it. -/
def zone? (cs : List Char) : Option (Option (Int × String)) :=
  if cs.isEmpty then some none
  else
    let word := cs.dropWhile isSpace
    let minutes := match word with
      | ['Z'] => some 0
      | '+' :: cs => distance? cs
      | '-' :: cs => (distance? cs).map fun n => -n
      | _ => none
    minutes.map fun n => some (n, String.ofList word)

def fraction : List Char → List Char × List Char
  | '.' :: cs => (cs.takeWhile Char.isDigit, cs.dropWhile Char.isDigit)
  | cs => ([], cs)

def time? (cs : List Char) : Option WrittenTime := do
  let (hour, cs) ← digits? 1 2 cs
  let cs ← after? ':' cs
  let (minute, cs) ← digits? 2 2 cs
  let cs ← after? ':' cs
  let (second, cs) ← digits? 2 2 cs
  let (part, cs) := fraction cs
  let zone ← zone? cs
  return ⟨hour, minute, second, part, zone⟩

/-- What separates a day from a time, taken away. -/
def afterDay? : List Char → Option (List Char)
  | [] => none
  | c :: cs =>
    if c = 'T' ∨ c = 't' then some cs
    else if isSpace c then some (cs.dropWhile isSpace)
    else none

def ofText? (cs : List Char) : Option Timestamp := do
  let (year, cs) ← digits? 4 4 cs
  let cs ← after? '-' cs
  let (month, cs) ← digits? 1 2 cs
  let cs ← after? '-' cs
  let (day, cs) ← digits? 1 2 cs
  if cs.isEmpty then return ⟨year, month, day, none⟩
  else
    let cs ← afterDay? cs
    let time ← time? cs
    return ⟨year, month, day, some time⟩

/-- Whether a text is taken for a day or a time where no tag says so: a day alone needs all its
digits. -/
def isPlain (cs : List Char) : Bool :=
  match ofText? cs with
  | some ⟨_, _, _, some _⟩ => true
  | some ⟨_, _, _, none⟩ => cs.length == 10
  | none => false

/-- Millionths of a second, rounded by the seventh digit; they may be a whole second. -/
def WrittenTime.millionths (t : WrittenTime) : Nat :=
  let n := value ((t.fraction ++ List.replicate 6 '0').take 6)
  if 4 < value ((t.fraction.drop 6).take 1) then n + 1 else n

/-- Why a timestamp is no moment. -/
inductive Problem where
  | parts (problem : Moment.Problem)
  /-- Rounding to the next second leaves the calendar. -/
  | outside

def WrittenTime.zoneMeant (t : WrittenTime) : Except Moment.Problem (Option Moment.Zone) :=
  match t.zone with
  | some (minutes, name) => (Moment.Zone.ofParts minutes name).map some
  | none => .ok none

/-- The moment that is meant. A fraction that rounds to a whole second carries over. -/
def moment (t : Timestamp) : Except Problem Moment := do
  match t.time with
  | none =>
    let d ← (Moment.Day.ofParts t.year t.month t.day).mapError .parts
    return .day d
  | some w =>
    let zone ← (WrittenTime.zoneMeant w).mapError .parts
    let n := WrittenTime.millionths w
    let d ← (Moment.Day.ofParts t.year t.month t.day).mapError .parts
    let c ← (Moment.Clock.ofParts w.hour w.minute w.second (n % 1000000)).mapError .parts
    if n < 1000000 then return .time d c zone
    else
      match Moment.later? d c 1 with
      | some (d, c) => return .time d c zone
      | none => .error .outside

end Timestamp

end Yaml

end TemplateRecovery
