import TaskLine.Text.Digits
import TaskLine.Yaml.Char

/-!
# Days and times

A day, or a day and a time of it, with or without a difference to universal time.
A text can have the form of a moment that no calendar has.
-/

namespace TaskLine.Yaml

/-- A time of day. -/
structure DayTime where
  hour : Nat
  minute : Nat
  second : Nat
  micros : Nat := 0
  /-- How many minutes it is ahead of universal time, if that is known. -/
  zone : Option Int := none
deriving DecidableEq, Repr

/-- A day, or a time of it. -/
structure Moment where
  year : Nat
  month : Nat
  day : Nat
  time : Option DayTime := none
deriving DecidableEq, Repr

/-! ## The calendar -/

def isLeap (year : Nat) : Bool := year % 4 = 0 && (year % 100 != 0 || year % 400 = 0)

def daysIn (year month : Nat) : Nat :=
  if month = 2 then (if isLeap year then 29 else 28)
  else if month = 4 || month = 6 || month = 9 || month = 11 then 30
  else 31

/-- How many days of a year come before a month. -/
def daysBefore (year month : Nat) : Nat :=
  (List.range (month - 1)).foldl (fun n m => n + daysIn year (m + 1)) 0

namespace DayTime

def isValid (t : DayTime) : Bool :=
  t.hour ≤ 23 && t.minute ≤ 59 && t.second ≤ 59
    && match t.zone with
      | some z => z.natAbs < 1440
      | none => true

end DayTime

namespace Moment

/-- Whether the calendar has the day, and the day the time. -/
def isValid (m : Moment) : Bool :=
  1 ≤ m.year && 1 ≤ m.month && m.month ≤ 12 && 1 ≤ m.day && m.day ≤ daysIn m.year m.month
    && match m.time with
      | some t => t.isValid
      | none => true

/-- The number of a day, counted from the first one of the calendar. -/
def dayNumber (m : Moment) : Nat :=
  let years := m.year - 1
  years * 365 + years / 4 - years / 100 + years / 400 + daysBefore m.year m.month + m.day

/-- Where a moment lies, in millionths of a second of universal time. -/
def position (m : Moment) : Int :=
  match m.time with
  | none => m.dayNumber
  | some t =>
    let minutes : Int := (m.dayNumber * 24 + t.hour : Nat) * 60 + t.minute - t.zone.getD 0
    (minutes * 60 + t.second) * 1000000 + t.micros

/-- Whether two moments can be compared: days with days, and times with times that
know their difference to universal time just as well. -/
def isComparable (a b : Moment) : Bool :=
  match a.time, b.time with
  | none, none => true
  | some s, some t => s.zone.isSome = t.zone.isSome
  | _, _ => false

/-! ## Reading -/

/-- Between `low` and `high` digits at the start, as many as there are. -/
def digitsUpTo (low high : Nat) (s : Text) : Option (Nat × Text) :=
  let ds := (s.take high).takeWhile Text.isAsciiDigit
  if low ≤ ds.length then some (Text.ofDigits 10 (ds.map fun c => c.toNat - 48), s.drop ds.length)
  else none

def charAt (c : Char) : Text → Option Text
  | d :: cs => if c = d then some cs else none
  | [] => none

/-- The first six digits of a fraction of a second. -/
def microsOf (ds : Text) : Nat :=
  let ds := (ds.take 6).map fun c => c.toNat - 48
  Text.ofDigits 10 (ds ++ List.replicate (6 - ds.length) 0)

/-- A difference to universal time at the end of a text, blanks before it. -/
def zone? (s : Text) : Option (Option Int) :=
  match s.dropWhile isBlank with
  | [] => if s.isEmpty then some none else none
  | ['Z'] => some (some 0)
  | c :: cs =>
    if c = '+' || c = '-' then do
      let (hours, rest) ← digitsUpTo 1 2 cs
      let minutes ← match rest with
        | [] => some 0
        | ':' :: ms => (digitsUpTo 2 2 ms).bind fun r => if r.2.isEmpty then some r.1 else none
        | _ => none
      return some (Text.signed (c = '-') (60 * hours + minutes))
    else none

/-- A time of day up to the end of a text. -/
def time? (s : Text) : Option DayTime := do
  let (hour, s) ← digitsUpTo 1 2 s
  let s ← charAt ':' s
  let (minute, s) ← digitsUpTo 2 2 s
  let s ← charAt ':' s
  let (second, s) ← digitsUpTo 2 2 s
  let (fraction, s) : Text × Text := match s with
    | '.' :: cs => (cs.takeWhile Text.isAsciiDigit, cs.dropWhile Text.isAsciiDigit)
    | cs => ([], cs)
  let zone ← zone? s
  return { hour, minute, second, micros := microsOf fraction, zone }

/-- The moment that a text has the form of, whether the calendar has it or not. -/
def ofText? (s : Text) : Option Moment := do
  let (year, rest) ← digitsUpTo 4 4 s
  let rest ← charAt '-' rest
  let (month, rest) ← digitsUpTo 1 2 rest
  let rest ← charAt '-' rest
  let (day, rest) ← digitsUpTo 1 2 rest
  match rest with
  | [] => some { year, month, day }
  | c :: cs =>
    if c = 'T' || c = 't' then (time? cs).map fun t => { year, month, day, time := some t }
    else if isBlank c then
      (time? (cs.dropWhile isBlank)).map fun t => { year, month, day, time := some t }
    else none

/-- Whether a plain text is taken for a moment: a day alone has all its digits. -/
def isPlain (s : Text) : Bool :=
  match ofText? s with
  | some m => m.time.isSome || s.length = 10
  | none => false

/-! ## Writing -/

/-- A number with at least `width` digits. -/
def padded (width n : Nat) : Text :=
  let ds := Text.ofNat n
  List.replicate (width - ds.length) '0' ++ ds

/-- Hours and minutes of a difference to universal time. -/
def zoneText (z : Int) : Text :=
  (if z < 0 then '-' else '+') :: padded 2 (z.natAbs / 60) ++ ':' :: padded 2 (z.natAbs % 60)

def timeText (t : DayTime) : Text :=
  padded 2 t.hour ++ ':' :: padded 2 t.minute ++ ':' :: padded 2 t.second
    ++ (if t.micros = 0 then [] else '.' :: padded 6 t.micros)
    ++ (t.zone.map zoneText).getD []

def text (m : Moment) : Text :=
  padded 4 m.year ++ '-' :: padded 2 m.month ++ '-' :: padded 2 m.day
    ++ (m.time.map fun t => ' ' :: timeText t).getD []

end Moment

end TaskLine.Yaml
