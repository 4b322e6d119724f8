import PushFitness.Text.Digit

/-!
# Days and times

A day is written as year, month and day. A time of that day may follow, with a
fraction of its seconds and its distance from universal time. What is written that
way need not be on the calendar; whether it is is looked at afterwards, the distance
first and then every part from the year on.
-/

namespace PushFitness.Yaml

/-- A time of day. The distance from universal time is counted in minutes. -/
structure Clock where
  hour : Nat
  minute : Nat
  second : Nat
  offset? : Option Int
deriving DecidableEq

/-- A day, and perhaps a time of it. -/
structure Timestamp where
  year : Nat
  month : Nat
  day : Nat
  clock? : Option Clock
deriving DecidableEq

/-- Why there is no such day or time. -/
inductive CalendarFault
  | year (n : Nat)
  | month
  | day
  | hour
  | minute
  | second
  | offset (minutes : Int)
deriving DecidableEq

/-! ## What is said about a fault -/

def minutesPerDay : Nat := 1440

/-- A span of time in whole days and the seconds left over. Parts that are nothing are left
out. -/
def spanText (minutes : Int) : String :=
  let days := minutes.fdiv minutesPerDay
  let seconds := minutes.fmod minutesPerDay * 60
  let part (name : String) (n : Int) : List String :=
    if n = 0 then [] else [name ++ "=" ++ toString n]
  "datetime.timedelta(" ++ ", ".intercalate (part "days" days ++ part "seconds" seconds) ++ ")"

def CalendarFault.message : CalendarFault → String
  | year n => "year " ++ toString n ++ " is out of range"
  | month => "month must be in 1..12"
  | day => "day is out of range for month"
  | hour => "hour must be in 0..23"
  | minute => "minute must be in 0..59"
  | second => "second must be in 0..59"
  | offset minutes =>
    "offset must be a timedelta strictly between -timedelta(hours=24) and timedelta(hours=24), not "
      ++ spanText minutes ++ "."

/-! ## Reading -/

namespace Timestamp

/-- The number at the front of a text, if it has at least `least` and at most `most` digits,
and what stands behind it. -/
def number? (least most : Nat) (cs : List Char) : Option (Nat × List Char) :=
  let run := cs.takeWhile Char.isDigit
  if least ≤ run.length && run.length ≤ most then
    (Text.digitValues? run).map fun digits => (Text.ofDigits digits, cs.dropWhile Char.isDigit)
  else none

/-- What stands behind a mark at the front of a text. -/
def behind? (mark : Char) : List Char → Option (List Char)
  | c :: cs => if c = mark then some cs else none
  | [] => none

/-- A text without the blanks at its front. -/
def afterBlanks (cs : List Char) : List Char := cs.dropWhile fun c => c = ' ' || c = '\t'

/-- The distance from universal time that a text is, if it is one: nothing, the letter `Z`,
or a sign and hours, with or without minutes. -/
def readOffset? (cs : List Char) : Option (Option Int) :=
  match afterBlanks cs with
  | [] => if cs.isEmpty then some none else none
  | ['Z'] => some (some 0)
  | sign :: body =>
    if sign = '+' || sign = '-' then do
      let (hours, rest) ← number? 1 2 body
      let (minutes, rest) ←
        if rest.isEmpty then some (0, []) else (behind? ':' rest).bind (number? 2 2)
      let total : Int := 60 * hours + minutes
      if rest.isEmpty then some (some (if sign = '-' then -total else total)) else none
    else none

/-- What stands behind the mark between a day and a time: a letter, or blanks. -/
def afterMark? (cs : List Char) : Option (List Char) :=
  match cs with
  | 'T' :: rest => some rest
  | 't' :: rest => some rest
  | _ => if (afterBlanks cs).length < cs.length then some (afterBlanks cs) else none

/-- The time that a text is. -/
def readClock? (cs : List Char) : Option Clock := do
  let (hour, rest) ← number? 1 2 cs
  let (minute, rest) ← number? 2 2 (← behind? ':' rest)
  let (second, rest) ← number? 2 2 (← behind? ':' rest)
  let rest := ((behind? '.' rest).map (·.dropWhile Char.isDigit)).getD rest
  return ⟨hour, minute, second, ← readOffset? rest⟩

/-- The day and time that a text is. -/
def ofChars? (cs : List Char) : Option Timestamp := do
  let (year, rest) ← number? 4 4 cs
  let (month, rest) ← number? 1 2 (← behind? '-' rest)
  let (day, rest) ← number? 1 2 (← behind? '-' rest)
  if rest.isEmpty then some ⟨year, month, day, none⟩
  else return ⟨year, month, day, some (← readClock? (← afterMark? rest))⟩

/-- Whether a text is a timestamp on its own account. A day without a time has to be
written with all its digits. -/
def isPlain (cs : List Char) : Bool :=
  match ofChars? cs with
  | some t => t.clock?.isSome || cs.length = 10
  | none => false

/-! ## The calendar -/

def isLeapYear (year : Nat) : Bool :=
  year % 4 = 0 && (year % 100 ≠ 0 || year % 400 = 0)

def daysIn (year month : Nat) : Nat :=
  if month = 2 then if isLeapYear year then 29 else 28
  else if month ∈ [4, 6, 9, 11] then 30
  else 31

/-- Whether a distance is less than a day. -/
def offsetFault? (c : Clock) : Option CalendarFault :=
  match c.offset? with
  | some minutes => if minutesPerDay ≤ minutes.natAbs then some (.offset minutes) else none
  | none => none

def dayFault? (t : Timestamp) : Option CalendarFault :=
  if t.year = 0 then some (.year t.year)
  else if t.month = 0 || 12 < t.month then some .month
  else if t.day = 0 || daysIn t.year t.month < t.day then some .day
  else none

def clockFault? (c : Clock) : Option CalendarFault :=
  if 23 < c.hour then some .hour
  else if 59 < c.minute then some .minute
  else if 59 < c.second then some .second
  else none

/-- The first fault of a timestamp. -/
def fault? (t : Timestamp) : Option CalendarFault :=
  ((t.clock?.bind offsetFault?).or t.dayFault?).or (t.clock?.bind clockFault?)

end Timestamp

end PushFitness.Yaml
