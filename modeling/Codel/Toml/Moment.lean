import Codel.Text.Quoted
import Codel.Toml.Reader

namespace Codel.Toml

/-- Where a moment's clock stands. -/
inductive Zone where
  | utc
  /-- An offset that is the machine's own. -/
  | machine
  | offset (minutes : Int)
  /-- No place at all, named for the part of a date and time that was given. -/
  | floating (name : String)
deriving DecidableEq, Repr

/-- A point in time as a calendar and a clock show it. The machine's own offset is taken to be zero. -/
structure Moment where
  year : Nat := 0
  month : Nat := 1
  day : Nat := 1
  hour : Nat := 0
  minute : Nat := 0
  second : Nat := 0
  nanosecond : Nat := 0
  zone : Zone
deriving DecidableEq, Repr

def isLeapYear (y : Nat) : Bool := y % 4 = 0 && (y % 100 ≠ 0 || y % 400 = 0)

def daysIn (y m : Nat) : Nat :=
  if m = 2 then if isLeapYear y then 29 else 28
  else if m = 4 ∨ m = 6 ∨ m = 9 ∨ m = 11 then 30
  else 31

def readDate : Reader (Nat × Nat × Nat) := fun cs => do
  let (y, cs) ← fixedNumber 4 cs
  let (_, cs) ← expect '-' cs
  let (m, cs) ← fixedNumber 2 cs
  let (_, cs) ← expect '-' cs
  let (d, cs) ← fixedNumber 2 cs
  if 1 ≤ m ∧ m ≤ 12 ∧ 1 ≤ d ∧ d ≤ daysIn y m then some ((y, m, d), cs) else none

/-- Reads a fraction of a second if there is one, as nanoseconds; further digits are dropped. -/
def readFraction : Reader Nat
  | '.' :: cs =>
    let ds := cs.takeWhile Char.isDigit
    if ds = [] then none
    else
      let nine := (ds ++ List.replicate 9 '0').take 9
      some (Nat.ofDigitChars 10 nine 0, cs.dropWhile Char.isDigit)
  | cs => some (0, cs)

/-- Reads hours and minutes, and seconds with a fraction if they are there. -/
def readClock : Reader (Nat × Nat × Nat × Nat) := fun cs => do
  let (h, cs) ← fixedNumber 2 cs
  let (_, cs) ← expect ':' cs
  let (m, cs) ← fixedNumber 2 cs
  if 24 ≤ h ∨ 60 ≤ m then none
  else
    match cs with
    | ':' :: cs =>
      let (s, cs) ← fixedNumber 2 cs
      let (f, cs) ← readFraction cs
      if 60 ≤ s then none else some ((h, m, s, f), cs)
    | cs => some ((h, m, 0, 0), cs)

/-- Reads the offset of a clock; at the end of the text there is none. -/
def readZone : Reader Zone
  | [] => some (.floating "datetime-local", [])
  | 'Z' :: cs => some (.utc, cs)
  | c :: cs => do
    let (h, cs) ← fixedNumber 2 cs
    let (_, cs) ← expect ':' cs
    let (m, cs) ← fixedNumber 2 cs
    if 24 < h ∨ 60 < m ∨ (c ≠ '+' ∧ c ≠ '-') then none
    else
      let minutes : Int := 60 * h + m
      some (if minutes = 0 then .machine else .offset (if c = '-' then -minutes else minutes), cs)

/-- The upper-case letter that a mark between the parts stands for. -/
def normalMark (c : Char) : Char :=
  if c = 'z' then 'Z' else if c = 't' ∨ c = ' ' then 'T' else c

/-- A text that is a time of day and nothing else. -/
def Moment.ofClock? (cs : List Char) : Option Moment :=
  match readClock cs with
  | some ((h, m, s, f), []) =>
    some { hour := h, minute := m, second := s, nanosecond := f, zone := .floating "time-local" }
  | _ => none

/-- A text that is a date, alone or with a time of day. -/
def Moment.ofDate? (cs : List Char) : Option Moment := do
  let ((y, mo, d), cs) ← readDate cs
  match cs with
  | [] => some { year := y, month := mo, day := d, zone := .floating "date-local" }
  | _ =>
    let (_, cs) ← expect 'T' cs
    let ((h, m, s, f), cs) ← readClock cs
    let (zone, cs) ← readZone cs
    if cs = [] then
      some { year := y, month := mo, day := d, hour := h, minute := m, second := s,
             nanosecond := f, zone := zone }
    else none

/-- Reads a whole text as a date, a time of day or both. -/
def Moment.read? (cs : List Char) : Option Moment :=
  let cs := cs.map normalMark
  (Moment.ofDate? cs).or (Moment.ofClock? cs)

/-- Decimal digits, padded with zeros on the left to `width`. -/
def padded (width n : Nat) : List Char :=
  let ds := Nat.toDigits 10 n
  List.replicate (width - ds.length) '0' ++ ds

/-- The fraction of a second without zeros at its end. -/
def Moment.fraction (t : Moment) : List Char :=
  if t.nanosecond = 0 then []
  else '.' :: ((padded 9 t.nanosecond).reverse.dropWhile (· = '0')).reverse

/-- An offset as sign, hours and minutes. -/
def offsetText (minutes : Int) : List Char :=
  (if minutes < 0 then '-' else '+') ::
    padded 2 (minutes.natAbs / 60) ++ padded 2 (minutes.natAbs % 60)

/-- The offset and the name of a zone. -/
def Zone.text : Zone → List Char
  | utc => "+0000 UTC".toList
  | machine => "+0000 UTC".toList
  | offset m => offsetText m ++ ' ' :: offsetText m
  | floating name => "+0000 ".toList ++ name.toList

/-- A moment for reading: date, time, offset, zone. -/
def Moment.text (t : Moment) : String :=
  String.ofList (padded 4 t.year ++ '-' :: padded 2 t.month ++ '-' :: padded 2 t.day ++
    ' ' :: padded 2 t.hour ++ ':' :: padded 2 t.minute ++ ':' :: padded 2 t.second ++
    t.fraction ++ ' ' :: t.zone.text)

def monthNames : List String :=
  ["January", "February", "March", "April", "May", "June", "July", "August", "September",
    "October", "November", "December"]

/-- A zone in the literal form of a moment. -/
def Zone.literal : Zone → String
  | utc => "time.UTC"
  | machine => "time.Local"
  | offset _ => "time.Location(\"\")"
  | floating name => "time.Location(" ++ quoted name ++ ")"

/-- A moment in the literal form that messages show. -/
def Moment.literal (t : Moment) : String :=
  "time.Date(" ++ ", ".intercalate
    [decimalText t.year, "time." ++ monthNames.getD (t.month - 1) "", decimalText t.day,
      decimalText t.hour, decimalText t.minute, decimalText t.second, decimalText t.nanosecond,
      t.zone.literal] ++ ")"

end Codel.Toml
