import EntityQuery.Text.Blank
import EntityQuery.Text.Numeral

/-!
# Days of the calendar

Days of the proleptic Gregorian calendar, in which the leap rule holds for all years, years before
the year 0 included.
-/

namespace EntityQuery

namespace Date

/-- A year divisible by four, but of the full centuries only each fourth. -/
def isLeap (year : Int) : Bool :=
  year % 4 == 0 && (year % 100 != 0 || year % 400 == 0)

/-- The number of days of a month; a month that does not exist has none. -/
def daysIn (year : Int) (month : Nat) : Nat :=
  match month with
  | 1 | 3 | 5 | 7 | 8 | 10 | 12 => 31
  | 4 | 6 | 9 | 11 => 30
  | 2 => if isLeap year then 29 else 28
  | _ => 0

end Date

structure Date where
  year : Int
  month : Nat
  day : Nat
  day_pos : 1 ≤ day
  day_le : day ≤ Date.daysIn year month
deriving DecidableEq

namespace Date

/-- The day with these numbers, if there is one. -/
def ofNumbers? (year : Int) (month day : Nat) : Option Date :=
  if h : 1 ≤ day ∧ day ≤ daysIn year month then some ⟨year, month, day, h.1, h.2⟩ else none

theorem daysIn_january (year : Int) : 1 ≤ daysIn year 1 := by
  simp [daysIn]

def newYear (year : Int) : Date :=
  ⟨year, 1, 1, by decide, daysIn_january year⟩

def yearEnd (year : Int) : Date :=
  ⟨year, 12, 31, by decide, by simp [daysIn]⟩

def next (d : Date) : Date :=
  -- Month 13 has no days, so the first of it is the next new year.
  (ofNumbers? d.year d.month (d.day + 1) <|> ofNumbers? d.year (d.month + 1) 1).getD
    (newYear (d.year + 1))

def previous (d : Date) : Date :=
  (ofNumbers? d.year d.month (d.day - 1) <|>
      ofNumbers? d.year (d.month - 1) (daysIn d.year (d.month - 1))).getD
    (yearEnd (d.year - 1))

/-! ## Writing -/

/-- A year of four digits. Outside 0 to 9999 it has a sign and at least four digits. -/
def yearText (year : Int) : List Char :=
  if 0 ≤ year ∧ year ≤ 9999 then Text.padded 4 year.natAbs
  else (if year < 0 then '-' else '+') :: Text.padded 4 year.natAbs

def toText (d : Date) : List Char :=
  yearText d.year ++ '-' :: Text.padded 2 d.month ++ '-' :: Text.padded 2 d.day

/-! ## Reading -/

/-- At least one and at most `width` digits, and what follows them. -/
def readNumber? (width : Nat) (cs : List Char) : Option (Nat × List Char) :=
  let ds := (cs.take width).takeWhile Char.isDigit
  if ds = [] then none else some (Text.ofDecimal ds, cs.drop ds.length)

/-- A year: up to four digits, or any number of them behind a sign. -/
def readYear? (cs : List Char) : Option (Int × List Char) :=
  match cs with
  | '-' :: rest => (readNumber? rest.length rest).map fun (n, r) => (-(n : Int), r)
  | '+' :: rest => (readNumber? rest.length rest).map fun (n, r) => ((n : Int), r)
  | _ => (readNumber? 4 cs).map fun (n, r) => ((n : Int), r)

def afterHyphen? : List Char → Option (List Char)
  | '-' :: rest => some rest
  | _ => none

def yearInRange (year : Int) : Bool :=
  -262143 ≤ year && year ≤ 262142

/-- Read year, month and day. Blanks may stand before each number, and a hyphen must directly
follow year and month. -/
def ofText? (s : String) : Option Date := do
  let (year, afterYear) ← readYear? (Text.dropBlanks s.toList)
  let (month, afterMonth) ← readNumber? 2 (Text.dropBlanks (← afterHyphen? afterYear))
  let (day, rest) ← readNumber? 2 (Text.dropBlanks (← afterHyphen? afterMonth))
  if rest = [] && yearInRange year then ofNumbers? year month day else none

end Date

end EntityQuery
