import EntityQuery.Calendar.Instant

/-!
# Reading timestamps

A timestamp is a date, `T` or a blank, a time with an optional fraction of a second, and the offset
of the local clock from UTC: `2024-01-02T03:04:05.5+01:00`.
-/

namespace EntityQuery.Timestamp

/-- Exactly `width` digits, and what follows them. -/
def readFixed? (width : Nat) (cs : List Char) : Option (Nat × List Char) :=
  let ds := cs.take width
  if ds.length = width && ds.all Char.isDigit then some (Text.ofDecimal ds, cs.drop width) else none

/-- The text that follows one of the given characters. -/
def after? (marks : List Char) : List Char → Option (List Char)
  | c :: rest => if c ∈ marks then some rest else none
  | [] => none

/-- A fraction of a second in nanoseconds. Digits after the ninth are read and dropped. -/
def readFraction? : List Char → Option (Nat × List Char)
  | '.' :: rest =>
    let (ds, r) := Text.spanDigits rest
    if ds = [] then none
    else
      let kept := ds.take 9
      some (Text.ofDecimal kept * Nat.pow 10 (9 - kept.length), r)
  | cs => some (0, cs)

/-- Hours and minutes of an offset, as minutes. -/
def readOffsetMinutes? (cs : List Char) : Option (Nat × List Char) := do
  let (hours, r) ← readFixed? 2 cs
  let (minutes, r) ← readFixed? 2 (← after? [':'] r)
  if hours < 24 && minutes < 60 then some (hours * 60 + minutes, r) else none

/-- The offset from UTC in minutes. The minus sign may be the mathematical one. -/
def readOffset? : List Char → Option (Int × List Char)
  | 'Z' :: rest | 'z' :: rest => some (0, rest)
  | '+' :: rest => (readOffsetMinutes? rest).map fun (n, r) => ((n : Int), r)
  | '-' :: rest | '\u2212' :: rest => (readOffsetMinutes? rest).map fun (n, r) => (-(n : Int), r)
  | _ => none

def readDate? (cs : List Char) : Option (Date × List Char) := do
  let (year, r) ← readFixed? 4 cs
  let (month, r) ← readFixed? 2 (← after? ['-'] r)
  let (day, r) ← readFixed? 2 (← after? ['-'] r)
  return (← Date.ofNumbers? year month day, r)

def readTime? (cs : List Char) : Option (TimeOfDay × List Char) := do
  let (hour, r) ← readFixed? 2 cs
  let (minute, r) ← readFixed? 2 (← after? [':'] r)
  let (second, r) ← readFixed? 2 (← after? [':'] r)
  let (nano, r) ← readFraction? r
  return (← TimeOfDay.ofNumbers? hour minute second nano, r)

def read? (s : String) : Option Instant := do
  let (date, r) ← readDate? s.toList
  let (time, r) ← readTime? (← after? ['T', 't', ' '] r)
  let (offset, r) ← readOffset? r
  if r = [] then some (.ofLocal date time offset) else none

end EntityQuery.Timestamp
