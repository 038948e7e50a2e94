import EntityQuery.Calendar.Date

/-!
# Instants

A point in time as a day and a time of day in UTC, to the nanosecond. A leap second is the second
after the last one of its minute, and is written as second 60.
-/

namespace EntityQuery

/-- A time of day: whole seconds since midnight and nanoseconds. With `leap` set the time is one
second later, within the leap second that follows. -/
structure TimeOfDay where
  second : Nat
  nano : Nat
  leap : Bool
  second_lt : second < 86400
  nano_lt : nano < 1000000000
  leap_last : leap = true → second % 60 = 59
deriving DecidableEq

structure Instant where
  date : Date
  time : TimeOfDay
deriving DecidableEq

namespace TimeOfDay

def midnight : TimeOfDay :=
  ⟨0, 0, false, by decide, by decide, by decide⟩

/-- The time with these numbers, if there is one. Second 60 is the leap second. -/
def ofNumbers? (hour minute second nano : Nat) : Option TimeOfDay :=
  if h : hour < 24 ∧ minute < 60 ∧ second ≤ 60 ∧ nano < 1000000000 then
    if hs : second = 60 then
      some ⟨hour * 3600 + minute * 60 + 59, nano, true, by omega, h.2.2.2, by intro; omega⟩
    else
      some ⟨hour * 3600 + minute * 60 + second, nano, false, by omega, h.2.2.2, by simp⟩
  else
    none

/-- Nanoseconds as a fraction of 0, 3, 6 or 9 digits, whichever is the first to be exact. -/
def fraction (nano : Nat) : List Char :=
  if nano = 0 then []
  else if nano % 1000000 = 0 then '.' :: Text.padded 3 (nano / 1000000)
  else if nano % 1000 = 0 then '.' :: Text.padded 6 (nano / 1000)
  else '.' :: Text.padded 9 nano

def toText (t : TimeOfDay) : List Char :=
  let second := t.second % 60 + if t.leap then 1 else 0
  Text.padded 2 (t.second / 3600) ++ ':' :: Text.padded 2 (t.second / 60 % 60) ++
    ':' :: Text.padded 2 second ++ fraction t.nano

/-- The second of the day `minutes` earlier. -/
def back (t : TimeOfDay) (minutes : Int) : Nat :=
  (((t.second : Int) - minutes * 60) % 86400).toNat

theorem back_lt (t : TimeOfDay) (minutes : Int) : back t minutes < 86400 := by
  unfold back
  omega

theorem back_mod (t : TimeOfDay) (minutes : Int) :
    back t minutes % 60 = t.second % 60 := by
  unfold back
  omega

end TimeOfDay

namespace Instant

def ofDate (d : Date) : Instant :=
  ⟨d, .midnight⟩

/-- The instant at which clocks `minutes` ahead of UTC show this date and time. An offset is less
than a day, so the day moves by one at most. -/
def ofLocal (date : Date) (time : TimeOfDay) (minutes : Int) : Instant :=
  let second := (time.second : Int) - minutes * 60
  { date := if second < 0 then date.previous else if 86400 ≤ second then date.next else date
    time :=
      { second := TimeOfDay.back time minutes
        nano := time.nano
        leap := time.leap
        second_lt := TimeOfDay.back_lt time minutes
        nano_lt := time.nano_lt
        leap_last := fun h => by rw [TimeOfDay.back_mod]; exact time.leap_last h } }

/-- The instant in UTC, as date, `T`, time and `Z`. -/
def toText (i : Instant) : String :=
  String.ofList (i.date.toText ++ 'T' :: i.time.toText ++ ['Z'])

end Instant

end EntityQuery
