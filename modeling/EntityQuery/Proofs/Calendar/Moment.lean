import Mathlib.Data.Rat.Floor
import Mathlib.Tactic.FieldSimp
import Mathlib.Tactic.NormNum
import EntityQuery.Calendar.Instant
import EntityQuery.Proofs.Calendar.DayNumber

/-!
# Moments

A moment is a point in time without a calendar: the minutes of UTC that have passed, and the
seconds since the last of them. Instants of different date or time are different moments, and the
offset of a local clock is taken off its minutes.
-/

namespace EntityQuery

/-- Leap seconds belong to the minute that they end, so a minute may have more than 60 seconds, and
seconds are counted in their minute. -/
@[ext]
structure Moment where
  minute : ℤ
  second : ℚ

/-- What is left of a moment if nothing below a nanosecond is kept. -/
def Moment.truncated (m : Moment) : Moment :=
  ⟨m.minute, ⌊m.second * 10 ^ 9⌋ / 10 ^ 9⟩

namespace TimeOfDay

/-- The seconds since the last full minute, 60 in a leap second. -/
def secondOfMinute (t : TimeOfDay) : ℕ :=
  t.second % 60 + if t.leap then 1 else 0

theorem secondOfMinute_le (t : TimeOfDay) : t.secondOfMinute ≤ 60 := by
  unfold secondOfMinute
  split <;> omega

/-- Only a leap second is second 60 of its minute. -/
theorem leap_iff (t : TimeOfDay) : t.leap = true ↔ t.secondOfMinute = 60 := by
  unfold secondOfMinute
  cases h : t.leap with
  | false =>
    simp only [Bool.false_eq_true, if_false, false_iff]
    omega
  | true => simp [t.leap_last h]

theorem ext_numbers {t u : TimeOfDay} (hminute : t.second / 60 = u.second / 60)
    (hsecond : t.secondOfMinute = u.secondOfMinute) (hnano : t.nano = u.nano) : t = u := by
  have hleap : t.leap = u.leap := by
    rw [Bool.eq_iff_iff, leap_iff, leap_iff, hsecond]
  have hwhole : t.second = u.second := by
    rw [secondOfMinute, secondOfMinute, hleap] at hsecond
    omega
  cases t
  cases u
  cases hleap
  cases hwhole
  cases hnano
  rfl

end TimeOfDay

namespace Instant

def moment (i : Instant) : Moment where
  minute := i.date.number * 1440 + i.time.second / 60
  second := i.time.secondOfMinute + i.time.nano / 10 ^ 9

/-- Seconds and nanoseconds can be told apart. -/
theorem seconds_inj {a b n k : ℕ} (hn : n < 10 ^ 9) (hk : k < 10 ^ 9)
    (h : (a + n / 10 ^ 9 : ℚ) = b + k / 10 ^ 9) : a = b ∧ n = k := by
  have hnat : a * 10 ^ 9 + n = 10 ^ 9 * b + k := by
    field_simp at h
    exact_mod_cast h
  omega

theorem moment_injective : Function.Injective moment := by
  intro i j h
  have hminute : i.date.number * 1440 + i.time.second / 60 =
      j.date.number * 1440 + j.time.second / 60 :=
    congrArg Moment.minute h
  obtain ⟨hsecond, hnano⟩ := seconds_inj i.time.nano_lt j.time.nano_lt (congrArg Moment.second h)
  have hi := i.time.second_lt
  have hj := j.time.second_lt
  have hdate : i.date = j.date := Date.number_injective (by omega)
  have htime : i.time = j.time := by
    rw [hdate] at hminute
    exact TimeOfDay.ext_numbers (by omega) hsecond hnano
  cases i
  cases j
  cases hdate
  cases htime
  rfl

/-- An instant is told to the nanosecond. -/
theorem truncated_moment (i : Instant) : i.moment.truncated = i.moment := by
  have hwhole : i.moment.second * 10 ^ 9 =
      ((i.time.secondOfMinute * 10 ^ 9 + i.time.nano : ℕ) : ℚ) := by
    simp only [moment]
    push_cast
    ring
  rw [Moment.truncated, hwhole, Int.floor_natCast, Int.cast_natCast, ← hwhole]
  ext
  · rfl
  · simp

/-! ## Local clocks -/

theorem number_date_ofLocal (date : Date) (time : TimeOfDay) {offset : ℤ}
    (hlt : -1440 < offset) (hgt : offset < 1440) :
    (ofLocal date time offset).date.number =
      date.number + (time.second - offset * 60) / 86400 := by
  have hsecond := time.second_lt
  unfold ofLocal
  dsimp only
  split
  · rw [Date.number_previous]
    omega
  · split
    · rw [Date.number_next]
      omega
    · omega

/-- The year moves by one at most. -/
theorem year_date_ofLocal (date : Date) (time : TimeOfDay) (offset : ℤ) :
    date.year - 1 ≤ (ofLocal date time offset).date.year ∧
      (ofLocal date time offset).date.year ≤ date.year + 1 := by
  have hprevious := date.previous_cases
  have hnext := date.next_cases
  unfold ofLocal
  dsimp only
  split
  · omega
  · split <;> omega

theorem secondOfMinute_time_ofLocal (date : Date) (time : TimeOfDay) (offset : ℤ) :
    (ofLocal date time offset).time.secondOfMinute = time.secondOfMinute :=
  congrArg (· + _) (TimeOfDay.back_mod time offset)

/-- The offset is taken off the minutes, and the seconds stay. -/
theorem moment_ofLocal (date : Date) (time : TimeOfDay) {offset : ℤ}
    (hlt : -1440 < offset) (hgt : offset < 1440) :
    (ofLocal date time offset).moment =
      ⟨date.number * 1440 + time.second / 60 - offset,
        time.secondOfMinute + time.nano / 10 ^ 9⟩ := by
  have hback : (ofLocal date time offset).time.second =
      ((time.second - offset * 60) % 86400 : ℤ).toNat := rfl
  rw [moment, number_date_ofLocal date time hlt hgt, secondOfMinute_time_ofLocal, hback]
  ext
  · dsimp only
    omega
  · rfl

theorem ofLocal_zero (i : Instant) : ofLocal i.date i.time 0 = i := by
  apply moment_injective
  rw [moment_ofLocal _ _ (by decide) (by decide), sub_zero]
  rfl

end Instant

end EntityQuery
