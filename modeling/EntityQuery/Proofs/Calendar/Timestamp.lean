import Mathlib.Data.List.TakeWhile
import EntityQuery.Calendar.Timestamp
import EntityQuery.Proofs.Calendar.DayNumber
import EntityQuery.Proofs.Text.Numeral

/-!
# What timestamps say

A timestamp is told by its parts: the date and the time that a local clock shows, and how far the
clock is ahead of UTC. Main statement: exactly the texts that spell some parts are read.
-/

namespace EntityQuery

namespace Timestamp

/-! ## Parts -/

/-- A time of day as a clock shows it, with any number of digits behind the second. -/
structure Clock where
  hour : ℕ
  minute : ℕ
  second : ℕ
  fraction : List Char
  hour_lt : hour < 24
  minute_lt : minute < 60
  second_le : second ≤ 60
  isDigit : ∀ d ∈ fraction, d.isDigit = true

/-- What a timestamp says. The offset is how many minutes the clock is ahead of UTC. -/
structure Parts where
  date : Date
  clock : Clock
  offset : ℤ
  year_nonneg : 0 ≤ date.year
  year_le : date.year ≤ 9999
  offset_gt : -1440 < offset
  offset_lt : offset < 1440

/-- Four digits for the year and two each for month and day, with hyphens between them. -/
def dateText (d : Date) : List Char :=
  Text.padded 4 d.year.natAbs ++ '-' :: Text.padded 2 d.month ++ '-' :: Text.padded 2 d.day

/-- The digits of a fraction behind a point, if there are any. -/
def fractionText (ds : List Char) : List Char :=
  if ds = [] then [] else '.' :: ds

def Clock.text (c : Clock) : List Char :=
  Text.padded 2 c.hour ++ ':' :: Text.padded 2 c.minute ++ ':' :: Text.padded 2 c.second ++
    fractionText c.fraction

/-- Hours and minutes of an offset, whatever its sign is. -/
def offsetDigits (offset : ℤ) : List Char :=
  Text.padded 2 (offset.natAbs / 60) ++ ':' :: Text.padded 2 (offset.natAbs % 60)

/-- How an offset is written. UTC has a letter, and an offset of nothing has either sign as well. -/
inductive SpellsOffset : ℤ → List Char → Prop
  | utc {letter : Char} (h : letter = 'Z' ∨ letter = 'z') : SpellsOffset 0 [letter]
  | ahead {offset : ℤ} (h : 0 ≤ offset) : SpellsOffset offset ('+' :: offsetDigits offset)
  | behind {offset : ℤ} {sign : Char} (hsign : sign = '-' ∨ sign = '\u2212') (h : offset ≤ 0) :
      SpellsOffset offset (sign :: offsetDigits offset)

/-- The text has the date and the time with a mark between them, and then the offset. -/
def Parts.Spells (p : Parts) (s : String) : Prop :=
  ∃ mark ∈ ['T', 't', ' '], ∃ zone, SpellsOffset p.offset zone ∧
    s.toList = dateText p.date ++ mark :: p.clock.text ++ zone

/-! ## Numbers of a fixed width -/

theorem readFixed?_eq_some_iff {width n : ℕ} (hwidth : 0 < width) {cs rest : List Char} :
    readFixed? width cs = some (n, rest) ↔ n < 10 ^ width ∧ cs = Text.padded width n ++ rest := by
  unfold readFixed?
  dsimp only
  constructor
  · intro h
    split at h
    · rename_i hdigits
      rw [Bool.and_eq_true, decide_eq_true_iff, List.all_eq_true] at hdigits
      obtain ⟨hlength, hdigits⟩ := hdigits
      cases h
      have hne : cs.take width ≠ [] := List.ne_nil_of_length_pos (by omega)
      -- A number of this width is told by its digits, with the zeros in front.
      have hpadded := Text.padded_ofDecimal ⟨hne, hdigits⟩
      rw [hlength] at hpadded
      refine ⟨?_, by rw [hpadded, List.take_append_drop]⟩
      simpa only [hlength] using Text.ofDecimal_lt hdigits
    · cases h
  · rintro ⟨hn, rfl⟩
    have hlength := Text.length_padded hwidth hn
    have htake : (Text.padded width n ++ rest).take width = Text.padded width n := by
      rw [List.take_append_of_le_length (by omega), List.take_of_length_le (by omega)]
    have hdrop : (Text.padded width n ++ rest).drop width = rest := by
      rw [List.drop_append_of_le_length (by omega), List.drop_of_length_le (by omega),
        List.nil_append]
    have hdigits := (Text.isDigits_padded width n).2
    rw [htake, hdrop, Text.ofDecimal_padded, if_pos]
    rw [Bool.and_eq_true, decide_eq_true_iff, List.all_eq_true]
    exact ⟨hlength, hdigits⟩

theorem after?_eq_some_iff {marks cs rest : List Char} :
    after? marks cs = some rest ↔ ∃ mark ∈ marks, cs = mark :: rest := by
  cases cs with
  | nil => simp [after?]
  | cons c cs =>
    unfold after?
    by_cases hc : c ∈ marks <;> simp_all

/-! ## Dates -/

/-- Years of four digits have no sign. -/
theorem toText_eq_dateText {d : Date} (hnonneg : 0 ≤ d.year) (hle : d.year ≤ 9999) :
    d.toText = dateText d := by
  rw [Date.toText, Date.yearText, if_pos ⟨hnonneg, hle⟩, dateText]

theorem readDate?_eq_some_iff {d : Date} {cs rest : List Char} :
    readDate? cs = some (d, rest) ↔ 0 ≤ d.year ∧ d.year ≤ 9999 ∧ cs = dateText d ++ rest := by
  simp only [readDate?, Option.bind_eq_bind, Option.bind_eq_some_iff, Prod.exists,
    readFixed?_eq_some_iff (by decide : 0 < 2), readFixed?_eq_some_iff (by decide : 0 < 4),
    after?_eq_some_iff, List.mem_singleton, exists_eq_left, pure, Option.some_inj, Prod.mk.injEq,
    Date.ofNumbers?_eq_some_iff]
  constructor
  · rintro ⟨y, _, ⟨hy, rfl⟩, _, rfl, m, _, ⟨-, rfl⟩, _, rfl, n, _, ⟨-, rfl⟩, e,
      ⟨hyear, rfl, rfl⟩, rfl, rfl⟩
    refine ⟨by omega, by omega, ?_⟩
    rw [dateText, hyear, Int.natAbs_natCast]
    simp
  · rintro ⟨hnonneg, hle, rfl⟩
    have hmonth := d.month_mem
    have hday := d.day_lt
    refine ⟨d.year.natAbs, _, ⟨by omega, ?_⟩, _, rfl, d.month, _, ⟨by omega, rfl⟩, _, rfl, d.day, _,
      ⟨by omega, rfl⟩, d, ⟨by omega, rfl, rfl⟩, rfl, rfl⟩
    simp only [dateText, List.append_assoc, List.cons_append]

/-! ## Times -/

namespace Clock

/-- The nanoseconds of the fraction; digits after the ninth are dropped. -/
def nano (c : Clock) : ℕ :=
  Text.ofDecimal (c.fraction.take 9) * 10 ^ (9 - (c.fraction.take 9).length)

theorem nano_lt (c : Clock) : c.nano < 10 ^ 9 := by
  have hlength : (c.fraction.take 9).length ≤ 9 := List.length_take_le _ _
  have hlt : Text.ofDecimal (c.fraction.take 9) < 10 ^ (c.fraction.take 9).length :=
    Text.ofDecimal_lt fun d hd => c.isDigit d (List.mem_of_mem_take hd)
  calc c.nano < 10 ^ (c.fraction.take 9).length * 10 ^ (9 - (c.fraction.take 9).length) :=
        Nat.mul_lt_mul_of_pos_right hlt (by positivity)
    _ = 10 ^ 9 := by rw [← pow_add, Nat.add_sub_cancel' hlength]

/-- The time that the clock shows. Second 60 is the leap second. -/
def time (c : Clock) : TimeOfDay where
  second := c.hour * 3600 + c.minute * 60 + min c.second 59
  nano := c.nano
  leap := c.second = 60
  second_lt := by
    have hhour := c.hour_lt
    have hminute := c.minute_lt
    omega
  nano_lt := c.nano_lt
  leap_last := by
    intro h
    have hleap := of_decide_eq_true h
    omega

theorem ofNumbers?_eq_time (c : Clock) :
    TimeOfDay.ofNumbers? c.hour c.minute c.second c.nano = some c.time := by
  have hnano := c.nano_lt
  rw [TimeOfDay.ofNumbers?, dif_pos ⟨c.hour_lt, c.minute_lt, c.second_le, hnano⟩]
  by_cases hleap : c.second = 60
  · rw [dif_pos hleap]
    simp [time, hleap]
  · have hle := c.second_le
    rw [dif_neg hleap]
    simp [time, hleap, show min c.second 59 = c.second by omega]

end Clock

theorem of_ofNumbers? {hour minute second nano : ℕ} {t : TimeOfDay}
    (h : TimeOfDay.ofNumbers? hour minute second nano = some t) :
    hour < 24 ∧ minute < 60 ∧ second ≤ 60 := by
  unfold TimeOfDay.ofNumbers? at h
  split at h
  · rename_i hbounds
    exact ⟨hbounds.1, hbounds.2.1, hbounds.2.2.1⟩
  · cases h

/-- The digits behind a point are read up to the first character that is none. -/
theorem readFraction?_append (c : Clock) {rest : List Char}
    (hrest : ∀ d ∈ rest.head?, d.isDigit = false ∧ d ≠ '.') :
    readFraction? (fractionText c.fraction ++ rest) = some (c.nano, rest) := by
  unfold fractionText
  by_cases hnil : c.fraction = []
  · rw [if_pos hnil, List.nil_append]
    have hnano : c.nano = 0 := by rw [Clock.nano, hnil]; rfl
    unfold readFraction?
    split
    · exact absurd rfl (hrest '.' rfl).2
    · rw [hnano]
  · rw [if_neg hnil, List.cons_append, readFraction?,
      Text.spanDigits_append c.isDigit fun d hd => (hrest d hd).1]
    dsimp only
    rw [if_neg hnil]
    rfl

theorem of_readFraction? {cs rest : List Char} {nano : ℕ}
    (h : readFraction? cs = some (nano, rest)) :
    ∃ ds, (∀ d ∈ ds, d.isDigit = true) ∧ cs = fractionText ds ++ rest ∧
      nano = Text.ofDecimal (ds.take 9) * 10 ^ (9 - (ds.take 9).length) := by
  unfold readFraction? at h
  split at h
  · rename_i cs
    dsimp only at h
    split at h
    · cases h
    · rename_i hne
      cases h
      refine ⟨(Text.spanDigits cs).1, fun d => List.mem_takeWhile_imp, ?_, rfl⟩
      rw [fractionText, if_neg hne, Text.spanDigits, List.cons_append,
        List.takeWhile_append_dropWhile]
  · cases h
    exact ⟨[], List.forall_mem_nil _, rfl, rfl⟩

theorem readTime?_eq_some_iff {t : TimeOfDay} {cs rest : List Char} :
    readTime? cs = some (t, rest) ↔ ∃ hour minute second nano fraction,
      hour < 100 ∧ minute < 100 ∧ second < 100 ∧
      cs = Text.padded 2 hour ++ ':' :: Text.padded 2 minute ++ ':' :: Text.padded 2 second ++
        fraction ∧
      readFraction? fraction = some (nano, rest) ∧
      TimeOfDay.ofNumbers? hour minute second nano = some t := by
  simp only [readTime?, Option.bind_eq_bind, Option.bind_eq_some_iff, Prod.exists,
    readFixed?_eq_some_iff (by decide : 0 < 2), after?_eq_some_iff, List.mem_singleton,
    exists_eq_left, pure, Option.some_inj, Prod.mk.injEq]
  constructor
  · rintro ⟨hour, _, ⟨hhour, rfl⟩, _, rfl, minute, _, ⟨hminute, rfl⟩, _, rfl, second, fraction,
      ⟨hsecond, rfl⟩, nano, _, hfraction, _, htime, rfl, rfl⟩
    exact ⟨hour, minute, second, nano, fraction, hhour, hminute, hsecond, by simp, hfraction, htime⟩
  · rintro ⟨hour, minute, second, nano, fraction, hhour, hminute, hsecond, rfl, hfraction, htime⟩
    refine ⟨hour, _, ⟨hhour, ?_⟩, _, rfl, minute, _, ⟨hminute, rfl⟩, _, rfl, second, fraction,
      ⟨hsecond, rfl⟩, nano, rest, hfraction, t, htime, rfl, rfl⟩
    simp only [List.append_assoc, List.cons_append]

theorem readTime?_append (c : Clock) {rest : List Char}
    (hrest : ∀ d ∈ rest.head?, d.isDigit = false ∧ d ≠ '.') :
    readTime? (c.text ++ rest) = some (c.time, rest) := by
  have hhour := c.hour_lt
  have hminute := c.minute_lt
  have hsecond := c.second_le
  refine readTime?_eq_some_iff.mpr ⟨c.hour, c.minute, c.second, c.nano, _, by omega, by omega,
    by omega, List.append_assoc _ _ _, readFraction?_append c hrest, c.ofNumbers?_eq_time⟩

theorem of_readTime? {t : TimeOfDay} {cs rest : List Char} (h : readTime? cs = some (t, rest)) :
    ∃ c : Clock, cs = c.text ++ rest ∧ t = c.time := by
  obtain ⟨hour, minute, second, nano, _, -, -, -, rfl, hfraction, htime⟩ :=
    readTime?_eq_some_iff.mp h
  obtain ⟨ds, hds, rfl, rfl⟩ := of_readFraction? hfraction
  obtain ⟨hhour, hminute, hsecond⟩ := of_ofNumbers? htime
  let c : Clock := ⟨hour, minute, second, ds, hhour, hminute, hsecond, hds⟩
  refine ⟨c, (List.append_assoc _ _ _).symm, ?_⟩
  exact Option.some_inj.mp (htime.symm.trans c.ofNumbers?_eq_time)

/-! ## Offsets -/

theorem readOffsetMinutes?_eq_some_iff {n : ℕ} {cs rest : List Char} :
    readOffsetMinutes? cs = some (n, rest) ↔ n < 1440 ∧
      cs = Text.padded 2 (n / 60) ++ ':' :: Text.padded 2 (n % 60) ++ rest := by
  simp only [readOffsetMinutes?, Option.bind_eq_bind, Option.bind_eq_some_iff, Prod.exists,
    readFixed?_eq_some_iff (by decide : 0 < 2), after?_eq_some_iff, List.mem_singleton,
    exists_eq_left]
  constructor
  · rintro ⟨hours, _, ⟨-, rfl⟩, _, rfl, minutes, _, ⟨-, rfl⟩, h⟩
    split at h
    · rename_i hbounds
      rw [Bool.and_eq_true, decide_eq_true_iff, decide_eq_true_iff] at hbounds
      cases h
      -- With less than sixty minutes, hours and minutes are quotient and rest.
      have hhours : (hours * 60 + minutes) / 60 = hours := by omega
      have hminutes : (hours * 60 + minutes) % 60 = minutes := by omega
      refine ⟨by omega, ?_⟩
      rw [hhours, hminutes]
      simp
    · cases h
  · rintro ⟨hn, rfl⟩
    refine ⟨n / 60, _, ⟨by omega, by simp only [List.append_assoc, List.cons_append]⟩, _, rfl,
      n % 60, rest, ⟨by omega, rfl⟩, ?_⟩
    rw [if_pos (by rw [Bool.and_eq_true, decide_eq_true_iff, decide_eq_true_iff]; omega)]
    congr
    omega

theorem SpellsOffset.readOffset? {offset : ℤ} {zone : List Char} (h : SpellsOffset offset zone)
    (hgt : -1440 < offset) (hlt : offset < 1440) (rest : List Char) :
    readOffset? (zone ++ rest) = some (offset, rest) := by
  have hminutes : readOffsetMinutes? (offsetDigits offset ++ rest) =
      some (offset.natAbs, rest) :=
    readOffsetMinutes?_eq_some_iff.mpr ⟨by omega, rfl⟩
  cases h with
  | utc h => rcases h with rfl | rfl <;> rfl
  | ahead h =>
    have hsigned : (offset.natAbs : ℤ) = offset := Int.natAbs_of_nonneg h
    rw [List.cons_append, Timestamp.readOffset?, hminutes]
    exact congrArg (fun n => some (n, rest)) hsigned
  | behind hsign h =>
    have hsigned : -(offset.natAbs : ℤ) = offset := by omega
    rcases hsign with rfl | rfl <;>
    · rw [List.cons_append, Timestamp.readOffset?, hminutes]
      exact congrArg (fun n => some (n, rest)) hsigned

/-- The number behind a sign is the offset or its opposite, and its digits are those of the
offset. -/
theorem of_map_readOffsetMinutes? (signed : ℕ → ℤ) (hsigned : ∀ n, (signed n).natAbs = n)
    {offset : ℤ} {cs rest : List Char}
    (h : (readOffsetMinutes? cs).map (fun (n, r) => (signed n, r)) = some (offset, rest)) :
    ∃ n < 1440, offset = signed n ∧ cs = offsetDigits offset ++ rest := by
  obtain ⟨⟨n, r⟩, hn, heq⟩ := Option.map_eq_some_iff.mp h
  obtain ⟨hlt, rfl⟩ := readOffsetMinutes?_eq_some_iff.mp hn
  cases heq
  refine ⟨n, hlt, rfl, ?_⟩
  rw [offsetDigits, hsigned]

theorem of_readOffset? {offset : ℤ} {cs rest : List Char}
    (h : readOffset? cs = some (offset, rest)) :
    -1440 < offset ∧ offset < 1440 ∧ ∃ zone, SpellsOffset offset zone ∧ cs = zone ++ rest := by
  unfold readOffset? at h
  split at h
  · cases h
    exact ⟨by decide, by decide, ['Z'], .utc (.inl rfl), rfl⟩
  · cases h
    exact ⟨by decide, by decide, ['z'], .utc (.inr rfl), rfl⟩
  · obtain ⟨n, hn, rfl, rfl⟩ := of_map_readOffsetMinutes? Nat.cast Int.natAbs_natCast h
    exact ⟨by omega, by omega, _, .ahead (by omega), rfl⟩
  · obtain ⟨n, hn, rfl, rfl⟩ := of_map_readOffsetMinutes? (fun n => -n) (fun n => by omega) h
    exact ⟨by omega, by omega, _, .behind (.inl rfl) (by omega), rfl⟩
  · obtain ⟨n, hn, rfl, rfl⟩ := of_map_readOffsetMinutes? (fun n => -n) (fun n => by omega) h
    exact ⟨by omega, by omega, _, .behind (.inr rfl) (by omega), rfl⟩
  · cases h

/-- No offset starts like more of the fraction before it. -/
theorem SpellsOffset.head? {offset : ℤ} {zone : List Char} (h : SpellsOffset offset zone) :
    ∀ d ∈ zone.head?, d.isDigit = false ∧ d ≠ '.' := by
  cases h with
  | utc h => rcases h with rfl | rfl <;> simp
  | ahead h => simp
  | behind hsign h => rcases hsign with rfl | rfl <;> simp

/-! ## Timestamps -/

def Parts.instant (p : Parts) : Instant :=
  .ofLocal p.date p.clock.time p.offset

/-- **Exactly the texts of parts are read.** -/
theorem read?_eq_some_iff {s : String} {i : Instant} :
    read? s = some i ↔ ∃ p : Parts, p.Spells s ∧ i = p.instant := by
  simp only [read?, Option.bind_eq_bind, Option.bind_eq_some_iff, Prod.exists,
    readDate?_eq_some_iff, after?_eq_some_iff]
  constructor
  · rintro ⟨date, _, ⟨hnonneg, hle, hs⟩, _, ⟨mark, hmark, rfl⟩, time, _, htime, offset, _, hoffset,
      h⟩
    obtain ⟨clock, rfl, rfl⟩ := of_readTime? htime
    obtain ⟨hgt, hlt, zone, hzone, rfl⟩ := of_readOffset? hoffset
    split at h
    · rename_i hend
      cases h
      -- The checks that reading has passed are the bounds that parts carry.
      let p : Parts := ⟨date, clock, offset, hnonneg, hle, hgt, hlt⟩
      refine ⟨p, ⟨mark, hmark, zone, hzone, ?_⟩, rfl⟩
      rw [hs, hend]
      simp [p]
    · cases h
  · rintro ⟨p, ⟨mark, hmark, zone, hzone, hs⟩, rfl⟩
    refine ⟨p.date, _, ⟨p.year_nonneg, p.year_le, ?_⟩, _, ⟨mark, hmark, rfl⟩, p.clock.time, zone,
      readTime?_append p.clock hzone.head?, p.offset, [], ?_, rfl⟩
    · rw [hs, List.append_assoc, List.cons_append]
    · simpa using hzone.readOffset? p.offset_gt p.offset_lt []

end Timestamp

end EntityQuery
