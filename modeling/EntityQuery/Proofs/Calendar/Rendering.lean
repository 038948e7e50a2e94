import Mathlib.Data.Rat.Floor
import EntityQuery.Condition.Operand
import EntityQuery.Document.Extended
import EntityQuery.Proofs.Calendar.Moment
import EntityQuery.Proofs.Calendar.Timestamp

/-!
# How timestamps are rendered

A timestamp is compared as an instant of UTC, and the instant is written as a timestamp again. Main
statement: in the years 0 to 9999 what is written is a timestamp in UTC of the same moment, to the
nanosecond, and reading it gives the instant back. The offset can carry a timestamp out of these
years, where no timestamp in UTC has its moment.
-/

namespace EntityQuery

namespace Timestamp

/-! ## Moments -/

/-- The moment at which the clock shows the parts, with all digits of the fraction. -/
def Parts.moment (p : Parts) : Moment where
  minute := p.date.number * 1440 + p.clock.hour * 60 + p.clock.minute - p.offset
  second := p.clock.second + Text.ofDecimal p.clock.fraction / 10 ^ p.clock.fraction.length

/-- The nanoseconds are the fraction rounded down. -/
theorem Clock.nano_eq (c : Clock) :
    c.nano = Text.ofDecimal c.fraction * 10 ^ 9 / 10 ^ c.fraction.length := by
  rw [nano, List.length_take]
  by_cases hlength : c.fraction.length ≤ 9
  · have hpow : 10 ^ 9 = 10 ^ (9 - c.fraction.length) * 10 ^ c.fraction.length := by
      rw [← pow_add, Nat.sub_add_cancel hlength]
    rw [List.take_of_length_le hlength, Nat.min_eq_right hlength, hpow, ← Nat.mul_assoc,
      Nat.mul_div_cancel _ (by positivity)]
  · -- The digits after the ninth are a remainder.
    have hrest : Text.ofDecimal (c.fraction.drop 9) < 10 ^ (c.fraction.drop 9).length :=
      Text.ofDecimal_lt fun d hd => c.isDigit d (List.mem_of_mem_drop hd)
    have hpow : 10 ^ c.fraction.length = 10 ^ (c.fraction.drop 9).length * 10 ^ 9 := by
      rw [← pow_add, List.length_drop, Nat.sub_add_cancel (by omega)]
    have hwhole := Text.ofDecimal_append (c.fraction.take 9) (c.fraction.drop 9)
    rw [List.take_append_drop] at hwhole
    rw [Nat.min_eq_left (by omega), Nat.sub_self, pow_zero, Nat.mul_one, hpow,
      Nat.mul_div_mul_right _ _ (by positivity), hwhole, Nat.add_comm,
      Nat.add_mul_div_right _ _ (by positivity), Nat.div_eq_of_lt hrest, Nat.zero_add]

theorem Clock.secondOfMinute_time (c : Clock) : c.time.secondOfMinute = c.second := by
  have hle := c.second_le
  have hmod : c.time.second % 60 = min c.second 59 := by
    show (c.hour * 3600 + c.minute * 60 + min c.second 59) % 60 = _
    omega
  have hleap : c.time.leap = decide (c.second = 60) := rfl
  rw [TimeOfDay.secondOfMinute, hmod, hleap]
  by_cases h : c.second = 60
  · rw [if_pos (decide_eq_true h)]
    omega
  · rw [if_neg (by simpa using h)]
    omega

theorem Parts.floor_moment_second (p : Parts) :
    ⌊p.moment.second * 10 ^ 9⌋ = p.clock.second * 10 ^ 9 + p.clock.nano := by
  have hsplit : p.moment.second * 10 ^ 9 = ((p.clock.second * 10 ^ 9 : ℤ) : ℚ) +
      ((Text.ofDecimal p.clock.fraction * 10 ^ 9 : ℕ) : ℚ) /
        ((10 ^ p.clock.fraction.length : ℕ) : ℚ) := by
    simp only [moment]
    push_cast
    ring
  rw [hsplit, Int.floor_intCast_add, Rat.floor_natCast_div_natCast, p.clock.nano_eq]
  rfl

/-- What is read is the moment of the parts, to the nanosecond. -/
theorem Parts.moment_instant (p : Parts) : p.instant.moment = p.moment.truncated := by
  have htime : p.clock.time.second / 60 = p.clock.hour * 60 + p.clock.minute := by
    show (p.clock.hour * 3600 + p.clock.minute * 60 + min p.clock.second 59) / 60 = _
    omega
  have hnano : p.clock.time.nano = p.clock.nano := rfl
  rw [instant, Instant.moment_ofLocal _ _ p.offset_gt p.offset_lt, Moment.truncated,
    p.floor_moment_second, p.clock.secondOfMinute_time, hnano]
  ext
  · simp only [moment]
    omega
  · push_cast
    ring

/-! ## Instants as parts -/

/-- The digits behind the second that are written for nanoseconds: 0, 3, 6 or 9 of them, whichever
is the first to be exact. -/
def fractionDigits (nano : ℕ) : List Char :=
  if nano = 0 then []
  else if nano % 1000000 = 0 then Text.padded 3 (nano / 1000000)
  else if nano % 1000 = 0 then Text.padded 6 (nano / 1000)
  else Text.padded 9 nano

theorem fractionText_fractionDigits (nano : ℕ) :
    fractionText (fractionDigits nano) = TimeOfDay.fraction nano := by
  have htext (width n : ℕ) : fractionText (Text.padded width n) = '.' :: Text.padded width n :=
    if_neg (Text.isDigits_padded width n).1
  unfold fractionDigits TimeOfDay.fraction
  split
  · rfl
  · split
    · exact htext 3 _
    · split
      · exact htext 6 _
      · exact htext 9 _

theorem isDigit_fractionDigits (nano : ℕ) : ∀ d ∈ fractionDigits nano, d.isDigit = true := by
  unfold fractionDigits
  split
  · exact List.forall_mem_nil _
  · split
    · exact (Text.isDigits_padded _ _).2
    · split <;> exact (Text.isDigits_padded _ _).2

/-- Nothing is lost by writing fewer digits. -/
theorem ofDecimal_fractionDigits {nano : ℕ} (h : nano < 10 ^ 9) :
    Text.ofDecimal (fractionDigits nano) * 10 ^ 9 = nano * 10 ^ (fractionDigits nano).length := by
  unfold fractionDigits
  split
  · simp_all [Text.ofDecimal]
  · split
    · rw [Text.ofDecimal_padded, Text.length_padded (by decide) (by omega)]
      omega
    · split
      · rw [Text.ofDecimal_padded, Text.length_padded (by decide) (by omega)]
        omega
      · rw [Text.ofDecimal_padded, Text.length_padded (by decide) h]

namespace Clock

/-- What a clock shows at a time of day. -/
def ofTime (t : TimeOfDay) : Clock where
  hour := t.second / 3600
  minute := t.second / 60 % 60
  second := t.secondOfMinute
  fraction := fractionDigits t.nano
  hour_lt := by
    have hlt := t.second_lt
    omega
  minute_lt := by omega
  second_le := t.secondOfMinute_le
  isDigit := isDigit_fractionDigits t.nano

theorem text_ofTime (t : TimeOfDay) : (ofTime t).text = t.toText := by
  rw [text, ofTime]
  dsimp only
  rw [fractionText_fractionDigits]
  rfl

theorem time_ofTime (t : TimeOfDay) : (ofTime t).time = t := by
  apply TimeOfDay.ext_numbers
  · have hle := t.secondOfMinute_le
    show (t.second / 3600 * 3600 + t.second / 60 % 60 * 60 + min t.secondOfMinute 59) / 60 = _
    omega
  · rw [secondOfMinute_time]
    rfl
  · show (ofTime t).nano = t.nano
    rw [nano_eq, ofTime, ofDecimal_fractionDigits t.nano_lt, Nat.mul_div_cancel _ (by positivity)]

end Clock

/-- The timestamp of the parts in UTC, with both of its letters capital. -/
def Parts.SpellsInUtc (p : Parts) (s : String) : Prop :=
  p.offset = 0 ∧ s.toList = dateText p.date ++ 'T' :: p.clock.text ++ ['Z']

theorem Parts.SpellsInUtc.spells {p : Parts} {s : String} (h : p.SpellsInUtc s) : p.Spells s :=
  ⟨'T', by decide, ['Z'], h.1 ▸ .utc (.inl rfl), h.2⟩

/-- The parts of an instant in UTC. -/
def Parts.ofInstant (i : Instant) (hnonneg : 0 ≤ i.date.year) (hle : i.date.year ≤ 9999) : Parts :=
  ⟨i.date, .ofTime i.time, 0, hnonneg, hle, by decide, by decide⟩

variable {i : Instant}

theorem spellsInUtc_toText (hnonneg : 0 ≤ i.date.year) (hle : i.date.year ≤ 9999) :
    (Parts.ofInstant i hnonneg hle).SpellsInUtc i.toText := by
  refine ⟨rfl, ?_⟩
  rw [Parts.ofInstant, Clock.text_ofTime, Instant.toText, String.toList_ofList,
    toText_eq_dateText hnonneg hle]

theorem instant_ofInstant (hnonneg : 0 ≤ i.date.year) (hle : i.date.year ≤ 9999) :
    (Parts.ofInstant i hnonneg hle).instant = i := by
  rw [Parts.instant, Parts.ofInstant, Clock.time_ofTime, Instant.ofLocal_zero]

theorem moment_ofInstant (hnonneg : 0 ≤ i.date.year) (hle : i.date.year ≤ 9999) :
    (Parts.ofInstant i hnonneg hle).moment = i.moment := by
  have hfraction : (Text.ofDecimal (fractionDigits i.time.nano) : ℚ) /
      10 ^ (fractionDigits i.time.nano).length = i.time.nano / 10 ^ 9 := by
    rw [div_eq_div_iff (by positivity) (by positivity)]
    exact_mod_cast ofDecimal_fractionDigits i.time.nano_lt
  ext
  · show i.date.number * 1440 + (i.time.second / 3600 : ℕ) * 60 + (i.time.second / 60 % 60 : ℕ) -
      0 = i.date.number * 1440 + i.time.second / 60
    omega
  · exact congrArg (_ + ·) hfraction

theorem read?_toText (hnonneg : 0 ≤ i.date.year) (hle : i.date.year ≤ 9999) :
    read? i.toText = some i :=
  read?_eq_some_iff.mpr
    ⟨_, (spellsInUtc_toText hnonneg hle).spells, (instant_ofInstant hnonneg hle).symm⟩

/-! ## Years outside 0 to 9999 -/

theorem Parts.year_instant (p : Parts)
    (h : ¬(0 ≤ p.instant.date.year ∧ p.instant.date.year ≤ 9999)) :
    p.instant.date.year = -1 ∨ p.instant.date.year = 10000 := by
  have hyear := Instant.year_date_ofLocal p.date p.clock.time p.offset
  have hnonneg := p.year_nonneg
  have hle := p.year_le
  unfold instant at h ⊢
  omega

theorem yearText_prefix_toText (i : Instant) :
    Date.yearText i.date.year ++ ['-'] <+: i.toText.toList := by
  rw [Instant.toText, String.toList_ofList, Date.toText]
  simp

/-- The text of any parts starts with a digit. -/
theorem Parts.Spells.exists_cons {p : Parts} {s : String} (h : p.Spells s) :
    ∃ c cs, s.toList = c :: cs ∧ c.isDigit = true := by
  obtain ⟨mark, -, zone, -, hs⟩ := h
  obtain ⟨hne, hdigits⟩ := Text.isDigits_padded 4 p.date.year.natAbs
  obtain ⟨c, cs, hcs⟩ := List.exists_cons_of_ne_nil hne
  rw [dateText, hcs] at hs
  exact ⟨c, _, hs, hdigits c (hcs ▸ List.mem_cons_self)⟩

/-- A year outside 0 to 9999 has a sign, so its text is none of a timestamp. -/
theorem not_spells_toText (h : ¬(0 ≤ i.date.year ∧ i.date.year ≤ 9999)) (p : Parts) :
    ¬p.Spells i.toText := by
  intro hp
  obtain ⟨c, cs, hcs, hdigit⟩ := hp.exists_cons
  rw [Instant.toText, String.toList_ofList, Date.toText, Date.yearText, if_neg h] at hcs
  obtain ⟨rfl, -⟩ := List.cons.inj hcs
  split at hdigit <;> revert hdigit <;> decide

theorem read?_toText_eq_none (h : ¬(0 ≤ i.date.year ∧ i.date.year ≤ 9999)) :
    read? i.toText = none := by
  rw [Option.eq_none_iff_forall_ne_some]
  intro j hj
  obtain ⟨p, hp, -⟩ := read?_eq_some_iff.mp hj
  exact not_spells_toText h p hp

/-- No timestamp in UTC has the moment of an instant outside its years. -/
theorem moment_ne_of_year (h : ¬(0 ≤ i.date.year ∧ i.date.year ≤ 9999)) {p : Parts}
    (hp : p.offset = 0) : p.moment ≠ i.moment := by
  intro heq
  have hmoment : p.instant.moment = i.moment := by
    rw [p.moment_instant, heq, i.truncated_moment]
  have hdate : p.instant.date = p.date := by
    rw [Parts.instant, hp]
    exact congrArg Instant.date (Instant.ofLocal_zero ⟨p.date, p.clock.time⟩)
  rw [← Instant.moment_injective hmoment, hdate] at h
  exact h ⟨p.year_nonneg, p.year_le⟩

end Timestamp

/-! ## Literals -/

theorem Node.operand_literal (l : Literal) (operator : String) :
    (Node.literal l).operand operator = l.toValue operator :=
  rfl

theorem Node.operand_of_read? {operator s : String} {i : Instant} (h : Timestamp.read? s = some i) :
    (Node.literal (.dateTime s)).operand operator = .ok (.instant i) := by
  rw [operand_literal, Literal.toValue, h]

theorem Node.operand_of_read?_eq_none {operator s : String} (h : Timestamp.read? s = none) :
    (Node.literal (.dateTime s)).operand operator =
      .error (.literal (.beside operator) .timestamp s) := by
  rw [operand_literal, Literal.toValue, h]

namespace Timestamp

theorem exists_operand_iff {operator s : String} :
    (∃ v, (Node.literal (.dateTime s)).operand operator = .ok v) ↔ ∃ p : Parts, p.Spells s := by
  constructor
  · rintro ⟨v, hv⟩
    cases hread : read? s with
    | none => rw [Node.operand_of_read?_eq_none hread] at hv; cases hv
    | some i =>
      obtain ⟨p, hp, -⟩ := read?_eq_some_iff.mp hread
      exact ⟨p, hp⟩
  · rintro ⟨p, hp⟩
    exact ⟨_, Node.operand_of_read? (read?_eq_some_iff.mpr ⟨p, hp, rfl⟩)⟩

/-- **A timestamp is rendered as the moment that it says.** A literal is compared as an instant
exactly if its text spells parts, and the instant is the moment of the parts, with no digit after
the nanoseconds. In the years 0 to 9999 of UTC the text under `$date` is a timestamp in UTC of
this moment, and as a literal it is compared as the same instant. The offset can carry it to the
year -1 or 10000. Then the year is written with a sign, no timestamp in UTC has the moment, and the
text is not accepted as a literal. -/
theorem operand_rendered (operator s : String) :
    ((∃ v, (Node.literal (.dateTime s)).operand operator = .ok v) ↔ ∃ p : Parts, p.Spells s) ∧
      ∀ p : Parts, p.Spells s → ∃ (i : Instant) (text : String),
        (Node.literal (.dateTime s)).operand operator = .ok (.instant i) ∧
        (Value.instant i).toJson = .object [("$date", .string text)] ∧
        i.moment = p.moment.truncated ∧
        (0 ≤ i.date.year ∧ i.date.year ≤ 9999 →
          (∃ u : Parts, u.SpellsInUtc text ∧ u.moment = p.moment.truncated) ∧
          (Node.literal (.dateTime text)).operand operator = .ok (.instant i)) ∧
        (¬(0 ≤ i.date.year ∧ i.date.year ≤ 9999) →
          (i.date.year = -1 ∧ "-0001-".toList <+: text.toList ∨
            i.date.year = 10000 ∧ "+10000-".toList <+: text.toList) ∧
          (∀ u : Parts, u.offset = 0 → u.moment ≠ p.moment.truncated) ∧
          (Node.literal (.dateTime text)).operand operator =
            .error (.literal (.beside operator) .timestamp text)) := by
  refine ⟨exists_operand_iff, fun p hp => ?_⟩
  have hmoment : p.instant.moment = p.moment.truncated := p.moment_instant
  refine ⟨p.instant, p.instant.toText,
    Node.operand_of_read? (read?_eq_some_iff.mpr ⟨p, hp, rfl⟩), rfl, hmoment, ?_, ?_⟩
  · rintro ⟨hnonneg, hle⟩
    exact ⟨⟨_, spellsInUtc_toText hnonneg hle, (moment_ofInstant hnonneg hle).trans hmoment⟩,
      Node.operand_of_read? (read?_toText hnonneg hle)⟩
  · intro hyear
    have htext := yearText_prefix_toText p.instant
    have hsigned : p.instant.date.year = -1 ∧ "-0001-".toList <+: p.instant.toText.toList ∨
        p.instant.date.year = 10000 ∧ "+10000-".toList <+: p.instant.toText.toList := by
      rcases p.year_instant hyear with hbefore | hafter
      · rw [hbefore] at htext
        exact Or.inl ⟨hbefore, htext⟩
      · rw [hafter] at htext
        exact Or.inr ⟨hafter, htext⟩
    exact ⟨hsigned, fun u hu => hmoment ▸ moment_ne_of_year hyear hu,
      Node.operand_of_read?_eq_none (read?_toText_eq_none hyear)⟩

/-- The first minute of the year 0, on a clock ahead of UTC, is rendered as no timestamp. -/
theorem operand_rendered_before_year_zero :
    ∃ i text, (Node.literal (.dateTime "0000-01-01T00:00:00+00:01")).operand "eq" =
        .ok (.instant i) ∧
      (Value.instant i).toJson = .object [("$date", .string text)] ∧
      text = "-0001-12-31T23:59:00Z" ∧ (∀ p : Parts, ¬p.Spells text) ∧
      (Node.literal (.dateTime text)).operand "eq" =
        .error (.literal (.beside "eq") .timestamp text) := by
  let i : Instant :=
    ⟨⟨-1, 12, 31, by decide, by decide⟩, ⟨86340, 0, false, by decide, by decide, by decide⟩⟩
  have hyear : ¬(0 ≤ i.date.year ∧ i.date.year ≤ 9999) := by decide
  exact ⟨i, i.toText, Node.operand_of_read? (by decide +kernel), rfl, by decide +kernel,
    not_spells_toText hyear, Node.operand_of_read?_eq_none (read?_toText_eq_none hyear)⟩

end Timestamp

end EntityQuery
