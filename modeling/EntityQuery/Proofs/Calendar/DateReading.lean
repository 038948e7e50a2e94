import Mathlib.Data.List.TakeWhile
import EntityQuery.Proofs.Calendar.Rendering

/-!
# Which texts are dates

A date should be four digits, two and two, with hyphens between them. Main statement: the texts
that are read are these and others besides, for zeros in front may be left out, blanks may stand
before each number, and a year may have a sign and then any number of digits. Whatever its text
is, a date is rendered as its first midnight, with all zeros.
-/

namespace EntityQuery

namespace Date

/-! ## Spellings -/

/-- Digits, at least one and no more than this, that spell the number. -/
def SpellsNumber (width n : ℕ) (ds : List Char) : Prop :=
  Text.IsDigits ds ∧ ds.length ≤ width ∧ Text.ofDecimal ds = n

/-- How a year is written. Only behind a sign it may have more than four digits. -/
inductive SpellsYear : ℤ → List Char → Prop
  | plain {n : ℕ} {ds : List Char} (h : SpellsNumber 4 n ds) : SpellsYear n ds
  | plus {n : ℕ} {ds : List Char} (h : SpellsNumber ds.length n ds) : SpellsYear n ('+' :: ds)
  | minus {n : ℕ} {ds : List Char} (h : SpellsNumber ds.length n ds) : SpellsYear (-n) ('-' :: ds)

/-- The text is of this form, but for blanks before it. -/
def BehindBlanks (form : List Char → Prop) (cs : List Char) : Prop :=
  ∃ blanks rest, (∀ c ∈ blanks, Text.isBlank c = true) ∧ form rest ∧ cs = blanks ++ rest

/-- The text spells the date, of a year that is within reach. -/
def Spells (d : Date) (s : String) : Prop :=
  yearInRange d.year = true ∧ ∃ year month day,
    BehindBlanks (SpellsYear d.year) year ∧ BehindBlanks (SpellsNumber 2 d.month) month ∧
    BehindBlanks (SpellsNumber 2 d.day) day ∧ s.toList = year ++ '-' :: month ++ '-' :: day

/-- The text is the date as it should be written: four digits, two and two, with hyphens between
them. -/
def IsFullDate (d : Date) (s : String) : Prop :=
  ∃ year month day, s.toList = year ++ '-' :: month ++ '-' :: day ∧
    year.length = 4 ∧ month.length = 2 ∧ day.length = 2 ∧
    (∀ c ∈ year ++ month ++ day, c.isDigit = true) ∧
    d.year = Text.ofDecimal year ∧ d.month = Text.ofDecimal month ∧ d.day = Text.ofDecimal day

/-! ## Numbers -/

section

variable {width n : ℕ} {year : ℤ} {cs ds rest : List Char}

theorem SpellsNumber.mono {width' : ℕ} (h : SpellsNumber width n ds) (hle : width ≤ width') :
    SpellsNumber width' n ds :=
  ⟨h.1, h.2.1.trans hle, h.2.2⟩

theorem spellsNumber_padded (hwidth : 0 < width) (hn : n < 10 ^ width) :
    SpellsNumber width n (Text.padded width n) :=
  ⟨Text.isDigits_padded width n, (Text.length_padded hwidth hn).le, Text.ofDecimal_padded width n⟩

theorem SpellsNumber.readNumber? (h : SpellsNumber width n ds)
    (hrest : ∀ c ∈ rest.head?, c.isDigit = false) :
    readNumber? width (ds ++ rest) = some (n, rest) := by
  obtain ⟨⟨hne, hdigits⟩, hlength, rfl⟩ := h
  have hstop : (rest.take (width - ds.length)).takeWhile Char.isDigit = [] := by
    cases rest with
    | nil => rw [List.take_nil, List.takeWhile_nil]
    | cons c rest =>
      cases width - ds.length with
      | zero => rw [List.take_zero, List.takeWhile_nil]
      | succ k => rw [List.take_succ_cons, List.takeWhile_cons, hrest c rfl, if_neg (by decide)]
  have htake : ((ds ++ rest).take width).takeWhile Char.isDigit = ds := by
    rw [List.take_append, List.take_of_length_le hlength, List.takeWhile_append_of_pos hdigits,
      hstop, List.append_nil]
  unfold Date.readNumber?
  dsimp only
  rw [htake, if_neg hne, List.drop_left]

theorem of_readNumber? (h : readNumber? width cs = some (n, rest)) :
    ∃ ds, SpellsNumber width n ds ∧ cs = ds ++ rest := by
  unfold readNumber? at h
  dsimp only at h
  split at h
  · cases h
  · rename_i hne
    cases h
    have hprefix : (cs.take width).takeWhile Char.isDigit <+: cs :=
      (List.takeWhile_prefix _).trans (List.take_prefix _ _)
    have hlength := (List.takeWhile_prefix (Char.isDigit) (l := cs.take width)).length_le
    rw [List.length_take] at hlength
    refine ⟨_, ⟨⟨hne, fun c => List.mem_takeWhile_imp⟩, by omega, rfl⟩, ?_⟩
    exact List.prefix_iff_eq_append.mp hprefix |>.symm

theorem SpellsYear.readYear? (h : SpellsYear year ds)
    (hrest : ∀ c ∈ rest.head?, c.isDigit = false) :
    readYear? (ds ++ rest) = some (year, rest) := by
  cases h with
  | plain h =>
    have hread := h.readNumber? hrest
    obtain ⟨⟨hne, hdigits⟩, -, -⟩ := h
    obtain ⟨c, cs, rfl⟩ := List.exists_cons_of_ne_nil hne
    -- The first character is a digit, so no sign is taken off.
    have hc := hdigits c List.mem_cons_self
    unfold Date.readYear?
    split
    · cases ‹_ = _›; cases hc
    · cases ‹_ = _›; cases hc
    · rw [hread]
      rfl
  | plus h =>
    rw [List.cons_append, Date.readYear?, (h.mono (by simp)).readNumber? hrest]
    rfl
  | minus h =>
    rw [List.cons_append, Date.readYear?, (h.mono (by simp)).readNumber? hrest]
    rfl

theorem of_readYear? (h : readYear? cs = some (year, rest)) :
    ∃ ds, SpellsYear year ds ∧ cs = ds ++ rest := by
  unfold readYear? at h
  split at h
  all_goals
    obtain ⟨⟨n, r⟩, hn, heq⟩ := Option.map_eq_some_iff.mp h
    obtain ⟨ds, hds, rfl⟩ := of_readNumber? hn
    cases heq
  · exact ⟨_, .minus ⟨hds.1, le_rfl, hds.2.2⟩, rfl⟩
  · exact ⟨_, .plus ⟨hds.1, le_rfl, hds.2.2⟩, rfl⟩
  · exact ⟨_, .plain hds, rfl⟩

/-! ## Blanks -/

theorem isBlank_of_isDigit {c : Char} (h : c.isDigit = true) : Text.isBlank c = false := by
  have hc := Text.isDigit_iff.mp h
  simp only [Text.isBlank, Text.inRanges, Text.blankRanges, List.any_cons, List.any_nil]
  simp
  omega

theorem SpellsNumber.exists_cons (h : SpellsNumber width n ds) :
    ∃ c cs, ds = c :: cs ∧ Text.isBlank c = false := by
  obtain ⟨c, cs, rfl⟩ := List.exists_cons_of_ne_nil h.1.1
  exact ⟨c, cs, rfl, isBlank_of_isDigit (h.1.2 c List.mem_cons_self)⟩

theorem SpellsYear.exists_cons (h : SpellsYear year ds) :
    ∃ c cs, ds = c :: cs ∧ Text.isBlank c = false := by
  cases h with
  | plain h => exact h.exists_cons
  | plus h => exact ⟨_, _, rfl, by decide⟩
  | minus h => exact ⟨_, _, rfl, by decide⟩

/-- The blanks are dropped, and nothing of what is behind them. -/
theorem dropBlanks_append {form : List Char → Prop}
    (hform : ∀ cs, form cs → ∃ c cs', cs = c :: cs' ∧ Text.isBlank c = false)
    (h : BehindBlanks form cs) (rest : List Char) :
    ∃ cs', form cs' ∧ Text.dropBlanks (cs ++ rest) = cs' ++ rest := by
  obtain ⟨blanks, cs', hblanks, hcs', rfl⟩ := h
  obtain ⟨c, cs'', rfl, hc⟩ := hform cs' hcs'
  refine ⟨_, hcs', ?_⟩
  rw [Text.dropBlanks, List.append_assoc, List.dropWhile_append_of_pos hblanks, List.cons_append,
    List.dropWhile_cons, hc, if_neg (by decide)]

theorem behindBlanks_of_dropBlanks {form : List Char → Prop} (hform : form ds)
    (h : Text.dropBlanks cs = ds ++ rest) : ∃ cs', BehindBlanks form cs' ∧ cs = cs' ++ rest := by
  refine ⟨cs.takeWhile Text.isBlank ++ ds,
    ⟨_, ds, fun c => List.mem_takeWhile_imp, hform, rfl⟩, ?_⟩
  rw [List.append_assoc, ← h, Text.dropBlanks, List.takeWhile_append_dropWhile]

end

/-! ## Dates -/

theorem afterHyphen?_eq_some_iff {cs rest : List Char} :
    afterHyphen? cs = some rest ↔ cs = '-' :: rest := by
  unfold afterHyphen?
  split
  · simp
  · rename_i hne
    exact ⟨nofun, fun h => absurd h (hne rest)⟩

/-- **Exactly the texts that spell a date are read.** -/
theorem ofText?_eq_some_iff {s : String} {d : Date} : ofText? s = some d ↔ d.Spells s := by
  simp only [ofText?, Option.bind_eq_bind, Option.bind_eq_some_iff, Prod.exists,
    afterHyphen?_eq_some_iff]
  constructor
  · -- What was read of each number is behind its blanks.
    rintro ⟨year, _, hyear, _, rfl, month, _, hmonth, _, rfl, day, rest, hday, h⟩
    split at h
    · rename_i hend
      rw [Bool.and_eq_true, decide_eq_true_iff] at hend
      obtain ⟨rfl, hrange⟩ := hend
      obtain ⟨rfl, rfl, rfl⟩ := ofNumbers?_eq_some_iff.mp h
      obtain ⟨_, hform, hdrop⟩ := of_readYear? hyear
      obtain ⟨ys, hys, hs⟩ := behindBlanks_of_dropBlanks hform hdrop
      obtain ⟨_, hform, hdrop⟩ := of_readNumber? hmonth
      obtain ⟨ms, hms, rfl⟩ := behindBlanks_of_dropBlanks hform hdrop
      obtain ⟨_, hform, hdrop⟩ := of_readNumber? hday
      obtain ⟨ns, hns, rfl⟩ := behindBlanks_of_dropBlanks hform hdrop
      exact ⟨hrange, ys, ms, ns, hys, hms, hns, by simp [hs]⟩
    · cases h
  · -- No digit follows a number, so each is read to its end.
    rintro ⟨hrange, ys, ms, ns, hys, hms, hns, hs⟩
    obtain ⟨y, hy, hydrop⟩ :=
      dropBlanks_append (fun _ => SpellsYear.exists_cons) hys ('-' :: (ms ++ '-' :: ns))
    obtain ⟨m, hm, hmdrop⟩ :=
      dropBlanks_append (fun _ => SpellsNumber.exists_cons) hms ('-' :: ns)
    obtain ⟨n, hn, hndrop⟩ := dropBlanks_append (fun _ => SpellsNumber.exists_cons) hns []
    have hhyphen (cs : List Char) : ∀ c ∈ ('-' :: cs).head?, c.isDigit = false := by simp
    have hyear : Date.readYear? (Text.dropBlanks s.toList) =
        some (d.year, '-' :: (ms ++ '-' :: ns)) := by
      rw [hs, List.append_assoc, List.cons_append, hydrop]
      exact hy.readYear? (hhyphen _)
    have hmonth : Date.readNumber? 2 (Text.dropBlanks (ms ++ '-' :: ns)) =
        some (d.month, '-' :: ns) := by
      rw [hmdrop]
      exact hm.readNumber? (hhyphen _)
    have hday : Date.readNumber? 2 (Text.dropBlanks ns) = some (d.day, []) := by
      rw [List.append_nil] at hndrop
      rw [hndrop]
      exact hn.readNumber? (by simp)
    refine ⟨_, _, hyear, _, rfl, _, _, hmonth, _, rfl, _, _, hday, ?_⟩
    rw [hrange, if_pos (by simp)]
    exact ofNumbers?_eq_some_iff.mpr ⟨rfl, rfl, rfl⟩

/-! ## Dates in full -/

namespace IsFullDate

variable {s : String} {d : Date}

theorem toList_eq (h : d.IsFullDate s) :
    0 ≤ d.year ∧ d.year ≤ 9999 ∧ s.toList = Timestamp.dateText d := by
  obtain ⟨year, month, day, hs, hyear, hmonth, hday, hdigits, hy, hm, hd⟩ := h
  simp only [List.mem_append, or_imp, forall_and] at hdigits
  have hpadded {width : ℕ} {ds : List Char} (hwidth : 0 < width) (hlength : ds.length = width)
      (hds : ∀ c ∈ ds, c.isDigit = true) : Text.padded width (Text.ofDecimal ds) = ds :=
    hlength ▸ Text.padded_ofDecimal ⟨List.ne_nil_of_length_pos (by omega), hds⟩
  have hlt : Text.ofDecimal year < 10 ^ 4 := hyear ▸ Text.ofDecimal_lt hdigits.1.1
  refine ⟨by omega, by omega, ?_⟩
  rw [hs, Timestamp.dateText, hy, hm, hd, Int.natAbs_natCast, hpadded (by decide) hyear hdigits.1.1,
    hpadded (by decide) hmonth hdigits.1.2, hpadded (by decide) hday hdigits.2]

theorem spells (h : d.IsFullDate s) : d.Spells s := by
  obtain ⟨hnonneg, hle, hs⟩ := h.toList_eq
  have hmonth := d.month_mem
  have hday := d.day_lt
  have hblanks {form : List Char → Prop} {cs : List Char} (hcs : form cs) : BehindBlanks form cs :=
    ⟨[], cs, List.forall_mem_nil _, hcs, rfl⟩
  have hyear : SpellsYear d.year (Text.padded 4 d.year.natAbs) := by
    obtain ⟨y, hy⟩ := Int.eq_ofNat_of_zero_le hnonneg
    rw [hy, Int.natAbs_natCast]
    exact .plain (spellsNumber_padded (by decide) (by omega))
  refine ⟨?_, _, _, _, hblanks hyear, hblanks (spellsNumber_padded (by decide) (by omega)),
    hblanks (spellsNumber_padded (by decide) (by omega)), hs⟩
  rw [yearInRange, Bool.and_eq_true, decide_eq_true_iff, decide_eq_true_iff]
  omega

/-- A date in full is written as it is rendered. -/
theorem ofList_toText (h : d.IsFullDate s) : String.ofList d.toText = s := by
  obtain ⟨hnonneg, hle, hs⟩ := h.toList_eq
  rw [Timestamp.toText_eq_dateText hnonneg hle, ← hs, String.ofList_toList]

end IsFullDate

/-! ## Literals -/

theorem toJson_ofDate (d : Date) : (Value.instant (.ofDate d)).toJson =
    .object [("$date", .string (String.ofList d.toText ++ "T00:00:00Z"))] := by
  have hmidnight : 'T' :: TimeOfDay.midnight.toText ++ ['Z'] = "T00:00:00Z".toList := by
    decide +kernel
  show Json.object [("$date", .string (Instant.ofDate d).toText)] = _
  rw [Instant.toText, Instant.ofDate]
  dsimp only
  rw [List.append_assoc, hmidnight, String.ofList_append, String.ofList_toList]

theorem operand_of_spells {s : String} {d : Date} (h : d.Spells s) (operator : String) :
    (Node.literal (.date s)).operand operator = .ok (.instant (.ofDate d)) := by
  rw [Node.operand_literal, Literal.toValue, ofText?_eq_some_iff.mpr h]

theorem operand_of_not_spells {s : String} (h : ¬∃ d : Date, d.Spells s) (operator : String) :
    (Node.literal (.date s)).operand operator =
      .error (.literal (.beside operator) .date s) := by
  have hnone : ofText? s = none := by
    rw [Option.eq_none_iff_forall_ne_some]
    exact fun d hd => h ⟨d, ofText?_eq_some_iff.mp hd⟩
  rw [Node.operand_literal, Literal.toValue, hnone]

/-- **What a date literal stands for.** A date literal is compared as an instant exactly if its
text spells a date, and any other one is a fault that names the text and the form that it should
have had. The instant is the first one of the date and is rendered with all zeros, so a date in
full is rendered as its own text with the midnight behind it. -/
theorem operand_date (operator s : String) :
    ((∃ v, (Node.literal (.date s)).operand operator = .ok v) ↔ ∃ d : Date, d.Spells s) ∧
      (∀ d : Date, d.Spells s →
        (Node.literal (.date s)).operand operator = .ok (.instant (.ofDate d)) ∧
        (Value.instant (.ofDate d)).toJson =
          .object [("$date", .string (String.ofList d.toText ++ "T00:00:00Z"))]) ∧
      (∀ d : Date, d.IsFullDate s →
        (Node.literal (.date s)).operand operator = .ok (.instant (.ofDate d)) ∧
        (Value.instant (.ofDate d)).toJson = .object [("$date", .string (s ++ "T00:00:00Z"))]) ∧
      ((¬∃ d : Date, d.Spells s) → (Node.literal (.date s)).operand operator =
        .error (.literal (.beside operator) .date s)) ∧
      Expected.date.describe = "a YYYY-MM-DD date" := by
  refine ⟨⟨?_, fun ⟨d, hd⟩ => ⟨_, operand_of_spells hd operator⟩⟩,
    fun d hd => ⟨operand_of_spells hd operator, toJson_ofDate d⟩,
    fun d hd => ⟨operand_of_spells hd.spells operator, ?_⟩,
    fun h => operand_of_not_spells h operator, rfl⟩
  · rintro ⟨v, hv⟩
    by_contra h
    rw [operand_of_not_spells h] at hv
    cases hv
  · rw [toJson_ofDate, hd.ofList_toText]

/-- Month and day without their zeros. -/
theorem operand_date_without_zeros :
    (∀ d : Date, ¬d.IsFullDate "2024-1-2") ∧
      ∃ v, (Node.literal (.date "2024-1-2")).operand "eq" = .ok v ∧
        v.toJson = .object [("$date", .string "2024-01-02T00:00:00Z")] := by
  let d : Date := ⟨2024, 1, 2, by decide, by decide⟩
  have hd : ofText? "2024-1-2" = some d := by decide +kernel
  have hspells := ofText?_eq_some_iff.mp hd
  have htext : String.ofList d.toText ++ "T00:00:00Z" = "2024-01-02T00:00:00Z" := by decide +kernel
  refine ⟨fun e he => ?_, _, operand_of_spells hspells "eq", htext ▸ toJson_ofDate d⟩
  have heq : e = d := Option.some_inj.mp ((ofText?_eq_some_iff.mpr he.spells).symm.trans hd)
  have hfull := he.ofList_toText
  rw [heq] at hfull
  revert hfull
  decide +kernel

end Date

end EntityQuery
