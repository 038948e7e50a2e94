import Mathlib.Algebra.BigOperators.Group.Finset.Basic
import Mathlib.Algebra.Order.BigOperators.Group.Finset
import Mathlib.Order.SuccPred.IntervalSucc
import Mathlib.Data.Int.ConditionallyCompleteOrder
import Mathlib.Data.Int.SuccPred
import EntityQuery.Calendar.Date

/-!
# The number of a day

Days are numbered one after the other, through all months and years. The number tells the day, and
it goes up by one from each day to the next.
-/

namespace EntityQuery

namespace Date

variable {year : ℤ} {month day : ℕ}

/-! ## Months -/

/-- The months that have days, and all of these have 28 at least. -/
theorem daysIn_cases (year : ℤ) (month : ℕ) :
    (1 ≤ month ∧ month ≤ 12 ∧ 28 ≤ daysIn year month ∧ daysIn year month ≤ 31) ∨
      ((month = 0 ∨ 12 < month) ∧ daysIn year month = 0) := by
  unfold daysIn
  split
  case h_12 => split <;> simp
  case h_13 => grind
  all_goals simp

theorem daysIn_december (year : ℤ) : daysIn year 12 = 31 :=
  rfl

theorem month_mem (d : Date) : 1 ≤ d.month ∧ d.month ≤ 12 := by
  have hdays := daysIn_cases d.year d.month
  have hpos := d.day_pos
  have hle := d.day_le
  omega

theorem day_lt (d : Date) : d.day < 32 := by
  have hdays := daysIn_cases d.year d.month
  have hle := d.day_le
  omega

theorem ofNumbers?_eq_some_iff {d : Date} :
    ofNumbers? year month day = some d ↔ d.year = year ∧ d.month = month ∧ d.day = day := by
  obtain ⟨y, m, n, hpos, hle⟩ := d
  unfold ofNumbers?
  constructor
  · intro h
    split at h
    · cases h
      exact ⟨rfl, rfl, rfl⟩
    · cases h
  · rintro ⟨rfl, rfl, rfl⟩
    rw [dif_pos ⟨hpos, hle⟩]

theorem ofNumbers?_eq_none_iff :
    ofNumbers? year month day = none ↔ ¬(1 ≤ day ∧ day ≤ daysIn year month) := by
  unfold ofNumbers?
  split <;> simp_all

/-! ## Neighbours -/

/-- The next day is in the same month, or the first one of the next month or year. -/
theorem next_cases (d : Date) :
    (d.next.year = d.year ∧ d.next.month = d.month ∧ d.next.day = d.day + 1) ∨
      (d.next.year = d.year ∧ d.next.month = d.month + 1 ∧ d.next.day = 1 ∧
        d.day = daysIn d.year d.month) ∨
      (d.next.year = d.year + 1 ∧ d.next.month = 1 ∧ d.next.day = 1 ∧ d.month = 12 ∧
        d.day = 31) := by
  have hmonth := d.month_mem
  have hle := d.day_le
  unfold next
  cases hday : ofNumbers? d.year d.month (d.day + 1) with
  | some e =>
    left
    exact ofNumbers?_eq_some_iff.mp hday
  | none =>
    rw [ofNumbers?_eq_none_iff] at hday
    have hlast : d.day = daysIn d.year d.month := by omega
    cases hnext : ofNumbers? d.year (d.month + 1) 1 with
    | some e =>
      obtain ⟨hy, hm, hd⟩ := ofNumbers?_eq_some_iff.mp hnext
      exact Or.inr (Or.inl ⟨hy, hm, hd, hlast⟩)
    | none =>
      -- There is a next month unless it is December.
      rw [ofNumbers?_eq_none_iff] at hnext
      have hdays := daysIn_cases d.year (d.month + 1)
      have hdecember : d.month = 12 := by omega
      rw [hdecember, daysIn_december] at hlast
      exact Or.inr (Or.inr ⟨rfl, rfl, rfl, hdecember, hlast⟩)

/-- The previous day is in the same month, or the last one of the previous month or year. -/
theorem previous_cases (d : Date) :
    (d.previous.year = d.year ∧ d.previous.month = d.month ∧ d.previous.day + 1 = d.day) ∨
      (d.previous.year = d.year ∧ d.previous.month + 1 = d.month ∧
        d.previous.day = daysIn d.year d.previous.month ∧ d.day = 1) ∨
      (d.previous.year = d.year - 1 ∧ d.previous.month = 12 ∧ d.previous.day = 31 ∧ d.month = 1 ∧
        d.day = 1) := by
  have hmonth := d.month_mem
  have hpos := d.day_pos
  have hle := d.day_le
  unfold previous
  cases hday : ofNumbers? d.year d.month (d.day - 1) with
  | some e =>
    obtain ⟨hy, hm, hd⟩ := ofNumbers?_eq_some_iff.mp hday
    have he := e.day_pos
    exact Or.inl ⟨hy, hm, show e.day + 1 = d.day by omega⟩
  | none =>
    rw [ofNumbers?_eq_none_iff] at hday
    have hfirst : d.day = 1 := by omega
    have hdays := daysIn_cases d.year (d.month - 1)
    cases hprevious : ofNumbers? d.year (d.month - 1) (daysIn d.year (d.month - 1)) with
    | some e =>
      obtain ⟨hy, hm, hd⟩ := ofNumbers?_eq_some_iff.mp hprevious
      have he := e.month_mem
      exact Or.inr (Or.inl ⟨hy, show e.month + 1 = d.month by omega,
        show e.day = daysIn d.year e.month by rw [hd, hm], hfirst⟩)
    | none =>
      -- There is a previous month unless it is January.
      rw [ofNumbers?_eq_none_iff] at hprevious
      exact Or.inr (Or.inr ⟨rfl, rfl, rfl, by omega, hfirst⟩)

/-! ## Numbers -/

/-- The days of all years before this one, counted from the year 0. A year that is over has added
365 days, and one more if it was a leap year. -/
def daysBefore (year : ℤ) : ℤ :=
  365 * year + (year + 3) / 4 - (year + 99) / 100 + (year + 399) / 400

/-- The days of all months before this one in its year. -/
def daysBeforeMonth (year : ℤ) (month : ℕ) : ℕ :=
  ∑ m ∈ Finset.range month, daysIn year m

/-- The number of a day. The first day of the year 0 has the number 1. -/
def number (d : Date) : ℤ :=
  daysBefore d.year + daysBeforeMonth d.year d.month + d.day

theorem daysBeforeMonth_succ (year : ℤ) (month : ℕ) :
    daysBeforeMonth year (month + 1) = daysBeforeMonth year month + daysIn year month :=
  Finset.sum_range_succ _ _

theorem daysBeforeMonth_one (year : ℤ) : daysBeforeMonth year 1 = 0 :=
  rfl

theorem daysBeforeMonth_thirteen (year : ℤ) :
    daysBeforeMonth year 13 = daysBeforeMonth year 12 + 31 :=
  daysBeforeMonth_succ year 12

theorem isLeap_iff {year : ℤ} :
    isLeap year = true ↔ year % 4 = 0 ∧ (year % 100 ≠ 0 ∨ year % 400 = 0) := by
  simp [isLeap]

theorem daysBefore_succ (year : ℤ) :
    daysBefore (year + 1) = daysBefore year + daysBeforeMonth year 13 := by
  have hmonths : daysBeforeMonth year 13 = if isLeap year then 366 else 365 := by
    simp only [daysBeforeMonth, Finset.sum_range_succ, Finset.range_zero, Finset.sum_empty, daysIn]
    split <;> rfl
  rw [hmonths, daysBefore, daysBefore]
  by_cases hleap : isLeap year = true
  · rw [if_pos hleap]
    rw [isLeap_iff] at hleap
    omega
  · rw [if_neg hleap]
    rw [isLeap_iff] at hleap
    omega

theorem number_next (d : Date) : d.next.number = d.number + 1 := by
  unfold number
  rcases next_cases d with ⟨hy, hm, hd⟩ | ⟨hy, hm, hd, hlast⟩ | ⟨hy, hm, hd, hmonth, hlast⟩
  · rw [hy, hm, hd]
    omega
  · have hsucc := daysBeforeMonth_succ d.year d.month
    rw [hy, hm, hd]
    omega
  · have hyear := daysBefore_succ d.year
    have hdecember := daysBeforeMonth_thirteen d.year
    rw [hy, hm, hd, daysBeforeMonth_one, hmonth]
    omega

theorem number_previous (d : Date) : d.previous.number = d.number - 1 := by
  unfold number
  rcases previous_cases d with ⟨hy, hm, hd⟩ | ⟨hy, hm, hd, hfirst⟩ | ⟨hy, hm, hd, hmonth, hfirst⟩
  · rw [hy, hm]
    omega
  · have hsucc := daysBeforeMonth_succ d.year d.previous.month
    rw [hm] at hsucc
    rw [hy, hd]
    omega
  · have hyear := daysBefore_succ (d.year - 1)
    have hdecember := daysBeforeMonth_thirteen (d.year - 1)
    rw [Int.sub_add_cancel] at hyear
    rw [hy, hm, hd, hmonth, daysBeforeMonth_one]
    omega

/-! ## Days told by their numbers -/

theorem daysBefore_mono : Monotone daysBefore :=
  monotone_int_of_le_succ fun year => by
    rw [daysBefore_succ]
    omega

theorem daysBeforeMonth_mono (year : ℤ) : Monotone (daysBeforeMonth year) :=
  monotone_nat_of_le_succ fun month => by
    rw [daysBeforeMonth_succ]
    omega

/-- A day lies behind the months before its own, and not behind the next month. -/
theorem dayOfYear_mem (d : Date) :
    daysBeforeMonth d.year d.month + d.day ∈
      Set.Ioc (daysBeforeMonth d.year d.month) (daysBeforeMonth d.year (d.month + 1)) := by
  have hpos := d.day_pos
  have hle := d.day_le
  have hsucc := daysBeforeMonth_succ d.year d.month
  exact ⟨by omega, by omega⟩

theorem number_mem (d : Date) :
    d.number ∈ Set.Ioc (daysBefore d.year) (daysBefore (d.year + 1)) := by
  have hday := d.dayOfYear_mem
  have hyear := daysBefore_succ d.year
  have hmonths : daysBeforeMonth d.year (d.month + 1) ≤ daysBeforeMonth d.year 13 :=
    daysBeforeMonth_mono d.year (Nat.succ_le_succ d.month_mem.2)
  rw [Set.mem_Ioc] at hday ⊢
  unfold number
  exact ⟨by omega, by omega⟩

/-- The number tells the day: first its year, then its month. -/
theorem number_injective : Function.Injective number := by
  intro d e h
  -- Years have disjoint ranges of day numbers, and so have the months of one year.
  have hyear : d.year = e.year := by
    by_contra hne
    have hdisjoint := daysBefore_mono.pairwise_disjoint_on_Ioc_succ hne
    exact Set.disjoint_left.mp hdisjoint d.number_mem (h ▸ e.number_mem)
  have hmonth : d.month = e.month := by
    by_contra hne
    have hdisjoint := (daysBeforeMonth_mono d.year).pairwise_disjoint_on_Ioc_succ hne
    refine Set.disjoint_left.mp hdisjoint d.dayOfYear_mem ?_
    have hday := e.dayOfYear_mem
    unfold number at h
    rw [← hyear] at h hday
    have heq : daysBeforeMonth d.year d.month + d.day = daysBeforeMonth d.year e.month + e.day := by
      omega
    rw [heq]
    exact hday
  have hday : d.day = e.day := by
    unfold number at h
    rw [hyear, hmonth] at h
    omega
  cases d
  cases e
  cases hyear
  cases hmonth
  cases hday
  rfl

end Date

end EntityQuery
