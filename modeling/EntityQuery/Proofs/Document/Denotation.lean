import EntityQuery.Document.Extended
import EntityQuery.Proofs.Json.Reading
import EntityQuery.Proofs.Json.Writing

/-!
# What the texts of a value denote

A value has three texts: for people on one line and on many, and for programs. All three denote the
same tree, with the same wrappers for what JSON cannot say, unless a float lies midway between its two
shortest decimals. For such a float people get the larger decimal and programs the one that is even.
-/

namespace EntityQuery

namespace Json

/-- What a JSON text denotes. A number stands for its rational value, whatever its digits, and it
counts whether it is written as an integer. -/
inductive Meaning where
  | null
  | bool (value : Bool)
  | number (integer : Bool) (value : ℚ)
  | string (value : String)
  | array (items : List Meaning)
  | object (members : List (String × Meaning))

namespace Source

mutual

def meaning : Source → Meaning
  | .null => .null
  | .bool b => .bool b
  | .number n => .number n.isInteger n.value
  | .string s => .string s
  | .array items => .array (itemsMeaning items)
  | .object members => .object (membersMeaning members)

def itemsMeaning : List Source → List Meaning
  | [] => []
  | s :: items => s.meaning :: itemsMeaning items

def membersMeaning : List (String × Source) → List (String × Meaning)
  | [] => []
  | (name, s) :: members => (name, s.meaning) :: membersMeaning members

end

end Source

end Json

open Json (Meaning Source)

namespace Binary64

/-- The rational number that is written for a finite float, where a tie goes the given way. -/
def written (tie : Tie) : Binary64 → ℚ
  | .finite negative exponent fraction =>
    let x := Shortest.Magnitude.ofFields exponent fraction
    (if negative then -1 else 1) * (if x.m = 0 then 0 else (x.shortest tie).value)
  | _ => 0

/-- The float lies midway between two decimals of the same digits but for the last, and there is no
shorter decimal for it. The last digit of `even` is even, and `away` is farther from zero. -/
def IsMidway : Binary64 → ℚ → ℚ → Prop
  | .finite negative exponent fraction, even, away =>
    ∃ d e, (Shortest.Magnitude.ofFields exponent fraction).IsMidway d e ∧
      even = (if negative then -1 else 1) * (d * 10 ^ e) ∧
      away = (if negative then -1 else 1) * (((d + 1 : ℕ) : ℚ) * 10 ^ e)
  | _, _, _ => False

/-- Midway between two decimals the tie decides which of them is written. -/
theorem IsMidway.written {x : Binary64} {even away : ℚ} (h : x.IsMidway even away) :
    x.written .toEven = even ∧ x.written .away = away := by
  cases x with
  | nan => exact h.elim
  | infinite => exact h.elim
  | finite negative exponent fraction =>
    obtain ⟨d, e, hmidway, rfl, rfl⟩ := h
    have hm := hmidway.significand_pos
    obtain ⟨haway, heven⟩ :=
      hmidway.shortest_value (Shortest.Magnitude.isFloat_ofFields exponent fraction hm.ne')
    unfold Binary64.written
    dsimp only
    rw [if_neg hm.ne', if_neg hm.ne', haway, heven]
    exact ⟨rfl, rfl⟩

theorem IsMidway.ne {x : Binary64} {even away : ℚ} (h : x.IsMidway even away) : away ≠ even := by
  cases x with
  | nan => exact h.elim
  | infinite => exact h.elim
  | finite negative exponent fraction =>
    obtain ⟨d, e, -, rfl, rfl⟩ := h
    have hsign : (if negative then -1 else 1 : ℚ) ≠ 0 := by cases negative <;> norm_num
    have hgrid : (0 : ℚ) < 10 ^ e := by positivity
    refine fun heq => absurd (mul_right_cancel₀ hgrid.ne' (mul_left_cancel₀ hsign heq)) ?_
    exact_mod_cast Nat.succ_ne_self d

/-- The way a tie goes matters for no other float. -/
theorem written_eq_iff (x : Binary64) :
    x.written .away = x.written .toEven ↔ ∀ even away, ¬x.IsMidway even away := by
  constructor
  · intro heq even away h
    obtain ⟨heven, haway⟩ := h.written
    exact h.ne (haway.symm.trans (heq.trans heven))
  · intro h
    cases x with
    | nan => rfl
    | infinite => rfl
    | finite negative exponent fraction =>
      unfold Binary64.written
      dsimp only
      by_cases hm : (Shortest.Magnitude.ofFields exponent fraction).m = 0
      · rw [if_pos hm, if_pos hm]
      · rcases (Shortest.Magnitude.isFloat_ofFields exponent fraction hm).shortest_eq_or with
          heq | ⟨d, e, hmidway⟩
        · rw [heq]
        · exact absurd ⟨d, e, hmidway, rfl, rfl⟩ (h _ _)

end Binary64

namespace Value

/-- What a value without a text of its own is wrapped into. -/
def wrappedMeaning (name text : String) : Meaning :=
  .object [(name, .string text)]

mutual

/-- What the text of a value denotes, where a tie between decimals goes the given way. -/
def meaning (tie : Tie) : Value → Meaning
  | .null => .null
  | .bool b => .bool b
  | .int n => .number true n.toInt
  | .double .nan => wrappedMeaning "$numberDouble" "NaN"
  | .double (.infinite true) => wrappedMeaning "$numberDouble" "-Infinity"
  | .double (.infinite false) => wrappedMeaning "$numberDouble" "Infinity"
  | .double x => .number false (x.written tie)
  | .decimal d => wrappedMeaning "$numberDecimal" d.toText
  | .string s => .string s
  | .instant t => wrappedMeaning "$date" t.toText
  | .array items => .array (itemsMeaning tie items)
  | .document ⟨entries⟩ => .object (entriesMeaning tie entries)

def itemsMeaning (tie : Tie) : List Value → List Meaning
  | [] => []
  | v :: vs => v.meaning tie :: itemsMeaning tie vs

def entriesMeaning (tie : Tie) : List (String × Value) → List (String × Meaning)
  | [] => []
  | (key, v) :: entries => (key, v.meaning tie) :: entriesMeaning tie entries

end

mutual

/-- The floats in a value, at every depth. -/
def doubles : Value → List Binary64
  | .double x => [x]
  | .array items => itemsDoubles items
  | .document ⟨entries⟩ => entriesDoubles entries
  | _ => []

def itemsDoubles : List Value → List Binary64
  | [] => []
  | v :: vs => v.doubles ++ itemsDoubles vs

def entriesDoubles : List (String × Value) → List Binary64
  | [] => []
  | (_, v) :: entries => v.doubles ++ entriesDoubles entries

end

/-! ## One writer -/

theorem value_ofInt (n : ℤ) : (Json.Numeral.ofInt n).value = n := by
  have hdigits : (Json.Numeral.ofInt n).digits = n.natAbs := by
    rw [Json.Numeral.digits, Json.Numeral.ofInt, List.append_nil, Text.ofDecimal_decimal]
  have hplace : (Json.Numeral.ofInt n).place = 0 := rfl
  have hsign : (Json.Numeral.ofInt n).negative = decide (n < 0) := rfl
  rw [Json.Numeral.value, hdigits, hplace, hsign, zpow_zero, mul_one, Nat.cast_natAbs]
  simp only [decide_eq_true_eq]
  split
  · rename_i h
    rw [abs_of_neg h]
    push_cast
    ring
  · rename_i h
    rw [abs_of_nonneg (not_lt.mp h), one_mul]

theorem meaning_doubleSource {st : Json.Style} (hpoint : st.layout.pointZero = true) (negative : Bool)
    (exponent : Fin 2047) (fraction : Fin Binary64.hidden) :
    (st.doubleSource (.finite negative exponent fraction)).meaning =
      .number false ((Binary64.finite negative exponent fraction).written st.layout.tie) :=
  congrArg₂ Meaning.number (Layout.isInteger_numeral hpoint negative _)
    (Layout.value_numeral st.layout negative _)

mutual

theorem meaning_source {st : Json.Style} (hpoint : st.layout.pointZero = true) :
    (v : Value) → (st.source v.toJson).meaning = v.meaning st.layout.tie
  | .null | .bool _ | .string _ => rfl
  | .int n => congrArg (Meaning.number true) (value_ofInt n.toInt)
  | .double .nan => rfl
  | .double (.infinite true) => rfl
  | .double (.infinite false) => rfl
  | .double (.finite negative exponent fraction) =>
    meaning_doubleSource hpoint negative exponent fraction
  | .decimal _ => rfl
  | .instant _ => rfl
  | .array items => congrArg Meaning.array (meaning_itemSources hpoint items)
  | .document ⟨entries⟩ => congrArg Meaning.object (meaning_memberSources hpoint entries)

theorem meaning_itemSources {st : Json.Style} (hpoint : st.layout.pointZero = true) :
    (vs : List Value) →
      Source.itemsMeaning (st.itemSources (listToJson vs)) = itemsMeaning st.layout.tie vs
  | [] => rfl
  | v :: vs => congrArg₂ List.cons (meaning_source hpoint v) (meaning_itemSources hpoint vs)

theorem meaning_memberSources {st : Json.Style} (hpoint : st.layout.pointZero = true) :
    (entries : List (String × Value)) →
      Source.membersMeaning (st.memberSources (entriesToJson entries)) =
        entriesMeaning st.layout.tie entries
  | [] => rfl
  | (key, v) :: entries =>
    congrArg₂ (fun m ms => (key, m) :: ms) (meaning_source hpoint v)
      (meaning_memberSources hpoint entries)

end

/-! ## The three texts -/

mutual

/-- The way ties go matters if and only if it matters for one of the floats. -/
theorem meaning_eq_iff : (v : Value) →
    (v.meaning .away = v.meaning .toEven ↔ ∀ x ∈ v.doubles, x.written .away = x.written .toEven)
  | .null | .bool _ | .int _ | .decimal _ | .string _ | .instant _ => by
    simp [meaning, doubles]
  | .double .nan => by simp [meaning, doubles, Binary64.written]
  | .double (.infinite true) => by simp [meaning, doubles, Binary64.written]
  | .double (.infinite false) => by simp [meaning, doubles, Binary64.written]
  | .double (.finite negative exponent fraction) => by simp [meaning, doubles]
  | .array items => by
    rw [meaning, meaning, Meaning.array.injEq]
    exact itemsMeaning_eq_iff items
  | .document ⟨entries⟩ => by
    rw [meaning, meaning, Meaning.object.injEq]
    exact entriesMeaning_eq_iff entries

theorem itemsMeaning_eq_iff : (vs : List Value) →
    (itemsMeaning .away vs = itemsMeaning .toEven vs ↔
      ∀ x ∈ itemsDoubles vs, x.written .away = x.written .toEven)
  | [] => by simp [itemsMeaning, itemsDoubles]
  | v :: vs => by
    simp only [itemsMeaning, itemsDoubles, List.cons.injEq, List.forall_mem_append,
      meaning_eq_iff v, itemsMeaning_eq_iff vs]

theorem entriesMeaning_eq_iff : (entries : List (String × Value)) →
    (entriesMeaning .away entries = entriesMeaning .toEven entries ↔
      ∀ x ∈ entriesDoubles entries, x.written .away = x.written .toEven)
  | [] => by simp [entriesMeaning, entriesDoubles]
  | (key, v) :: entries => by
    simp only [entriesMeaning, entriesDoubles, List.cons.injEq, Prod.mk.injEq, true_and,
      List.forall_mem_append, meaning_eq_iff v, entriesMeaning_eq_iff entries]

end

/-- **The texts of a value denote the same tree**, unless there is a float in it that lies midway
between its two shortest decimals. Such a float is the larger one for people, in absolute value, and
the even one for programs. -/
theorem texts_denote (v : Value) :
    ∃ compact pretty interchange : Source,
      compact.IsReadFrom (Json.Style.display.compact v.toJson) ∧
      pretty.IsReadFrom (Json.Style.display.pretty v.toJson) ∧
      interchange.IsReadFrom (Json.Style.interchange.compact v.toJson) ∧
      compact.meaning = v.meaning .away ∧ pretty.meaning = v.meaning .away ∧
      interchange.meaning = v.meaning .toEven ∧
      (v.meaning .away = v.meaning .toEven ↔
        ∀ x ∈ v.doubles, ∀ even away, ¬x.IsMidway even away) ∧
      ∀ x ∈ v.doubles, ∀ even away, x.IsMidway even away →
        x.written .toEven = even ∧ x.written .away = away := by
  have hdisplay := Json.isReadable_display
  have hinterchange := Json.isReadable_interchange
  refine ⟨_, _, _, (hdisplay.compact_spells v.toJson).isReadFrom,
    (hdisplay.pretty_spells v.toJson).isReadFrom,
    (hinterchange.compact_spells v.toJson).isReadFrom, meaning_source rfl v, meaning_source rfl v,
    meaning_source rfl v, ?_, fun x _ even away h => h.written⟩
  rw [meaning_eq_iff]
  exact forall₂_congr fun x _ => x.written_eq_iff

/-- The float `2 ^ -25`, which is `2.98023223876953125e-8`. -/
def tied : Value :=
  .double (.finite false ⟨998, by decide⟩ ⟨0, by decide⟩)

/-- The texts for people and the one for programs do not always denote the same tree. -/
theorem texts_of_tied_differ :
    ¬∃ m : Meaning,
      ∀ text ∈ [Json.Style.display.compact tied.toJson, Json.Style.display.pretty tied.toJson,
          Json.Style.interchange.compact tied.toJson],
        ∃ s : Source, s.IsReadFrom text ∧ s.meaning = m := by
  rintro ⟨m, h⟩
  obtain ⟨s, hread, hs⟩ := h (Json.Style.display.compact tied.toJson) (by simp)
  obtain ⟨s', hread', hs'⟩ := h (Json.Style.interchange.compact tied.toJson) (by simp)
  have haway : s.meaning = tied.meaning .away := by
    rw [hread.unique (Json.isReadable_display.compact_spells tied.toJson).isReadFrom]
    exact meaning_source rfl tied
  have heven : s'.meaning = tied.meaning .toEven := by
    rw [hread'.unique (Json.isReadable_interchange.compact_spells tied.toJson).isReadFrom]
    exact meaning_source rfl tied
  rw [hs] at haway
  rw [hs', haway, tied, meaning_eq_iff] at heven
  have hwritten := heven _ List.mem_cons_self
  have hdigits : (Shortest.Magnitude.ofFields 998 0).shortest .away = ⟨29802322387695313, -24⟩ := by
    decide +kernel
  have hdigits' :
      (Shortest.Magnitude.ofFields 998 0).shortest .toEven = ⟨29802322387695312, -24⟩ := by
    decide +kernel
  have hm : (Shortest.Magnitude.ofFields 998 0).m ≠ 0 := by decide
  simp only [Binary64.written, if_neg hm, hdigits, hdigits', Digits.value] at hwritten
  norm_num at hwritten

end Value

end EntityQuery
