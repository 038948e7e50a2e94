import Mathlib.Data.List.Infix
import EntityQuery.Proofs.Condition.Agreement
import EntityQuery.Proofs.Condition.PatternMatching

/-!
# Searches

A call of a text function becomes a pattern on a field. Main statements: the pattern finds the
subjects that hold the text where the function looks for it, and nothing but the function and the
text can be read from it. So no text says anything else than itself, whatever its characters are.
-/

namespace EntityQuery

namespace TextSearch

/-- The function that searches in this way. -/
def function : TextSearch → String
  | .contains => "contains"
  | .startsWith => "startswith"
  | .endsWith => "endswith"

/-- The anchor before the text. -/
def opening : TextSearch → List Char
  | .startsWith => ['^']
  | _ => []

/-- The anchor behind the text. -/
def closing : TextSearch → List Char
  | .endsWith => ['$']
  | _ => []

theorem toList_pattern (m : TextSearch) (text : String) :
    (m.pattern text).toList = m.opening ++ Pattern.escape text.toList ++ m.closing := by
  cases m <;> simp [pattern, opening, closing]

end TextSearch

namespace Condition

/-- The pattern that a condition asks a field to match, if it asks for one. -/
def patternOn? (name : String) (d : Document) : Option String :=
  match d.find? name with
  | some (.document operators) =>
    match operators.find? "$regex" with
    | some (.string pattern) => some pattern
    | _ => none
  | _ => none

theorem patternOn?_onText (o : Options) (p : FieldPath) (m : TextSearch) (text : String) :
    patternOn? p.dotted (onText o p m text) = some (m.pattern text) := by
  simp [patternOn?, onText, Document.single, Document.find?]

/-- The condition holds the field and the pattern, and these the function and the text. -/
theorem onText_injective {o o' : Options} {p p' : FieldPath} {m m' : TextSearch}
    {text text' : String} (h : onText o p m text = onText o' p' m' text') :
    m = m' ∧ text = text' := by
  have hfield : p.dotted = p'.dotted := congrArg (fun e => e.1) (List.cons.inj
    (congrArg Document.entries h)).1
  have hpattern : m.pattern text = m'.pattern text' := by
    have hpatterns := congrArg (patternOn? p.dotted) h
    rw [patternOn?_onText, hfield, patternOn?_onText] at hpatterns
    exact Option.some.inj hpatterns
  have hread := Pattern.read?_pattern m text
  rw [hpattern, Pattern.read?_pattern] at hread
  obtain ⟨rfl, rfl⟩ := Prod.mk.inj (Option.some.inj hread)
  exact ⟨rfl, rfl⟩

variable {o : Options} {base? : Option FieldPath} {m : TextSearch}

theorem ofNode_search (o : Options) (base? : Option FieldPath) (m : TextSearch)
    (args : List Node) :
    ofNode o base? (.call m.function args) = ofTextCall o base? m.function m args := by
  cases m <;> rfl

theorem result_search {field : Node} {p : FieldPath} (hp : field.fieldPath base? = .ok p)
    (text : String) :
    (ofNode o base? (.call m.function [field, .literal (.string text)])).result =
      .ok (onText o p m text) := by
  rw [ofNode_search]
  refine Traced.result_andThen_eq_ok.mpr ⟨p, ?_, rfl⟩
  rw [Traced.result_path, hp]

theorem search_eq_ok {args : List Node} {d : Document}
    (h : (ofNode o base? (.call m.function args)).result = .ok d) :
    ∃ field text p, args = [field, .literal (.string text)] ∧ field.fieldPath base? = .ok p ∧
      d = onText o p m text := by
  rw [ofNode_search] at h
  exact ofTextCall_eq_ok h

/-! ## What a search finds -/

/-- **A search finds its text.** Unless case is ignored, the condition is one pattern on the field,
and whatever characters the text and the subject have, the pattern finds the text in the subject
exactly if it occurs there, or stands at the start, or stands at the end. At the end a last line feed
may follow it. -/
theorem finds?_of_search (ho : o.ignoreCase = false) (m : TextSearch) {field : Node}
    {p : FieldPath} (hp : field.fieldPath base? = .ok p) (text : String) :
    ∃ pattern,
      (ofNode o base? (.call m.function [field, .literal (.string text)])).result =
        .ok (.single p.dotted (.document (.single "$regex" (.string pattern)))) ∧
      ∀ subject : String, Pattern.finds? pattern subject =
        some (decide (m.Finds text.toList subject.toList)) := by
  refine ⟨m.pattern text, ?_, TextSearch.finds?_pattern m text⟩
  have hcondition : onText o p m text =
      .single p.dotted (.document (.single "$regex" (.string (m.pattern text)))) := by
    rw [onText, ho]
    rfl
  rw [result_search hp, hcondition]

/-- The end of a text that has metacharacters in it and a line feed behind them. -/
theorem finds?_of_search_line_end :
    let author : FieldPath := ⟨["Author"], by decide, by decide +kernel⟩
    let text : String := "(1+1)$\n"
    ∃ pattern,
      (ofNode {} (some author) (.call "endswith"
          [.identifier "Note", .literal (.string text)])).result =
        .ok (.single "Author.Note" (.document (.single "$regex" (.string pattern)))) ∧
      (∀ subject : String, Pattern.finds? pattern subject =
        some (decide (TextSearch.endsWith.Finds text.toList subject.toList))) ∧
      Pattern.finds? pattern "= (1+1)$\n" = some true ∧
      Pattern.finds? pattern "= (1+1)$" = some false := by
  intro author text
  have hnote : (Node.identifier "Note").fieldPath (some author) =
      .ok ⟨["Author", "Note"], by decide, by decide +kernel⟩ := by
    decide +kernel
  obtain ⟨pattern, hpattern, hfinds⟩ :=
    finds?_of_search (o := {}) rfl .endsWith hnote text
  refine ⟨pattern, hpattern, hfinds, ?_, ?_⟩
  · rw [hfinds]
    decide +kernel
  · rw [hfinds]
    decide +kernel

/-- The closing anchor matches before a last line feed, so a text is found that is not at the end. -/
theorem endsWith_finds_before_line_feed :
    ∃ d pattern,
      (ofNode {} none (.call "endswith" [.identifier "P", .literal (.string "a")])).result = .ok d ∧
      patternOn? "P" d = some pattern ∧ Pattern.finds? pattern "a\n" = some true ∧
      ¬ "a".toList <:+ "a\n".toList := by
  let p : FieldPath := ⟨["P"], by decide, by decide +kernel⟩
  have hp : (Node.identifier "P").fieldPath none = .ok p := by decide +kernel
  refine ⟨_, TextSearch.endsWith.pattern "a", result_search (m := .endsWith) hp "a", ?_, ?_, ?_⟩
  · exact patternOn?_onText {} p .endsWith "a"
  · decide +kernel
  · decide +kernel

/-! ## What a search says -/

/-- **The function and the text are all that can be read from a search.** Of a call that has a
condition, the pattern is read as the function and the text of the call and as nothing else. Between
its anchors it spells the text with a backslash before each metacharacter. No call of another
function or with another text has the same condition, on any field and under any options. -/
theorem read?_of_search {args : List Node} {d : Document}
    (h : (ofNode o base? (.call m.function args)).result = .ok d) :
    ∃ field text p pattern body, args = [field, .literal (.string text)] ∧
      field.fieldPath base? = .ok p ∧ patternOn? p.dotted d = some pattern ∧
      (∀ m' text', Pattern.read? pattern = some (m', text') ↔ m' = m ∧ text' = text) ∧
      pattern.toList = m.opening ++ body ++ m.closing ∧ Pattern.Spells body text.toList ∧
      ∀ (o' : Options) (base'? : Option FieldPath) (m' : TextSearch) (args' : List Node),
        (ofNode o' base'? (.call m'.function args')).result = .ok d →
          m' = m ∧ ∃ field', args' = [field', .literal (.string text)] := by
  obtain ⟨field, text, p, rfl, hp, rfl⟩ := search_eq_ok h
  refine ⟨field, text, p, m.pattern text, Pattern.escape text.toList, rfl, hp,
    patternOn?_onText o p m text, ?_, m.toList_pattern text, Pattern.spells_escape _, ?_⟩
  · intro m' text'
    rw [Pattern.read?_pattern, Option.some_inj, Prod.mk.injEq, eq_comm, @eq_comm _ text]
  · intro o' base'? m' args' h'
    obtain ⟨field', text', p', rfl, -, hd⟩ := search_eq_ok h'
    obtain ⟨rfl, rfl⟩ := onText_injective hd
    exact ⟨rfl, field', rfl⟩

/-- A text between anchors of its own, with a backslash at its end. -/
theorem read?_of_search_for_anchors :
    let call : Node := .call "startswith" [.identifier "Path", .literal (.string "^C:$\\")]
    ∃ d field text p pattern body, (ofNode {} none call).result = .ok d ∧
      [Node.identifier "Path", .literal (.string "^C:$\\")] = [field, .literal (.string text)] ∧
      field.fieldPath none = .ok p ∧ patternOn? p.dotted d = some pattern ∧
      pattern = "^\\^C:\\$\\\\" ∧
      (∀ m' text', Pattern.read? pattern = some (m', text') ↔ m' = .startsWith ∧ text' = text) ∧
      pattern.toList = ['^'] ++ body ++ [] ∧ Pattern.Spells body text.toList ∧
      ∀ (o' : Options) (base'? : Option FieldPath) (m' : TextSearch) (args' : List Node),
        (ofNode o' base'? (.call m'.function args')).result = .ok d →
          m' = .startsWith ∧ ∃ field', args' = [field', .literal (.string text)] := by
  intro call
  have hpath : (Node.identifier "Path").fieldPath none =
      .ok ⟨["Path"], by decide, by decide +kernel⟩ := by
    decide +kernel
  have hresult := result_search (o := {}) (m := .startsWith) hpath "^C:$\\"
  obtain ⟨field, text, p, pattern, body, hargs, hp, hpattern, hread, hbody, hspells, hcalls⟩ :=
    read?_of_search hresult
  have heq : pattern = "^\\^C:\\$\\\\" := by
    rw [Pattern.eq_pattern_of_read? ((hread _ _).mpr ⟨rfl, rfl⟩)]
    cases hargs
    decide +kernel
  exact ⟨_, field, text, p, pattern, body, hresult, hargs, hp, hpattern, heq, hread, hbody,
    hspells, hcalls⟩

end Condition

end EntityQuery
