import EntityQuery.Proofs.Json.Grammar

/-!
# Reading what is spelled

Every text that spells a tree is read as that tree, by a reader that may go as deep as the tree is
nested. What follows the text does not matter, as long as it does not go on with a number.
-/

namespace EntityQuery.Json

/-! ## Strings -/

theorem TextSpells.read {s cs : List Char} (h : TextSpells s cs) (rest : List Char) :
    readText? (cs ++ '"' :: rest) = some (s, rest) := by
  induction h with
  | nil => rfl
  | @plain c s cs hc hquote hslash _ ih =>
    have hcontrol : (decide (c.toNat < 0x20) || c == '\\') = false := by
      simpa [hslash] using hc
    rw [List.cons_append, readText?, if_neg (by simpa using hcontrol), ih]
    · rfl
    · exact fun h => hquote h
    · exact fun _ _ _ _ _ h => absurd h hslash
    · exact fun _ _ h => absurd h hslash
  | @letter e c s cs hc h ih =>
    -- The letter of a code unit stands for no character.
    have he : e ≠ 'u' := by
      rintro rfl
      cases hc
    rw [List.cons_append, List.cons_append, readText?, hc, ih]
    · rfl
    · rintro a b c d rest rfl
      exact absurd rfl he
  | unit hu hhigh hlow _ ih =>
    simp only [List.cons_append, readText?, hu, hhigh, hlow, ih]
    rfl
  | pair hu hl hhigh hlow _ ih =>
    simp only [List.cons_append, readText?, hu, hl, hhigh, hlow, ih]
    rfl

theorem readString?_append {name : String} {ns : List Char} (h : TextSpells name.toList ns)
    (rest : List Char) :
    readString? ('"' :: (ns ++ '"' :: rest)) = some (name, rest) := by
  rw [readString?, h.read rest]
  exact congrArg (fun s => some (s, rest)) String.ofList_toList

/-! ## Blanks -/

theorem skipSpace_append {w : List Char} (hw : IsBlank w) (cs : List Char) :
    skipSpace (w ++ cs) = skipSpace cs :=
  List.dropWhile_append_of_pos hw

theorem skipSpace_cons {c : Char} (hc : isSpace c = false) (cs : List Char) :
    skipSpace (c :: cs) = c :: cs := by
  rw [skipSpace, List.dropWhile_cons, if_neg (by simp [hc])]

theorem skipSpace_append_cons {w : List Char} (hw : IsBlank w) {c : Char} (hc : isSpace c = false)
    (cs : List Char) : skipSpace (w ++ c :: cs) = c :: cs := by
  rw [skipSpace_append hw, skipSpace_cons hc]

theorem skipSpace_blank {w : List Char} (hw : IsBlank w) : skipSpace w = [] := by
  have happend := skipSpace_append hw []
  rwa [List.append_nil] at happend

/-- Behind a value come blanks and a mark that no number goes on with. -/
theorem endsNumber_append {w : List Char} (hw : IsBlank w) {c : Char}
    (hc : c.isDigit = false ∧ c ≠ '.' ∧ c ≠ 'e' ∧ c ≠ 'E') (rest : List Char) :
    EndsNumber (w ++ c :: rest) := by
  intro d hd
  cases w with
  | nil =>
    obtain rfl : c = d := by simpa using hd
    exact hc
  | cons b w =>
    obtain rfl : b = d := by simpa using hd
    have hb : isSpace b = true := hw b List.mem_cons_self
    simp only [isSpace, Bool.or_eq_true, beq_iff_eq] at hb
    rcases hb with ((rfl | rfl) | rfl) | rfl <;> decide

/-- Blanks before a value are passed over. -/
theorem readValue?_blank {w : List Char} (hw : IsBlank w) (fuel depth : Nat) (cs : List Char) :
    readValue? fuel depth (w ++ cs) = readValue? fuel depth cs := by
  cases fuel with
  | zero => rfl
  | succ fuel =>
    unfold readValue?
    rw [skipSpace_append hw]

/-! ## Values -/

/-- A number starts with a digit or a minus sign. -/
theorem Numeral.Spells.head {n : Numeral} {cs : List Char} (h : n.Spells cs) :
    ∃ c cs', cs = c :: cs' ∧ (c = '-' ∨ c.isDigit = true) := by
  cases h with
  | negative => exact ⟨_, _, rfl, .inl rfl⟩
  | unsigned hwhole =>
    obtain ⟨d, ds, rfl⟩ := List.exists_cons_of_ne_nil hwhole.1.1
    exact ⟨d, _, rfl, .inr (hwhole.1.2 d List.mem_cons_self)⟩

/-- What starts like a number starts like nothing else. -/
theorem ne_of_numberHead {c d : Char} (hc : c = '-' ∨ c.isDigit = true) (hminus : d ≠ '-')
    (hdigit : d.isDigit = false) : c ≠ d := by
  rintro rfl
  rcases hc with hc | hc
  · exact hminus hc
  · rw [hc] at hdigit
    cases hdigit

theorem isSpace_of_numberHead {c : Char} (hc : c = '-' ∨ c.isDigit = true) : isSpace c = false := by
  simp only [isSpace, Bool.or_eq_false_iff, beq_eq_false_iff_ne]
  exact ⟨⟨⟨ne_of_numberHead hc (by decide) (by decide),
    ne_of_numberHead hc (by decide) (by decide)⟩,
    ne_of_numberHead hc (by decide) (by decide)⟩, ne_of_numberHead hc (by decide) (by decide)⟩

/-- The spelling of a value starts with neither a blank nor a closing bracket. -/
theorem Source.Spells.head {s : Source} {cs : List Char} (h : s.Spells cs) :
    ∃ c cs', cs = c :: cs' ∧ isSpace c = false ∧ c ≠ ']' := by
  cases h with
  | number h =>
    obtain ⟨c, cs', rfl, hc⟩ := h.head
    exact ⟨c, cs', rfl, isSpace_of_numberHead hc, ne_of_numberHead hc (by decide) (by decide)⟩
  | _ => exact ⟨_, _, rfl, by decide, by decide⟩

/-- The blanks before the first item can be left out. -/
theorem ItemsSpell.strip {items : List Source} {cs : List Char} (h : ItemsSpell items cs) :
    ∃ w c cs', cs = w ++ c :: cs' ∧ IsBlank w ∧ isSpace c = false ∧ c ≠ ']' ∧
      ItemsSpell items (c :: cs') := by
  cases h with
  | last hw h hw' =>
    obtain ⟨c, cs', rfl, hc, hbracket⟩ := h.head
    exact ⟨_, c, _, rfl, hw, hc, hbracket, .last isBlank_nil h hw'⟩
  | cons hw h hw' hrest =>
    obtain ⟨c, cs', rfl, hc, hbracket⟩ := h.head
    exact ⟨_, c, _, rfl, hw, hc, hbracket, .cons isBlank_nil h hw' hrest⟩

/-- The blanks before the first member can be left out. -/
theorem MembersSpell.strip {members : List (String × Source)} {cs : List Char}
    (h : MembersSpell members cs) :
    ∃ w cs', cs = w ++ '"' :: cs' ∧ IsBlank w ∧ MembersSpell members ('"' :: cs') := by
  cases h with
  | last hw hname hcolon hvalue h hend =>
    exact ⟨_, _, rfl, hw, .last isBlank_nil hname hcolon hvalue h hend⟩
  | cons hw hname hcolon hvalue h hend hrest =>
    exact ⟨_, _, rfl, hw, .cons isBlank_nil hname hcolon hvalue h hend hrest⟩

theorem readScalar?_number {n : Numeral} {cs rest : List Char} (h : n.Spells cs)
    (hrest : EndsNumber rest) : readScalar? (cs ++ rest) = some (.number n, rest) := by
  have hscan := h.scan hrest
  obtain ⟨c, cs', rfl, hc⟩ := h.head
  rw [List.cons_append] at hscan ⊢
  rw [readScalar?, hscan]
  · rfl
  all_goals exact fun _ h => ne_of_numberHead hc (by decide) (by decide) (List.cons.inj h).1

/-- A value that starts with neither a bracket nor a brace is a scalar. -/
theorem readValue?_scalar {c : Char} (hspace : isSpace c = false) (hbracket : c ≠ '[')
    (hbrace : c ≠ '\x7b') (fuel depth : Nat) (cs : List Char) :
    readValue? (fuel + 1) depth (c :: cs) = readScalar? (c :: cs) := by
  unfold readValue?
  rw [skipSpace_cons hspace]
  split
  all_goals first
    | rfl
    | exact absurd (List.cons.inj ‹_›).1 ‹_›

theorem readValue?_noItems {w : List Char} (hw : IsBlank w) (fuel depth : Nat) (rest : List Char) :
    readValue? (fuel + 1) (depth + 1) ('[' :: (w ++ ']' :: rest)) = some (.array [], rest) := by
  unfold readValue?
  rw [skipSpace_cons (by decide)]
  simp only [skipSpace_append_cons hw (show isSpace ']' = false by decide)]

theorem readValue?_noMembers {w : List Char} (hw : IsBlank w) (fuel depth : Nat)
    (rest : List Char) :
    readValue? (fuel + 1) (depth + 1) ('\x7b' :: (w ++ '\x7d' :: rest)) =
      some (.object [], rest) := by
  unfold readValue?
  rw [skipSpace_cons (by decide)]
  simp only [skipSpace_append_cons hw (show isSpace '\x7d' = false by decide)]

/-- Behind a bracket, a value is an array of the items that follow. -/
theorem readValue?_items {w : List Char} (hw : IsBlank w) {c : Char} (hc : isSpace c = false)
    (hbracket : c ≠ ']') (fuel depth : Nat) (cs : List Char) :
    readValue? (fuel + 1) (depth + 1) ('[' :: (w ++ c :: cs)) =
      (readItems? fuel depth (c :: cs)).map fun (items, r) => (.array items, r) := by
  unfold readValue?
  rw [skipSpace_cons (by decide)]
  simp only [skipSpace_append_cons hw hc]
  split
  · exact absurd (List.cons.inj ‹_›).1 hbracket
  · rfl

/-- Behind a brace, a value is an object of the members that follow. -/
theorem readValue?_members {w : List Char} (hw : IsBlank w) (fuel depth : Nat) (cs : List Char) :
    readValue? (fuel + 1) (depth + 1) ('\x7b' :: (w ++ '"' :: cs)) =
      (readMembers? fuel depth ('"' :: cs)).map fun (members, r) => (.object members, r) := by
  unfold readValue?
  rw [skipSpace_cons (by decide)]
  simp only [skipSpace_append_cons hw (show isSpace '"' = false by decide)]
  rfl

mutual

theorem readValue?_append (fuel : Nat) {depth : Nat} {s : Source} {cs rest : List Char}
    (h : s.Spells cs) (hfuel : 2 * cs.length ≤ fuel) (hdepth : s.depth ≤ depth)
    (hrest : EndsNumber rest) : readValue? fuel depth (cs ++ rest) = some (s, rest) := by
  cases fuel with
  | zero =>
    obtain ⟨c, cs', rfl, -⟩ := h.head
    simp at hfuel
  | succ fuel =>
    -- An array or an object hands one call of the fuel to its items, which are one bracket shorter.
    cases h with
    | null => rfl
    | isTrue => rfl
    | isFalse => rfl
    | number h =>
      have hscalar := readScalar?_number h hrest
      obtain ⟨c, cs', rfl, hc⟩ := h.head
      rw [List.cons_append] at hscalar ⊢
      rw [← hscalar]
      exact readValue?_scalar (isSpace_of_numberHead hc)
        (ne_of_numberHead hc (by decide) (by decide)) (ne_of_numberHead hc (by decide) (by decide))
        fuel depth _
    | @string t cs h =>
      rw [List.cons_append, List.append_assoc, List.singleton_append,
        readValue?_scalar (by decide) (by decide) (by decide), readScalar?, h.read rest]
      exact congrArg (fun t => some (Source.string t, rest)) String.ofList_toList
    | @noItems w hw =>
      obtain ⟨depth, rfl⟩ := Nat.exists_eq_succ_of_ne_zero (Nat.ne_of_gt hdepth)
      rw [List.cons_append, List.append_assoc, List.singleton_append]
      exact readValue?_noItems hw fuel depth rest
    | @noMembers w hw =>
      obtain ⟨depth, rfl⟩ := Nat.exists_eq_succ_of_ne_zero (Nat.ne_of_gt hdepth)
      rw [List.cons_append, List.append_assoc, List.singleton_append]
      exact readValue?_noMembers hw fuel depth rest
    | @array items cs h =>
      have hpos : 0 < depth := Nat.lt_of_lt_of_le (Nat.succ_pos _) hdepth
      obtain ⟨depth, rfl⟩ := Nat.exists_eq_add_one_of_ne_zero (Nat.ne_of_gt hpos)
      obtain ⟨w, c, cs', rfl, hw, hc, hbracket, h⟩ := h.strip
      have hlength : 2 * (c :: cs').length + 1 ≤ fuel := by
        simp only [List.length_cons, List.length_append] at hfuel ⊢
        omega
      have hitems := readItems?_append fuel h hlength (Nat.le_of_succ_le_succ hdepth) rest
      simp only [List.cons_append, List.append_assoc, List.nil_append] at hitems ⊢
      rw [readValue?_items hw hc hbracket, hitems]
      rfl
    | @object members cs h =>
      have hpos : 0 < depth := Nat.lt_of_lt_of_le (Nat.succ_pos _) hdepth
      obtain ⟨depth, rfl⟩ := Nat.exists_eq_add_one_of_ne_zero (Nat.ne_of_gt hpos)
      obtain ⟨w, cs', rfl, hw, h⟩ := h.strip
      have hlength : 2 * ('"' :: cs').length + 1 ≤ fuel := by
        simp only [List.length_cons, List.length_append] at hfuel ⊢
        omega
      have hmembers := readMembers?_append fuel h hlength (Nat.le_of_succ_le_succ hdepth) rest
      simp only [List.cons_append, List.append_assoc, List.nil_append] at hmembers ⊢
      rw [readValue?_members hw, hmembers]
      rfl

theorem readItems?_append (fuel : Nat) {depth : Nat} {items : List Source} {cs : List Char}
    (h : ItemsSpell items cs) (hfuel : 2 * cs.length + 1 ≤ fuel) (hdepth : itemsDepth items ≤ depth)
    (rest : List Char) : readItems? fuel depth (cs ++ ']' :: rest) = some (items, rest) := by
  cases fuel with
  | zero => simp at hfuel
  | succ fuel =>
    cases h with
    | @last s w cs w' hw h hend =>
      have hlength : 2 * cs.length ≤ fuel := by
        simp only [List.length_append] at hfuel
        omega
      have hread := readValue?_append fuel h hlength (Nat.le_trans (Nat.le_max_left _ _) hdepth)
        (endsNumber_append hend (c := ']') (by decide) rest)
      rw [List.append_assoc, List.append_assoc, readItems?, readValue?_blank hw, hread]
      simp only [Option.bind_eq_bind, Option.bind_some,
        skipSpace_append_cons hend (show isSpace ']' = false by decide)]
      rfl
    | @cons s items w cs w' cs' hw h hend hrest =>
      simp only [List.length_append, List.length_cons] at hfuel
      have hread := readValue?_append fuel h (by omega) (Nat.le_trans (Nat.le_max_left _ _) hdepth)
        (endsNumber_append hend (c := ',') (by decide) (cs' ++ ']' :: rest))
      have hitems := readItems?_append fuel hrest (by omega)
        (Nat.le_trans (Nat.le_max_right _ _) hdepth) rest
      simp only [List.append_assoc, List.cons_append]
      rw [readItems?, readValue?_blank hw, hread]
      simp only [Option.bind_eq_bind, Option.bind_some,
        skipSpace_append_cons hend (show isSpace ',' = false by decide), hitems]
      rfl

theorem readMembers?_append (fuel : Nat) {depth : Nat} {members : List (String × Source)}
    {cs : List Char} (h : MembersSpell members cs) (hfuel : 2 * cs.length + 1 ≤ fuel)
    (hdepth : membersDepth members ≤ depth) (rest : List Char) :
    readMembers? fuel depth (cs ++ '\x7d' :: rest) = some (members, rest) := by
  cases fuel with
  | zero => simp at hfuel
  | succ fuel =>
    cases h with
    | @last name s w ns w₁ w₂ cs w₃ hw hname hcolon hvalue h hend =>
      simp only [List.length_append, List.length_cons] at hfuel
      have hread := readValue?_append fuel h (by omega) (Nat.le_trans (Nat.le_max_left _ _) hdepth)
        (endsNumber_append hend (c := '\x7d') (by decide) rest)
      simp only [List.append_assoc, List.cons_append]
      rw [readMembers?, skipSpace_append_cons hw (by decide), readString?_append hname]
      simp only [Option.bind_eq_bind, Option.bind_some,
        skipSpace_append_cons hcolon (show isSpace ':' = false by decide), readValue?_blank hvalue,
        hread, skipSpace_append_cons hend (show isSpace '\x7d' = false by decide)]
      rfl
    | @cons name s members w ns w₁ w₂ cs w₃ cs' hw hname hcolon hvalue h hend hrest =>
      simp only [List.length_append, List.length_cons] at hfuel
      have hread := readValue?_append fuel h (by omega) (Nat.le_trans (Nat.le_max_left _ _) hdepth)
        (endsNumber_append hend (c := ',') (by decide) (cs' ++ '\x7d' :: rest))
      have hmembers := readMembers?_append fuel hrest (by omega)
        (Nat.le_trans (Nat.le_max_right _ _) hdepth) rest
      simp only [List.append_assoc, List.cons_append]
      rw [readMembers?, skipSpace_append_cons hw (by decide), readString?_append hname]
      simp only [Option.bind_eq_bind, Option.bind_some,
        skipSpace_append_cons hcolon (show isSpace ':' = false by decide), readValue?_blank hvalue,
        hread, skipSpace_append_cons hend (show isSpace ',' = false by decide), hmembers]
      rfl

end

/-- **A text that spells a tree is read as that tree**, if the reader may go as deep as the tree is
nested. -/
theorem Source.SpelledBy.ofText? {s : Source} {text : String} (h : s.SpelledBy text) {depth : Nat}
    (hdepth : s.depth ≤ depth) : Source.ofText? depth text = some s := by
  obtain ⟨w, cs, w', hw, h, hend, htext⟩ := h
  have hrest : EndsNumber w' := by
    have happend := endsNumber_append hend (c := ']') (by decide) []
    intro c hc
    refine happend c ?_
    cases w' with
    | nil => cases hc
    | cons => exact hc
  have hlength : 2 * cs.length ≤ 2 * (w ++ (cs ++ w')).length + 2 := by
    simp only [List.length_append]
    omega
  have hread := readValue?_append _ h hlength hdepth hrest
  rw [Source.ofText?, htext]
  simp only [readValue?_blank hw, hread, Option.bind_eq_bind, Option.bind_some,
    skipSpace_blank hend, if_true]

/-- The text is JSON for the tree, and every reader that may go deep enough reads this tree. -/
def Source.IsReadFrom (s : Source) (text : String) : Prop :=
  s.SpelledBy text ∧ ∀ depth, s.depth ≤ depth → Source.ofText? depth text = some s

theorem Source.SpelledBy.isReadFrom {s : Source} {text : String} (h : s.SpelledBy text) :
    s.IsReadFrom text :=
  ⟨h, fun _ hdepth => h.ofText? hdepth⟩

/-- A text is JSON for one tree only. -/
theorem Source.IsReadFrom.unique {s s' : Source} {text : String} (h : s.IsReadFrom text)
    (h' : s'.IsReadFrom text) : s = s' := by
  have hread := h.2 _ (Nat.le_max_left s.depth s'.depth)
  rw [h'.2 _ (Nat.le_max_right s.depth s'.depth)] at hread
  exact (Option.some.inj hread).symm

end EntityQuery.Json
