import EntityQuery.Condition.Pattern

/-!
# Reading patterns

A pattern is read back as the text that it finds and the place where it finds it. Every pattern that
is written for a text is read back as that text, so no text is taken for an anchor or for anything
else that it is not.
-/

namespace EntityQuery

namespace Pattern

/-- Read a pattern behind its opening anchor: the text that it stands for, and whether an anchor
ties it to the end. A metacharacter that is not escaped is refused, but for that anchor. -/
def readText? : List Char → Option (List Char × Bool)
  | [] => some ([], false)
  | ['$'] => some ([], true)
  | '\\' :: c :: cs =>
    if c ∈ metacharacters then (readText? cs).map fun (text, anchored) => (c :: text, anchored)
    else none
  | c :: cs =>
    if c ∈ metacharacters then none
    else (readText? cs).map fun (text, anchored) => (c :: text, anchored)

/-- Read a pattern. No search has an anchor at both ends. -/
def read? (pattern : String) : Option (TextSearch × String) :=
  match pattern.toList with
  | '^' :: cs =>
    match readText? cs with
    | some (text, false) => some (.startsWith, String.ofList text)
    | _ => none
  | cs =>
    (readText? cs).map fun (text, anchored) =>
      (if anchored then .endsWith else .contains, String.ofList text)

/-- An escaped text is read up to its end, whatever follows it. -/
theorem readText?_escape_append (text rest : List Char) :
    readText? (escape text ++ rest) =
      (readText? rest).map fun (t, anchored) => (text ++ t, anchored) := by
  induction text with
  | nil => cases h : readText? rest <;> simp [escape, h]
  | cons c text ih =>
    rw [escape]
    split
    · rename_i hc
      rw [List.cons_append, List.cons_append, readText?.eq_3, if_pos hc, ih, Option.map_map]
      rfl
    · rename_i hc
      have hdollar : c ≠ '$' := fun h => hc (h ▸ by decide)
      have hslash : c ≠ '\\' := fun h => hc (h ▸ by decide)
      rw [List.cons_append, readText?.eq_4 _ _ (fun h => absurd h hdollar)
        (fun _ _ h => absurd h hslash), if_neg hc, ih, Option.map_map]
      rfl

/-- No escaped text starts with the anchor. -/
theorem head?_escape_append_ne (text rest : List Char) (h : rest.head? ≠ some '^') :
    (escape text ++ rest).head? ≠ some '^' := by
  cases text with
  | nil => simpa [escape] using h
  | cons c text =>
    rw [escape]
    split
    · simp
    · rename_i hc
      have hanchor : c ≠ '^' := fun he => hc (he ▸ by decide)
      simpa using hanchor

theorem read?_of_head?_ne {cs : List Char} (h : cs.head? ≠ some '^') :
    read? (String.ofList cs) = (readText? cs).map fun (text, anchored) =>
      (if anchored then .endsWith else .contains, String.ofList text) := by
  unfold read?
  rw [String.toList_ofList]
  split
  · exact absurd rfl h
  · rfl

/-- The pattern of a search is read as that search for that text. -/
theorem read?_pattern (m : TextSearch) (text : String) :
    read? (m.pattern text) = some (m, text) := by
  -- An escaped text neither starts with one anchor nor ends with the other.
  cases m with
  | contains =>
    have h := readText?_escape_append text.toList []
    rw [List.append_nil] at h
    have hhead := head?_escape_append_ne text.toList [] (by decide)
    rw [List.append_nil] at hhead
    rw [TextSearch.pattern, read?_of_head?_ne hhead, h]
    simp [readText?]
  | startsWith =>
    have h := readText?_escape_append text.toList []
    rw [List.append_nil] at h
    rw [TextSearch.pattern, read?, String.toList_ofList]
    simp [h, readText?]
  | endsWith =>
    have h := readText?_escape_append text.toList ['$']
    have hhead := head?_escape_append_ne text.toList ['$'] (by decide)
    rw [TextSearch.pattern, read?_of_head?_ne hhead, h]
    simp [readText?]

/-! ## What is read -/

/-- The characters spell a text with a backslash before each of its metacharacters, and before
nothing else. -/
inductive Spells : List Char → (text : List Char) → Prop
  | nil : Spells [] []
  | plain {c : Char} {cs text : List Char} (hc : c ∉ metacharacters) (h : Spells cs text) :
      Spells (c :: cs) (c :: text)
  | escaped {c : Char} {cs text : List Char} (hc : c ∈ metacharacters) (h : Spells cs text) :
      Spells ('\\' :: c :: cs) (c :: text)

theorem spells_escape (text : List Char) : Spells (escape text) text := by
  induction text with
  | nil => exact .nil
  | cons c text ih =>
    rw [escape]
    split
    · exact .escaped ‹_› ih
    · exact .plain ‹_› ih

/-- What is read is an escaped text, with nothing behind it but the anchor. -/
theorem eq_escape_of_readText? {cs text : List Char} {anchored : Bool}
    (h : readText? cs = some (text, anchored)) :
    cs = escape text ++ if anchored then ['$'] else [] := by
  fun_induction readText? cs generalizing text with
  | case1 =>
    cases h
    rfl
  | case2 =>
    cases h
    rfl
  | case3 c cs hc ih =>
    obtain ⟨⟨rest, _⟩, hrest, heq⟩ := Option.map_eq_some_iff.mp h
    cases heq
    rw [escape, if_pos hc, ih hrest]
    rfl
  | case4 => cases h
  | case5 => cases h
  | case6 c cs _ _ hc ih =>
    obtain ⟨⟨rest, _⟩, hrest, heq⟩ := Option.map_eq_some_iff.mp h
    cases heq
    rw [escape, if_neg hc, ih hrest]
    rfl

/-- Nothing is read but the patterns of searches. -/
theorem eq_pattern_of_read? {pattern : String} {m : TextSearch} {text : String}
    (h : read? pattern = some (m, text)) : pattern = m.pattern text := by
  apply String.toList_inj.mp
  unfold read? at h
  split at h
  · -- Behind an anchor at the start there is none at the end.
    rename_i cs hcs
    split at h
    · rename_i cs' hread
      cases h
      rw [hcs, eq_escape_of_readText? hread]
      simp [TextSearch.pattern]
    · cases h
  · obtain ⟨⟨text', anchored⟩, hread, heq⟩ := Option.map_eq_some_iff.mp h
    rw [eq_escape_of_readText? hread]
    cases anchored with
    | false =>
      cases heq
      simp [TextSearch.pattern]
    | true =>
      cases heq
      simp [TextSearch.pattern]

end Pattern

end EntityQuery
