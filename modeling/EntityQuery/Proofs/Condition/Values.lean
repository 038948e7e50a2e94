import EntityQuery.Proofs.Condition.Agreement
import EntityQuery.Proofs.FieldPath.MemberPath

/-!
# Fields and values

The operands that expressions can have, told without the functions that read them. A field is an
identifier of which every segment can stand in a path. A value is a literal, behind any number of
signs, that stands for itself or is text of the form that its type asks for.
-/

namespace EntityQuery

/-! ## Fields -/

namespace Node

/-- The node names a field. -/
inductive IsField : Node → Prop
  | identifier {name : String} (h : IsMemberPath name) : IsField (.identifier name)

/-- Whether a field can be resolved does not depend on the base. -/
theorem exists_fieldPath_iff {base? : Option FieldPath} {n : Node} :
    (∃ p, n.fieldPath base? = .ok p) ↔ n.IsField := by
  cases n with
  | identifier name =>
    have hname : (∃ p, FieldPath.ofMemberPath name = .ok p) ↔ IsMemberPath name :=
      FieldPath.exists_ofMemberPath_iff
    constructor
    · rintro ⟨p, hp⟩
      unfold fieldPath at hp
      dsimp only at hp
      split at hp
      · rename_i q hq
        exact .identifier (hname.mp ⟨q, hq⟩)
      · cases hp
    · rintro ⟨h⟩
      obtain ⟨p, hp⟩ := hname.mpr h
      exact ⟨p.under base?, by rw [fieldPath, hp]⟩
  | _ =>
    -- No other node names a field.
    constructor
    · rintro ⟨_, h⟩
      cases h
    · intro h
      cases h

theorem IsField.exists_fieldPath {n : Node} (h : n.IsField) (base? : Option FieldPath) :
    ∃ p, n.fieldPath base? = .ok p :=
  exists_fieldPath_iff.mpr h

end Node

/-! ## Signs -/

/-- The literal that a node stands for. A sign turns a number into another one, but the least integer
has no opposite. -/
inductive Node.StandsFor : Node → Literal → Prop
  | literal (l : Literal) : StandsFor (.literal l) l
  | integer {n : Node} {k : Int64} (h : StandsFor n (.integer k)) (hk : k ≠ Int64.minValue) :
      StandsFor (.unary .negate n) (.integer (-k))
  | double {n : Node} {x : Binary64} (h : StandsFor n (.double x)) :
      StandsFor (.unary .negate n) (.double x.neg)
  | decimal {n : Node} {d : Decimal} (h : StandsFor n (.decimal d)) :
      StandsFor (.unary .negate n) (.decimal d.neg)

theorem Node.StandsFor.literal?_eq {n : Node} {l : Literal} (h : n.StandsFor l) :
    n.literal? = .ok (some l) := by
  induction h with
  | literal l => rfl
  | integer _ hk ih => rw [literal?, ih]; simp [Literal.neg?, hk]
  | double _ ih => rw [literal?, ih]; rfl
  | decimal _ ih => rw [literal?, ih]; rfl

theorem Node.standsFor_of_literal? {n : Node} {l : Literal} (h : n.literal? = .ok (some l)) :
    n.StandsFor l := by
  fun_induction Node.literal? n generalizing l with
  | case1 l' =>
    cases h
    exact .literal l'
  | case4 operand l' hl' negated hneg ih =>
    -- The sign is read as the sign of what the operand stands for.
    cases h
    have hoperand : operand.StandsFor l' := ih hl'
    cases l' with
    | integer k =>
      by_cases hk : k = Int64.minValue
      · simp [Literal.neg?, hk] at hneg
      · simp only [Literal.neg?, hk, if_false] at hneg
        cases hneg
        exact .integer hoperand hk
    | double x =>
      cases hneg
      exact .double hoperand
    | decimal d =>
      cases hneg
      exact .decimal hoperand
    | _ => cases hneg
  | _ => cases h

theorem Node.literal?_eq_some_iff {n : Node} {l : Literal} :
    n.literal? = .ok (some l) ↔ n.StandsFor l :=
  ⟨standsFor_of_literal?, StandsFor.literal?_eq⟩

/-! ## GUIDs -/

/-- What a GUID has at a place: a hyphen at four of them, and at all others a hexadecimal digit of
either case. -/
def IsGuidByte (i b : Nat) : Prop :=
  if i ∈ [8, 13, 18, 23] then b = 45
  else (48 ≤ b ∧ b ≤ 57) ∨ (65 ≤ b ∧ b ≤ 70) ∨ (97 ≤ b ∧ b ≤ 102)

/-- The text is 36 bytes, each of them what a GUID has at its place. -/
def IsGuid (s : String) : Prop :=
  s.toByteArray.data.toList.length = 36 ∧
    ∀ i b, s.toByteArray.data.toList[i]? = some b → IsGuidByte i b.toNat

theorem IsGuidByte.lt {i b : Nat} (h : IsGuidByte i b) : b < 128 := by
  unfold IsGuidByte at h
  split at h <;> omega

namespace Text

/-- A character outside ASCII has a byte outside ASCII. -/
theorem toNat_lt_of_utf8EncodeChar {c : Char}
    (h : ∀ b ∈ String.utf8EncodeChar c, b.toNat < 128) : c.toNat < 128 := by
  have hc : c.val.toNat = c.toNat := rfl
  unfold String.utf8EncodeChar at h
  dsimp only at h
  by_cases h1 : c.val.toNat ≤ 0x7f
  · omega
  rw [if_neg h1] at h
  -- The first byte of each longer form says with its high bits how many bytes follow.
  by_cases h2 : c.val.toNat ≤ 0x7ff
  · rw [if_pos h2] at h
    have hfirst := h _ List.mem_cons_self
    simp only [UInt8.toNat_ofNat'] at hfirst
    omega
  rw [if_neg h2] at h
  by_cases h3 : c.val.toNat ≤ 0xffff
  · rw [if_pos h3] at h
    have hfirst := h _ List.mem_cons_self
    simp only [UInt8.toNat_ofNat'] at hfirst
    omega
  · rw [if_neg h3] at h
    have hfirst := h _ List.mem_cons_self
    simp only [UInt8.toNat_ofNat'] at hfirst
    omega

theorem map_toNat_flatMap_utf8EncodeChar {cs : List Char} (h : ∀ c ∈ cs, c.toNat < 128) :
    (cs.flatMap String.utf8EncodeChar).map UInt8.toNat = cs.map Char.toNat := by
  induction cs with
  | nil => rfl
  | cons c cs ih =>
    have hc : c.val.toNat < 128 := h c List.mem_cons_self
    have hsize : c.utf8Size = 1 := by
      rw [Char.utf8Size_eq_one_iff, UInt32.le_iff_toNat_le]
      show c.val.toNat ≤ 127
      omega
    rw [List.flatMap_cons, List.map_append, ih fun d hd => h d (List.mem_cons_of_mem _ hd),
      String.utf8EncodeChar_eq_singleton hsize]
    have hbyte : c.val.toUInt8.toNat = c.val.toNat := by
      rw [UInt32.toNat_toUInt8]
      omega
    show c.val.toUInt8.toNat :: cs.map Char.toNat = c.toNat :: cs.map Char.toNat
    rw [hbyte]
    rfl

/-- The bytes of a text are its characters if either of the two are all ASCII. -/
theorem map_toNat_toByteArray {s : String}
    (h : (∀ c ∈ s.toList, c.toNat < 128) ∨ ∀ b ∈ s.toByteArray.data.toList, b.toNat < 128) :
    s.toByteArray.data.toList.map UInt8.toNat = s.toList.map Char.toNat := by
  have hbytes : s.toByteArray.data.toList = s.toList.flatMap String.utf8EncodeChar := by
    rw [← String.utf8Encode_toList, List.utf8Encode, List.toList_data_toByteArray]
  rw [hbytes] at h ⊢
  apply map_toNat_flatMap_utf8EncodeChar
  rcases h with h | h
  · exact h
  · intro c hc
    apply toNat_lt_of_utf8EncodeChar
    intro b hb
    exact h b (List.mem_flatMap.mpr ⟨c, hc, hb⟩)

theorem isSome_hexDigit?_iff {c : Char} :
    (hexDigit? c).isSome = true ↔ (48 ≤ c.toNat ∧ c.toNat ≤ 57) ∨ (65 ≤ c.toNat ∧ c.toNat ≤ 70) ∨
      (97 ≤ c.toNat ∧ c.toNat ≤ 102) := by
  have hle (a b : Char) : a ≤ b ↔ a.toNat ≤ b.toNat := UInt32.le_iff_toNat_le
  simp only [hexDigit?, hle]
  grind

end Text

theorem isGuidByte_toNat_iff {i : Nat} {c : Char} :
    IsGuidByte i c.toNat ↔
      (if i ∈ [8, 13, 18, 23] then c == '-' else (Text.hexDigit? c).isSome) = true := by
  unfold IsGuidByte
  by_cases hi : i ∈ [8, 13, 18, 23]
  · rw [if_pos hi, if_pos hi, beq_iff_eq, ← Char.toNat_inj]
    rfl
  · rw [if_neg hi, if_neg hi, Text.isSome_hexDigit?_iff]

theorem Literal.spellsGuid_iff {s : String} : spellsGuid s = true ↔ IsGuid s := by
  -- Both sides say the same of numbers: of the characters here, of the bytes there.
  have hchars : spellsGuid s = true ↔ (s.toList.map Char.toNat).length = 36 ∧
      ∀ i b, (s.toList.map Char.toNat)[i]? = some b → IsGuidByte i b := by
    rw [spellsGuid, Bool.and_eq_true, beq_iff_eq, List.all_eq_true, List.length_map]
    apply and_congr_right'
    simp only [Prod.forall, List.mem_zipIdx_iff_getElem?, List.getElem?_map, Option.map_eq_some_iff,
      forall_exists_index, and_imp, forall_apply_eq_imp_iff₂, isGuidByte_toNat_iff]
    exact forall_comm
  have hbytes : IsGuid s ↔ (s.toByteArray.data.toList.map UInt8.toNat).length = 36 ∧
      ∀ i b, (s.toByteArray.data.toList.map UInt8.toNat)[i]? = some b → IsGuidByte i b := by
    simp [IsGuid]
  have hlt {ns : List Nat} (h : ∀ i b, ns[i]? = some b → IsGuidByte i b) : ∀ b ∈ ns, b < 128 := by
    intro b hb
    obtain ⟨i, hi⟩ := List.mem_iff_getElem?.mp hb
    exact (h i b hi).lt
  rw [hchars, hbytes]
  constructor
  · intro h
    rw [Text.map_toNat_toByteArray (.inl (by simpa using hlt h.2))]
    exact h
  · intro h
    rw [← Text.map_toNat_toByteArray (.inr (by simpa using hlt h.2))]
    exact h

/-! ## Values -/

/-- The literal is a value. Only the types that stay text until they are used ask for a form. -/
inductive Literal.Converts : Literal → Prop
  | null : Converts .null
  | boolean (b : Bool) : Converts (.boolean b)
  | integer (k : Int64) : Converts (.integer k)
  | double (x : Binary64) : Converts (.double x)
  | decimal (d : Decimal) : Converts (.decimal d)
  | string (s : String) : Converts (.string s)
  | dateTime {s : String} (h : (Timestamp.read? s).isSome) : Converts (.dateTime s)
  | date {s : String} (h : (Date.ofText? s).isSome) : Converts (.date s)
  | guid {s : String} (h : IsGuid s) : Converts (.guid s)

theorem Literal.exists_toValue_iff {operator : String} {l : Literal} :
    (∃ v, l.toValue operator = .ok v) ↔ l.Converts := by
  -- Only a literal whose text is read as something else can fail to convert.
  constructor
  · rintro ⟨v, h⟩
    cases l with
    | null => exact .null
    | boolean b => exact .boolean b
    | integer k => exact .integer k
    | double x => exact .double x
    | decimal d => exact .decimal d
    | string s => exact .string s
    | dateTime s =>
      apply Converts.dateTime
      cases hs : Timestamp.read? s <;> simp [toValue, hs] at h ⊢
    | date s =>
      apply Converts.date
      cases hs : Date.ofText? s <;> simp [toValue, hs] at h ⊢
    | guid s =>
      apply Converts.guid
      by_cases hs : spellsGuid s = true
      · exact spellsGuid_iff.mp hs
      · simp [toValue, hs] at h
  · intro h
    cases h with
    | dateTime h =>
      obtain ⟨t, ht⟩ := Option.isSome_iff_exists.mp h
      exact ⟨_, by rw [toValue, ht]⟩
    | date h =>
      obtain ⟨d, hd⟩ := Option.isSome_iff_exists.mp h
      exact ⟨_, by rw [toValue, hd]⟩
    | guid h => exact ⟨_, by rw [toValue, if_pos (spellsGuid_iff.mpr h)]⟩
    | _ => exact ⟨_, rfl⟩

namespace Node

/-- The node can stand beside a field. -/
def IsValue (n : Node) : Prop :=
  ∃ l, n.StandsFor l ∧ l.Converts

theorem IsValue.kind_ne_identifier {n : Node} (h : n.IsValue) : n.kind ≠ .identifier := by
  obtain ⟨l, h, -⟩ := h
  cases h <;> exact nofun

theorem exists_operand_iff {operator : String} {n : Node} :
    (∃ v, n.operand operator = .ok v) ↔ n.IsValue := by
  constructor
  · rintro ⟨v, h⟩
    unfold operand at h
    split at h
    · cases h
    · rename_i l hl
      exact ⟨l, literal?_eq_some_iff.mp hl, Literal.exists_toValue_iff.mp ⟨v, h⟩⟩
    · cases h
  · rintro ⟨l, hl, hconverts⟩
    rw [operand, literal?_eq_some_iff.mpr hl]
    exact Literal.exists_toValue_iff.mpr hconverts

theorem IsValue.exists_operand {n : Node} (h : n.IsValue) (operator : String) :
    ∃ v, n.operand operator = .ok v :=
  exists_operand_iff.mpr h

/-- The values of a list are there if each of them is. -/
theorem exists_operands_iff {operator : String} {ns : List Node} :
    (∃ vs, operands operator ns = .ok vs) ↔ ∀ n ∈ ns, n.IsValue := by
  induction ns with
  | nil => exact ⟨fun _ => List.forall_mem_nil _, fun _ => ⟨[], rfl⟩⟩
  | cons n ns ih =>
    rw [List.forall_mem_cons, ← ih, ← @exists_operand_iff operator, operands]
    cases hn : n.operand operator with
    | error e => simp
    | ok v => cases hns : operands operator ns <;> simp [Except.map]

end Node

end EntityQuery
