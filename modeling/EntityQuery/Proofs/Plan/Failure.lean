import EntityQuery.Proofs.Plan.Sequences

/-!
# What a failure leaves

Reading a node that fails leaves the plan as it was after the part of the node that was read to
its end: the keys, the associations or the clauses before the fault. Of an association nothing is
left if there is a fault anywhere in its options, since they are read into a plan of their own.
-/

namespace EntityQuery.Plan

/-- The node is read as one: an expression, or a clause that is not made of parts. -/
def IsSingle (n : Node) : Prop :=
  n.kind ≠ .orderBy ∧ n.kind ≠ .expand ∧ n.kind ≠ .options

mutual

/-- `Stops o e n p q`: reading the node `n` into the plan `p` fails with `e` and leaves `q`. A rule
for a node that is made of parts names the parts before the fault, which have been read to their
end. -/
inductive Stops (o : Options) (e : CompileError) : Node → Plan → Plan → Prop where
  | single {n : Node} {p : Plan} (hn : IsSingle n) (h : (read o n p).error? = some e) :
      Stops o e n p p
  | key {before after : List Node} {item : Node} {p q : Plan}
      (hbefore : read o (.orderBy before) p = .ok q) (hitem : sortKey q.base? item = .error e) :
      Stops o e (.orderBy (before ++ item :: after)) p q
  | association {before after : List ExpandItem} {item : ExpandItem} {p q : Plan}
      (hbefore : read o (.expand before) p = .ok q) (hitem : ItemStops o e item q.base?) :
      Stops o e (.expand (before ++ item :: after)) p q
  | resource {clauses : QueryOptions} {p : Plan}
      (h : (p.readResource clauses.resource).error? = some e) : Stops o e (.options clauses) p p
  /-- A clause that is no node of its kind. -/
  | kind {clauses : QueryOptions} {before after : List (Clause × Option Node)} {c : Clause}
      {n : Node} {p r q : Plan} (hslots : clauses.slots = before ++ (c, some n) :: after)
      (hresource : p.readResource clauses.resource = .ok r)
      (hbefore : readSlots o before r = .ok q) (hn : n.kind ≠ c.kind)
      (he : e = .unsupported (.node n.kind) (.clause c)) : Stops o e (.options clauses) p q
  /-- A clause that fails in turn, and leaves what it leaves. -/
  | clause {clauses : QueryOptions} {before after : List (Clause × Option Node)} {c : Clause}
      {n : Node} {p r q q' : Plan} (hslots : clauses.slots = before ++ (c, some n) :: after)
      (hresource : p.readResource clauses.resource = .ok r)
      (hbefore : readSlots o before r = .ok q) (hn : n.kind = c.kind) (h : Stops o e n q q') :
      Stops o e (.options clauses) p q'

/-- The item of an expand clause fails with `e` below a base. -/
inductive ItemStops (o : Options) (e : CompileError) : ExpandItem → Option FieldPath → Prop where
  | path {item : ExpandItem} {base? : Option FieldPath}
      (h : item.path.fieldPath base? = .error e) : ItemStops o e item base?
  | kind {item : ExpandItem} {base? : Option FieldPath} {a : FieldPath} {n : Node}
      (ha : item.path.fieldPath base? = .ok a) (hn : item.options = some n)
      (hkind : n.kind ≠ .options) (he : e = .unsupported (.node n.kind) .expandOptions) :
      ItemStops o e item base?
  | options {item : ExpandItem} {base? : Option FieldPath} {a : FieldPath}
      {clauses : QueryOptions} {left : Plan} (ha : item.path.fieldPath base? = .ok a)
      (hclauses : item.options = some (.options clauses))
      (h : Stops o e (.options clauses) (.start (some a)) left) : ItemStops o e item base?

end

variable {o : Options} {e : CompileError} {p q : Plan}

/-! ## Single clauses -/

/-- A node that is read as one fails before it changes anything. -/
theorem eq_of_read_single {n : Node} (hn : IsSingle n) (h : read o n p = .fail q e) : q = p := by
  cases n with
  | orderBy => exact absurd rfl hn.1
  | expand => exact absurd rfl hn.2.1
  | options => exact absurd rfl hn.2.2
  | filter expression? =>
    cases expression? with
    | none => cases h
    | some expression => exact (Outcome.ofResult_eq_fail_iff.mp h).2
  | select items =>
    have hselection : p.readSelection items = .fail q e := h
    unfold readSelection at hselection
    split at hselection
    · cases hselection
    · exact (Outcome.ofResult_eq_fail_iff.mp hselection).2
  | orderKey | skip | top => exact (Outcome.ofResult_eq_fail_iff.mp h).2
  | literal | identifier | call | binary | unary =>
    exact (Outcome.ofResult_eq_fail_iff.mp h).2

theorem readResource_eq_fail {n? : Option Node} (h : p.readResource n? = .fail q e) : q = p := by
  unfold readResource at h
  split at h
  · cases h
  · split at h
    · exact (Outcome.ofResult_eq_fail_iff.mp h).2
    · exact (congrArg Outcome.plan h).symm

theorem eq_fail_of_error? {x : Outcome} (h : x.error? = some e) : x = .fail x.plan e := by
  obtain ⟨p, error?⟩ := x
  cases h
  rfl

/-! ## From reading to the rules -/

theorem stops_of_single {n : Node} (hn : IsSingle n) (h : read o n p = .fail q e) :
    Stops o e n p q := by
  cases eq_of_read_single hn h
  exact .single hn (congrArg Outcome.error? h)

mutual

theorem stops_of_read (n : Node) {p q : Plan} (h : read o n p = .fail q e) : Stops o e n p q := by
  cases n with
  | options clauses => exact stops_of_readClauses clauses h
  | orderBy items =>
    have horder : p.readOrder items = .fail q e := h
    rw [readOrder_eq, Outcome.each_eq_fail_iff] at horder
    obtain ⟨before, item, after, r, rfl, hbefore, hitem⟩ := horder
    rw [readOrderItem_eq, Outcome.ofResult_eq_fail_iff] at hitem
    obtain ⟨hitem, rfl⟩ := hitem
    rw [← readOrder_eq] at hbefore
    exact .key hbefore hitem
  | expand items =>
    have hitems : readItems o items p = .fail q e := h
    rw [readItems_eq, Outcome.each_eq_fail_iff] at hitems
    obtain ⟨before, item, after, r, hsplit, hbefore, hitem⟩ := hitems
    have hmem : item ∈ items := hsplit ▸ List.mem_append_right _ List.mem_cons_self
    obtain ⟨rfl, hstops⟩ := stops_of_mem_items items item hmem hitem
    rw [← readItems_eq] at hbefore
    rw [hsplit]
    exact .association hbefore hstops
  | filter | orderKey | select | skip | top | literal | identifier | call | binary | unary =>
    exact stops_of_single (by simp [IsSingle, Node.kind]) h

theorem stops_of_readClauses (clauses : QueryOptions) {p q : Plan}
    (h : readClauses o clauses p = .fail q e) : Stops o e (.options clauses) p q := by
  obtain ⟨resource?, filter?, orderBy?, select?, skip?, top?, expand?⟩ := clauses
  rw [readClauses_eq, Outcome.andThen_eq_fail_iff] at h
  rcases h with h | ⟨r, hresource, h⟩
  · cases readResource_eq_fail h
    exact .resource (congrArg Outcome.error? h)
  · obtain ⟨before, ⟨c, n?⟩, after, s, hsplit, hbefore, hclause⟩ := Outcome.each_eq_fail_iff.mp h
    -- Each slot is a part of the options, so its node is smaller than they are.
    have hslots : ∀ slot ∈ QueryOptions.slots
        ⟨resource?, filter?, orderBy?, select?, skip?, top?, expand?⟩,
        ∀ {p q : Plan} {n : Node}, slot.2 = some n → read o n p = .fail q e →
          Stops o e n p q := by
      intro slot hslot
      simp only [QueryOptions.slots, List.mem_cons, List.not_mem_nil, or_false] at hslot
      rcases hslot with rfl | rfl | rfl | rfl | rfl | rfl
      · exact stops_of_slot filter?
      · exact stops_of_slot select?
      · exact stops_of_slot orderBy?
      · exact stops_of_slot skip?
      · exact stops_of_slot top?
      · exact stops_of_slot expand?
    have hmem := hsplit ▸ List.mem_append_right before (List.mem_cons_self (a := (c, n?)))
    cases n? with
    | none => cases hclause
    | some n =>
      rw [readClause] at hclause
      split at hclause
      · rename_i hn
        exact .clause hsplit hresource hbefore hn (hslots _ hmem rfl hclause)
      · rename_i hn
        cases hclause
        exact .kind hsplit hresource hbefore hn rfl

theorem stops_of_slot (n? : Option Node) {p q : Plan} {n : Node} (hn : n? = some n)
    (h : read o n p = .fail q e) : Stops o e n p q := by
  cases n? with
  | none => cases hn
  | some n' =>
    obtain rfl : n' = n := Option.some.inj hn
    exact stops_of_read n' h

theorem stops_of_mem_items (items : List ExpandItem) (item : ExpandItem) (hitem : item ∈ items)
    {p q : Plan} (h : readItem o item p = .fail q e) : q = p ∧ ItemStops o e item p.base? := by
  cases items with
  | nil => cases hitem
  | cons first items =>
    rcases List.mem_cons.mp hitem with heq | hitem
    · rw [heq] at h ⊢
      exact stops_of_readItem first h
    · exact stops_of_mem_items items item hitem h

theorem stops_of_readItem (item : ExpandItem) {p q : Plan} (h : readItem o item p = .fail q e) :
    q = p ∧ ItemStops o e item p.base? := by
  obtain ⟨path, options?⟩ := item
  rw [readItem] at h
  split at h
  · rename_i hpath
    cases h
    exact ⟨rfl, .path hpath⟩
  · rename_i a ha
    obtain ⟨hresult, rfl⟩ := Outcome.ofResult_eq_fail_iff.mp h
    -- What is left of the plan for the options goes with it.
    obtain ⟨left, hread⟩ := Outcome.result_eq_error_iff.mp hresult
    refine ⟨rfl, ?_⟩
    cases options? with
    | none => cases hread
    | some n => cases n with
      | options clauses => exact .options ha rfl (stops_of_readClauses clauses hread)
      | _ =>
        cases hread
        exact .kind ha rfl (by simp [Node.kind]) rfl

end

/-! ## From the rules to reading -/

theorem readSlots_eq_fail {clauses : QueryOptions} {before after : List (Clause × Option Node)}
    {slot : Clause × Option Node} {r q' : Plan} (hslots : clauses.slots = before ++ slot :: after)
    (hresource : p.readResource clauses.resource = .ok r) (hbefore : readSlots o before r = .ok q)
    (hslot : readClause o slot.1 slot.2 q = .fail q' e) :
    readClauses o clauses p = .fail q' e := by
  rw [readClauses_eq, hresource]
  exact Outcome.each_eq_fail_iff.mpr ⟨before, slot, after, q, hslots, hbefore, hslot⟩

theorem read_of_stops {n : Node} (h : Stops o e n p q) : read o n p = .fail q e := by
  -- The rules for nodes and those for items are followed at once.
  refine @Stops.rec o e (fun n p q _ => read o n p = .fail q e)
    (fun item base? _ => ∀ p : Plan, p.base? = base? → readItem o item p = .fail p e)
    ?single ?key ?association ?resource ?kind ?clause ?path ?itemKind ?options n p q h
  case single =>
    intro n p hn h
    have hfail := eq_fail_of_error? h
    rwa [eq_of_read_single hn hfail] at hfail
  case key =>
    intro before after item p q hbefore hitem
    show p.readOrder (before ++ item :: after) = .fail q e
    have horder : p.readOrder before = .ok q := hbefore
    rw [readOrder_eq] at horder ⊢
    refine Outcome.each_eq_fail_iff.mpr ⟨before, item, after, q, rfl, horder, ?_⟩
    rw [readOrderItem_eq, hitem]
    rfl
  case association =>
    intro before after item p q hbefore _ ih
    show readItems o (before ++ item :: after) p = .fail q e
    have hitems : readItems o before p = .ok q := hbefore
    rw [readItems_eq] at hitems ⊢
    exact Outcome.each_eq_fail_iff.mpr ⟨before, item, after, q, rfl, hitems, ih q rfl⟩
  case resource =>
    intro clauses p h
    show readClauses o clauses p = .fail p e
    have hfail := eq_fail_of_error? h
    rw [readResource_eq_fail hfail] at hfail
    rw [readClauses_eq, hfail]
    rfl
  case kind =>
    intro clauses before after c n p r q hslots hresource hbefore hn he
    refine readSlots_eq_fail hslots hresource hbefore ?_
    rw [readClause, if_neg hn, he]
  case clause =>
    intro clauses before after c n p r q q' hslots hresource hbefore hn _ ih
    refine readSlots_eq_fail hslots hresource hbefore ?_
    rw [readClause, if_pos hn, ih]
  case path =>
    rintro ⟨path, options?⟩ base? h p rfl
    rw [readItem, h]
  case itemKind =>
    rintro ⟨path, options?⟩ base? a n ha hn hkind he p rfl
    obtain rfl : options? = some n := hn
    rw [readItem, ha]
    cases n <;> first | exact absurd rfl hkind | exact he ▸ rfl
  case options =>
    rintro ⟨path, options?⟩ base? a clauses left ha hclauses _ ih p rfl
    obtain rfl : options? = some (.options clauses) := hclauses
    rw [readItem, ha]
    have hresult := Outcome.result_eq_error_iff.mpr ⟨left, ih⟩
    exact Outcome.ofResult_eq_fail_iff.mpr ⟨hresult, rfl⟩

/-- **Reading that fails leaves exactly what was read to its end before the fault.** A clause that
is read as one leaves the plan as it was. An order leaves the keys before the fault and an expand
clause the associations before it, and of the association at fault nothing is left however deep in
its options the fault is. Options leave the clauses before the fault, and what the clause at fault
leaves in turn. -/
theorem read_eq_fail_iff {n : Node} : read o n p = .fail q e ↔ Stops o e n p q :=
  ⟨stops_of_read n, read_of_stops⟩

/-- The fault lies in the options of the second association, behind an association within it. -/
example :
    let negative : Node := .skip (.literal (.integer (-1)))
    let deep : Node := .options ⟨none, none, none, none, some negative, none, none⟩
    let within : Node := .options ⟨none, none, none, none, none, none,
      some (.expand [⟨.identifier "C", none⟩, ⟨.identifier "D", some deep⟩])⟩
    let root : Node := .expand [⟨.identifier "A", none⟩, ⟨.identifier "B", some within⟩]
    let left := read {} root (.start none)
    left.error?.isSome ∧ left.plan.expanded.map FieldPath.dotted = ["A"] ∧
      left.plan.joins.map Stage.operator = ["$lookup", "$unwind"] := by
  decide +kernel

end EntityQuery.Plan
