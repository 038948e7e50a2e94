import EntityQuery.Plan.Outcome

/-!
# When a plan was read to the end

A chain of readings succeeds exactly when every one of them does. A change of plans that every single
reading commutes with commutes with the chain.
-/

namespace EntityQuery.Outcome

variable {p q : Plan}

theorem eq_plan_of_result {x : Outcome} (h : x.result = .ok q) : q = x.plan := by
  unfold result at h
  split at h
  · exact (Except.ok.inj h).symm
  · cases h

theorem result_ok : (ok p).result = .ok p :=
  rfl

theorem result_fail (e : CompileError) : (fail p e).result = .error e :=
  rfl

theorem result_andThen_eq_ok {x : Outcome} {f : Plan → Outcome} :
    (x.andThen f).result = .ok q ↔ ∃ p, x.result = .ok p ∧ (f p).result = .ok q := by
  unfold andThen
  split
  · rename_i h
    simp [result, h]
  · rename_i e h
    simp [result, h]

theorem result_ofResult_eq_ok {α : Type} {x : Except CompileError α} {f : α → Plan} :
    (ofResult p x f).result = .ok q ↔ ∃ a, x = .ok a ∧ f a = q := by
  cases x with
  | error e => simp [ofResult, result_fail]
  | ok a => simp [ofResult, result_ok]

/-! ## Changes of plans -/

/-- The outcome with its plan changed, up to the same fault. -/
def map (g : Plan → Plan) (x : Outcome) : Outcome :=
  ⟨g x.plan, x.error?⟩

variable {g : Plan → Plan}

theorem result_map (g : Plan → Plan) (x : Outcome) : (x.map g).result = x.result.map g := by
  obtain ⟨q, error?⟩ := x
  cases error? <;> rfl

theorem ofResult_map {α β : Type} {x : Except CompileError α} {k : α → β} {f : α → Plan}
    {f' : β → Plan} (h : ∀ a, x = .ok a → f' (k a) = g (f a)) :
    ofResult (g p) (x.map k) f' = (ofResult p x f).map g := by
  cases x with
  | error e => rfl
  | ok a => exact congrArg ok (h a rfl)

/-- An answer that does not change with the plan. -/
theorem ofResult_map_same {α : Type} {x : Except CompileError α} {f f' : α → Plan}
    (h : ∀ a, f' a = g (f a)) : ofResult (g p) x f' = (ofResult p x f).map g := by
  cases x with
  | error e => rfl
  | ok a => exact congrArg ok (h a)

theorem andThen_map {x x' : Outcome} {f f' : Plan → Outcome} (hx : x' = x.map g)
    (hf : f' (g x.plan) = (f x.plan).map g) : x'.andThen f' = (x.andThen f).map g := by
  subst hx
  obtain ⟨q, error?⟩ := x
  cases error? with
  | none => exact hf
  | some e => rfl

/-! ## Chains -/

variable {x : Outcome} {f h : Plan → Outcome} {e : CompileError}

theorem result_eq_ok_iff : x.result = .ok q ↔ x = ok q := by
  obtain ⟨p, error?⟩ := x
  cases error? <;> simp [result, ok]

theorem result_eq_error_iff : x.result = .error e ↔ ∃ q, x = fail q e := by
  obtain ⟨p, error?⟩ := x
  cases error? <;> simp [result, fail]

theorem andThen_ok (x : Outcome) : x.andThen ok = x := by
  obtain ⟨p, error?⟩ := x
  cases error? <;> rfl

theorem andThen_assoc : (x.andThen f).andThen h = x.andThen fun p => (f p).andThen h := by
  obtain ⟨p, error?⟩ := x
  cases error? <;> rfl

theorem andThen_eq_fail_iff :
    x.andThen f = fail q e ↔ x = fail q e ∨ ∃ p, x = ok p ∧ f p = fail q e := by
  obtain ⟨p, error?⟩ := x
  cases error? with
  | none => simp [andThen, ok, fail]
  | some e' => simp [andThen, ok, fail]

theorem ofResult_eq_fail_iff {α : Type} {r : Except CompileError α} {k : α → Plan} :
    ofResult p r k = fail q e ↔ r = .error e ∧ q = p := by
  cases r with
  | error e' => simp [ofResult, fail, and_comm, eq_comm]
  | ok a => simp [ofResult, ok, fail]

/-- Whether an answer is there does not depend on the plan. -/
theorem error?_ofResult {α : Type} {p p' : Plan} {r : Except CompileError α} {k k' : α → Plan} :
    (ofResult p r k).error? = (ofResult p' r k').error? := by
  cases r <;> rfl

theorem error?_andThen {x' : Outcome} (hx : x.error? = x'.error?)
    (hf : (f x.plan).error? = (h x'.plan).error?) :
    (x.andThen f).error? = (x'.andThen h).error? := by
  obtain ⟨p, error?⟩ := x
  obtain ⟨p', error'?⟩ := x'
  cases hx
  cases error? with
  | none => exact hf
  | some e => rfl

/-! ## The elements of a list one after the other -/

section Each

variable {α : Type} {step : α → Plan → Outcome}

/-- Go on with one element after the other, as long as reading has not stopped. -/
def each (step : α → Plan → Outcome) : List α → Plan → Outcome
  | [], p => ok p
  | a :: as, p => (step a p).andThen (each step as)

theorem each_append (as bs : List α) (p : Plan) :
    each step (as ++ bs) p = (each step as p).andThen (each step bs) := by
  induction as generalizing p with
  | nil => rfl
  | cons a as ih =>
    rw [List.cons_append, each, each, andThen_assoc]
    congr 1
    funext p
    exact ih p

/-- Reading stops at the first element that fails, when all before it have been read. -/
theorem each_eq_fail_iff {as : List α} :
    each step as p = fail q e ↔
      ∃ before a after r, as = before ++ a :: after ∧ each step before p = ok r ∧
        step a r = fail q e := by
  constructor
  · intro h
    induction as generalizing p with
    | nil => cases h
    | cons a as ih =>
      rcases andThen_eq_fail_iff.mp h with h | ⟨r, hr, h⟩
      · exact ⟨[], a, as, p, rfl, rfl, h⟩
      · obtain ⟨before, b, after, s, rfl, hbefore, hb⟩ := ih h
        refine ⟨a :: before, b, after, s, rfl, ?_, hb⟩
        rw [each, hr]
        exact hbefore
  · rintro ⟨before, a, after, r, rfl, hbefore, ha⟩
    rw [each_append, hbefore]
    show (step a r).andThen (each step after) = fail q e
    exact andThen_eq_fail_iff.mpr (Or.inl ha)

/-- Where each element keeps the base, and fails by itself on one base, so does the list. -/
theorem error?_each (hbase : ∀ a p, (step a p).plan.base? = p.base?)
    (herror : ∀ a p p', p.base? = p'.base? → (step a p).error? = (step a p').error?)
    (as : List α) {p p' : Plan} (h : p.base? = p'.base?) :
    (each step as p).error? = (each step as p').error? := by
  induction as generalizing p p' with
  | nil => rfl
  | cons a as ih => exact error?_andThen (herror a p p' h) (ih (by rw [hbase, hbase, h]))

end Each

end EntityQuery.Outcome
