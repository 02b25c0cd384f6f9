import Clausal.Proofs.Search.Refinement

/-!
# Search decides

The search answers that a formula is satisfiable just if it is, and it comes with a model that
`Certifies` so.  What it decides is known from the textbook search, which succeeds just on
satisfiable formulas (`Residual.explore_isSome_iff`), and the counting search answers alike.

A model says more than that some valuation satisfies the formula.  Every clause has a literal
that the model itself makes true, so it does not matter how the variables without a value are
completed (`Model.satisfiedBy_of_completes`).  The values of a model from a search are those on
a trail, and the variables on a trail occur in the formula.
-/

namespace Clausal

/-! ## Completions of a model -/

/-- The valuation gives every variable the value that the model gives it, if there is one. -/
def Valuation.Completes (w : Valuation) (m : Model) : Prop := ∀ v b, m.value v = some b → w v = b

namespace Model

variable {m : Model} {c : Clause} {v : Variable} {w : Valuation}

theorem exists_value (hc : c ∈ m.formula.clauses) :
    ∃ l ∈ c, m.value l.var = some l.positive :=
  PartialAssignment.satisfies_iff.mp (PartialAssignment.satisfiesAll_iff.mp m.satisfied c hc)

/-- Every completion of a model satisfies its formula. -/
theorem satisfiedBy_of_completes (h : w.Completes m) : m.formula.SatisfiedBy w :=
  PartialAssignment.satisfiedBy_of_extends m.satisfied h

/-- A valuation that reads the declared variables off the total values is a completion. -/
theorem completes_of_total
    (h : ∀ v, v.index < m.formula.numVariables → m.total[v.index]? = some (w v)) :
    w.Completes m :=
  PartialAssignment.extends_of_totalUpTo m.size_le h

/-- The total values are the values, and true where there is none. -/
theorem total_getElem? (h : v.index < m.formula.numVariables) :
    m.total[v.index]? = some ((m.value v).getD true) :=
  PartialAssignment.totalUpTo_getElem? h

/-- Making true what has no value is a completion. -/
theorem completes_getD_true (m : Model) : Valuation.Completes (fun v => (m.value v).getD true) m :=
  fun _ _ => PartialAssignment.complete_of_some

/-- What a model from a search tells of a formula. -/
structure Certifies (m : Model) (f : Formula) : Prop where
  /-- The model is one of the formula. -/
  formula_eq : m.formula = f
  /-- Every clause has a literal whose variable has just its polarity as value. -/
  clauses_hold : ∀ c ∈ f.clauses, ∃ l ∈ c, m.value l.var = some l.positive
  /-- The variables without a value may have any. -/
  completions : ∀ w : Valuation, w.Completes m → f.SatisfiedBy w
  /-- There is a total value for each declared variable. -/
  length_total : m.total.length = f.numVariables
  /-- It is the value of the variable, and true if the variable has none. -/
  total_value : ∀ v, v.index < f.numVariables → m.total[v.index]? = some ((m.value v).getD true)
  /-- These values satisfy the formula. -/
  total_satisfies : f.SatisfiedBy fun v => (m.value v).getD true
  /-- So they do whatever the undeclared variables are given. -/
  total_values : ∀ w : Valuation,
    (∀ v, v.index < f.numVariables → m.total[v.index]? = some (w v)) → f.SatisfiedBy w
  /-- A variable that does not occur has no value. -/
  others_free : ∀ v, v ∉ f.vars → m.value v = none

theorem certifies (hothers : ∀ v, v ∉ m.formula.vars → m.value v = none) :
    m.Certifies m.formula where
  formula_eq := rfl
  clauses_hold := fun _ => exists_value
  completions := fun _ => satisfiedBy_of_completes
  length_total := PartialAssignment.length_totalUpTo
  total_value := fun _ => total_getElem?
  total_satisfies := satisfiedBy_of_completes (completes_getD_true m)
  total_values := fun _ h => satisfiedBy_of_completes (completes_of_total h)
  others_free := hothers

end Model

/-! ## The answer of the search -/

namespace Search

/-- The tables have an entry for every literal that occurs. -/
theorem exists_rowsOf_start {f : Formula} {c : Clause} {l : Literal} (hc : c ∈ f.clauses)
    (hl : l ∈ c) : ∃ is, (start f).rowsOf l = .ok is := by
  rw [start_eq_along]
  exact ⟨_, rowsOf_along (index_lt_tableWidth hc hl) (f.clauses.map (tally [] []))⟩

/-- The tables have an entry for every literal, and the search ends without a fault.  It answers
with a model just if the formula is satisfiable, and that it is unsatisfiable otherwise.  The
model certifies the answer. -/
theorem solve_decides (f : Formula) :
    (∀ c ∈ f.clauses, ∀ l ∈ c, ∃ is, (start f).rowsOf l = .ok is) ∧
    ∃ answer s, (start f).solve = .ok (answer, s) ∧
      ((∃ m, answer = .sat (some m)) ↔ f.Satisfiable) ∧
      (answer = .unsat ↔ ¬ f.Satisfiable) ∧
      ∀ m, answer = .sat (some m) → m.Certifies f := by
  refine ⟨fun c hc l hl => exists_rowsOf_start hc hl, ?_⟩
  have hdecides : ((Residual.start f).explore 0 {}).1.isSome = true ↔ f.Satisfiable :=
    Residual.explore_isSome_iff
  cases h : (Residual.start f).explore 0 {} with
  | mk result k =>
      rw [h] at hdecides
      cases result with
      | some found =>
          obtain ⟨m, hsolve, rfl, hvalue⟩ := solve_of_found h
          have hsat : m.formula.Satisfiable := hdecides.mp rfl
          refine ⟨_, _, hsolve, iff_of_true ⟨m, rfl⟩ hsat,
            iff_of_false nofun fun hnot => hnot hsat, ?_⟩
          rintro _ ⟨⟩
          apply Model.certifies
          intro v hv
          cases hb : m.value v with
          | none => rfl
          | some b => exact absurd (Residual.mem_vars_of_found h _ ((hvalue v b).mp hb)) hv
      | none =>
          have hunsat : ¬ f.Satisfiable := fun hs => nomatch hdecides.mpr hs
          exact ⟨_, _, solve_of_none h, iff_of_false nofun hunsat, iff_of_true rfl hunsat, nofun⟩

end Search

end Clausal
