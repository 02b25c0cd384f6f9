import Clausal.Formula

/-!
# Truth

A valuation gives every variable a truth value.  A clause holds under it when one
of its literals does, and a formula is satisfied when all of its clauses hold.
-/

namespace Clausal

/-- A truth value for every variable. -/
abbrev Valuation : Type := Variable → Bool

/-- The literal is true: its variable has its polarity as value. -/
def Literal.Holds (a : Valuation) (l : Literal) : Prop := a l.var = l.positive

/-- Some literal of the clause is true. -/
def Clause.Holds (a : Valuation) (c : Clause) : Prop := ∃ l ∈ c, l.Holds a

/-- All clauses of a list hold. -/
def HoldAll (a : Valuation) (cs : List Clause) : Prop := ∀ c ∈ cs, c.Holds a

/-- The valuation satisfies the formula. -/
def Formula.SatisfiedBy (f : Formula) (a : Valuation) : Prop := HoldAll a f.clauses

/-- Some valuation satisfies the formula. -/
def Formula.Satisfiable (f : Formula) : Prop := ∃ a, f.SatisfiedBy a

/-- The valuation with the value of one variable changed. -/
def Valuation.set (a : Valuation) (v : Variable) (b : Bool) : Valuation :=
  fun w => if w = v then b else a w

instance (a : Valuation) (l : Literal) : Decidable (l.Holds a) :=
  inferInstanceAs (Decidable (a l.var = l.positive))

/-- A literal or its complement is true. -/
theorem Literal.holds_neg {a : Valuation} {l : Literal} : (-l).Holds a ↔ ¬ l.Holds a := by
  unfold Literal.Holds
  cases h : a l.var <;> cases hp : l.positive <;> simp [h, hp]

/-- The clause without literals holds nowhere. -/
theorem Clause.not_holds_empty (a : Valuation) : ¬ Clause.empty.Holds a := by
  rintro ⟨l, hl, _⟩
  exact Clause.not_mem_empty hl

/-- A tautology holds everywhere. -/
theorem Clause.holds_of_isTautology (a : Valuation) {c : Clause} (h : c.isTautology = true) :
    c.Holds a := by
  obtain ⟨l, hl, hn⟩ := Clause.isTautology_iff.mp h
  by_cases hl' : l.Holds a
  · exact ⟨l, hl, hl'⟩
  · exact ⟨-l, hn, Literal.holds_neg.mpr hl'⟩

end Clausal
