import Clausal.Semantics

/-!
# Models

A partial assignment gives a truth value to some variables, through a table by
position; variables past its end have none.  A model of a formula is a partial
assignment over the declared variables that makes some literal of every clause
true, so each of its completions satisfies the formula.  `Model.check` is the only
way to get one from a table.
-/

namespace Clausal

/-- Truth values by position of the variable, where there are any. -/
structure PartialAssignment where
  /-- The table. -/
  values : Array (Option Bool)
deriving DecidableEq

namespace PartialAssignment

/-- The value of a variable, if it has one. -/
def value (p : PartialAssignment) (v : Variable) : Option Bool := p.values[v.index]?.join

/-- The number of positions of the table. -/
def size (p : PartialAssignment) : Nat := p.values.size

/-- Whether some literal of the clause is given its polarity. -/
def satisfies (p : PartialAssignment) (c : Clause) : Bool :=
  c.literals.any fun l => p.value l.var == some l.positive

/-- Whether every clause of the formula has a literal that is given its polarity. -/
def satisfiesAll (p : PartialAssignment) (f : Formula) : Bool := f.clauses.all p.satisfies

/-- Give the variables without a value the value true. -/
def complete (p : PartialAssignment) : Valuation := fun v => (p.value v).getD true

/-- The truth values of the first `n` variables in order, true where there is none. -/
def totalUpTo (p : PartialAssignment) (n : Nat) : List Bool :=
  (List.range n).map fun i => p.values[i]?.join.getD true

end PartialAssignment

/-- A formula with a partial assignment that satisfies it. -/
structure Model where
  /-- The formula. -/
  formula : Formula
  /-- The assignment. -/
  assignment : PartialAssignment
  /-- The table has no position for an undeclared variable. -/
  size_le : assignment.size ≤ formula.numVariables
  /-- Every clause has a literal made true. -/
  satisfied : assignment.satisfiesAll formula = true

namespace Model

/-- Why an assignment is no model of a formula. -/
inductive Violation where
  /-- The table is longer than the declared range. -/
  | tooLong
  /-- Some clause has no literal made true. -/
  | unsatisfied
deriving DecidableEq, Repr

/-- The model of an assignment.  Its length is checked first. -/
def check (f : Formula) (p : PartialAssignment) : Except Violation Model :=
  if hs : p.size ≤ f.numVariables then
    if hf : p.satisfiesAll f = true then .ok ⟨f, p, hs, hf⟩ else .error .unsatisfied
  else .error .tooLong

/-- The value of a variable, if it has one. -/
def value (m : Model) (v : Variable) : Option Bool := m.assignment.value v

/-- The truth values of the declared variables in order, true where there is none. -/
def total (m : Model) : List Bool := m.assignment.totalUpTo m.formula.numVariables

/-- How the value of a variable is shown. -/
def valueText : Option Bool → String
  | some true => "true"
  | some false => "false"
  | none => "any"

/-- A model is shown as its formula and a line for every variable that occurs. -/
def text (m : Model) : String :=
  "Model for " ++ m.formula.text ++ "\nAssignment:" ++
    String.join (m.formula.vars.map fun v =>
      "\n  " ++ v.text ++ ": " ++ valueText (m.value v))

end Model

end Clausal
