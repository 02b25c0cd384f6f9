import Clausal.Model

/-!
# Answers

What a solver says of a formula: that it is satisfiable, with a model if the method
builds one, or that it is not.
-/

namespace Clausal

/-- Whether a formula is satisfiable. -/
inductive Verdict where
  /-- It is. -/
  | sat
  /-- It is not. -/
  | unsat
deriving DecidableEq, Repr

/-- How a verdict is shown. -/
def Verdict.text : Verdict → String
  | .sat => "SAT"
  | .unsat => "UNSAT"

/-- The answer of a solver. -/
inductive Solution where
  /-- The formula is satisfiable, by the model if there is one. -/
  | sat (model : Option Model)
  /-- The formula is unsatisfiable. -/
  | unsat

namespace Solution

/-- The verdict of an answer. -/
def verdict : Solution → Verdict
  | .sat _ => .sat
  | .unsat => .unsat

/-- The model of an answer, if it has one. -/
def model? : Solution → Option Model
  | .sat m => m
  | .unsat => none

/-- How an answer is shown: the verdict, and the model if there is one. -/
def text : Solution → String
  | .sat (some m) => Verdict.sat.text ++ " " ++ m.text
  | .sat none => Verdict.sat.text
  | .unsat => Verdict.unsat.text

end Solution

end Clausal
