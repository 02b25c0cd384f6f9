import Clausal.Formula
import Clausal.Numeral

/-!
# Printing a formula

The DIMACS form of a formula: a problem line with the number of variables and of
clauses, then a line for every clause with its literals as signed numbers and `0`
at its end.
-/

namespace Clausal

namespace Dimacs

/-- A literal as a signed number. -/
def printLiteral (l : Literal) : List Char :=
  if l.positive then Numeral.digits l.var.id else '-' :: Numeral.digits l.var.id

/-- The line of a clause: each literal with a space behind it, then `0`. -/
def printClause (c : Clause) : List Char :=
  (c.literals.flatMap fun l => printLiteral l ++ [' ']) ++ ['0', '\n']

/-- The problem line of `n` variables and `m` clauses. -/
def printProblem (n m : Nat) : List Char :=
  ['p', ' ', 'c', 'n', 'f', ' '] ++ Numeral.digits n ++ ' ' :: Numeral.digits m ++ ['\n']

/-- The DIMACS form of a formula. -/
def print (f : Formula) : List Char :=
  printProblem f.numVariables f.clauses.length ++ f.clauses.flatMap printClause

end Dimacs

/-- The DIMACS form of a formula, as a string. -/
def Formula.dimacs (f : Formula) : String := String.ofList (Dimacs.print f)

end Clausal
