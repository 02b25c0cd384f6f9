import Clausal.Literal.Reader

/-!
# Faults of a DIMACS text

Every fault names the line it is on, by its number or by its text without the
blanks around it.
-/

namespace Clausal

namespace Dimacs

/-- Why a text is no formula. -/
inductive Error where
  /-- Something follows the `0` that ends a clause. -/
  | malformedClause (line : Nat) (text : String)
  /-- A word of a clause is no literal. -/
  | invalidLiteral (text : String) (cause : Variable.ReadError)
  /-- A problem line has not the form `p cnf <n> <m>`. -/
  | malformedProblem (text : String)
  /-- A problem line comes after a clause or another problem line. -/
  | misplacedProblem (line : Nat)
  /-- A clause uses a variable beyond the declared ones. -/
  | undeclaredVariable (v : Variable) (declared : Nat) (text : String)
  /-- There are fewer or more clauses than declared. -/
  | clauseCount (expected found : Nat)
deriving DecidableEq

/-- What is said of the fault. -/
def Error.message : Error → String
  | .malformedClause line text =>
      "Failed to parse line " ++ toString line ++ " '" ++ text ++ "' as clause"
  | .invalidLiteral text _ => "Invalid variable found in clause '" ++ text ++ "'"
  | .malformedProblem text =>
      "Problem line '" ++ text ++
        "' is malformed, expected 'p cnf <num_variables> <num_clauses>'"
  | .misplacedProblem line =>
      "Problem line " ++ toString line ++ " must appear once, before every clause"
  | .undeclaredVariable v declared text =>
      "Variable " ++ toString v.id ++ " in clause '" ++ text ++ "' exceeds the " ++
        toString declared ++ " variables declared in the problem line"
  | .clauseCount expected found =>
      "The number of clauses (" ++ toString found ++
        ") does not match the clauses number in the problem definition (" ++
        toString expected ++ ")"

/-- The report of the fault: a word that is no literal says why. -/
def Error.report (e : Error) : Report :=
  match e with
  | .invalidLiteral _ cause => .causedBy e.message cause.report
  | _ => ⟨e.message, []⟩

end Dimacs

end Clausal
