import Clausal.Formula
import Clausal.Random.ChaCha
import Clausal.Random.Sample
import Clausal.Report

/-!
# Random formulas

A random formula has clauses of one width.  For each clause, a sample of that many
variables is drawn from the declared ones, and then a coin for the polarity of each.
Where samples and coins come from is left to a generator.
-/

namespace Clausal

namespace Random

/-- Why there is no random formula of a shape. -/
inductive Error where
  /-- There are not so many variables. -/
  | tooManyVariables (numVariables : Nat)
  /-- A clause would need more variables than are declared. -/
  | widthTooLarge (width numVariables : Nat)
  /-- The source ended. -/
  | exhausted
deriving DecidableEq, Repr

/-- What is said of an error. -/
def Error.message : Error → String
  | .tooManyVariables n => "Variable count " ++ toString n ++ " is out of range"
  | .widthTooLarge width n =>
      "Clause width " ++ toString width ++ " exceeds the number of variables (" ++
        toString n ++ ")"
  | .exhausted => "The random source has no further words"

/-- An error has no further cause. -/
def Error.report (e : Error) : Report := ⟨e.message, []⟩

/-! ### Generators -/

/-- What random clauses are drawn with, from a state of any kind.  A sample may not come to an
end, and gives nothing then. -/
structure Generator (σ : Type) where
  /-- Draw so many of the numbers below a bound: the bound and how many. -/
  sample : Nat → Nat → StateT σ Option (List Nat)
  /-- Toss a coin. -/
  coin : StateM σ Bool

namespace Generator

variable {σ : Type}

/-- Toss a coin for the polarity of each variable, in order. -/
def polarize (g : Generator σ) (vs : List Variable) : StateM σ (List Literal) :=
  vs.mapM fun v => do return ⟨v, ← g.coin⟩

/-- Draw a clause of so many distinct variables out of `numVariables`. -/
def clause (g : Generator σ) (numVariables width : Nat) : StateT σ Option Clause := do
  let positions ← g.sample numVariables width
  fun state =>
    let (literals, state) := g.polarize (positions.filterMap Variable.ofIndex?) state
    some (.ofLiterals literals, state)

/-- Draw clauses one after the other. -/
def clauses (g : Generator σ) (numVariables width numClauses : Nat) :
    StateT σ Option (List Clause) :=
  (List.replicate numClauses ()).mapM fun _ => g.clause numVariables width

/-- Draw a formula, or say why there is none of that shape.  The shape is checked before
anything is drawn. -/
def formula (g : Generator σ) (numVariables numClauses width : Nat) :
    StateT σ Option (Except Error Formula) :=
  if h : numVariables ≤ Variable.maxId then
    if width ≤ numVariables then do
      let cs ← g.clauses numVariables width numClauses
      return .ok ((Formula.empty numVariables h).addAll cs)
    else return .error (.widthTooLarge width numVariables)
  else return .error (.tooManyVariables numVariables)

end Generator

/-- The generator that draws from the words of a source.  Its state is the position of the next
word. -/
def Source.generator (s : Source) : Generator Nat := ⟨Random.sample s, Random.coin s⟩

/-- Draw a formula from the words of a source at a position on: the formula and the
position after it. -/
def formula (s : Source) (numVariables numClauses width : Nat) (position : Nat) :
    Except Error (Formula × Nat) :=
  match s.generator.formula numVariables numClauses width position with
  | some (.ok f, position) => .ok (f, position)
  | some (.error e, _) => .error e
  | none => .error .exhausted

end Random

end Clausal
