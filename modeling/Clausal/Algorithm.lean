import Clausal.Elimination
import Clausal.Report
import Clausal.Saturation
import Clausal.Search

/-!
# The methods by name

Three methods decide satisfiability: saturation under resolution, elimination of
variables, and search.  Each has a name, by which a user chooses it.
-/

namespace Clausal

/-- A method that decides satisfiability. -/
inductive Algorithm where
  /-- Saturation under resolution. -/
  | resolution
  /-- Elimination of variables. -/
  | elimination
  /-- Search by propagation and branching. -/
  | search
deriving DecidableEq, Repr

namespace Algorithm

/-- All methods. -/
def all : List Algorithm := [.resolution, .elimination, .search]

/-- The name of a method. -/
def name : Algorithm → String
  | .resolution => "resolution"
  | .elimination => "dp"
  | .search => "dpll"

/-- The method of a name. -/
def ofName? (name : String) : Option Algorithm := all.find? fun a => a.name == name

/-- What is said of a name that no method has. -/
def unknownMessage (name : String) : String :=
  "Unknown algorithm '" ++ name ++ "' (expected resolution, dp or dpll)"

/-- Run a method on a formula: the answer and the counters. -/
def solve (a : Algorithm) (f : Formula) : Except Search.Fault (Solution × Stats) :=
  match a with
  | .resolution =>
      let (solution, s) := (Saturation.start f).solve
      .ok (solution, s.journal.stats)
  | .elimination =>
      let (solution, s) := (Elimination.start f).solve
      .ok (solution, s.journal.stats)
  | .search => do
      let (solution, s) ← (Search.start f).solve
      return (solution, s.journal.stats)

end Algorithm

end Clausal
