import Clausal.Journal
import Clausal.Model

/-!
# The state of a search

A search never changes the clauses.  It gives values to variables and counts, for
every clause, how many of its literals are true and how many are false.  A clause
with a true literal is as good as gone, and a false literal is as good as deleted
from its clause.  The literals made true are kept on a trail, and taking the newest
of them back undoes its counts.

Two totals go with the counts: how many clauses have a true literal, and how many
have only false ones.  The tables have an entry for every variable up to the greatest
one that occurs, and the lists of occurrences say which rows a literal counts in.

A missing entry, a counter that would fall below zero and every other step that a
consistent state excludes is a `Search.Fault`, so none of them can pass unseen.
-/

namespace Clausal

namespace Search

/-! ### Parts of the state -/

/-- A step that a consistent state excludes. -/
inductive Fault where
  /-- The tables have no entry for a variable. -/
  | noEntry (v : Variable)
  /-- The tables have no row for a clause. -/
  | noRow (i : Nat)
  /-- A counter would fall below zero. -/
  | underflow
  /-- The search is undecided without a variable to branch on. -/
  | noBranch
  /-- There were more steps than the variables allow. -/
  | tooManySteps
  /-- The values found are no model. -/
  | noModel (v : Model.Violation)
deriving DecidableEq

/-- What is said of a fault. -/
def Fault.message : Fault → String
  | .noEntry v => "the search has no entry for " ++ v.text
  | .noRow i => "the search has no row " ++ toString i
  | .underflow => "a counter of the search fell below zero"
  | .noBranch => "the search has no variable to branch on"
  | .tooManySteps => "the search takes more steps than there are variables"
  | .noModel .tooLong => "the values found go beyond the declared variables"
  | .noModel .unsatisfied => "the values found leave a clause without a true literal"

/-- A clause and the counts of its literals. -/
structure Row where
  /-- The clause. -/
  clause : Clause
  /-- How many literals are true. -/
  satisfied : Nat := 0
  /-- How many literals are false. -/
  falsified : Nat := 0

/-- The clause has no true literal. -/
def Row.isOpen (r : Row) : Bool := r.satisfied == 0

/-- The clause has no true literal and all but one of its literals are false. -/
def Row.isUnit (r : Row) : Bool := r.isOpen && r.falsified + 1 == r.clause.size

/-- The rows in which each literal occurs, by position of its variable. -/
structure Occurrences where
  /-- The rows of the positive literals. -/
  positive : Array (Array Nat)
  /-- The rows of the negative literals. -/
  negative : Array (Array Nat)

namespace Occurrences

/-- Tables without rows for so many variables. -/
def blank (width : Nat) : Occurrences := ⟨Array.replicate width #[], Array.replicate width #[]⟩

/-- The rows of a literal. -/
def rows? (o : Occurrences) (l : Literal) : Option (Array Nat) :=
  if l.positive then o.positive[l.var.index]? else o.negative[l.var.index]?

/-- Add a row for a literal. -/
def add (o : Occurrences) (i : Nat) (l : Literal) : Occurrences :=
  if l.positive then { o with positive := o.positive.modify l.var.index (·.push i) }
  else { o with negative := o.negative.modify l.var.index (·.push i) }

/-- Add the literals of a clause in a row. -/
def addClause (o : Occurrences) (c : Clause × Nat) : Occurrences :=
  c.1.literals.foldl (fun o l => o.add c.2 l) o

/-- The tables of a list of clauses. -/
def ofClauses (width : Nat) (cs : List Clause) : Occurrences :=
  cs.zipIdx.foldl addClause (blank width)

end Occurrences

/-- What the search writes into its log. -/
inductive Event where
  /-- A unit clause forces a literal. -/
  | unit (l : Literal)
  /-- A literal is pure. -/
  | pure (l : Literal)
  /-- A literal is tried, below so many decisions. -/
  | decide (l : Literal) (depth : Nat)
deriving DecidableEq

/-- The log entry of an event. -/
def Event.entry : Event → LogEntry
  | .unit l => ⟨.trace, "unit " ++ l.text⟩
  | .pure l => ⟨.trace, "pure " ++ l.text⟩
  | .decide l depth => ⟨.debug, "decide " ++ l.text ++ " at depth " ++ toString depth⟩

end Search

/-- A search for a model of a formula. -/
structure Search where
  /-- The formula. -/
  formula : Formula
  /-- Where the literals occur. -/
  occurrences : Search.Occurrences
  /-- The values given so far. -/
  values : PartialAssignment
  /-- The clauses with their counts, in order. -/
  rows : Array Search.Row
  /-- How many clauses have a true literal. -/
  satisfiedClauses : Nat
  /-- How many clauses have only false literals. -/
  falsifiedClauses : Nat
  /-- The literals made true, newest first. -/
  trail : List Literal
  /-- Counters and log. -/
  journal : Journal Search.Event := {}

namespace Search

/-- The number of entries that the tables need: up to the greatest variable that
occurs.  Variables that are declared and never used have none. -/
def tableWidth (cs : List Clause) : Nat :=
  cs.foldl (fun n c => max n (Formula.variablesNeeded c)) 0

/-- The search of a formula, before its first step. -/
def start (f : Formula) : Search where
  formula := f
  occurrences := .ofClauses (tableWidth f.clauses) f.clauses
  values := ⟨Array.replicate (tableWidth f.clauses) none⟩
  rows := (f.clauses.map fun c => ({ clause := c } : Row)).toArray
  satisfiedClauses := 0
  falsifiedClauses := f.clauses.countP Clause.isEmpty
  trail := []

/-! ### Reading -/

/-- The value of a variable, if it has one. -/
def value (s : Search) (v : Variable) : Except Fault (Option Bool) :=
  match s.values.values[v.index]? with
  | none => .error (.noEntry v)
  | some b => .ok b

/-- A row of the table. -/
def row (s : Search) (i : Nat) : Except Fault Row :=
  match s.rows[i]? with
  | none => .error (.noRow i)
  | some r => .ok r

/-- The rows in which a literal occurs. -/
def rowsOf (s : Search) (l : Literal) : Except Fault (Array Nat) :=
  match s.occurrences.rows? l with
  | none => .error (.noEntry l.var)
  | some is => .ok is

/-! ### Counting -/

/-- One less. -/
def decrement : Nat → Except Fault Nat
  | 0 => .error .underflow
  | n + 1 => .ok n

/-- Write a row. -/
def setRow (s : Search) (i : Nat) (r : Row) : Search := { s with rows := s.rows.setIfInBounds i r }

/-- Count a true literal in a row. -/
def addSatisfied (s : Search) (i : Nat) : Except Fault Search := do
  let r ← s.row i
  let total := if r.satisfied = 0 then s.satisfiedClauses + 1 else s.satisfiedClauses
  return { s.setRow i { r with satisfied := r.satisfied + 1 } with satisfiedClauses := total }

/-- Count a false literal in a row. -/
def addFalsified (s : Search) (i : Nat) : Except Fault Search := do
  let r ← s.row i
  let total :=
    if r.falsified + 1 = r.clause.size then s.falsifiedClauses + 1 else s.falsifiedClauses
  return { s.setRow i { r with falsified := r.falsified + 1 } with falsifiedClauses := total }

/-- Take a true literal of a row back. -/
def removeSatisfied (s : Search) (i : Nat) : Except Fault Search := do
  let r ← s.row i
  let total ← if r.satisfied = 1 then decrement s.satisfiedClauses else .ok s.satisfiedClauses
  let n ← decrement r.satisfied
  return { s.setRow i { r with satisfied := n } with satisfiedClauses := total }

/-- Take a false literal of a row back. -/
def removeFalsified (s : Search) (i : Nat) : Except Fault Search := do
  let r ← s.row i
  let total ←
    if r.falsified = r.clause.size then decrement s.falsifiedClauses else .ok s.falsifiedClauses
  let n ← decrement r.falsified
  return { s.setRow i { r with falsified := n } with falsifiedClauses := total }

/-! ### Moves -/

/-- Write the value of a variable. -/
def setValue (s : Search) (v : Variable) (b : Option Bool) : Except Fault Search :=
  if v.index < s.values.size then
    .ok { s with values := ⟨s.values.values.setIfInBounds v.index b⟩ }
  else .error (.noEntry v)

/-- Make a literal true. -/
def assign (s : Search) (l : Literal) : Except Fault Search := do
  let s ← { s with trail := l :: s.trail }.setValue l.var (some l.positive)
  let s ← (← s.rowsOf l).foldlM addSatisfied s
  (← s.rowsOf (-l)).foldlM addFalsified s

/-- Take the newest literal of the trail back. -/
def undo (s : Search) : Except Fault Search :=
  match s.trail with
  | [] => .ok s
  | l :: rest => do
      let s ← { s with trail := rest }.setValue l.var none
      let s ← (← s.rowsOf l).foldlM removeSatisfied s
      (← s.rowsOf (-l)).foldlM removeFalsified s

/-- Take so many literals back. -/
def undoMany : Nat → Search → Except Fault Search
  | 0, s => .ok s
  | n + 1, s => do undoMany n (← s.undo)

/-- Take literals back until the trail has so many. -/
def backtrack (s : Search) (length : Nat) : Except Fault Search :=
  undoMany (s.trail.length - length) s

end Search

end Clausal
