import Clausal.Search.State

/-!
# Rules of a search

What the state of a search says about the next step.  A search is decided when some
clause has only false literals or every clause has a true one.  Otherwise the first
unit clause forces its remaining literal.  Without one, a literal is pure if it
remains in an open clause and its complement in none, and the pure literal of the
least variable is made true.  Without one of these too, the search branches on the
least variable that remains in an open clause.
-/

namespace Clausal

namespace Search

/-- Where a search stands. -/
inductive Status where
  /-- Every clause has a true literal. -/
  | satisfied
  /-- Some clause has only false literals. -/
  | conflict
  /-- Neither of the two. -/
  | undecided
deriving DecidableEq, Repr

/-- Where the search stands, by its totals. -/
def status (s : Search) : Status :=
  if 0 < s.falsifiedClauses then .conflict
  else if s.satisfiedClauses = s.rows.size then .satisfied
  else .undecided

/-- The literals of a list whose variables have no value. -/
def unassigned (s : Search) : List Literal → Except Fault (List Literal)
  | [] => .ok []
  | l :: rest => do
      let value ← s.value l.var
      let others ← unassigned s rest
      return if value.isNone then l :: others else others

/-- The remaining literals of the open clauses, clause by clause. -/
def openLiterals (s : Search) : Except Fault (List Literal) :=
  s.unassigned ((s.rows.toList.filter Row.isOpen).flatMap fun r => r.clause.literals)

/-- The remaining literal of the first unit clause. -/
def unitLiteral? (s : Search) : Except Fault (Option Literal) :=
  match s.rows.find? Row.isUnit with
  | none => .ok none
  | some r => (s.unassigned r.clause.literals).map List.head?

/-- The polarities in which a variable occurs. -/
structure Polarities where
  /-- It occurs positively. -/
  positive : Bool := false
  /-- It occurs negatively. -/
  negative : Bool := false

/-- Note an occurrence. -/
def Polarities.add (p : Polarities) (positive : Bool) : Polarities :=
  if positive then { p with positive := true } else { p with negative := true }

/-- Exactly one polarity occurs. -/
def Polarities.isPure (p : Polarities) : Bool := p.positive != p.negative

/-- The polarities of all variables in some literals, by position. -/
def polarities (width : Nat) (ls : List Literal) : Array Polarities :=
  ls.foldl (fun t l => t.modify l.var.index fun p => p.add l.positive)
    (Array.replicate width {})

/-- The literal over the least variable that occurs with one polarity only. -/
def pureLiteral? (width : Nat) (ls : List Literal) : Option Literal :=
  let table := polarities width ls
  match table.findIdx? Polarities.isPure with
  | none => none
  | some i =>
      match table[i]?, Variable.ofIndex? i with
      | some p, some v => some ⟨v, p.positive⟩
      | _, _ => none

/-- The least variable of some literals. -/
def leastVariable? (ls : List Literal) : Option Variable := (ls.map Literal.var).min?

/-- A step that needs no decision. -/
inductive Forced where
  /-- A unit clause forces the literal. -/
  | unit (l : Literal)
  /-- The literal is pure. -/
  | pure (l : Literal)
deriving DecidableEq

/-- The next step that needs no decision. -/
def forced? (s : Search) : Except Fault (Option Forced) := do
  match ← s.unitLiteral? with
  | some l => return some (.unit l)
  | none => return (pureLiteral? s.values.size (← s.openLiterals)).map .pure

/-- The variable to branch on. -/
def branch? (s : Search) : Except Fault (Option Variable) := do
  return leastVariable? (← s.openLiterals)

end Search

end Clausal
