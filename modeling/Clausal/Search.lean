import Clausal.Search.Rules
import Clausal.Solution

/-!
# Search by propagation and branching

Forced literals are made true as long as there are any.  If that decides nothing,
the search branches: it makes the variable true and searches on, and if that fails it
makes it false.  A failed branch is taken back before the next one.

A variable keeps its value below a branch, so there are no more steps in a row than
variables.  `propagate` and `explore` recurse on that number.
-/

namespace Clausal

namespace Search

/-- Take a forced step. -/
def take (s : Search) : Forced → Except Fault Search
  | .unit l =>
      let journal := (s.journal.note (.unit l)).count fun t =>
        { t with propagations := t.propagations + 1 }
      { s with journal }.assign l
  | .pure l =>
      let journal := (s.journal.note (.pure l)).count fun t =>
        { t with pureLiterals := t.pureLiterals + 1 }
      { s with journal }.assign l

/-- Take a decision below `depth` others. -/
def decide (s : Search) (l : Literal) (depth : Nat) : Except Fault Search :=
  let journal := (s.journal.note (.decide l depth)).count fun t =>
    { t with decisions := t.decisions + 1 }
  { s with journal }.assign l

/-- Count a conflict. -/
def countConflict (s : Search) : Search :=
  { s with journal := s.journal.count fun t => { t with conflicts := t.conflicts + 1 } }

/-- Take forced steps until the search is decided or there is none, at most `room` of
them. -/
def propagate (room : Nat) (s : Search) : Except Fault (Status × Search) :=
  match s.status with
  | .satisfied => .ok (.satisfied, s)
  | .conflict => .ok (.conflict, s)
  | .undecided => do
      match ← s.forced? with
      | none => return (.undecided, s)
      | some step =>
          match room with
          | 0 => .error .tooManySteps
          | room + 1 => propagate room (← s.take step)

/-- Search below `depth` decisions for a way to make every clause true, with at most
`room` further decisions in a row.  Without success the trail is as before. -/
def explore (room depth : Nat) (s : Search) : Except Fault (Bool × Search) := do
  let checkpoint := s.trail.length
  match ← s.propagate s.values.size with
  | (.satisfied, s) => return (true, s)
  | (.conflict, s) => return (false, ← s.countConflict.backtrack checkpoint)
  | (.undecided, s) =>
      match ← s.branch? with
      | none => .error .noBranch
      | some v =>
          match room with
          | 0 => .error .tooManySteps
          | room + 1 => do
              let point := s.trail.length
              let (found, s) ← explore room (depth + 1) (← s.decide ⟨v, true⟩ depth)
              if found then return (true, s)
              let s ← s.backtrack point
              let (found, s) ← explore room (depth + 1) (← s.decide ⟨v, false⟩ depth)
              if found then return (true, s)
              let s ← s.backtrack point
              return (false, ← s.backtrack checkpoint)

/-- Decide satisfiability by search.  The values found stay, and without any the state
is as before, counters and log aside. -/
def solve (s : Search) : Except Fault (Solution × Search) := do
  let (found, s) ← s.explore s.values.size 0
  if found then
    match Model.check s.formula s.values with
    | .ok m => return (.sat (some m), s)
    | .error x => .error (.noModel x)
  else return (.unsat, s)

/-- The log since it was last taken, and the search without it. -/
def takeLog (s : Search) : List LogEntry × Search :=
  let (events, journal) := s.journal.take
  (events.map Event.entry, { s with journal })

end Search

end Clausal
