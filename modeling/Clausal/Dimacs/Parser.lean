import Clausal.Dimacs.Error
import Clausal.Formula
import Clausal.Text.Lines

/-!
# Reading a formula

A DIMACS text is read line by line, each without the blanks around it.  Blank lines
and lines that start with `c` say nothing, and a line that starts with `%` ends the
formula.  What remains are the lines of content.  One that starts with `p` is the
problem line, `p cnf <n> <m>`: it is optional, comes first if at all, and declares
the number of variables and of clauses.  Every other line of content is a clause:
its literals, and a `0` at the end that may be left out.

Reading is a fold of `Progress.read` over the lines of content.  The number of
clauses is compared with the declared one after the last line, so every other fault
is met at the first line that has one.
-/

namespace Clausal

namespace Dimacs

/-! ### Lines of content -/

/-- A line with its number in the text, counted from one. -/
structure Line where
  /-- The number. -/
  number : Nat
  /-- The line without the blanks around it. -/
  text : List Char
deriving DecidableEq

/-- The line ends the formula. -/
def Line.isTrailer (l : Line) : Bool := l.text.head? == some '%'

/-- The line says nothing: it is blank or a comment. -/
def Line.isSilent (l : Line) : Bool := l.text.isEmpty || l.text.head? == some 'c'

/-- The line is meant as a problem line. -/
def Line.isProblem (l : Line) : Bool := l.text.head? == some 'p'

/-- The lines of a text, numbered and trimmed. -/
def numberedLines (text : List Char) : List Line :=
  (lines text).zipIdx.map fun (line, i) => ⟨i + 1, trim line⟩

/-- The lines of content of a text. -/
def contentLines (text : List Char) : List Line :=
  ((numberedLines text).takeWhile fun l => !l.isTrailer).filter fun l => !l.isSilent

/-! ### Clauses -/

/-- The literals of the words of a clause line.  The first word that is no literal, or
the first `0` with a word behind it, is the fault. -/
def readLiterals (line : Line) : List (List Char) → Except Error (List Literal)
  | [] => .ok []
  | word :: rest =>
      if word = ['0'] then
        if rest.isEmpty then .ok []
        else .error (.malformedClause line.number (String.ofList line.text))
      else
        match Literal.read word with
        | .error cause => .error (.invalidLiteral (String.ofList line.text) cause)
        | .ok l => (readLiterals line rest).map (l :: ·)

/-- The clause of a line. -/
def readClause (line : Line) : Except Error Clause :=
  (readLiterals line (words line.text)).map Clause.ofLiterals

/-! ### The problem line -/

/-- What a problem line declares. -/
structure Problem where
  /-- The number of variables. -/
  numVariables : Nat
  /-- The number of clauses. -/
  numClauses : Nat
  /-- The variables have numbers. -/
  numVariables_le : numVariables ≤ Variable.maxId

/-- The declaration of two numerals, if both are numbers of 64 bits and there are that
many variables. -/
def Problem.ofNumerals? (n m : List Char) : Option Problem :=
  match Numeral.read Numeral.maxWord n, Numeral.read Numeral.maxWord m with
  | .ok n, .ok m => if h : n ≤ Variable.maxId then some ⟨n, m, h⟩ else none
  | _, _ => none

/-- The declaration of the words of a problem line. -/
def Problem.ofWords? : List (List Char) → Option Problem
  | [p, cnf, n, m] =>
      if p = ['p'] ∧ cnf = ['c', 'n', 'f'] then Problem.ofNumerals? n m else none
  | _ => none

/-- The declaration of a problem line. -/
def readProblem (line : Line) : Except Error Problem :=
  match Problem.ofWords? (words line.text) with
  | some p => .ok p
  | none => .error (.malformedProblem (String.ofList line.text))

/-! ### The whole text -/

/-- What the lines read so far have given. -/
structure Progress where
  /-- The declaration of the problem line, if there was one. -/
  problem : Option Problem := none
  /-- The clauses, newest first. -/
  clauses : List Clause := []

/-- Whether the clause keeps to the declared variables. -/
def checkDeclared (line : Line) (problem : Option Problem) (c : Clause) : Except Error Unit :=
  match problem, c.greatestVariable? with
  | some p, some v =>
      if v.id ≤ p.numVariables then .ok ()
      else .error (.undeclaredVariable v p.numVariables (String.ofList line.text))
  | _, _ => .ok ()

/-- Read one line of content. -/
def Progress.read (s : Progress) (line : Line) : Except Error Progress :=
  if line.isProblem then
    if s.problem.isNone && s.clauses.isEmpty then do
      let p ← readProblem line
      return { s with problem := some p }
    else .error (.misplacedProblem line.number)
  else do
    let c ← readClause line
    checkDeclared line s.problem c
    return { s with clauses := c :: s.clauses }

/-- The formula of all lines: over the declared variables, or over as many as the
clauses need. -/
def Progress.finish (s : Progress) : Except Error Formula :=
  match s.problem with
  | none => .ok (Formula.ofClauses s.clauses.reverse)
  | some p =>
      if s.clauses.length = p.numClauses then
        .ok ((Formula.empty p.numVariables p.numVariables_le).addAll s.clauses.reverse)
      else .error (.clauseCount p.numClauses s.clauses.length)

/-- Read a formula from the characters of a text. -/
def read (text : List Char) : Except Error Formula := do
  let s ← (contentLines text).foldlM Progress.read {}
  s.finish

end Dimacs

/-- Read a formula from a text in DIMACS form. -/
def Formula.ofDimacs (text : String) : Except Dimacs.Error Formula := Dimacs.read text.toList

end Clausal
