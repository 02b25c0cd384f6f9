import Clausal.Benchmark
import Clausal.Dimacs.Printer
import Clausal.Random.Formula

/-!
# Commands

The commands a user gives and what they print.  `generate` prints a random formula.
Any other first word names a method, and the second one says what to do with it:
`check` decides the formula of a file, and `bench` runs a benchmark folder.  Without
any word the usage is printed.  Arguments beyond those that a command takes have no
effect.
-/

namespace Clausal

namespace CommandLine

/-- How the program is called. -/
def usage (program : String) : String :=
  "Usage: " ++ program ++ " <solver_name> <command>\n" ++
    "       " ++ program ++ " generate <num_variables> <num_clauses> <clause_width> <seed>\n" ++
    "\n" ++
    "solver_name: resolution, dp, dpll\n" ++
    "\n" ++
    "command:\n" ++
    "    check <file_name> - test the solver with given file\n" ++
    "    bench <folder> [results_dir] [file_limit] - " ++
    "run the solver on <folder>/sat and <folder>/unsat"

/-- Why a command fails. -/
inductive Error where
  /-- No method has the name. -/
  | unknownMethod (name : String)
  /-- There is no such command. -/
  | unknownCommand (name : String)
  /-- The formula cannot be read. -/
  | unreadable (e : LoadError)
  /-- The benchmark run ended early. -/
  | benchmark (e : Benchmark.Error)
  /-- There is no random formula of the shape. -/
  | generator (e : Random.Error)
  /-- An argument is no number. -/
  | invalidNumber (argument : String) (fault : Numeral.Fault)
  /-- An argument is missing. -/
  | missingArgument
  /-- A search met a fault. -/
  | search (fault : Search.Fault)
deriving DecidableEq

/-- The report of an error.  Errors in the call itself show how the program is called. -/
def Error.report (program : String) : Error → Report
  | .unknownMethod name =>
      let message := Algorithm.unknownMessage name
      .causedBy (message ++ "\n\n" ++ usage program) ⟨message, []⟩
  | .unknownCommand name => ⟨"Unknown command '" ++ name ++ "'\n\n" ++ usage program, []⟩
  | .unreadable e => .causedBy "Failed to parse CNF" e.report
  | .benchmark e => .causedBy "Benchmark run failed" e.report
  | .generator e => .causedBy "Failed to generate a formula" e.report
  | .invalidNumber argument fault =>
      .causedBy ("Argument '" ++ argument ++ "' is not a valid number") fault.report
  | .missingArgument => ⟨"Required argument does not exist\n\n" ++ usage program, []⟩
  | .search fault => ⟨fault.message, []⟩

/-- What a call prints, and whether it succeeds. -/
structure Output where
  /-- What goes to the standard output. -/
  out : String := ""
  /-- What goes to the standard error. -/
  err : String := ""
  /-- The exit code. -/
  code : UInt32 := 0
deriving DecidableEq, Repr

/-- The output of a failed command: the report of the error. -/
def Output.ofError (program : String) (e : Error) : Output :=
  { err := "Error: " ++ (e.report program).text ++ "\n", code := 1 }

/-- An argument by its position. -/
def argument (args : List String) (i : Nat) : Except Error String :=
  match args[i]? with
  | some a => .ok a
  | none => .error .missingArgument

/-- A numeric argument by its position. -/
def number (args : List String) (i : Nat) : Except Error Nat := do
  let a ← argument args i
  match Numeral.read Numeral.maxWord a.toList with
  | .ok n => return n
  | .error fault => .error (.invalidNumber a fault)

/-- Print a random formula. -/
def generate (args : List String) : Except Error String := do
  let numVariables ← number args 0
  let numClauses ← number args 1
  let width ← number args 2
  let seed ← number args 3
  match Random.formula (.ofSeed (UInt64.ofNat seed)) numVariables numClauses width 0 with
  | .ok (f, _) => return f.dimacs
  | .error e => .error (.generator e)

variable {m : Type → Type} [Monad m] [Files m]

/-- Decide the formula of a file. -/
def check (a : Algorithm) (args : List String) : ExceptT Error m String := do
  let path ← ExceptT.mk (pure (argument args 1))
  match ← (Formula.load path : m (Except LoadError Formula)) with
  | .error e => throw (.unreadable e)
  | .ok f =>
      match a.solve f with
      | .error fault => throw (.search fault)
      | .ok (solution, _) => return solution.text ++ "\n"

/-- The settings of a benchmark run that the arguments give. -/
def benchOptions (a : Algorithm) (args : List String) : Except Error Benchmark.Options := do
  let folder := (args[2]?).getD (Benchmark.defaultFolder a)
  if 3 < args.length then return ⟨folder, some (← number args 3)⟩ else return ⟨folder, none⟩

/-- Run a benchmark folder. -/
def bench (a : Algorithm) (args : List String) : ExceptT Error m String := do
  let folder ← ExceptT.mk (pure (argument args 1))
  let options ← ExceptT.mk (pure (benchOptions a args))
  match ← ((Benchmark.run a folder options).run : m _) with
  | .error e => throw (.benchmark e)
  | .ok results =>
      let totals := results.summary
      return a.name ++ ": " ++ toString totals.correct ++ "/" ++ toString totals.files ++
        " correct, " ++ toString totals.errors ++ " errors (" ++
        Benchmark.tablePath a folder options ++ ")\n"

/-- Carry out a command with a method. -/
def dispatch (a : Algorithm) (args : List String) : ExceptT Error m String :=
  match args with
  | [] => throw .missingArgument
  | "check" :: _ => check a args
  | "bench" :: _ => bench a args
  | name :: _ => throw (.unknownCommand name)

/-- What the arguments ask for. -/
def execute (program : String) (args : List String) : ExceptT Error m String :=
  match args with
  | [] => return usage program ++ "\n"
  | "generate" :: rest => ExceptT.mk (pure (generate rest))
  | name :: rest =>
      match Algorithm.ofName? name with
      | some a => dispatch a rest
      | none => throw (.unknownMethod name)

/-- Call the program with arguments. -/
def call (program : String) (args : List String) : m Output := do
  match ← (execute program args).run with
  | .ok text => return { out := text }
  | .error e => return .ofError program e

end CommandLine

end Clausal
