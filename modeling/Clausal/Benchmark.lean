import Clausal.Algorithm
import Clausal.Csv
import Clausal.Duration
import Clausal.Files.Access

/-!
# Benchmarks

A benchmark folder has a folder `sat` and a folder `unsat` of formulas whose verdict is
known.  A run solves all of them by one method and writes a table with a row for every
formula.  A formula that cannot be read has a row as well and does not stop the run.
-/

namespace Clausal

namespace Benchmark

/-! ### Where the table goes -/

/-- The settings of a run. -/
structure Options where
  /-- The folder that the table is written to.  It is made if it is missing. -/
  resultsFolder : String
  /-- How many formulas of each folder are taken at most. -/
  limit : Option Nat := none
deriving DecidableEq, Repr

/-- The folder for results of a method, unless another is given. -/
def defaultFolder (a : Algorithm) : String := Path.join "results" a.name

/-- The settings of a method, unless others are given. -/
def Options.default (a : Algorithm) : Options := ⟨defaultFolder a, none⟩

/-- The path of the table for a benchmark folder. -/
def tablePath (a : Algorithm) (folder : String) (o : Options) : String :=
  let name := (Path.fileName? folder).getD "benchmark"
  Path.join o.resultsFolder (name ++ "_results_" ++ a.name ++ ".csv")

/-! ### Rows -/

/-- One timed run of a method. -/
structure Measurement where
  /-- What the method found. -/
  verdict : Verdict
  /-- The nanoseconds that it took. -/
  elapsed : Nat
  /-- The work that it did. -/
  stats : Stats
deriving DecidableEq, Repr

/-- A row of the table: a formula and what came of it, if it could be read. -/
structure Row where
  /-- The name of the file. -/
  file : String
  /-- The known verdict. -/
  expected : Verdict
  /-- The run. -/
  result : Option Measurement
deriving DecidableEq, Repr

/-- The verdict found is the known one. -/
def Row.isCorrect (r : Row) : Bool := r.result.any fun t => t.verdict == r.expected

/-- The formula could not be read. -/
def Row.isError (r : Row) : Bool := r.result.isNone

/-- The fields of a row. -/
def Row.fields (r : Row) : List String :=
  match r.result with
  | some t =>
      [r.file, r.expected.text, t.verdict.text, if t.verdict = r.expected then "Yes" else "No",
        Duration.text t.elapsed]
  | none => [r.file, r.expected.text, "Error", "No", "0.000000"]

/-- The names of the columns. -/
def columns : List String := ["Filename", "Expected", "Solver Result", "Correct?", "Time (s)"]

/-- The table of some rows. -/
def table (rows : List Row) : String :=
  String.ofList (Csv.writeAll ((columns :: rows.map Row.fields).map fun r => r.map String.toList))

/-- Totals of a run. -/
structure Summary where
  /-- How many formulas there were. -/
  files : Nat := 0
  /-- How many were decided as expected. -/
  correct : Nat := 0
  /-- How many could not be read. -/
  errors : Nat := 0
deriving DecidableEq, Repr

/-- The totals of two parts of a run. -/
def Summary.add (s t : Summary) : Summary :=
  ⟨s.files + t.files, s.correct + t.correct, s.errors + t.errors⟩

/-- The totals of some rows. -/
def Summary.ofRows (rows : List Row) : Summary :=
  ⟨rows.length, rows.countP Row.isCorrect, rows.countP Row.isError⟩

/-- What a run writes into its log. -/
inductive Event where
  /-- The folder of formulas of a verdict is missing. -/
  | skipped (folder : String)
  /-- A method found another verdict than the known one. -/
  | unexpected (file : String) (expected : Verdict) (a : Algorithm) (found : Verdict)
  /-- A formula could not be read. -/
  | unreadable (file : String) (e : LoadError)
deriving DecidableEq

/-- The log entry of an event. -/
def Event.entry : Event → LogEntry
  | .skipped folder => ⟨.debug, "skipping missing folder '" ++ folder ++ "'"⟩
  | .unexpected file expected a found =>
      ⟨.warn, file ++ ": expected " ++ expected.text ++ " but " ++ a.name ++ " reported " ++
        found.text⟩
  | .unreadable file e => ⟨.warn, file ++ ": " ++ e.message⟩

/-! ### Runs -/

/-- Why a run ends early. -/
inductive Error where
  /-- A folder cannot be listed. -/
  | unlisted (folder : String) (fault : Files.Fault)
  /-- The table cannot be written. -/
  | unwritten (path : String) (fault : Files.Fault)
  /-- A search met a fault. -/
  | search (fault : Search.Fault)
deriving DecidableEq

/-- What is said of the error. -/
def Error.message : Error → String
  | .unlisted folder _ => "Failed to list benchmark folder '" ++ folder ++ "'"
  | .unwritten path _ => "Failed to write results to '" ++ path ++ "'"
  | .search fault => fault.message

/-- The report of the error: a refusal of the system is its cause. -/
def Error.report (e : Error) : Report :=
  match e with
  | .unlisted _ fault => .causedBy e.message fault.report
  | .unwritten _ fault => .causedBy e.message fault.report
  | .search _ => ⟨e.message, []⟩

/-- The rows and the log of a run, and the totals, which are counted along the way. -/
structure Results where
  /-- The rows, in order. -/
  rows : List Row := []
  /-- The events, in order. -/
  events : List Event := []
  /-- The totals. -/
  summary : Summary := {}

/-- The rows, the log and the totals of two parts of a run. -/
def Results.append (a b : Results) : Results :=
  ⟨a.rows ++ b.rows, a.events ++ b.events, a.summary.add b.summary⟩

/-- The results of a formula that could not be read. -/
def Results.ofUnreadable (expected : Verdict) (file : String) (e : LoadError) : Results :=
  ⟨[⟨file, expected, none⟩], [.unreadable file e], { files := 1, errors := 1 }⟩

/-- The results of a formula that was decided. -/
def Results.ofMeasurement (a : Algorithm) (expected : Verdict) (file : String)
    (t : Measurement) : Results :=
  ⟨[⟨file, expected, some t⟩],
    if t.verdict = expected then [] else [.unexpected file expected a t.verdict],
    { files := 1, correct := if t.verdict = expected then 1 else 0 }⟩

/-- The name of the folder of formulas with a verdict. -/
def folderName : Verdict → String
  | .sat => "sat"
  | .unsat => "unsat"

/-- The first elements of a list, as many as there may be. -/
def cut (limit : Option Nat) (names : List String) : List String :=
  match limit with
  | none => names
  | some n => names.take n

variable {m : Type → Type} [Monad m] [Files m]

/-- Why there is no measurement of a file. -/
inductive Failure where
  /-- The formula could not be read. -/
  | unreadable (e : LoadError)
  /-- The search met a fault. -/
  | search (fault : Search.Fault)
deriving DecidableEq

/-- Run a method on the formula of a file.  Reading is not timed. -/
def measure (a : Algorithm) (path : String) : m (Except Failure Measurement) := do
  match ← (Formula.load path : m _) with
  | .error e => return .error (.unreadable e)
  | .ok f =>
      match ← (Files.timed fun _ => a.solve f : m _) with
      | (.error fault, _) => return .error (.search fault)
      | (.ok (solution, stats), elapsed) => return .ok ⟨solution.verdict, elapsed, stats⟩

/-- Whether a name in a folder is that of a file with a formula. -/
def isFormulaFile (folder name : String) : m Bool :=
  if Path.hasExtension "cnf" name then Files.isFile (Path.join folder name) else pure false

/-- The names in a folder that are those of files with a formula. -/
def keepFormulaFiles (folder : String) (names : List String) : m (List String) :=
  names.filterM (isFormulaFile folder)

/-- The names of the formulas directly inside a folder, in order. -/
def formulaFiles (folder : String) (limit : Option Nat) : ExceptT Error m (List String) := do
  match ← (Files.list folder : m _) with
  | .error fault => throw (.unlisted folder fault)
  | .ok names =>
      let files ← (keepFormulaFiles folder names : m _)
      return cut limit (files.mergeSort fun a b => decide (a ≤ b))

/-- Run a method on some formulas of a folder, in order. -/
def runFiles (a : Algorithm) (expected : Verdict) (folder : String) :
    List String → ExceptT Error m Results
  | [] => return {}
  | file :: rest => do
      match ← (measure a (Path.join folder file) : m _) with
      | .error (.search fault) => throw (.search fault)
      | .error (.unreadable e) =>
          return (Results.ofUnreadable expected file e).append
            (← runFiles a expected folder rest)
      | .ok t =>
          return (Results.ofMeasurement a expected file t).append
            (← runFiles a expected folder rest)

/-- Run a method on the formulas with a known verdict. -/
def runFolder (a : Algorithm) (folder : String) (limit : Option Nat) (expected : Verdict) :
    ExceptT Error m Results := do
  let inner := Path.join folder (folderName expected)
  if ← (Files.isFolder inner : m Bool) then
    runFiles a expected inner (← formulaFiles inner limit)
  else return { events := [.skipped inner] }

/-- Write the table. -/
def writeTable (path text : String) : ExceptT Error m Unit := do
  match ← (Files.write path text : m _) with
  | .error fault => throw (.unwritten path fault)
  | .ok () => return ()

/-- Make the folder of the table. -/
def makeTableFolder (path folder : String) : ExceptT Error m Unit := do
  match ← (Files.makeFolders folder : m _) with
  | .error fault => throw (.unwritten path fault)
  | .ok () => return ()

/-- Carry on a run that has rows already.  If it ends early these are written nevertheless, and it
does not matter then whether they can be. -/
def keepRows (path : String) (rows : List Row) (rest : ExceptT Error m Results) :
    ExceptT Error m Results :=
  tryCatch rest fun e => do
    discard (Files.write path (table rows) : m _)
    throw e

/-- Run a method on a benchmark folder.  The table is begun before the first formula is
read, so a run that could not write it does not start. -/
def run (a : Algorithm) (folder : String) (o : Options) : ExceptT Error m Results := do
  let path := tablePath a folder o
  makeTableFolder path o.resultsFolder
  writeTable path (table [])
  let sat ← runFolder a folder o.limit .sat
  let unsat ← keepRows path sat.rows (runFolder a folder o.limit .unsat)
  let results := sat.append unsat
  writeTable path (table results.rows)
  return results

end Benchmark

end Clausal
