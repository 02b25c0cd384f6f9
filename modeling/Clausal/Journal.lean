/-!
# What a solver keeps besides its answer

Work counters, and a log of what it did.  Each solver has its own type of events,
and every event has one log entry, a level and a text.

The counters are natural numbers.  They count single steps of the work, so a counter of 64 bits
would not wrap around in any time that a run may take.
-/

namespace Clausal

/-- Counts of the work done.  Each solver uses some of them and leaves the others at
zero. -/
structure Stats where
  /-- Resolvents computed that are no tautologies. -/
  resolvents : Nat := 0
  /-- Rounds of saturation. -/
  rounds : Nat := 0
  /-- Variables eliminated. -/
  eliminations : Nat := 0
  /-- Branching decisions. -/
  decisions : Nat := 0
  /-- Literals forced by unit clauses. -/
  propagations : Nat := 0
  /-- Literals set because they are pure. -/
  pureLiterals : Nat := 0
  /-- Branches left on a falsified clause. -/
  conflicts : Nat := 0
deriving DecidableEq, Repr

/-- The counts on one line. -/
def Stats.text (s : Stats) : String :=
  "resolvents=" ++ toString s.resolvents ++ " rounds=" ++ toString s.rounds ++
    " eliminations=" ++ toString s.eliminations ++ " decisions=" ++ toString s.decisions ++
    " propagations=" ++ toString s.propagations ++ " pure_literals=" ++ toString s.pureLiterals ++
    " conflicts=" ++ toString s.conflicts

/-- How much attention a log entry asks for. -/
inductive Level where
  /-- Single steps. -/
  | trace
  /-- Stages of the work. -/
  | debug
  /-- Something that should be looked at. -/
  | warn
deriving DecidableEq, Repr

/-- The name of a level. -/
def Level.text : Level → String
  | .trace => "TRACE"
  | .debug => "DEBUG"
  | .warn => "WARN"

/-- One entry of a log. -/
structure LogEntry where
  /-- Its level. -/
  level : Level
  /-- Its message. -/
  message : String
deriving DecidableEq, Repr

/-- The entry on one line: the level and the message. -/
def LogEntry.text (e : LogEntry) : String := e.level.text ++ " " ++ e.message

/-- Counters, and events of type `ε` since the log was last taken. -/
structure Journal (ε : Type) where
  /-- The counters. -/
  stats : Stats := {}
  /-- The events, oldest first. -/
  events : Array ε := #[]

namespace Journal

variable {ε : Type}

/-- Note an event. -/
def note (j : Journal ε) (e : ε) : Journal ε := { j with events := j.events.push e }

/-- Change the counters. -/
def count (j : Journal ε) (f : Stats → Stats) : Journal ε := { j with stats := f j.stats }

/-- The events, and the journal without them. -/
def take (j : Journal ε) : List ε × Journal ε := (j.events.toList, { j with events := #[] })

end Journal

end Clausal
