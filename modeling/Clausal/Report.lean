/-!
# Error reports

What a failed command prints: the message of the error, and the messages of what
caused it, nearest first.  Every error type of the library says what happened by
its constructors and turns into a `Report` by its own `report` function.
-/

namespace Clausal

/-- A message and the messages of its causes, nearest first. -/
structure Report where
  /-- What went wrong. -/
  message : String
  /-- Why it went wrong, nearest cause first. -/
  causes : List String := []
deriving DecidableEq, Repr

namespace Report

/-- A message whose nearest cause is another report. -/
def causedBy (message : String) (cause : Report) : Report :=
  ⟨message, cause.message :: cause.causes⟩

/-- The lines of the causes, numbered from `depth`. -/
def causeLines : Nat → List String → String
  | _, [] => ""
  | depth, cause :: rest =>
      "  " ++ toString depth ++ ": " ++ cause ++ "\n" ++ causeLines (depth + 1) rest

/-- The full text: the message on a line of its own, then the causes under a
heading, if there are any. -/
def text (r : Report) : String :=
  r.message ++ "\n" ++
    match r.causes with
    | [] => ""
    | causes => "\nCaused by:\n" ++ causeLines 0 causes

end Report

end Clausal
