import Clausal.Literal
import Clausal.Numeral

/-!
# Reading variables and literals

The text of a variable is a numeral.  It is read as a number of 64 bits first, and
a number that names no variable is a fault of its own.  The text of a literal is
that of its variable, after a minus sign for a negative one.
-/

namespace Clausal

/-- Why a text is no variable. -/
inductive Variable.ReadError where
  /-- The text is no number of 64 bits. -/
  | notANumber (text : String) (fault : Numeral.Fault)
  /-- The number names no variable. -/
  | outOfRange (number : Nat)
deriving DecidableEq, Repr

/-- What is said of the error. -/
def Variable.ReadError.message : Variable.ReadError → String
  | .notANumber text _ => "Failed to parse literal '" ++ text ++ "'"
  | .outOfRange number =>
      "Variable ID " ++ toString number ++ " is out of range (must be within 1 to " ++
        toString Variable.maxId ++ ")"

/-- The report of the error: a text that is no number has the fault as its cause. -/
def Variable.ReadError.report (e : Variable.ReadError) : Report :=
  match e with
  | .notANumber _ fault => .causedBy e.message fault.report
  | .outOfRange _ => ⟨e.message, []⟩

/-- Read the number of a variable. -/
def Variable.read (text : List Char) : Except Variable.ReadError Variable :=
  match Numeral.read Numeral.maxWord text with
  | .error fault => .error (.notANumber (String.ofList text) fault)
  | .ok number =>
      match Variable.ofId? number with
      | none => .error (.outOfRange number)
      | some v => .ok v

/-- Read a literal: one minus sign in front makes it negative. -/
def Literal.read : List Char → Except Variable.ReadError Literal
  | '-' :: rest => (Variable.read rest).map fun v => ⟨v, false⟩
  | text => (Variable.read text).map fun v => ⟨v, true⟩

end Clausal
