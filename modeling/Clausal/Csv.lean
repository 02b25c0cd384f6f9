/-!
# Comma-separated records

A record is a line of fields with commas between them.  A field that holds a comma, a
quote or a line feed is written in quotes, with every quote of it doubled.
-/

namespace Clausal

namespace Csv

/-- Whether a field needs quotes because of the character. -/
def isSpecial (c : Char) : Bool := c == ',' || c == '"' || c == '\n'

/-- A quote is written twice inside quotes. -/
def escape (c : Char) : List Char := if c = '"' then ['"', '"'] else [c]

/-- How a field is written. -/
def writeField (field : List Char) : List Char :=
  if field.any isSpecial then '"' :: field.flatMap escape ++ ['"'] else field

/-- How fields are written behind one another. -/
def writeFields : List (List Char) → List Char
  | [] => []
  | [field] => writeField field
  | field :: rest => writeField field ++ ',' :: writeFields rest

/-- How a record is written: its fields and a line feed. -/
def writeRecord (fields : List (List Char)) : List Char := writeFields fields ++ ['\n']

/-- How records are written. -/
def writeAll (records : List (List (List Char))) : List Char := records.flatMap writeRecord

/-- Where a reader stands in a text. -/
inductive Position where
  /-- At the start of a field. -/
  | start
  /-- In a field without quotes. -/
  | plain
  /-- Between the quotes of a field. -/
  | quoted
  /-- Behind a quote between the quotes of a field: the closing one or half of a double. -/
  | closing
deriving DecidableEq, Repr

/-- What has been read, newest first: characters of the field, fields of the record, and
records. -/
structure Reader where
  /-- Where the reader stands. -/
  position : Position := .start
  /-- Characters of the field. -/
  field : List Char := []
  /-- Fields of the record. -/
  fields : List (List Char) := []
  /-- Records. -/
  records : List (List (List Char)) := []

namespace Reader

/-- End the field. -/
def endField (r : Reader) : Reader :=
  { r with position := .start, field := [], fields := r.field.reverse :: r.fields }

/-- End the record. -/
def endRecord (r : Reader) : Reader :=
  let r := r.endField
  { r with fields := [], records := r.fields.reverse :: r.records }

/-- Add a character to the field. -/
def push (r : Reader) (position : Position) (c : Char) : Reader :=
  { r with position, field := c :: r.field }

/-- A carriage return before a line feed belongs to the end of the record. -/
def dropReturn (r : Reader) : Reader :=
  match r.position, r.field with
  | .plain, '\r' :: rest => { r with field := rest }
  | _, _ => r

/-- Read a character outside quotes. -/
def readPlain (r : Reader) (c : Char) : Reader :=
  if c = ',' then r.endField
  else if c = '\n' then r.dropReturn.endRecord
  else r.push .plain c

/-- Read a character. -/
def read (r : Reader) (c : Char) : Reader :=
  match r.position with
  | .start => if c = '"' then { r with position := .quoted } else r.readPlain c
  | .plain => r.readPlain c
  | .quoted => if c = '"' then { r with position := .closing } else r.push .quoted c
  | .closing => if c = '"' then r.push .quoted c else r.readPlain c

end Reader

/-- The records of a text whose last record has its line feed. -/
def readAll (text : List Char) : List (List (List Char)) :=
  (text.foldl Reader.read {}).records.reverse

example : writeRecord ["a,b".toList, [], "c\"".toList] = "\"a,b\",,\"c\"\"\"\n".toList := by decide

example : readAll "\"a,b\",,\"c\"\"\"\n".toList = [["a,b".toList, [], "c\"".toList]] := by decide

end Csv

end Clausal
