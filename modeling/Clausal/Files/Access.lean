import Clausal.Files.Path
import Clausal.Dimacs.Parser

/-!
# Access to files

What the commands need of the world around them, as operations of a monad: reading
and writing files, looking at folders, and a clock.  Operations that the system may
refuse say why.
-/

namespace Clausal

namespace Files

/-- Why the system refuses an operation. -/
inductive Fault where
  /-- There is nothing at the path. -/
  | notFound
  /-- A file was wanted and there is a folder. -/
  | isFolder
  /-- A folder was wanted and there is a file. -/
  | notFolder
  /-- Something is at the path already. -/
  | occupied
  /-- The path or one of its pieces is too long. -/
  | tooLong
  /-- The path has a zero character. -/
  | zeroInPath
  /-- The content of a file is no text. -/
  | notText
  /-- Any other reason. -/
  | other (message : String)
deriving DecidableEq, Repr

/-- What the system says. -/
def Fault.message : Fault → String
  | .notFound => "No such file or directory (os error 2)"
  | .isFolder => "Is a directory (os error 21)"
  | .notFolder => "Not a directory (os error 20)"
  | .occupied => "File exists (os error 17)"
  | .tooLong => "File name too long (os error 36)"
  | .zeroInPath => "file name contained an unexpected NUL byte"
  | .notText => "stream did not contain valid UTF-8"
  | .other message => message

/-- A refusal has no further cause. -/
def Fault.report (f : Fault) : Report := ⟨f.message, []⟩

end Files

/-- The operations on files and the clock that a monad offers. -/
class Files (m : Type → Type) where
  /-- The content of a file. -/
  read : String → m (Except Files.Fault ByteArray)
  /-- Whether there is a folder at a path. -/
  isFolder : String → m Bool
  /-- Whether there is a file at a path. -/
  isFile : String → m Bool
  /-- The names in a folder, in any order. -/
  list : String → m (Except Files.Fault (List String))
  /-- Make a folder inside one that is there. -/
  makeFolder : String → m (Except Files.Fault Unit)
  /-- Write a file, over the one that is there, if any. -/
  write : String → String → m (Except Files.Fault Unit)
  /-- Compute a value, and say how many nanoseconds it took. -/
  timed : {α : Type} → (Unit → α) → m (α × Nat)

namespace Files

variable {m : Type → Type} [Monad m] [Files m]

/-- The content of a file as text. -/
def readText (path : String) : m (Except Fault String) := do
  match ← Files.read path with
  | .error f => return .error f
  | .ok bytes =>
      match String.fromUTF8? bytes with
      | some text => return .ok text
      | none => return .error .notText

/-- Make the first folder of a list.  If that finds nothing to make it in, the others
are made first: each lies around the one before it. -/
def makeFirst : List String → m (Except Fault Unit)
  | [] => return .error .notFound
  | path :: outer => do
      if path == "" then return .ok ()
      match ← Files.makeFolder path with
      | .ok () => return .ok ()
      | .error .notFound =>
          match ← makeFirst outer with
          | .error f => return .error f
          | .ok () =>
              match ← Files.makeFolder path with
              | .ok () => return .ok ()
              | .error f => return if ← Files.isFolder path then .ok () else .error f
      | .error f => return if ← Files.isFolder path then .ok () else .error f

/-- Make a folder and the folders around it, as far as they are missing. -/
def makeFolders (path : String) : m (Except Fault Unit) := makeFirst (path :: Path.ancestors path)

end Files

/-- Why a file gives no formula. -/
inductive LoadError where
  /-- The file cannot be read. -/
  | unreadable (path : String) (fault : Files.Fault)
  /-- Its text is no formula. -/
  | malformed (fault : Dimacs.Error)
deriving DecidableEq

/-- What is said of the error. -/
def LoadError.message : LoadError → String
  | .unreadable path _ => "I/O error occurred while parsing CNF file '" ++ path ++ "'"
  | .malformed fault => fault.message

/-- The report of the error: a file that cannot be read says why. -/
def LoadError.report (e : LoadError) : Report :=
  match e with
  | .unreadable _ fault => .causedBy e.message fault.report
  | .malformed fault => fault.report

/-- Read a formula from a file. -/
def Formula.load {m : Type → Type} [Monad m] [Files m] (path : String) :
    m (Except LoadError Formula) := do
  match ← Files.readText path with
  | .error fault => return .error (.unreadable path fault)
  | .ok text =>
      match Formula.ofDimacs text with
      | .error fault => return .error (.malformed fault)
      | .ok f => return .ok f

end Clausal
