import Clausal.CommandLine

/-!
# The program

The commands over the files and the clock of the system.
-/

namespace Clausal

namespace Console

/-- The number of an error of the system.  Some operations give its negative. -/
def errorNumber (code : UInt32) : UInt32 := min code (0 - code)

/-- What a refusal of the system means. -/
def refusal : IO.Error → Files.Fault
  | .noFileOrDirectory .. => .notFound
  | .resourceExhausted .. => .other "Out of resources"
  | .inappropriateType _ code _ => if errorNumber code = 21 then .isFolder else .notFolder
  | .alreadyExists .. => .occupied
  | .invalidArgument file code details =>
      if errorNumber code = 36 then .tooLong
      else .other (toString (IO.Error.invalidArgument file code details))
  | e => .other (toString e)

/-- Try an operation of the system. -/
def attempt {α : Type} (act : IO α) : IO (Except Files.Fault α) := do
  try
    return .ok (← act)
  catch e =>
    return .error (refusal e)

/-- Whether an operation of the system succeeds with a positive answer. -/
def holds (act : IO Bool) : IO Bool := do
  try
    act
  catch _ =>
    return false

instance : Files IO where
  read path := attempt (IO.FS.readBinFile path)
  isFolder path := holds do (← IO.FS.realPath path).isDir
  isFile path := holds do return (← (← IO.FS.realPath path).metadata).type == .file
  list path := attempt do
    return ((← (← IO.FS.realPath path).readDir).map fun e => e.fileName).toList
  makeFolder path := attempt (IO.FS.createDir path)
  write path text := attempt (IO.FS.writeFile path text)
  timed f := do
    let before ← IO.monoNanosNow
    let a ← IO.lazyPure f
    let after ← IO.monoNanosNow
    return (a, after - before)

end Console

end Clausal

/-- Run the command that the arguments name. -/
def main (args : List String) : IO UInt32 := do
  let output ← Clausal.CommandLine.call (toString (← IO.appPath)) args
  IO.print output.out
  IO.eprint output.err
  return output.code
