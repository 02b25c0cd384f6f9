/-!
# Paths

A path is a text of pieces with `/` between them.  Empty pieces and the piece `.`
stay where they are, and `..` leads one level up.  A path that starts with `/` starts
at the root, and any other at the working folder.

Sizes are counted in bytes.  The system takes no path with a zero character, none of
more than `Path.maxSize` bytes, and no piece of more than `Path.maxPieceSize`.
-/

namespace Clausal

namespace Path

/-- Put a character in front of the pieces that follow it. -/
def consPiece (c : Char) : List (List Char) → List (List Char)
  | [] => if c = '/' then [[], []] else [[c]]
  | piece :: rest => if c = '/' then [] :: piece :: rest else (c :: piece) :: rest

/-- The pieces of a path, the empty ones included. -/
def pieces (path : String) : List String :=
  (path.toList.foldr consPiece [[]]).map String.ofList

/-- The size of the longest path. -/
def maxSize : Nat := 4095

/-- The size of the longest piece. -/
def maxPieceSize : Nat := 255

/-- Whether the path has a zero character, at which the system would take it to end. -/
def hasZero (path : String) : Bool := path.toList.contains '\x00'

/-- Whether the path is longer than the system allows. -/
def isTooLong (path : String) : Bool := decide (maxSize < path.utf8ByteSize)

/-- Whether a piece is longer than the system allows. -/
def isPieceTooLong (piece : String) : Bool := decide (maxPieceSize < piece.utf8ByteSize)

/-- Whether the path starts at the root. -/
def isRooted (path : String) : Bool := path.toList.head? == some '/'

/-- The pieces that lead somewhere: names and `..`. -/
def names (path : String) : List String :=
  (pieces path).filter fun p => p != "" && p != "."

/-- The name of what the path leads to.  A path that ends in `..`, and one that stays at
the root or the working folder, has none. -/
def fileName? (path : String) : Option String :=
  (names path).getLast?.filter fun p => p != ".."

/-- A path from the folder of another path.  A rooted path does not depend on it. -/
def join (folder path : String) : String :=
  if isRooted path || folder == "" then path
  else if folder.toList.getLast? == some '/' then folder ++ path
  else folder ++ "/" ++ path

/-- The paths of all but the innermost name, of all but two, and so on.  The names come
innermost first. -/
def outerPaths (root : String) : List String → List String
  | [] => []
  | _ :: outer => (root ++ String.intercalate "/" outer.reverse) :: outerPaths root outer

/-- The folders around the place of a path, innermost first. -/
def ancestors (path : String) : List String :=
  outerPaths (if isRooted path then "/" else "") (names path).reverse

/-- Whether a file name ends in `.` and the extension, with something in front. -/
def hasExtension (extension name : String) : Bool :=
  let suffix := '.' :: extension.toList
  suffix.isSuffixOf name.toList && decide (suffix.length < name.length)

example : pieces "a//b/" = ["a", "", "b", ""] := by decide

example : fileName? "a/b/." = some "b" := by decide

example : ancestors "a/./b/c" = ["a/b", "a", ""] := by decide

end Path

end Clausal
