import Clausal.Files.Access

/-!
# A disk in memory

A disk is a list of files and folders by their places, with a working folder.  A place
is the list of names that leads to it, innermost first, and the root is there without
an entry.  Operations find their place by walking a path piece by piece.  Every step
needs a folder to start from, so a file before another piece is refused, and so is one
before a final `/`.  The limits of `Clausal.Files.Path` hold: for the whole path before the
walk, and for each piece when its turn comes.  The clock stands still.

A name is a text of Unicode characters, and not any sequence of bytes.  There are no links, so a
place has one path of names from the root, and a path that goes up leaves the folder that it came
into.  Nothing is kept from anyone: every file that is there can be read and written, and every
folder can be listed.
-/

namespace Clausal

/-- What is at a place. -/
inductive Node where
  /-- A file with its content. -/
  | file (content : ByteArray)
  /-- A folder. -/
  | folder

/-- The names that lead to a place, innermost first. -/
abbrev Place : Type := List String

/-- Files and folders by place. -/
structure Disk where
  /-- The working folder. -/
  current : Place
  /-- What is at each place. -/
  nodes : List (Place × Node)
  /-- No place has two entries. -/
  distinct : (nodes.map Prod.fst).Nodup

namespace Disk

/-- What is at a place, if anything. -/
def node? (d : Disk) (place : Place) : Option Node :=
  if place = [] then some .folder else (d.nodes.find? fun n => n.1 == place).map Prod.snd

/-- Put something at a place. -/
def put (d : Disk) (place : Place) (n : Node) : Disk where
  current := d.current
  nodes := (place, n) :: d.nodes.filter fun m => m.1 != place
  distinct := by
    rw [List.map_cons, List.nodup_cons]
    refine ⟨fun h => ?_, d.distinct.sublist (List.filter_sublist.map Prod.fst)⟩
    obtain ⟨m, hm, he⟩ := List.mem_map.mp h
    exact bne_iff_ne.mp (List.mem_filter.mp hm).2 he

/-- The place is a folder. -/
def checkFolder (d : Disk) (place : Place) : Except Files.Fault Unit :=
  match d.node? place with
  | none => .error .notFound
  | some (.file _) => .error .notFolder
  | some .folder => .ok ()

/-- A piece can be looked up in the place: that is a folder, and the piece is not too
long for a name. -/
def checkPiece (d : Disk) (place : Place) (piece : String) : Except Files.Fault Unit := do
  d.checkFolder place
  if Path.isPieceTooLong piece then .error .tooLong else .ok ()

/-- Follow one piece of a path. -/
def follow (d : Disk) (place : Place) (piece : String) : Except Files.Fault Place := do
  d.checkPiece place piece
  if piece == "" || piece == "." then return place
  else if piece == ".." then return place.tail
  else return piece :: place

/-- Where a path starts. -/
def origin (d : Disk) (path : String) : Place := if Path.isRooted path then [] else d.current

/-- A path can be walked at all: it has no zero character, is not empty and not too
long. -/
def checkPath (path : String) : Except Files.Fault Unit :=
  if Path.hasZero path then .error .zeroInPath
  else if path == "" then .error .notFound
  else if Path.isTooLong path then .error .tooLong
  else .ok ()

/-- The place of a path, whether or not something is there. -/
def locate (d : Disk) (path : String) : Except Files.Fault Place := do
  checkPath path
  (Path.pieces path).foldlM d.follow (d.origin path)

/-- What is at the end of a path. -/
def find (d : Disk) (path : String) : Except Files.Fault (Place × Node) := do
  let place ← d.locate path
  match d.node? place with
  | some n => return (place, n)
  | none => .error .notFound

/-- The folder that the last piece of a path is looked up in, and that piece.  Slashes at
the end do not count. -/
def locateLast (d : Disk) (path : String) : Except Files.Fault (Place × String) := do
  checkPath path
  let pieces := ((Path.pieces path).reverse.dropWhile fun p => p == "").reverse
  let last := pieces.getLastD ""
  let place ← pieces.dropLast.foldlM d.follow (d.origin path)
  d.checkPiece place last
  return (place, last)

/-- Whether a piece names something in a folder. -/
def isName (piece : String) : Bool := piece != "" && piece != "." && piece != ".."

/-- Whether there is a folder at a path. -/
def isFolder (d : Disk) (path : String) : Bool :=
  match d.find path with
  | .ok (_, .folder) => true
  | _ => false

/-- Whether there is a file at a path. -/
def isFile (d : Disk) (path : String) : Bool :=
  match d.find path with
  | .ok (_, .file _) => true
  | _ => false

/-- The content of the file at a path. -/
def read (d : Disk) (path : String) : Except Files.Fault ByteArray := do
  match ← d.find path with
  | (_, .file content) => return content
  | (_, .folder) => .error .isFolder

/-- The name of a place inside a folder, if it lies directly in it. -/
def nameIn? (folder : Place) : Place → Option String
  | name :: outer => if outer == folder then some name else none
  | [] => none

/-- The names in the folder at a path. -/
def list (d : Disk) (path : String) : Except Files.Fault (List String) := do
  match ← d.find path with
  | (_, .file _) => .error .notFolder
  | (place, .folder) => return d.nodes.filterMap fun n => nameIn? place n.1

/-- Make a folder. -/
def makeFolder (d : Disk) (path : String) : Except Files.Fault Disk := do
  let (folder, piece) ← d.locateLast path
  if isName piece && (d.node? (piece :: folder)).isNone then return d.put (piece :: folder) .folder
  else .error .occupied

/-- Write a file. -/
def write (d : Disk) (path text : String) : Except Files.Fault Disk := do
  let (folder, piece) ← d.locateLast path
  if isName piece then
    match d.node? (piece :: folder) with
    | some .folder => .error .isFolder
    | _ => return d.put (piece :: folder) (.file text.toUTF8)
  else .error .isFolder

/-- Change the disk, unless the system refuses. -/
def update (change : Disk → Except Files.Fault Disk) : StateM Disk (Except Files.Fault Unit) :=
  fun d =>
    match change d with
    | .ok d => (.ok (), d)
    | .error f => (.error f, d)

instance : Files (StateM Disk) where
  read path := fun d => (d.read path, d)
  isFolder path := fun d => (d.isFolder path, d)
  isFile path := fun d => (d.isFile path, d)
  list path := fun d => (d.list path, d)
  makeFolder path := update fun d => d.makeFolder path
  write path text := update fun d => d.write path text
  timed f := fun d => ((f (), 0), d)

end Disk

end Clausal
