import LslFront.Source

/-!
# Files

A view of the files that a run can reach, and the rules of paths in it.

A path is followed name by name from the working directory, or from the root if it begins with a
slash.  Going up from a directory leads to the one it lies in, as long as the part before it
exists.  The root and the directories above the working directory always exist, but a path leads
from them only to what the tree has there.
-/

namespace LslFront

/-- What a path leads to.  A file that does not hold text has none. -/
inductive FileNode where
  | file (text : Option String)
  | directory
deriving DecidableEq, Repr

/-- What paths lead to, or why they lead nowhere.  A view may be partial: then it says of a path
    that it is `unseen`, and whoever asks has to come back with a view that knows it. -/
abbrev FileView := String → Except ReadFailure FileNode

namespace FileView

def read (view : FileView) (path : String) : Except ReadFailure String :=
  match view path with
  | .ok (.file (some text)) => .ok text
  | .ok (.file none) => .error .notText
  | .ok .directory => .error .isDirectory
  | .error failure => .error failure

end FileView

/-! ### Paths -/

def pathSteps (path : String) : List (List Char) :=
  path.toList.splitOn '/'

/-- A path with another one appended.  An absolute path stands for itself. -/
def joinPath (base path : String) : String :=
  if path.toList.head? = some '/' then path
  else if base.isEmpty || base.toList.getLast? = some '/' then base ++ path
  else base ++ "/" ++ path

/-- The parts of a path that matter: no empty ones, and `.` only in front. -/
def pathParts (path : String) : List (List Char) :=
  let keep (part : List Char) : Bool := !part.isEmpty && part != ['.']
  match pathSteps path with
  | ['.'] :: rest => ['.'] :: rest.filter keep
  | parts => parts.filter keep

/-- The directory that a path lies in; the empty path and the root lie in none. -/
def parentPath? (path : String) : Option String :=
  let parts := pathParts path
  let root := if path.toList.head? = some '/' then "/" else ""
  if parts.isEmpty then none
  else some (root ++ String.intercalate "/" (parts.dropLast.map .ofList))

/-! ### Locations -/

/-- Where a path leads: the names from the working directory on.  A `..` stands for each directory
    above it, in front of all names, and a `/` for the root. -/
abbrev Location := List (List Char)

namespace Location

def up (location : Location) : Location :=
  match location.getLast? with
  | none => [['.', '.']]
  | some ['.', '.'] => location ++ [['.', '.']]
  | some ['/'] => location
  | some _ => location.dropLast

/-- Where one part of a path leads from a directory. -/
def step (location : Location) (part : List Char) : Location :=
  if part = [] ∨ part = ['.'] then location
  else if part = ['.', '.'] then location.up
  else location ++ [part]

def start (path : String) : Location :=
  if path.toList.head? = some '/' then [['/']] else []

/-- Is it the working directory, one above it, or the root? -/
def isAlwaysThere (location : Location) : Bool :=
  location.all fun name => name == ['.', '.'] || name == ['/']

end Location

/-! ### Trees -/

/-- The files and directories that are known, by their locations.  Of two entries for one location
    the first counts. -/
structure FileTree where
  entries : List (Location × FileNode)
deriving Repr

namespace FileTree

/-- The tree of some paths, of which later ones replace earlier ones.  A path that ends in a slash
    is a directory, and every directory that a path leads through is there as well. -/
def ofList (files : List (String × Option String)) : FileTree :=
  ⟨files.reverse.flatMap fun (path, text) =>
    let locations := (pathSteps path).scanl Location.step (Location.start path)
    let last := if path.toList.getLast? = some '/' then FileNode.directory else .file text
    locations.dropLast.map (·, FileNode.directory) ++ locations.getLast?.toList.map (·, last)⟩

def node? (tree : FileTree) (location : Location) : Option FileNode :=
  if location.isAlwaysThere then some .directory else tree.entries.lookup location

def maxNameSize : Nat := 255

/-- The least number of bytes that is too much for a path. -/
def pathSizeLimit : Nat := 4096

/-- Follow the parts of a path from a directory.  A name that is too long is noticed when it is
    looked up, so only if everything before it exists. -/
def follow (tree : FileTree) (location : Location) :
    List (List Char) → Except ReadFailure FileNode
  | [] => .ok .directory
  | part :: rest =>
      if maxNameSize < (String.ofList part).utf8ByteSize then .error .nameTooLong
      else
        match tree.node? (location.step part) with
        | none => .error .missing
        | some .directory => tree.follow (location.step part) rest
        | some (.file text) => if rest.isEmpty then .ok (.file text) else .error .notDirectory

def view (tree : FileTree) : FileView := fun path =>
  if path.isEmpty then .error .missing
  else if pathSizeLimit ≤ path.utf8ByteSize then .error .nameTooLong
  else tree.follow (Location.start path) (pathSteps path)

end FileTree

/-! ### Includes from directories -/

/-- The text of the first candidate that is a file, or the failure `otherwise`.  A candidate that
    has not been looked at stops the search. -/
def readFirstFile (view : FileView) (otherwise : ReadFailure) :
    List String → Except ReadFailure String
  | [] => .error otherwise
  | path :: rest =>
      match view path with
      | .ok (.file _) => view.read path
      | .error (.unseen path) => .error (.unseen path)
      | _ => readFirstFile view otherwise rest

/-- A loader that looks for a name in directories, in order. -/
def Loader.ofDirectories (view : FileView) (directories : List String) : Loader := fun name =>
  readFirstFile view (.notInDirectories name directories.length)
    (directories.map (joinPath · name))

/-- The directories to search for the includes of a script: its own first. -/
def searchDirectories (script : String) (others : List String) : List String :=
  match parentPath? script with
  | some parent => parent :: others
  | .none => others

end LslFront
