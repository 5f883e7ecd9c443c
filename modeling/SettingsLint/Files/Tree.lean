import SettingsLint.Files.Path

/-! # File trees

The files that a command works on, as a tree of directories. A path is looked up from
the root or from the working directory, name by name; links are followed on the way,
but not without end.
-/

namespace SettingsLint

/-- Something that a directory can hold. -/
inductive Node where
  /-- A file, with its text if it can be read and is text. -/
  | file (text : Option String)
  /-- A name for another path. -/
  | link (target : String)
  | directory (entries : List (String × Node))
  deriving Inhabited

/-- The entries of a directory, by name. -/
abbrev Directory := List (String × Node)

/-- The files that a command works on. -/
structure FileTree where
  /-- The directory at the root. -/
  root : Directory
  /-- The path that relative paths start from. -/
  workingDirectory : Path

namespace Node

/-- The file with the bytes as its content. -/
def ofBytes (bytes : ByteArray) : Node := .file (String.fromUTF8? bytes)

end Node

namespace Directory

/-- The directory with an entry put in place of the one with the same name. -/
def set (name : String) (node : Node) : Directory → Directory
  | [] => [(name, node)]
  | (k, v) :: rest => if k = name then (name, node) :: rest else (k, v) :: set name node rest

/-- The node at a location: a list of names from the directory down. -/
def locate? (entries : Directory) : List String → Option Node
  | [] => some (.directory entries)
  | name :: rest =>
    match entries.lookup name with
    | some (.directory inner) => locate? inner rest
    | some node => if rest.isEmpty then some node else none
    | none => none

/-- The directory with a node at a location. The directories on the way are made if
they are missing. -/
def insert (node : Node) : List String → Directory → Directory
  | [], entries => entries
  | [name], entries => entries.set name node
  | name :: rest, entries =>
    match entries.lookup name with
    | some (.directory inner) => entries.set name (.directory (insert node rest inner))
    | _ => entries.set name (.directory (insert node rest []))

def maxLinks : Nat := 40

/-- Follows the pieces of a path from a location, whose last name comes first. Only a
directory can be left or passed through, and an empty piece or a dot stays in it. -/
def follow (root : Directory) (links : Nat) (here : List String) (pieces : List String) :
    Option (List String) :=
  match pieces with
  | [] => some here
  | piece :: rest =>
    match locate? root here.reverse with
    | some (.directory entries) =>
      if piece = "" ∨ piece = "." then follow root links here rest
      else if piece = ".." then follow root links here.tail rest
      else
        match entries.lookup piece with
        | none => none
        | some (.link target) =>
          match links with
          | 0 => none
          | links + 1 =>
            let path : Path := ⟨target⟩
            follow root links (if path.isAbsolute then [] else here) (path.pieces ++ rest)
        | some _ => follow root links (piece :: here) rest
    | _ => none
termination_by (links, pieces.length)

end Directory

namespace FileTree

/-- The path as one from the root on. -/
def absolute (tree : FileTree) (p : Path) : Path :=
  if p.isAbsolute then p else tree.workingDirectory.join p.text

/-- The location that a path leads to. -/
def location? (tree : FileTree) (p : Path) : Option (List String) :=
  if p.text.isEmpty then none
  else (tree.root.follow Directory.maxLinks [] (tree.absolute p).pieces).map List.reverse

def find? (tree : FileTree) (p : Path) : Option Node :=
  tree.location? p >>= tree.root.locate?

def isFile (tree : FileTree) (p : Path) : Bool :=
  match tree.find? p with
  | some (.file _) => true
  | _ => false

def read? (tree : FileTree) (p : Path) : Option String :=
  match tree.find? p with
  | some (.file text) => text
  | _ => none

/-- The names of a path from the root on, nothing looked up. -/
def names (tree : FileTree) (p : Path) : List String :=
  (tree.absolute p).parts.filterMap fun
    | .name name => some name
    | _ => none

/-- The tree with a node put at a path. -/
def add (tree : FileTree) (p : Path) (node : Node) : FileTree :=
  { tree with root := tree.root.insert node (tree.names p) }

/-- The tree with a text written to a file. The file that the path leads to gets the
text, and if there is none it is made. -/
def write (tree : FileTree) (p : Path) (text : String) : FileTree :=
  let location := (tree.location? p).getD (tree.names p)
  { tree with root := tree.root.insert (.file (some text)) location }

end FileTree

end SettingsLint
