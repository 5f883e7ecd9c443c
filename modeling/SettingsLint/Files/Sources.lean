import SettingsLint.Files.Tree

/-! # Source files

The source files at a path are the file itself, or all source files in the directory
and in the directories below it. Links in a directory are left out, so that circles of
links do no harm.
-/

namespace SettingsLint

def sourceExtension : String := "cs"

def Path.isSource (p : Path) : Bool := p.extension? = some sourceExtension

/-- Why there are no source files to be had. -/
inductive SourcesError where
  /-- The file is none. -/
  | notSource (path : Path)
  /-- There is nothing at the path. -/
  | missing (path : Path)
  /-- There is no source file at any of the paths. -/
  | noSources
  deriving DecidableEq, Repr

def SourcesError.message : SourcesError → String
  | .notSource path => s!"File '{path.text}' is not a .{sourceExtension} source file"
  | .missing path => s!"Path '{path.text}' does not exist"
  | .noSources => s!"No .{sourceExtension} source files found"

mutual

/-- The source files of a node with the given path. -/
def Node.sources (path : Path) : Node → List Path
  | .file _ => if path.isSource then [path] else []
  | .link _ => []
  | .directory entries => sourcesIn path entries

/-- The source files of the entries of the directory with the given path. -/
def sourcesIn (directory : Path) : List (String × Node) → List Path
  | [] => []
  | (name, node) :: rest => node.sources (directory.join name) ++ sourcesIn directory rest

end

namespace FileTree

def sourcesAt (tree : FileTree) (path : Path) : Except SourcesError (List Path) :=
  match tree.find? path with
  | some (.file _) => if path.isSource then .ok [path] else .error (.notSource path)
  | some (.directory entries) => .ok (Path.sort (sourcesIn path entries))
  | _ => .error (.missing path)

/-- The source files at some paths, each of them once. -/
def sources (tree : FileTree) (paths : List Path) : Except SourcesError (List Path) := do
  let found := Path.dropRepeated (← paths.mapM tree.sourcesAt).flatten
  if found.isEmpty then throw .noSources else return found

end FileTree

end SettingsLint
