import SettingsLint.Command.Request

/-! # The program

Reads the files that a request is about into a file tree, runs the command on it, prints
what the command prints, and writes back the files that it has changed.
-/

namespace SettingsLint.Program

/-- The path without links and dots. -/
def realPath (path : String) : IO String := do
  return (← IO.FS.realPath ((← IO.currentDir) / path)).toString

/-- Reads what stands at a path, with all below it. Files that are neither sources nor
configurations are not read. -/
partial def readNode (path : String) : IO Node := do
  let file := (← IO.currentDir) / path
  match (← file.symlinkMetadata).type with
  | .dir =>
    let entries ← file.readDir
    return .directory (← entries.toList.mapM fun entry =>
      return (entry.fileName, ← readNode ((Path.mk path).join entry.fileName).text))
  | .symlink => return .link (← realPath path)
  | _ =>
    let extension := (Path.mk path).extension?
    if extension = some sourceExtension ∨ extension = some "toml" then
      return .ofBytes (← IO.FS.readBinFile file)
    else return .file none

/-- Adds what stands at a path to a tree, and leaves the tree alone if nothing does. -/
def addNode (tree : FileTree) (path : String) : IO FileTree := do
  try return tree.add ⟨path⟩ (← readNode path)
  catch _ => return tree

/-- Adds what a path leads to, the links on the way, and the configuration files above
it. -/
def addPath (tree : FileTree) (path : Path) : IO FileTree := do
  let path := tree.absolute path
  try
    let target : Path := ⟨← realPath path.text⟩
    let mut tree ← addNode tree target.text
    for directory in target.above do
      tree ← addNode tree (directory.join configFileName).text
    for step in path :: path.above do
      if step.parts.all (· ≠ .up) then
        if (← ((← IO.currentDir) / step.text).symlinkMetadata).type == .symlink then
          tree ← addNode tree step.text
    return tree
  catch _ => return tree

/-- Adds a configuration file that is given by name. -/
def addConfig (tree : FileTree) (path : Path) : IO FileTree := do
  try return tree.add path (.ofBytes (← IO.FS.readBinFile ((← IO.currentDir) / path.text)))
  catch _ => return tree

/-- The files that a request is about. -/
def readTree (request : Request) : IO FileTree := do
  let tree : FileTree := ⟨[], ⟨(← IO.currentDir).toString⟩⟩
  let tree ← request.paths.foldlM addPath tree
  request.config?.toList.foldlM addConfig tree

/-- Writes the files whose text a command has changed. -/
def writeChanges (before after : FileTree) (files : List Path) : IO Unit := do
  for file in files do
    if let some text := after.read? file then
      if before.read? file ≠ some text then
        IO.FS.writeFile ((← IO.currentDir) / file.text) text

def run (request : Request) : IO UInt32 := do
  let tree ← readTree request
  let (result, workspace) := request.command.runOn tree
  IO.print workspace.output
  IO.eprint workspace.notes
  match tree.sources request.paths with
  | .ok files => writeChanges tree workspace.files files
  | .error _ => pure ()
  match result with
  | .ok _ => return 0
  | .error error =>
    IO.eprintln s!"error: {error.message}"
    return 1

end SettingsLint.Program

def main (args : List String) : IO UInt32 :=
  match SettingsLint.Request.read args with
  | .ok request => SettingsLint.Program.run request
  | .error error => do
    IO.eprintln s!"error: {error.message}"
    return 2
