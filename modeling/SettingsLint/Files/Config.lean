import SettingsLint.Files.Tree
import SettingsLint.Options.Config

/-! # Configuration files

If no configuration file is given, the nearest one is taken: a file of the usual name
in the directory to be checked, or else in the first directory above that has one.
-/

namespace SettingsLint

def configFileName : String := "cliguard.toml"

namespace FileTree

/-- The nearest configuration file, looked for from a file or a directory upwards. -/
def nearestConfig? (tree : FileTree) (start : Path) : Option Path :=
  let directories := if tree.isFile start then start.above else start :: start.above
  (directories.map (·.join configFileName)).find? tree.isFile

def readOptions (tree : FileTree) (path : Path) : Except ConfigError Options :=
  match tree.read? path with
  | some text => Options.ofConfig path.text text
  | none => .error (.unreadable path.text)

end FileTree

/-- Where the options of a command come from. -/
structure OptionsRequest where
  /-- Is the program to be published ahead of time? -/
  aot : Bool
  /-- The configuration file, if one is given. -/
  config : Option Path
  /-- Single options, which win over those of the configuration file. -/
  settings : List (String × String)

/-- The options of a command for the given path. -/
def OptionsRequest.load (r : OptionsRequest) (tree : FileTree) (path : Path) :
    Except ConfigError Options := do
  let file := r.config <|> tree.nearestConfig? (tree.absolute path)
  let options ← file.elim (return .empty) tree.readOptions
  let options := options.insertAll (.ofList r.settings)
  Options.validate (if r.aot then options.insert Options.aotKey "true" else options)

end SettingsLint
