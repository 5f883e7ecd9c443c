import SettingsLint.Command.Basic
import SettingsLint.Fix.Fixing

/-! # Listing the rules

Prints the kinds of problem that the rules report, with the places where they are
described.
-/

namespace SettingsLint

/-- The text with blanks after it, up to a width. -/
def padded (width : Nat) (text : String) : String :=
  text ++ String.ofList (List.replicate (width - text.length) ' ')

/-- The lines on a kind of problem. -/
def Descriptor.summary (d : Descriptor) : String :=
  let fixable := if Fix.isFixable d.id then " (fixable)" else ""
  let margin := padded 12 ""
  s!"{padded 12 d.id} {padded 8 d.severity.name} {d.title}{fixable}\n" ++
    s!"{margin} {d.helpLink}\n"

/-- Prints the kinds of problem. -/
def Command.rules : Command Unit :=
  Descriptor.catalog.forM fun d => print d.summary

end SettingsLint
