import SettingsLint.Text.Blank

/-! # Single options

An option given on the command line is a key and a value with an equals sign between
them. Blanks around the key and the value do not count.
-/

namespace SettingsLint

/-- Why a text gives no option. -/
inductive SettingError where
  /-- There is no equals sign. -/
  | noValue (text : String)
  /-- There is nothing in front of the equals sign. -/
  | noKey (text : String)
  deriving DecidableEq, Repr

def SettingError.message : SettingError → String
  | .noValue text => s!"expected KEY=VALUE, found '{text}'"
  | .noKey text => s!"missing key in '{text}'"

/-- The option that a text gives. The first equals sign divides it. -/
def readSetting (text : String) : Except SettingError (String × String) :=
  let (key, rest) := text.toList.span (· ≠ '=')
  match rest with
  | [] => .error (.noValue text)
  | _ :: value =>
    let key := Text.trimBlank key
    if key.isEmpty then .error (.noKey text)
    else .ok (String.ofList key, String.ofList (Text.trimBlank value))

end SettingsLint
