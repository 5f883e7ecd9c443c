import SettingsLint.Proofs.Analysis.Interleaving
import SettingsLint.Proofs.Analysis.Severity
import SettingsLint.Proofs.Binding.Arguments
import SettingsLint.Proofs.Diagnostic.Message
import SettingsLint.Proofs.Fix.EditedAttributes
import SettingsLint.Proofs.Fix.Refinement
import SettingsLint.Proofs.Options.Flattening
import SettingsLint.Proofs.Printing.Classes
import SettingsLint.Proofs.Rule.Bindable
import SettingsLint.Proofs.Rule.Located
import SettingsLint.Proofs.Rule.SettingsBase
import SettingsLint.Proofs.Text.Lines
import SettingsLint.Proofs.Token.Locality
import SettingsLint.Proofs.Token.Verbatim
