import TemplateRecovery.Main
import TemplateRecovery.Options.Draft
import TemplateRecovery.Proofs.Capture
import TemplateRecovery.Proofs.Detection
import TemplateRecovery.Proofs.Extras
import TemplateRecovery.Proofs.Hole
import TemplateRecovery.Proofs.Lens
import TemplateRecovery.Proofs.NamedArguments
import TemplateRecovery.Proofs.OptionEntries
import TemplateRecovery.Proofs.Positional
import TemplateRecovery.Proofs.Printing
import TemplateRecovery.Proofs.Quoting
import TemplateRecovery.Proofs.Recast.Template
import TemplateRecovery.Proofs.Slots
import TemplateRecovery.Proofs.Trace
import TemplateRecovery.Proofs.Wording
import TemplateRecovery.Session
