import DecimalFormula.Main
import DecimalFormula.Proofs.Bindings.Histories
import DecimalFormula.Proofs.Console.Definitions
import DecimalFormula.Proofs.Console.Feedback
import DecimalFormula.Proofs.Decimal.Power
import DecimalFormula.Proofs.Engine.Callable
import DecimalFormula.Proofs.Engine.Extension
import DecimalFormula.Proofs.Engine.Extents
import DecimalFormula.Proofs.Engine.Identifiers
import DecimalFormula.Proofs.Engine.Locations
import DecimalFormula.Proofs.Engine.Substitution
import DecimalFormula.Proofs.Parsing.Alternatives
import DecimalFormula.Proofs.Parsing.Limit
import DecimalFormula.Proofs.Printing.RoundTrip
import DecimalFormula.Proofs.Registry.Averages
import DecimalFormula.Proofs.Registry.Contents
import DecimalFormula.Proofs.ReversePolish.Machine
import DecimalFormula.Proofs.Scanning.Coverage
import DecimalFormula.Proofs.Scanning.Decomposition
import DecimalFormula.Proofs.Scanning.Lossless
import DecimalFormula.Proofs.Scanning.Rejoined
import DecimalFormula.Proofs.Scanning.Stepping
import DecimalFormula.Text.Display
