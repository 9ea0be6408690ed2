import Formulary.Definitions
import Formulary.Studio
import Formulary.Proofs.Composition
import Formulary.Proofs.CycleDetection
import Formulary.Proofs.CyclePath
import Formulary.Proofs.Derivation
import Formulary.Proofs.Exhaustion
import Formulary.Proofs.Extension
import Formulary.Proofs.Faults
import Formulary.Proofs.Identification
import Formulary.Proofs.Lookups
import Formulary.Proofs.NumeralValue
import Formulary.Proofs.Punctuation
import Formulary.Proofs.Recency
import Formulary.Proofs.Registry
import Formulary.Proofs.Respacing
import Formulary.Proofs.Stepwise
import Formulary.Proofs.SymbolScan
