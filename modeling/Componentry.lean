import Componentry.Application
import Componentry.Proofs.Catalog
import Componentry.Proofs.DefaultProvider
import Componentry.Proofs.Flattening
import Componentry.Proofs.Justification
import Componentry.Proofs.Lineage
import Componentry.Proofs.Meaning
import Componentry.Proofs.Order
import Componentry.Proofs.Progress
import Componentry.Proofs.Run
import Componentry.Proofs.Visibility
import Componentry.Proofs.History
import Componentry.Proofs.Failure
import Componentry.Proofs.Agreement
import Componentry.Proofs.Frame
import Componentry.Proofs.Combination
import Componentry.Proofs.Scope
import Componentry.Proofs.Independence
import Componentry.Proofs.Overriding
import Componentry.Proofs.Containment
import Componentry.Proofs.Queries
import Componentry.Proofs.Trace
import Componentry.Proofs.Shadowing
import Componentry.Proofs.Listing
import Componentry.Proofs.Shorthand
import Componentry.Proofs.Elements
import Componentry.Proofs.Description
import Componentry.Proofs.Absorption
import Componentry.Proofs.Report
import Componentry.Proofs.Positions
import Componentry.Proofs.Json.Lexing
import Componentry.Proofs.Json.Reading
import Componentry.Proofs.Settings
