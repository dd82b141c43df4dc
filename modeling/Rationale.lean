import Rationale.Error.Storage
import Rationale.Inspection
import Rationale.Notation.Storage
import Rationale.Policy
import Rationale.Report
import Rationale.Proofs.Causality
import Rationale.Proofs.Evaluation
import Rationale.Proofs.Node
import Rationale.Proofs.Built
import Rationale.Proofs.Sufficiency
import Rationale.Proofs.Calls
import Rationale.Proofs.Trace
import Rationale.Proofs.Attribution
import Rationale.Proofs.Frontier
import Rationale.Proofs.Renaming
import Rationale.Proofs.Chain
import Rationale.Proofs.Purity
import Rationale.Proofs.Runs
import Rationale.Proofs.Composition
import Rationale.Proofs.Determined
import Rationale.Proofs.Made
import Rationale.Proofs.Reading
import Rationale.Proofs.Repeats
import Rationale.Proofs.Evidence
import Rationale.Proofs.Renamed
import Rationale.Proofs.Explained
import Rationale.Proofs.Checks
import Rationale.Proofs.Phrase
import Rationale.Proofs.Unambiguous
import Rationale.Proofs.Parallel
import Rationale.Proofs.Restyling
import Rationale.Proofs.Retold
import Rationale.Proofs.Restyled
import Rationale.Proofs.Quantified
import Rationale.Proofs.ByteOrder
import Rationale.Proofs.Canonical
import Rationale.Proofs.Scalars
import Rationale.Proofs.ReadBack
import Rationale.Proofs.CanonicalForm
import Rationale.Proofs.Stored
import Rationale.Proofs.Digest
import Rationale.Proofs.Contributors
import Rationale.Proofs.Elision
import Rationale.Proofs.Listing
import Rationale.Proofs.NormalForm
import Rationale.Proofs.Parity
import Rationale.Proofs.Lazy
import Rationale.Proofs.Duality
import Rationale.Proofs.Polarity
import Rationale.Proofs.Flattened
import Rationale.Proofs.Grouping
import Rationale.Proofs.Reason
import Rationale.Proofs.Bracketing
import Rationale.Proofs.Containment
import Rationale.Proofs.Deciding
import Rationale.Proofs.Snapshot
import Rationale.Proofs.Outline
import Rationale.Proofs.Lines
