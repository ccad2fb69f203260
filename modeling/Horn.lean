import Horn.Config.Load
import Horn.Proofs.Session.Containment
import Horn.Proofs.Session.Head
import Horn.Proofs.Session.Meaning
import Horn.Proofs.Session.Reason
import Horn.Proofs.Session.Refusal
import Horn.Proofs.Session.Remainder
import Horn.Proofs.Stability
import Horn.Proofs.Session.Resident
import Horn.Proofs.Derivation.Invariant
import Horn.Proofs.Registry
import Horn.Proofs.Session.Extraction
import Horn.Proofs.Session.Transparency
import Horn.Proofs.Config.RoundTrip
import Horn.Proofs.Declarable
import Horn.Proofs.Witness.Relations
import Horn.Proofs.Annotation
import Horn.Proofs.Blame
import Horn.Proofs.Readability
import Horn.Proofs.Session.ErrorRelation
import Horn.Proofs.Session.RelationCheck
import Horn.Proofs.Literal
import Horn.Proofs.Session.Congruence
