import Graphwire.Instance
import Graphwire.Proofs.Inheritance
import Graphwire.Proofs.Evolution
import Graphwire.Proofs.Guardrails
import Graphwire.Proofs.Rewriting
import Graphwire.Proofs.SharedGraphs
import Graphwire.Value.Equality
import Graphwire.Value.Sharing
import Graphwire.Proofs.Orders
import Graphwire.Proofs.Fingerprints
import Graphwire.Proofs.Amplification
import Graphwire.Proofs.Prefixes
import Graphwire.Proofs.Twins
import Graphwire.Proofs.Addresses
import Graphwire.Proofs.Following
import Graphwire.Proofs.SameLayout
import Graphwire.Proofs.DeclarationOrder
import Graphwire.Proofs.DefinitionRoundTrip
import Graphwire.Proofs.Announcements
import Graphwire.Proofs.StableNumbers
import Graphwire.Proofs.StableVersions
import Graphwire.Proofs.Owners
import Graphwire.Proofs.UsableDefaults
import Graphwire.Proofs.EvolvedRecords
import Graphwire.Proofs.RequiredFields
import Graphwire.Proofs.KeptTypes
import Graphwire.Proofs.Borrowing
import Graphwire.Proofs.OwnFrames
import Graphwire.Proofs.LackedFields
import Graphwire.Proofs.NamedTypes
import Graphwire.Proofs.MadeUpTypes
import Graphwire.Proofs.Visits
import Graphwire.Proofs.Pruning
import Graphwire.Proofs.Improvisation
import Graphwire.Proofs.UnknownTypes
import Graphwire.Proofs.Parsing
import Graphwire.Proofs.Spelling
import Graphwire.Proofs.Streams
import Graphwire.Proofs.Temporal
import Graphwire.Proofs.PartialMatching
import Graphwire.Proofs.BoundedDefinitions
import Graphwire.Proofs.FilledSlots
import Graphwire.Proofs.Blocks
import Graphwire.Proofs.Lineages
