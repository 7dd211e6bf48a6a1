import TypedJson.Encode
import TypedJson.Value.Freeze
import TypedJson.Json
import TypedJson.Column
import TypedJson.Entries
import TypedJson.Proofs.KeptByCalls
import TypedJson.Proofs.Meaning
import TypedJson.Proofs.Outcomes
import TypedJson.Proofs.Session
import TypedJson.Proofs.Soundness
import TypedJson.Proofs.Boxed.Sessions
import TypedJson.Proofs.WellBuilt
import TypedJson.Proofs.Limits
import TypedJson.Proofs.Contents
import TypedJson.Proofs.Data
import TypedJson.Proofs.Documents
import TypedJson.Proofs.Nesting
import TypedJson.Proofs.Stability
import TypedJson.Proofs.RoundTrip
import TypedJson.Proofs.Freezing
import TypedJson.Proofs.Agreement
import TypedJson.Proofs.Filling
import TypedJson.Proofs.FirstFailure
import TypedJson.Proofs.Replay
import TypedJson.Proofs.FiniteFloats
import TypedJson.Proofs.Interchange
import TypedJson.Proofs.Equivalence
import TypedJson.Proofs.Order
import TypedJson.Proofs.Admission
import TypedJson.Proofs.PureJson
import TypedJson.Proofs.Encodable
import TypedJson.Proofs.Shortcuts
import TypedJson.Proofs.Idempotence
import TypedJson.Proofs.Relevance
import TypedJson.Proofs.Thresholds
import TypedJson.Proofs.UniqueText
import TypedJson.Proofs.Zeros
import TypedJson.Proofs.OwnType
import TypedJson.Proofs.AbsentFields
import TypedJson.Proofs.Accessors
import TypedJson.Proofs.Rearrangement
import TypedJson.Proofs.JsonTypes
