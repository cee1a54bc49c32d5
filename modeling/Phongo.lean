import Phongo.Bson.Agreement
import Phongo.Bson.ArrayRoundTrip
import Phongo.Bson.Below
import Phongo.Bson.Complete
import Phongo.Bson.Contents
import Phongo.Bson.Culprit
import Phongo.Bson.Data
import Phongo.Bson.Decodable
import Phongo.Bson.Decode
import Phongo.Bson.Diagnosis
import Phongo.Bson.Document
import Phongo.Bson.Encode
import Phongo.Bson.Encoding
import Phongo.Bson.GeneratedId
import Phongo.Bson.IntWidth
import Phongo.Bson.Materialise
import Phongo.Bson.Overrun
import Phongo.Bson.Pending
import Phongo.Bson.Persistable
import Phongo.Bson.Reencoding
import Phongo.Bson.Rendering
import Phongo.Bson.RoundTrip
import Phongo.Bson.Stop
import Phongo.Bson.Walk
import Phongo.BulkWrite.Accounting
import Phongo.BulkWrite.Builder
import Phongo.BulkWrite.Execution
import Phongo.BulkWrite.Inserted
import Phongo.BulkWrite.Result
import Phongo.ClientEncryption
import Phongo.Command.Construct
import Phongo.Command.Execution
import Phongo.Command.Methods
import Phongo.Command.Options
import Phongo.Concern.Object
import Phongo.Concern.ReadConcern
import Phongo.Concern.ReadPreference
import Phongo.Concern.ReadPreferenceExport
import Phongo.Concern.ReadPreferenceImport
import Phongo.Concern.ReadPreferenceInit
import Phongo.Concern.ReadPreferenceSerialization
import Phongo.Concern.WriteConcern
import Phongo.Concern.WriteConcernInit
import Phongo.Concern.WriteConcernSerialization
import Phongo.Concern.WriteConcernW
import Phongo.Cursor
import Phongo.EncryptionRoundTrip
import Phongo.Error.Labels
import Phongo.Error.Raised
import Phongo.Error.Throw
import Phongo.Exception
import Phongo.FieldPath
import Phongo.FieldPathRendering
import Phongo.FieldPathStack
import Phongo.Graph.Agenda
import Phongo.Graph.Congruence
import Phongo.Graph.Depth
import Phongo.Graph.Encode
import Phongo.Graph.Hidden
import Phongo.Graph.Kept
import Phongo.Graph.Lockstep
import Phongo.Graph.Recursion
import Phongo.Graph.Refinement
import Phongo.Graph.Unfolding
import Phongo.Graph.Walk
import Phongo.Iteration
import Phongo.Lib.Attempt
import Phongo.Lib.Base64
import Phongo.Lib.Clock
import Phongo.Lib.Fold
import Phongo.Lib.Keyed
import Phongo.Lib.Optional
import Phongo.Lib.Reader
import Phongo.Lib.Run
import Phongo.Lib.Table
import Phongo.Lib.Teardown
import Phongo.Lib.Throwing
import Phongo.Lib.Walk
import Phongo.Manager.Ages
import Phongo.Manager.Construct
import Phongo.Manager.DestructionOrder
import Phongo.Manager.FailedConstruction
import Phongo.Manager.Fork
import Phongo.Manager.Hash
import Phongo.Manager.History
import Phongo.Manager.KeyVault
import Phongo.Manager.Options
import Phongo.Manager.Outcome
import Phongo.Manager.Registry
import Phongo.Manager.Sharing
import Phongo.Manager.Shutdown
import Phongo.Manager.Sound
import Phongo.Manager.Steps
import Phongo.Manager.Uri
import Phongo.Manager.UriConcerns
import Phongo.Manager.UriConsistent
import Phongo.Manager.UriEffects
import Phongo.Manager.UriOrder
import Phongo.Manager.UriSteps
import Phongo.Manager.UriWriteConcern
import Phongo.Manager.World
import Phongo.Monitoring.Apm
import Phongo.Monitoring.Dispatch
import Phongo.Monitoring.Notification
import Phongo.Monitoring.Registrations
import Phongo.PathRendering
import Phongo.Php.Bytes
import Phongo.Php.Key
import Phongo.Php.Serialize
import Phongo.Php.Value
import Phongo.Query.Construct
import Phongo.Query.Execution
import Phongo.Query.Limit
import Phongo.Query.Merge
import Phongo.Session.Heap
import Phongo.Session.Owned
import Phongo.Session.Returned
import Phongo.Session.Safety
import Phongo.Session.Times
import Phongo.Session.Transactions
import Phongo.Typemap
import Phongo.Typemap.Determined
import Phongo.Typemap.FieldPaths
import Phongo.Typemap.Parse
import Phongo.Typemap.Types
import Phongo.UtcDateTime
import Phongo.Value.Binary
import Phongo.Value.Comparison
import Phongo.Value.Format
import Phongo.Value.Javascript
import Phongo.Value.JavascriptCopies
import Phongo.Value.Json
import Phongo.Value.Numeric
import Phongo.Value.Object
import Phongo.Value.Regex
import Phongo.Value.Serialized
import Phongo.Value.Text
