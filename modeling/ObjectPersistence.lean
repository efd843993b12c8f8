import ObjectPersistence.Value.Id
import ObjectPersistence.Value.Basic
import ObjectPersistence.Value.Convert
import ObjectPersistence.Value.FieldData
import ObjectPersistence.Value.Diagnostic
import ObjectPersistence.Binary64.Round
import ObjectPersistence.Numeral
import ObjectPersistence.Text.Blank
import ObjectPersistence.Text.Printable
import ObjectPersistence.Text.Escaped
import ObjectPersistence.Text.Hex
import ObjectPersistence.Lifecycle
import ObjectPersistence.FieldBitmap
import ObjectPersistence.Config
import ObjectPersistence.Operation
import ObjectPersistence.Binary64.Shortest
import ObjectPersistence.MessagePack.Format
import ObjectPersistence.MessagePack.Writer
import ObjectPersistence.MessagePack.Reader
import ObjectPersistence.Error
import ObjectPersistence.Schema.Field
import ObjectPersistence.Schema.Class
import ObjectPersistence.Wrapper.Container
import ObjectPersistence.Wrapper.Basic
import ObjectPersistence.Wrapper.Mutation
import ObjectPersistence.Datastore.Tables
import ObjectPersistence.Datastore.Connection
import ObjectPersistence.Datastore.Records
import ObjectPersistence.Generation
import ObjectPersistence.SampleModel
import ObjectPersistence.Engine.Managed
import ObjectPersistence.Engine.Basic
import ObjectPersistence.Engine.Loading
import ObjectPersistence.Engine.Deletion
import ObjectPersistence.Engine.Flush
import ObjectPersistence.Engine.Mutation
import ObjectPersistence.Engine.Persistence
import ObjectPersistence.Engine.Transaction
import ObjectPersistence.Engine.Detached
import ObjectPersistence.Session
import ObjectPersistence.Proofs.ValueOrder
import ObjectPersistence.Proofs.PlainContainer
import ObjectPersistence.Proofs.WrapperExec
import ObjectPersistence.Proofs.WrapperRefinement
import ObjectPersistence.Proofs.ElementRows
import ObjectPersistence.Proofs.StoredOperations
import ObjectPersistence.Proofs.QueuedCalls
import ObjectPersistence.Proofs.QueuedReplay
import ObjectPersistence.Interface
import ObjectPersistence.Proofs.Registry
import ObjectPersistence.Proofs.RegistryPreservation
import ObjectPersistence.Proofs.Ownership
import ObjectPersistence.Proofs.Utf8Encoding
import ObjectPersistence.Proofs.WireRoundTrip
import ObjectPersistence.Proofs.DependentCascade
import ObjectPersistence.Proofs.ManagerState
import ObjectPersistence.Proofs.SoundContext
import ObjectPersistence.Proofs.WrapperRequests
import ObjectPersistence.Proofs.OpenTransaction
import ObjectPersistence.Proofs.CommittedRead
import ObjectPersistence.Proofs.Rollback
import ObjectPersistence.Proofs.WrapperAttach
import ObjectPersistence.Proofs.GraphWalk
import ObjectPersistence.Proofs.InsertionOrder
import ObjectPersistence.Proofs.Reachability
import ObjectPersistence.Proofs.PersistCascade
import ObjectPersistence.Proofs.DetachedCopy
import ObjectPersistence.Proofs.StoredWrites
import ObjectPersistence.Proofs.SequenceBlocks
import ObjectPersistence.Proofs.DeleteClosure
import ObjectPersistence.Proofs.ValueSets
import ObjectPersistence.Proofs.DirtyMarking
import ObjectPersistence.Proofs.SoundFlush
import ObjectPersistence.Proofs.SoundTransactions
import ObjectPersistence.Proofs.ConfigProperties
import ObjectPersistence.Proofs.OrderedLists
import ObjectPersistence.Proofs.SoundWrites
import ObjectPersistence.Proofs.SoundSessions
import ObjectPersistence.Proofs.UntouchedObjects
import ObjectPersistence.Proofs.StoredVersions
import ObjectPersistence.Proofs.ManagerReuse
