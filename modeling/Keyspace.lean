import Keyspace.Bytes
import Keyspace.Call.Bridge
import Keyspace.Call.Bridged
import Keyspace.Call.Context
import Keyspace.Call.Task
import Keyspace.Client.Command
import Keyspace.Config
import Keyspace.Document.Basic
import Keyspace.Document.Form
import Keyspace.Document.Message
import Keyspace.Document.Result
import Keyspace.Document.Service
import Keyspace.Document.Transaction
import Keyspace.Endpoint
import Keyspace.Failure
import Keyspace.Message.KeyValue
import Keyspace.Message.Kind
import Keyspace.Message.Length
import Keyspace.Message.Maintenance
import Keyspace.Message.Range
import Keyspace.Message.Transaction
import Keyspace.Message.Write
import Keyspace.Options
import Keyspace.Part
import Keyspace.PrefixRange
import Keyspace.Proofs.AlarmListing
import Keyspace.Proofs.AnswerTurn
import Keyspace.Proofs.AwaitedReplies
import Keyspace.Proofs.BranchAdditions
import Keyspace.Proofs.BranchExecution
import Keyspace.Proofs.BranchReordering
import Keyspace.Proofs.BranchSelection
import Keyspace.Proofs.BridgeContinuations
import Keyspace.Proofs.CallBookkeeping
import Keyspace.Proofs.CallEvents
import Keyspace.Proofs.CallLedger
import Keyspace.Proofs.CallResolution
import Keyspace.Proofs.CappedHistory
import Keyspace.Proofs.CommitResults
import Keyspace.Proofs.CommittedOperation
import Keyspace.Proofs.CompactedStore
import Keyspace.Proofs.CompactionInvisibility
import Keyspace.Proofs.CompactionMark
import Keyspace.Proofs.DamagedMerge
import Keyspace.Proofs.EventRouting
import Keyspace.Proofs.FieldRecords
import Keyspace.Proofs.ForeignSlotMoves
import Keyspace.Proofs.HistoryReads
import Keyspace.Proofs.KeyLineage
import Keyspace.Proofs.LengthPrefixes
import Keyspace.Proofs.MergeInPieces
import Keyspace.Proofs.MessageKindFields
import Keyspace.Proofs.MessageOverlay
import Keyspace.Proofs.NamedKeyWrites
import Keyspace.Proofs.PastReads
import Keyspace.Proofs.PendingCalls
import Keyspace.Proofs.PrefixFreeEncoding
import Keyspace.Proofs.PrefixRanges
import Keyspace.Proofs.RaisedAlarms
import Keyspace.Proofs.RangeListing
import Keyspace.Proofs.RangePaging
import Keyspace.Proofs.ReaderExtent
import Keyspace.Proofs.ReceivedRequestOp
import Keyspace.Proofs.ReceivedTxnResult
import Keyspace.Proofs.RecordLaws
import Keyspace.Proofs.RecordSplitting
import Keyspace.Proofs.ReentrantCallbacks
import Keyspace.Proofs.RequestAtomicity
import Keyspace.Proofs.RevisionAccounting
import Keyspace.Proofs.ScalarRoundTrip
import Keyspace.Proofs.SentTransaction
import Keyspace.Proofs.SequentialBranch
import Keyspace.Proofs.SequentialCalls
import Keyspace.Proofs.ServedRequests
import Keyspace.Proofs.SettledRequests
import Keyspace.Proofs.SingleOperationTxn
import Keyspace.Proofs.SlotStreams
import Keyspace.Proofs.SnapshotPieces
import Keyspace.Proofs.SnapshotTransmission
import Keyspace.Proofs.SpanWalk
import Keyspace.Proofs.StableSort
import Keyspace.Proofs.StoreInvariants
import Keyspace.Proofs.TableGrowth
import Keyspace.Proofs.TableInvariants
import Keyspace.Proofs.UnknownRecords
import Keyspace.Proofs.WatchedSlotMoves
import Keyspace.Result
import Keyspace.Session.Basic
import Keyspace.Session.Settle
import Keyspace.Session.Step
import Keyspace.Snapshot.Feed
import Keyspace.Snapshot.Guard
import Keyspace.Snapshot.Slot
import Keyspace.Snapshot.Watch
import Keyspace.Status
import Keyspace.Store.Basic
import Keyspace.Store.Compare
import Keyspace.Store.History
import Keyspace.Store.Range
import Keyspace.Store.Refusal
import Keyspace.Store.Request
import Keyspace.Store.Span
import Keyspace.Store.Table
import Keyspace.Store.Txn
import Keyspace.Store.Upkeep
import Keyspace.Store.Write
import Keyspace.Stream
import Keyspace.Text.Hex
import Keyspace.Text.Hidden
import Keyspace.Text.Quoted
import Keyspace.Toml.Lexical
import Keyspace.Toml.Number
import Keyspace.Toml.Reading
import Keyspace.Toml.Table
import Keyspace.Toml.Value
import Keyspace.Transaction
import Keyspace.Wire.Codec
import Keyspace.Wire.Fault
import Keyspace.Wire.Record
import Keyspace.Wire.Scalar
import Keyspace.Wire.Varint
