import Nendi.Lib.BigEndian
import Nendi.Lib.Cursor
import Nendi.Lib.Text
import Nendi.Lib.OrdMap
import Nendi.Lib.Machine
import Nendi.Shared.Event
import Nendi.Shared.Proto
import Nendi.Shared.Ring
import Nendi.Core.Pipeline
import Nendi.Verified.ProtoRoundTrip
import Nendi.Verified.PipelineConservation
import Nendi.Core.Tenant
import Nendi.Verified.EventLog
import Nendi.Verified.EndToEnd
import Nendi.Core.Gc
import Nendi.Verified.GcRetention
import Nendi.Pgsql.Snapshot
import Nendi.Verified.SnapshotLoss
import Nendi.Pgsql.PgOutput
import Nendi.Pgsql.Protocol
import Nendi.Verified.PgOutputTotality
import Nendi.Verified.PgOutputStream
import Nendi.Core.Wal
import Nendi.Lib.Framing
import Nendi.Lib.Groups
import Nendi.Verified.WalRecovery
import Nendi.Verified.WalRestart
import Nendi.Verified.WalTorn
import Nendi.Core.Backpressure
import Nendi.Verified.Backpressure
import Nendi.Verified.OffsetRace
import Nendi.Http.Replay
import Nendi.Lib.Paging
import Nendi.Verified.ResumePaging
import Nendi.Core.WalGc
import Nendi.Verified.WalRetention
import Nendi.Pgsql.ReplicationStream
import Nendi.Verified.DecoderState
import Nendi.Pgsql.Transaction
import Nendi.Verified.TransactionContext
import Nendi.Verified.SnapshotRows
import Nendi.Lib.Fnv
import Nendi.Pgsql.Schema
import Nendi.Verified.SchemaDrift
import Nendi.Pgsql.Ddl
import Nendi.Verified.DdlProtocol
import Nendi.Http.Circuit
import Nendi.Verified.CircuitBreaker
import Nendi.Core.GcScheduler
import Nendi.Verified.GcScheduling
import Nendi.Lib.ShortSlice
import Nendi.Verified.ProtoTruncation
import Nendi.Lib.Grammar
import Nendi.Verified.RowMessages
import Nendi.Core.ReadFilter
import Nendi.Verified.PipelineAccounting
import Nendi.Verified.OffsetMaximum
import Nendi.Verified.StoreReads
import Nendi.Pgsql.Ack
import Nendi.Verified.Acknowledgements
import Nendi.Core.Ingestion
import Nendi.Verified.FilterParsing
import Nendi.Verified.FilterRules
import Nendi.Lib.Decimal
import Nendi.Verified.RangePredicates
import Nendi.Lib.Delimited
import Nendi.Verified.FingerprintInput
import Nendi.Verified.DdlDelivery
import Nendi.Verified.DdlPanics
import Nendi.Lib.Hex
import Nendi.Shared.LsnText
import Nendi.Verified.LsnText
import Nendi.Http.Webhook
import Nendi.Lib.Duration
import Nendi.Pgsql.Throttle
import Nendi.Verified.DeadLetters
import Nendi.Verified.ReplicationRate
import Nendi.Verified.WebhookSignature
import Nendi.Http.Retry
import Nendi.Verified.RetryBackoff
import Nendi.Lib.Words
import Nendi.Verified.DdlColumns
import Nendi.Lib.Json
import Nendi.Verified.WebhookPayload
import Nendi.Core.WalSync
import Nendi.Verified.WalDurability
import Nendi.Core.OffsetScan
import Nendi.Http.Grpc
import Nendi.Verified.ConsumerStreams
import Nendi.Verified.CreditThreads
import Nendi.Verified.LiveDelivery
import Nendi.Verified.Restart
import Nendi.Verified.ScanRetention
import Nendi.Core.Memory
import Nendi.Core.TenantOpen
import Nendi.Pgsql.Slot
import Nendi.Verified.FlushLatency
import Nendi.Verified.MemoryAccounting
import Nendi.Verified.SlotLifecycle
import Nendi.Verified.TenantSessions
import Nendi.Verified.ThrottleTightness
import Nendi.Verified.WireToStore
import Nendi.Lib.Recognise
import Nendi.Verified.ProtoAcceptance
import Nendi.Lib.Blanks
import Nendi.Pgsql.SqlFunctions
import Nendi.Verified.DdlChannel
import Nendi.Verified.FilterNormalForm
import Nendi.Verified.SchemaLoads
import Nendi.Verified.SqlFingerprint
import Nendi.Verified.Truncates
import Nendi.Verified.WebhookBatches
import Nendi.Pgsql.EventTriggers
import Nendi.Verified.TriggerInstallation
