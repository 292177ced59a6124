import Richat.Lib.SortedMap
import Richat.Lib.Machine
import Richat.Message
import Richat.Channel.Dedup
import Richat.Channel.Bank
import Richat.Channel.SlotInfo
import Richat.Channel.AtMostOnce
import Richat.Channel.Candidate
import Richat.Channel.Cleared
import Richat.Channel.EntryBitmap
import Richat.Channel.SingleBank
import Richat.Channel.AccountState
import Richat.Channel.Receiver
import Richat.Channel.SubscribeSlot
import Richat.Grpc.ClientSpec
import Richat.Grpc.GapFree
import Richat.Grpc.ReplayGap
import Richat.Channel.Journal
import Richat.Channel.ReplayMap
import Richat.Lib.InOrder
import Richat.Storage.Accounts
import Richat.Storage.Coverage
import Richat.Storage.JournalOrder
import Richat.Storage.ReplayPosition
import Richat.Storage.HandoffSpec
import Richat.Pubsub.ServerSpec
import Richat.Convert.RoundTrip
import Richat.Channel.Wakeup
import Richat.Grpc.MessagesCacheSpec
import Richat.Plugin.MessageSpec
import Richat.Filter.Pipeline
import Richat.Filter.ParseSpec
import Richat.Source.ReplaySpec
import Richat.Channel.Bounded
import Richat.Grpc.BlockMetaSpec
import Richat.Grpc.BlockMetaMonotone
import Richat.Plugin.ChannelSlots
import Richat.Plugin.MissedStatus
import Richat.Plugin.ToRichat
import Richat.Pubsub.WorkerSignatures
import Richat.Filter.EncodeSpec
import Richat.Storage.RecordSpec
import Richat.Quic.Close
import Richat.Source.MergeSpec
import Richat.Storage.MetadataDbSpec
import Richat.Grpc.Blockhash
import Richat.Filter.Config
import Richat.Filter.Updates
import Richat.Filter.UpdatesSpec
import Richat.Filter.ContainmentSpec
import Richat.Filter.Limits
import Richat.Channel.BlockConstruction
import Richat.Channel.RingState
import Richat.Pubsub.SignatureSlots
import Richat.Pubsub.FullScan
import Richat.Pubsub.SlotsStats
import Richat.Quic.SendLoop
import Richat.Storage.ReplayQueueSpec
import Richat.Grpc.SubscribeAccountsSpec
import Richat.Filter.WriteVersionLens
import Richat.Storage.HeadLookup
import Richat.Storage.ReplayInfo
import Richat.Segments.CrashConsistent
import Richat.Filter.SameUpdates
import Richat.Quic.ByteRefinement
import Richat.Segments.ReplayJournal
