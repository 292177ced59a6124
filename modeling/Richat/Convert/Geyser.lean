import Richat.Convert.Types

/-!
# Updates of the wire format

The messages that are generated from `geyser.proto`, and in `RichatOnly` those of `richat.proto`.
-/

namespace Richat.Proto

structure Timestamp where
  seconds : Int64
  nanos : Int32
  deriving DecidableEq

structure NumPartitions where
  numPartitions : UInt64

structure Rewards where
  rewards : List Reward
  numPartitions : Option NumPartitions

structure UnixTimestamp where
  timestamp : Int64

structure BlockHeight where
  blockHeight : UInt64

structure SubscribeUpdateAccountInfo where
  pubkey : Bytes
  lamports : UInt64
  owner : Bytes
  executable : Bool
  rentEpoch : UInt64
  data : Bytes
  writeVersion : UInt64
  txnSignature : Option Bytes

structure SubscribeUpdateAccount where
  account : Option SubscribeUpdateAccountInfo
  slot : UInt64
  isStartup : Bool
  bankId : Option UInt64

structure SubscribeUpdateSlot where
  slot : UInt64
  parent : Option UInt64
  /-- an enumeration value of the wire -/
  status : Int32
  deadError : Option String
  bankId : Option UInt64

structure SubscribeUpdateTransactionInfo where
  signature : Bytes
  isVote : Bool
  transaction : Option Transaction
  statusMeta : Option TransactionStatusMeta
  index : UInt64

structure SubscribeUpdateTransaction where
  transaction : Option SubscribeUpdateTransactionInfo
  slot : UInt64
  bankId : UInt64

structure SubscribeUpdateTransactionStatus where
  slot : UInt64
  signature : Bytes
  isVote : Bool
  index : UInt64
  err : Option TransactionError
  bankId : UInt64

structure SubscribeUpdateEntry where
  slot : UInt64
  index : UInt64
  numHashes : UInt64
  hash : Bytes
  executedTransactionCount : UInt64
  startingTransactionIndex : UInt64
  bankId : UInt64

structure SubscribeUpdateBlock where
  slot : UInt64
  blockhash : String
  rewards : Option Rewards
  blockTime : Option UnixTimestamp
  blockHeight : Option BlockHeight
  parentSlot : UInt64
  parentBlockhash : String
  executedTransactionCount : UInt64
  transactions : List SubscribeUpdateTransactionInfo
  updatedAccountCount : UInt64
  accounts : List SubscribeUpdateAccountInfo
  entriesCount : UInt64
  entries : List SubscribeUpdateEntry
  bankId : UInt64

structure SubscribeUpdateBlockMeta where
  slot : UInt64
  blockhash : String
  rewards : Option Rewards
  blockTime : Option UnixTimestamp
  blockHeight : Option BlockHeight
  parentSlot : UInt64
  parentBlockhash : String
  executedTransactionCount : UInt64
  entriesCount : UInt64
  bankId : UInt64

structure BlockFooterVotesAggregate where
  signatureKind : Int32
  signature : Bytes
  blockId : Bytes
  signerBitmap : Bytes

structure BlockFooterFinalCert where
  slot : UInt64
  finalAggregate : Option BlockFooterVotesAggregate
  notarAggregate : Option BlockFooterVotesAggregate

structure BlockFooterSkipRewardCert where
  slot : UInt64
  aggregate : Option BlockFooterVotesAggregate

structure BlockFooterNotarRewardCert where
  slot : UInt64
  aggregate : Option BlockFooterVotesAggregate

structure SubscribeUpdateBlockFooter where
  slot : UInt64
  bankId : UInt64
  bankHash : Bytes
  blockProducerTimeNanos : UInt64
  blockUserAgent : Bytes
  blockFinalCert : Option BlockFooterFinalCert
  skipRewardCert : Option BlockFooterSkipRewardCert
  notarRewardCert : Option BlockFooterNotarRewardCert

structure SubscribeUpdateEntryUpdateParent where
  slot : UInt64
  clearedBankId : UInt64
  parentSlot : UInt64
  parentBlockId : Bytes

inductive UpdateOneof where
  | account (update : SubscribeUpdateAccount)
  | slot (update : SubscribeUpdateSlot)
  | transaction (update : SubscribeUpdateTransaction)
  | transactionStatus (update : SubscribeUpdateTransactionStatus)
  | block (update : SubscribeUpdateBlock)
  | ping
  | pong (id : Int32)
  | blockMeta (update : SubscribeUpdateBlockMeta)
  | entry (update : SubscribeUpdateEntry)
  | blockFooter (update : SubscribeUpdateBlockFooter)
  | entryUpdateParent (update : SubscribeUpdateEntryUpdateParent)

structure SubscribeUpdate where
  filters : List String
  updateOneof : Option UpdateOneof
  createdAt : Option Timestamp

/-! ### Richat-only updates -/

structure SubscribeUpdateDeshredTransactionInfo where
  signature : Bytes
  isVote : Bool
  transaction : Option Transaction
  loadedWritableAddresses : List Bytes
  loadedReadonlyAddresses : List Bytes
  completedDataSetStartingShredIndex : UInt32
  completedDataSetEndingShredIndexExclusive : UInt32

structure SubscribeUpdateDeshredTransaction where
  transaction : Option SubscribeUpdateDeshredTransactionInfo
  slot : UInt64

structure SubscribeUpdateContactInfoNode where
  pubkey : Bytes
  wallclock : UInt64
  outset : UInt64
  shredVersion : UInt32
  versionMajor : UInt32
  versionMinor : UInt32
  versionPatch : UInt32
  versionCommit : UInt32
  versionFeatureSet : UInt32
  versionClientId : UInt32
  gossip : Option String
  tpuQuic : Option String
  tpuForwardsQuic : Option String
  tpuVoteUdp : Option String
  tpuVoteQuic : Option String
  tvuUdp : Option String
  tvuQuic : Option String
  serveRepairUdp : Option String
  serveRepairQuic : Option String
  rpc : Option String
  rpcPubsub : Option String
  alpenglow : Option String

structure SubscribeUpdateContactInfoRemoved where
  pubkey : Bytes

namespace RichatOnly

structure SubscribeUpdateBlockFooter where
  slot : UInt64
  bankId : UInt64
  version : UInt32
  bankHash : Bytes
  blockProducerTimeNanos : UInt64
  blockUserAgent : Bytes
  footer : Bytes

structure SubscribeUpdateEntryUpdateParent where
  slot : UInt64
  clearedBankId : UInt64
  parentSlot : UInt64
  parentBlockId : Bytes

structure SubscribeUpdateDeshredUpdateParent where
  slot : UInt64
  updateParentFecSetIndex : UInt32
  parentSlot : UInt64
  parentBlockId : Bytes

inductive UpdateOneof where
  | deshredTransaction (update : SubscribeUpdateDeshredTransaction)
  | contactInfo (update : SubscribeUpdateContactInfoNode)
  | contactInfoRemoved (update : SubscribeUpdateContactInfoRemoved)
  | blockFooter (update : SubscribeUpdateBlockFooter)
  | entryUpdateParent (update : SubscribeUpdateEntryUpdateParent)
  | deshredUpdateParent (update : SubscribeUpdateDeshredUpdateParent)

end RichatOnly

structure SubscribeUpdateRichat where
  updateOneof : Option RichatOnly.UpdateOneof
  createdAt : Option Timestamp

end Richat.Proto
