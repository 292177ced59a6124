import Richat.Convert.ConvertTo
import Richat.Convert.Wire

/-!
# The encoders of the plugin

Each message of the validator has a pass that computes its size and one that writes it. A wrapper of the
source is the type that it wraps. The references of the validator are the `Replica..` records.

The serializers of transaction errors and block footers are parameters.
-/

namespace Richat.Plugin

open Solana Lib.Protobuf

/-! ### The records of the validator -/

structure ReplicaAccountInfo where
  pubkey : Pubkey
  lamports : UInt64
  owner : Pubkey
  executable : Bool
  rentEpoch : UInt64
  data : Bytes
  writeVersion : UInt64
  /-- the signature of the transaction -/
  txn : Option Signature

inductive SlotStatus where
  | processed | rooted | confirmed | firstShredReceived | completed | createdBank
  | dead (error : String)

structure ReplicaTransactionInfo (E : Type) where
  signature : Signature
  isVote : Bool
  transaction : VersionedTransaction
  transactionStatusMeta : TransactionStatusMeta E
  index : UInt64

structure ReplicaEntryInfo where
  slot : UInt64
  index : UInt64
  numHashes : UInt64
  hash : Hash
  executedTransactionCount : UInt64
  startingTransactionIndex : UInt64

structure RewardsAndNumPartitions where
  rewards : List Reward
  numPartitions : Option UInt64

structure ReplicaBlockInfo where
  parentSlot : UInt64
  parentBlockhash : String
  slot : UInt64
  blockhash : String
  rewards : RewardsAndNumPartitions
  blockTime : Option Int64
  blockHeight : Option UInt64
  executedTransactionCount : UInt64
  entryCount : UInt64

structure ReplicaDeshredTransactionInfo where
  signature : Signature
  isVote : Bool
  transaction : VersionedTransaction
  loadedAddresses : Option LoadedAddresses
  completedDataSetStartingShredIndex : UInt32
  completedDataSetEndingShredIndexExclusive : UInt32

/-- An address with what `Display` writes, which fits into `SOCKET_ADDR_MAX_LEN` bytes. -/
structure SocketAddr where
  display : String
  length_le : (utf8 display).length ≤ 58

structure ReplicaContactInfo where
  pubkey : Bytes
  wallclock : UInt64
  outset : UInt64
  shredVersion : UInt16
  versionMajor : UInt16
  versionMinor : UInt16
  versionPatch : UInt16
  versionCommit : UInt32
  versionFeatureSet : UInt32
  versionClientId : UInt16
  gossip : Option SocketAddr
  tpuQuic : Option SocketAddr
  tpuForwardsQuic : Option SocketAddr
  tpuVoteUdp : Option SocketAddr
  tpuVoteQuic : Option SocketAddr
  tvuUdp : Option SocketAddr
  tvuQuic : Option SocketAddr
  serveRepairUdp : Option SocketAddr
  serveRepairQuic : Option SocketAddr
  rpc : Option SocketAddr
  rpcPubsub : Option SocketAddr
  alpenglow : Option SocketAddr

/-- `VersionedBlockFooter::V1`. -/
structure BlockFooterV1 (C : Type) where
  bankHash : Hash
  blockProducerTimeNanos : UInt64
  blockUserAgent : Bytes
  certificates : C

structure ReplicaEntryUpdateParentInfo where
  slot : UInt64
  clearedBankId : UInt64
  parentSlot : UInt64
  parentBlockId : Hash

structure ReplicaDeshredUpdateParentInfo where
  slot : UInt64
  updateParentFecSetIndex : UInt32
  parentSlot : UInt64
  parentBlockId : Hash

/-- `bincode::serialize` of an error. -/
class SerializeError (E : Type) where
  serialize : E → Bytes

/-- `wincode::serialize` of a footer. -/
class SerializeFooter (C : Type) where
  serialize : BlockFooterV1 C → Option Bytes

/-! ### Helpers -/

def numStrings : List String :=
  ["0", "1", "2", "3", "4", "5", "6", "7", "8", "9", "10", "11", "12", "13", "14", "15", "16", "17",
    "18", "19", "20", "21", "22", "23", "24", "25", "26", "27", "28", "29", "30", "31", "32", "33",
    "34", "35", "36", "37", "38", "39", "40", "41", "42", "43", "44", "45", "46", "47", "48", "49",
    "50", "51", "52", "53", "54", "55", "56", "57", "58", "59", "60", "61", "62", "63", "64", "65",
    "66", "67", "68", "69", "70", "71", "72", "73", "74", "75", "76", "77", "78", "79", "80", "81",
    "82", "83", "84", "85", "86", "87", "88", "89", "90", "91", "92", "93", "94", "95", "96", "97",
    "98", "99", "100", "101", "102", "103", "104", "105", "106", "107", "108", "109", "110", "111",
    "112", "113", "114", "115", "116", "117", "118", "119", "120", "121", "122", "123", "124", "125",
    "126", "127", "128", "129", "130", "131", "132", "133", "134", "135", "136", "137", "138", "139",
    "140", "141", "142", "143", "144", "145", "146", "147", "148", "149", "150", "151", "152", "153",
    "154", "155", "156", "157", "158", "159", "160", "161", "162", "163", "164", "165", "166", "167",
    "168", "169", "170", "171", "172", "173", "174", "175", "176", "177", "178", "179", "180", "181",
    "182", "183", "184", "185", "186", "187", "188", "189", "190", "191", "192", "193", "194", "195",
    "196", "197", "198", "199", "200", "201", "202", "203", "204", "205", "206", "207", "208", "209",
    "210", "211", "212", "213", "214", "215", "216", "217", "218", "219", "220", "221", "222", "223",
    "224", "225", "226", "227", "228", "229", "230", "231", "232", "233", "234", "235", "236", "237",
    "238", "239", "240", "241", "242", "243", "244", "245", "246", "247", "248", "249", "250", "251",
    "252", "253", "254", "255"]

def u8ToStaticStr (num : UInt8) : String := numStrings.getD num.toNat ""

/-- The loop of `u16_to_str` from the end of a buffer of so many bytes. -/
def u16ToStrLoop : ℕ → ℕ → Bytes → Bytes
  | 0, _, buffer => buffer
  | index + 1, num, buffer =>
    let buffer := UInt8.ofNat (48 + num % 10) :: buffer
    let num := num / 10
    if num = 0 then buffer else u16ToStrLoop index num buffer

/-- `u16_to_str`, with `U16_MAX_DIGITS` bytes. -/
def u16ToStr (num : UInt16) : Bytes := u16ToStrLoop 5 num.toNat []

def rewardTypeAsI32 : Option RewardType → Int32
  | none => 0
  | some .fee => 1
  | some .rent => 2
  | some .staking => 3
  | some .voting => 4
  | some .deactivatedStake => 5
  | some .vatDebit => 6

def pubkeysEncode (tag : ℕ) (pubkeys : List Pubkey) : Bytes :=
  pubkeys.flatMap fun pubkey => bytesEncode tag pubkey.val

def pubkeysEncodedLen (tag : ℕ) (pubkeys : List Pubkey) : ℕ :=
  (keyLen tag + encodedLenVarint 32 + 32) * pubkeys.length

def signaturesEncode (tag : ℕ) (signatures : List Signature) : Bytes :=
  signatures.flatMap fun signature => bytesEncode tag signature.val

def signaturesEncodedLen (tag : ℕ) (signatures : List Signature) : ℕ :=
  (keyLen tag + encodedLenVarint 64 + 64) * signatures.length

def versionedEncode (tag : ℕ) (versioned : Bool) : Bytes :=
  if versioned then bool.encode tag versioned else []

def versionedEncodedLen (tag : ℕ) (versioned : Bool) : ℕ :=
  if versioned then bool.encodedLen tag versioned else 0

/-! ### Transactions -/

instance : WireMessage MessageHeader where
  encodeRaw header :=
    (if header.numRequiredSignatures.toUInt32 ≠ 0 then
      uint32.encode 1 header.numRequiredSignatures.toUInt32 else []) ++
    (if header.numReadonlySignedAccounts.toUInt32 ≠ 0 then
      uint32.encode 2 header.numReadonlySignedAccounts.toUInt32 else []) ++
    (if header.numReadonlyUnsignedAccounts.toUInt32 ≠ 0 then
      uint32.encode 3 header.numReadonlyUnsignedAccounts.toUInt32 else [])
  encodedLen header :=
    (if header.numRequiredSignatures.toUInt32 ≠ 0 then
      uint32.encodedLen 1 header.numRequiredSignatures.toUInt32 else 0) +
    (if header.numReadonlySignedAccounts.toUInt32 ≠ 0 then
      uint32.encodedLen 2 header.numReadonlySignedAccounts.toUInt32 else 0) +
    (if header.numReadonlyUnsignedAccounts.toUInt32 ≠ 0 then
      uint32.encodedLen 3 header.numReadonlyUnsignedAccounts.toUInt32 else 0)

instance : WireMessage CompiledInstruction where
  encodeRaw ix :=
    (if ix.programIdIndex.toUInt32 ≠ 0 then uint32.encode 1 ix.programIdIndex.toUInt32 else []) ++
    (if ¬ ix.accounts.isEmpty then bytesEncode 2 ix.accounts else []) ++
    (if ¬ ix.data.isEmpty then bytesEncode 3 ix.data else [])
  encodedLen ix :=
    (if ix.programIdIndex.toUInt32 ≠ 0 then uint32.encodedLen 1 ix.programIdIndex.toUInt32 else 0) +
    (if ¬ ix.accounts.isEmpty then bytesEncodedLen 2 ix.accounts else 0) +
    (if ¬ ix.data.isEmpty then bytesEncodedLen 3 ix.data else 0)

instance : WireMessage MessageAddressTableLookup where
  encodeRaw lookup :=
    bytesEncode 1 lookup.accountKey.val ++
    (if ¬ lookup.writableIndexes.isEmpty then bytesEncode 2 lookup.writableIndexes else []) ++
    (if ¬ lookup.readonlyIndexes.isEmpty then bytesEncode 3 lookup.readonlyIndexes else [])
  encodedLen lookup :=
    bytesEncodedLen 1 lookup.accountKey.val +
    (if ¬ lookup.writableIndexes.isEmpty then bytesEncodedLen 2 lookup.writableIndexes else 0) +
    (if ¬ lookup.readonlyIndexes.isEmpty then bytesEncodedLen 3 lookup.readonlyIndexes else 0)

instance : WireMessage TransactionConfig where
  encodeRaw config :=
    config.priorityFee.elim [] (uint64.encode 1) ++
    config.computeUnitLimit.elim [] (uint32.encode 2) ++
    config.loadedAccountsDataSizeLimit.elim [] (uint32.encode 3) ++
    config.heapSize.elim [] (uint32.encode 4)
  encodedLen config :=
    config.priorityFee.elim 0 (uint64.encodedLen 1) +
    config.computeUnitLimit.elim 0 (uint32.encodedLen 2) +
    config.loadedAccountsDataSizeLimit.elim 0 (uint32.encodedLen 3) +
    config.heapSize.elim 0 (uint32.encodedLen 4)

instance : WireMessage VersionedMessage where
  encodeRaw
    | .legacy msg =>
      message.encode 1 msg.header ++ pubkeysEncode 2 msg.accountKeys ++
      bytesEncode 3 msg.recentBlockhash.val ++ message.encodeRepeated 4 msg.instructions ++
      versionedEncode 5 false ++ message.encodeRepeated 6 ([] : List MessageAddressTableLookup)
    | .v0 msg =>
      message.encode 1 msg.header ++ pubkeysEncode 2 msg.accountKeys ++
      bytesEncode 3 msg.recentBlockhash.val ++ message.encodeRepeated 4 msg.instructions ++
      versionedEncode 5 true ++ message.encodeRepeated 6 msg.addressTableLookups
    | .v1 msg =>
      message.encode 1 msg.header ++ pubkeysEncode 2 msg.accountKeys ++
      bytesEncode 3 msg.lifetimeSpecifier.val ++ message.encodeRepeated 4 msg.instructions ++
      versionedEncode 5 true ++ message.encode 7 msg.config
  encodedLen
    | .legacy msg =>
      message.encodedLen 1 msg.header + pubkeysEncodedLen 2 msg.accountKeys +
      bytesEncodedLen 3 msg.recentBlockhash.val + message.encodedLenRepeated 4 msg.instructions +
      versionedEncodedLen 5 false + message.encodedLenRepeated 6 ([] : List MessageAddressTableLookup)
    | .v0 msg =>
      message.encodedLen 1 msg.header + pubkeysEncodedLen 2 msg.accountKeys +
      bytesEncodedLen 3 msg.recentBlockhash.val + message.encodedLenRepeated 4 msg.instructions +
      versionedEncodedLen 5 true + message.encodedLenRepeated 6 msg.addressTableLookups
    | .v1 msg =>
      message.encodedLen 1 msg.header + pubkeysEncodedLen 2 msg.accountKeys +
      bytesEncodedLen 3 msg.lifetimeSpecifier.val + message.encodedLenRepeated 4 msg.instructions +
      versionedEncodedLen 5 true + message.encodedLen 7 msg.config

instance : WireMessage VersionedTransaction where
  encodeRaw tx := signaturesEncode 1 tx.signatures ++ message.encode 2 tx.message
  encodedLen tx := signaturesEncodedLen 1 tx.signatures + message.encodedLen 2 tx.message

/-! ### The meta of a transaction -/

/-- The error of a transaction. -/
structure TransactionErrorWrapper (E : Type) where
  error : E

section Error

variable {E : Type} [SerializeError E]

/-- What `encoded_len` leaves in the buffer of the thread. -/
def TransactionErrorWrapper.buffer (err : TransactionErrorWrapper E) : Bytes :=
  SerializeError.serialize err.error

/-- `encode_raw` writes the buffer: `message::encode` has called `encoded_len` right before. -/
instance : WireMessage (TransactionErrorWrapper E) where
  encodeRaw err := if ¬ err.buffer.isEmpty then bytesEncode 1 err.buffer else []
  encodedLen err := if ¬ err.buffer.isEmpty then bytesEncodedLen 1 err.buffer else 0

end Error

instance : WireMessage InnerInstruction where
  encodeRaw ix :=
    (if ix.instruction.programIdIndex.toUInt32 ≠ 0 then
      uint32.encode 1 ix.instruction.programIdIndex.toUInt32 else []) ++
    (if ¬ ix.instruction.accounts.isEmpty then bytesEncode 2 ix.instruction.accounts else []) ++
    (if ¬ ix.instruction.data.isEmpty then bytesEncode 3 ix.instruction.data else []) ++
    ix.stackHeight.elim [] (uint32.encode 4)
  encodedLen ix :=
    (if ix.instruction.programIdIndex.toUInt32 ≠ 0 then
      uint32.encodedLen 1 ix.instruction.programIdIndex.toUInt32 else 0) +
    (if ¬ ix.instruction.accounts.isEmpty then bytesEncodedLen 2 ix.instruction.accounts else 0) +
    (if ¬ ix.instruction.data.isEmpty then bytesEncodedLen 3 ix.instruction.data else 0) +
    ix.stackHeight.elim 0 (uint32.encodedLen 4)

instance : WireMessage InnerInstructions where
  encodeRaw ixs :=
    (if ixs.index.toUInt32 ≠ 0 then uint32.encode 1 ixs.index.toUInt32 else []) ++
    message.encodeRepeated 2 ixs.instructions
  encodedLen ixs :=
    (if ixs.index.toUInt32 ≠ 0 then uint32.encodedLen 1 ixs.index.toUInt32 else 0) +
    message.encodedLenRepeated 2 ixs.instructions

instance : WireMessage UiTokenAmount where
  encodeRaw amount :=
    (if ¬ double.isZero (amount.uiAmount.getD 0) then double.encode 1 (amount.uiAmount.getD 0) else []) ++
    (if amount.decimals.toUInt32 ≠ 0 then uint32.encode 2 amount.decimals.toUInt32 else []) ++
    (if amount.amount ≠ "" then string.encode 3 amount.amount else []) ++
    (if amount.uiAmountString ≠ "" then string.encode 4 amount.uiAmountString else [])
  encodedLen amount :=
    (if ¬ double.isZero (amount.uiAmount.getD 0) then
      double.encodedLen 1 (amount.uiAmount.getD 0) else 0) +
    (if amount.decimals.toUInt32 ≠ 0 then uint32.encodedLen 2 amount.decimals.toUInt32 else 0) +
    (if amount.amount ≠ "" then string.encodedLen 3 amount.amount else 0) +
    (if amount.uiAmountString ≠ "" then string.encodedLen 4 amount.uiAmountString else 0)

instance : WireMessage TransactionTokenBalance where
  encodeRaw balance :=
    (if balance.accountIndex.toUInt32 ≠ 0 then uint32.encode 1 balance.accountIndex.toUInt32 else []) ++
    (if balance.mint ≠ "" then string.encode 2 balance.mint else []) ++
    message.encode 3 balance.uiTokenAmount ++
    (if balance.owner ≠ "" then string.encode 4 balance.owner else []) ++
    (if balance.programId ≠ "" then string.encode 5 balance.programId else [])
  encodedLen balance :=
    (if balance.accountIndex.toUInt32 ≠ 0 then
      uint32.encodedLen 1 balance.accountIndex.toUInt32 else 0) +
    (if balance.mint ≠ "" then string.encodedLen 2 balance.mint else 0) +
    message.encodedLen 3 balance.uiTokenAmount +
    (if balance.owner ≠ "" then string.encodedLen 4 balance.owner else 0) +
    (if balance.programId ≠ "" then string.encodedLen 5 balance.programId else 0)

instance : WireMessage TransactionReturnData where
  encodeRaw returnData :=
    bytesEncode 1 returnData.programId.val ++
    (if ¬ returnData.data.isEmpty then bytesEncode 2 returnData.data else [])
  encodedLen returnData :=
    bytesEncodedLen 1 returnData.programId.val +
    (if ¬ returnData.data.isEmpty then bytesEncodedLen 2 returnData.data else 0)

instance : WireMessage Reward where
  encodeRaw reward :=
    (if reward.pubkey ≠ "" then string.encode 1 reward.pubkey else []) ++
    (if reward.lamports ≠ 0 then int64.encode 2 reward.lamports else []) ++
    (if reward.postBalance ≠ 0 then uint64.encode 3 reward.postBalance else []) ++
    (if reward.rewardType.isSome then int32.encode 4 (rewardTypeAsI32 reward.rewardType) else []) ++
    reward.commission.elim [] (fun commission => bytesEncode 5 (utf8 (u8ToStaticStr commission))) ++
    reward.commissionBps.elim [] (fun bps => bytesEncode 6 (u16ToStr bps))
  encodedLen reward :=
    (if reward.pubkey ≠ "" then string.encodedLen 1 reward.pubkey else 0) +
    (if reward.lamports ≠ 0 then int64.encodedLen 2 reward.lamports else 0) +
    (if reward.postBalance ≠ 0 then uint64.encodedLen 3 reward.postBalance else 0) +
    (if reward.rewardType.isSome then int32.encodedLen 4 (rewardTypeAsI32 reward.rewardType) else 0) +
    reward.commission.elim 0 (fun commission => bytesEncodedLen 5 (utf8 (u8ToStaticStr commission))) +
    reward.commissionBps.elim 0 (fun bps => bytesEncodedLen 6 (u16ToStr bps))

section Meta

variable {E : Type} [SerializeError E]

/-- The error of a status. -/
def statusError (status : Except E Unit) : Option (TransactionErrorWrapper E) :=
  match status with
  | .error err => some ⟨err⟩
  | .ok () => none

instance : WireMessage (TransactionStatusMeta E) where
  encodeRaw status :=
    (statusError status.status).elim [] (message.encode 1) ++
    (if status.fee ≠ 0 then uint64.encode 2 status.fee else []) ++
    uint64.encodePacked 3 status.preBalances ++
    uint64.encodePacked 4 status.postBalances ++
    status.innerInstructions.elim [] (message.encodeRepeated 5) ++
    status.logMessages.elim [] (string.encodeRepeated 6) ++
    status.preTokenBalances.elim [] (message.encodeRepeated 7) ++
    status.postTokenBalances.elim [] (message.encodeRepeated 8) ++
    status.rewards.elim [] (message.encodeRepeated 9) ++
    (if status.innerInstructions.isNone then bool.encode 10 status.innerInstructions.isNone else []) ++
    (if status.logMessages.isNone then bool.encode 11 status.logMessages.isNone else []) ++
    pubkeysEncode 12 status.loadedAddresses.writable ++
    pubkeysEncode 13 status.loadedAddresses.readonly ++
    status.returnData.elim [] (message.encode 14) ++
    (if status.returnData.isNone then bool.encode 15 status.returnData.isNone else []) ++
    status.computeUnitsConsumed.elim [] (uint64.encode 16) ++
    status.costUnits.elim [] (uint64.encode 17)
  encodedLen status :=
    (statusError status.status).elim 0 (message.encodedLen 1) +
    (if status.fee ≠ 0 then uint64.encodedLen 2 status.fee else 0) +
    uint64.encodedLenPacked 3 status.preBalances +
    uint64.encodedLenPacked 4 status.postBalances +
    status.innerInstructions.elim 0 (message.encodedLenRepeated 5) +
    status.logMessages.elim 0 (string.encodedLenRepeated 6) +
    status.preTokenBalances.elim 0 (message.encodedLenRepeated 7) +
    status.postTokenBalances.elim 0 (message.encodedLenRepeated 8) +
    status.rewards.elim 0 (message.encodedLenRepeated 9) +
    (if status.innerInstructions.isNone then bool.encodedLen 10 status.innerInstructions.isNone else 0) +
    (if status.logMessages.isNone then bool.encodedLen 11 status.logMessages.isNone else 0) +
    pubkeysEncodedLen 12 status.loadedAddresses.writable +
    pubkeysEncodedLen 13 status.loadedAddresses.readonly +
    status.returnData.elim 0 (message.encodedLen 14) +
    (if status.returnData.isNone then bool.encodedLen 15 status.returnData.isNone else 0) +
    status.computeUnitsConsumed.elim 0 (uint64.encodedLen 16) +
    status.costUnits.elim 0 (uint64.encodedLen 17)

end Meta

end Richat.Plugin
