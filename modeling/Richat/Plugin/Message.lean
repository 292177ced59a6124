import Richat.Plugin.Encoding

/-!
# Messages of the plugin

`ProtobufMessage` with its two encoders: `encodeProst` converts a message to the generated types and
encodes these, `encodeRaw` writes it at once.
-/

namespace Richat.Plugin

open Solana Lib.Protobuf

/-! ### Updates -/

namespace Encoding

structure Account where
  slot : UInt64
  bankId : Option UInt64
  account : ReplicaAccountInfo

instance : WireMessage ReplicaAccountInfo where
  encodeRaw account :=
    bytesEncode 1 account.pubkey.val ++
    (if account.lamports ≠ 0 then uint64.encode 2 account.lamports else []) ++
    bytesEncode 3 account.owner.val ++
    (if account.executable then bool.encode 4 account.executable else []) ++
    (if account.rentEpoch ≠ 0 then uint64.encode 5 account.rentEpoch else []) ++
    (if ¬ account.data.isEmpty then bytesEncode 6 account.data else []) ++
    (if account.writeVersion ≠ 0 then uint64.encode 7 account.writeVersion else []) ++
    account.txn.elim [] (fun signature => bytesEncode 8 signature.val)
  encodedLen account :=
    bytesEncodedLen 1 account.pubkey.val +
    (if account.lamports ≠ 0 then uint64.encodedLen 2 account.lamports else 0) +
    bytesEncodedLen 3 account.owner.val +
    (if account.executable then bool.encodedLen 4 account.executable else 0) +
    (if account.rentEpoch ≠ 0 then uint64.encodedLen 5 account.rentEpoch else 0) +
    (if ¬ account.data.isEmpty then bytesEncodedLen 6 account.data else 0) +
    (if account.writeVersion ≠ 0 then uint64.encodedLen 7 account.writeVersion else 0) +
    account.txn.elim 0 (fun signature => bytesEncodedLen 8 signature.val)

instance : WireMessage Account where
  encodeRaw m :=
    message.encode 1 m.account ++
    (if m.slot ≠ 0 then uint64.encode 2 m.slot else []) ++
    m.bankId.elim [] (uint64.encode 4)
  encodedLen m :=
    message.encodedLen 1 m.account +
    (if m.slot ≠ 0 then uint64.encodedLen 2 m.slot else 0) +
    m.bankId.elim 0 (uint64.encodedLen 4)

structure Slot where
  slot : UInt64
  parent : Option UInt64
  status : SlotStatus
  bankId : Option UInt64

def slotStatusAsI32 : SlotStatus → Int32
  | .processed => 0
  | .rooted => 2
  | .confirmed => 1
  | .firstShredReceived => 3
  | .completed => 4
  | .createdBank => 5
  | .dead _ => 6

def slotStatusAsDeadError : SlotStatus → Option String
  | .dead error => some error
  | _ => none

instance : WireMessage Slot where
  encodeRaw m :=
    (if m.slot ≠ 0 then uint64.encode 1 m.slot else []) ++
    m.parent.elim [] (uint64.encode 2) ++
    (if slotStatusAsI32 m.status ≠ 0 then int32.encode 3 (slotStatusAsI32 m.status) else []) ++
    (slotStatusAsDeadError m.status).elim [] (string.encode 4) ++
    m.bankId.elim [] (uint64.encode 5)
  encodedLen m :=
    (if m.slot ≠ 0 then uint64.encodedLen 1 m.slot else 0) +
    m.parent.elim 0 (uint64.encodedLen 2) +
    (if slotStatusAsI32 m.status ≠ 0 then int32.encodedLen 3 (slotStatusAsI32 m.status) else 0) +
    (slotStatusAsDeadError m.status).elim 0 (string.encodedLen 4) +
    m.bankId.elim 0 (uint64.encodedLen 5)

section Transaction

variable {E : Type} [SerializeError E]

structure Transaction (E : Type) where
  slot : UInt64
  bankId : UInt64
  transaction : ReplicaTransactionInfo E

instance : WireMessage (ReplicaTransactionInfo E) where
  encodeRaw tx :=
    bytesEncode 1 tx.signature.val ++
    (if tx.isVote then bool.encode 2 tx.isVote else []) ++
    message.encode 3 tx.transaction ++
    message.encode 4 tx.transactionStatusMeta ++
    (if tx.index ≠ 0 then uint64.encode 5 tx.index else [])
  encodedLen tx :=
    bytesEncodedLen 1 tx.signature.val +
    (if tx.isVote then bool.encodedLen 2 tx.isVote else 0) +
    message.encodedLen 3 tx.transaction +
    message.encodedLen 4 tx.transactionStatusMeta +
    (if tx.index ≠ 0 then uint64.encodedLen 5 tx.index else 0)

instance : WireMessage (Transaction E) where
  encodeRaw m :=
    message.encode 1 m.transaction ++
    (if m.slot ≠ 0 then uint64.encode 2 m.slot else []) ++
    (if m.bankId ≠ 0 then uint64.encode 3 m.bankId else [])
  encodedLen m :=
    message.encodedLen 1 m.transaction +
    (if m.slot ≠ 0 then uint64.encodedLen 2 m.slot else 0) +
    (if m.bankId ≠ 0 then uint64.encodedLen 3 m.bankId else 0)

end Transaction

structure Entry where
  bankId : UInt64
  entry : ReplicaEntryInfo

instance : WireMessage Entry where
  encodeRaw m :=
    (if m.entry.slot ≠ 0 then uint64.encode 1 m.entry.slot else []) ++
    (if m.entry.index ≠ 0 then uint64.encode 2 m.entry.index else []) ++
    (if m.entry.numHashes ≠ 0 then uint64.encode 3 m.entry.numHashes else []) ++
    bytesEncode 4 m.entry.hash.val ++
    (if m.entry.executedTransactionCount ≠ 0 then uint64.encode 5 m.entry.executedTransactionCount else []) ++
    (if m.entry.startingTransactionIndex ≠ 0 then uint64.encode 6 m.entry.startingTransactionIndex else []) ++
    (if m.bankId ≠ 0 then uint64.encode 7 m.bankId else [])
  encodedLen m :=
    (if m.entry.slot ≠ 0 then uint64.encodedLen 1 m.entry.slot else 0) +
    (if m.entry.index ≠ 0 then uint64.encodedLen 2 m.entry.index else 0) +
    (if m.entry.numHashes ≠ 0 then uint64.encodedLen 3 m.entry.numHashes else 0) +
    bytesEncodedLen 4 m.entry.hash.val +
    (if m.entry.executedTransactionCount ≠ 0 then uint64.encodedLen 5 m.entry.executedTransactionCount else 0) +
    (if m.entry.startingTransactionIndex ≠ 0 then uint64.encodedLen 6 m.entry.startingTransactionIndex else 0) +
    (if m.bankId ≠ 0 then uint64.encodedLen 7 m.bankId else 0)

instance : WireMessage RewardsAndNumPartitions where
  encodeRaw rewards :=
    message.encodeRepeated 1 rewards.rewards ++
    rewards.numPartitions.elim [] (fun n => message.encode 2 (ConvertTo.createNumPartitions n))
  encodedLen rewards :=
    message.encodedLenRepeated 1 rewards.rewards +
    rewards.numPartitions.elim 0 (fun n => message.encodedLen 2 (ConvertTo.createNumPartitions n))

structure BlockMeta where
  bankId : UInt64
  blockinfo : ReplicaBlockInfo

instance : WireMessage BlockMeta where
  encodeRaw m :=
    (if m.blockinfo.slot ≠ 0 then uint64.encode 1 m.blockinfo.slot else []) ++
    (if m.blockinfo.blockhash ≠ "" then bytesEncode 2 (utf8 m.blockinfo.blockhash) else []) ++
    message.encode 3 m.blockinfo.rewards ++
    m.blockinfo.blockTime.elim [] (fun t => message.encode 4 (ConvertTo.createTimestamp t)) ++
    m.blockinfo.blockHeight.elim [] (fun h => message.encode 5 (ConvertTo.createBlockHeight h)) ++
    (if m.blockinfo.parentSlot ≠ 0 then uint64.encode 6 m.blockinfo.parentSlot else []) ++
    (if m.blockinfo.parentBlockhash ≠ "" then bytesEncode 7 (utf8 m.blockinfo.parentBlockhash) else []) ++
    (if m.blockinfo.executedTransactionCount ≠ 0 then uint64.encode 8 m.blockinfo.executedTransactionCount else []) ++
    (if m.blockinfo.entryCount ≠ 0 then uint64.encode 9 m.blockinfo.entryCount else []) ++
    (if m.bankId ≠ 0 then uint64.encode 10 m.bankId else [])
  encodedLen m :=
    (if m.blockinfo.slot ≠ 0 then uint64.encodedLen 1 m.blockinfo.slot else 0) +
    (if m.blockinfo.blockhash ≠ "" then bytesEncodedLen 2 (utf8 m.blockinfo.blockhash) else 0) +
    message.encodedLen 3 m.blockinfo.rewards +
    m.blockinfo.blockTime.elim 0 (fun t => message.encodedLen 4 (ConvertTo.createTimestamp t)) +
    m.blockinfo.blockHeight.elim 0 (fun h => message.encodedLen 5 (ConvertTo.createBlockHeight h)) +
    (if m.blockinfo.parentSlot ≠ 0 then uint64.encodedLen 6 m.blockinfo.parentSlot else 0) +
    (if m.blockinfo.parentBlockhash ≠ "" then bytesEncodedLen 7 (utf8 m.blockinfo.parentBlockhash) else 0) +
    (if m.blockinfo.executedTransactionCount ≠ 0 then uint64.encodedLen 8 m.blockinfo.executedTransactionCount else 0) +
    (if m.blockinfo.entryCount ≠ 0 then uint64.encodedLen 9 m.blockinfo.entryCount else 0) +
    (if m.bankId ≠ 0 then uint64.encodedLen 10 m.bankId else 0)

/-! ### Richat-only updates -/

structure DeshredTransaction where
  slot : UInt64
  transaction : ReplicaDeshredTransactionInfo

instance : WireMessage ReplicaDeshredTransactionInfo where
  encodeRaw tx :=
    bytesEncode 1 tx.signature.val ++
    (if tx.isVote then bool.encode 2 tx.isVote else []) ++
    message.encode 3 tx.transaction ++
    tx.loadedAddresses.elim []
      (fun addresses => pubkeysEncode 4 addresses.writable ++ pubkeysEncode 5 addresses.readonly) ++
    (if tx.completedDataSetStartingShredIndex ≠ 0 then
      uint32.encode 6 tx.completedDataSetStartingShredIndex else []) ++
    (if tx.completedDataSetEndingShredIndexExclusive ≠ 0 then
      uint32.encode 7 tx.completedDataSetEndingShredIndexExclusive else [])
  encodedLen tx :=
    bytesEncodedLen 1 tx.signature.val +
    (if tx.isVote then bool.encodedLen 2 tx.isVote else 0) +
    message.encodedLen 3 tx.transaction +
    tx.loadedAddresses.elim 0
      (fun addresses => pubkeysEncodedLen 4 addresses.writable + pubkeysEncodedLen 5 addresses.readonly) +
    (if tx.completedDataSetStartingShredIndex ≠ 0 then
      uint32.encodedLen 6 tx.completedDataSetStartingShredIndex else 0) +
    (if tx.completedDataSetEndingShredIndexExclusive ≠ 0 then
      uint32.encodedLen 7 tx.completedDataSetEndingShredIndexExclusive else 0)

instance : WireMessage DeshredTransaction where
  encodeRaw m :=
    message.encode 1 m.transaction ++
    (if m.slot ≠ 0 then uint64.encode 2 m.slot else [])
  encodedLen m :=
    message.encodedLen 1 m.transaction +
    (if m.slot ≠ 0 then uint64.encodedLen 2 m.slot else 0)

def socketAddrEncode (tag : ℕ) (addr : Option SocketAddr) : Bytes :=
  addr.elim [] fun addr => bytesEncode tag (utf8 addr.display)

def socketAddrEncodedLen (tag : ℕ) (addr : Option SocketAddr) : ℕ :=
  addr.elim 0 fun addr => bytesEncodedLen tag (utf8 addr.display)

def u16Encode (tag : ℕ) (value : UInt16) : Bytes :=
  if value ≠ 0 then uint32.encode tag value.toUInt32 else []

def u16EncodedLen (tag : ℕ) (value : UInt16) : ℕ :=
  if value ≠ 0 then uint32.encodedLen tag value.toUInt32 else 0

def u32Encode (tag : ℕ) (value : UInt32) : Bytes := if value ≠ 0 then uint32.encode tag value else []
def u32EncodedLen (tag : ℕ) (value : UInt32) : ℕ := if value ≠ 0 then uint32.encodedLen tag value else 0

def u64Encode (tag : ℕ) (value : UInt64) : Bytes := if value ≠ 0 then uint64.encode tag value else []
def u64EncodedLen (tag : ℕ) (value : UInt64) : ℕ := if value ≠ 0 then uint64.encodedLen tag value else 0

instance : WireMessage ReplicaContactInfo where
  encodeRaw info :=
    (if ¬ info.pubkey.isEmpty then bytesEncode 1 info.pubkey else []) ++
    u64Encode 2 info.wallclock ++
    u64Encode 3 info.outset ++
    u16Encode 4 info.shredVersion ++
    u16Encode 5 info.versionMajor ++
    u16Encode 6 info.versionMinor ++
    u16Encode 7 info.versionPatch ++
    u32Encode 8 info.versionCommit ++
    u32Encode 9 info.versionFeatureSet ++
    u16Encode 10 info.versionClientId ++
    socketAddrEncode 11 info.gossip ++
    socketAddrEncode 12 info.tpuQuic ++
    socketAddrEncode 13 info.tpuForwardsQuic ++
    socketAddrEncode 14 info.tpuVoteUdp ++
    socketAddrEncode 15 info.tpuVoteQuic ++
    socketAddrEncode 16 info.tvuUdp ++
    socketAddrEncode 17 info.tvuQuic ++
    socketAddrEncode 18 info.serveRepairUdp ++
    socketAddrEncode 19 info.serveRepairQuic ++
    socketAddrEncode 20 info.rpc ++
    socketAddrEncode 21 info.rpcPubsub ++
    socketAddrEncode 22 info.alpenglow
  encodedLen info :=
    (if info.pubkey.isEmpty then 0 else bytesEncodedLen 1 info.pubkey) +
    u64EncodedLen 2 info.wallclock +
    u64EncodedLen 3 info.outset +
    u16EncodedLen 4 info.shredVersion +
    u16EncodedLen 5 info.versionMajor +
    u16EncodedLen 6 info.versionMinor +
    u16EncodedLen 7 info.versionPatch +
    u32EncodedLen 8 info.versionCommit +
    u32EncodedLen 9 info.versionFeatureSet +
    u16EncodedLen 10 info.versionClientId +
    socketAddrEncodedLen 11 info.gossip +
    socketAddrEncodedLen 12 info.tpuQuic +
    socketAddrEncodedLen 13 info.tpuForwardsQuic +
    socketAddrEncodedLen 14 info.tpuVoteUdp +
    socketAddrEncodedLen 15 info.tpuVoteQuic +
    socketAddrEncodedLen 16 info.tvuUdp +
    socketAddrEncodedLen 17 info.tvuQuic +
    socketAddrEncodedLen 18 info.serveRepairUdp +
    socketAddrEncodedLen 19 info.serveRepairQuic +
    socketAddrEncodedLen 20 info.rpc +
    socketAddrEncodedLen 21 info.rpcPubsub +
    socketAddrEncodedLen 22 info.alpenglow

structure ContactInfoRemoved where
  pubkey : Bytes

instance : WireMessage ContactInfoRemoved where
  encodeRaw m :=
    (if ¬ m.pubkey.isEmpty then bytesEncode 1 m.pubkey else [])
  encodedLen m :=
    (if m.pubkey.isEmpty then 0 else bytesEncodedLen 1 m.pubkey)

/-- The fields of a footer that both encoders share. -/
structure BlockFooterView where
  version : UInt32
  bankHash : Bytes
  blockProducerTimeNanos : UInt64
  blockUserAgent : Bytes
  footer : Bytes

def BlockFooterView.new {C : Type} [SerializeFooter C] (footer : BlockFooterV1 C) : BlockFooterView where
  version := 1
  bankHash := footer.bankHash.val
  blockProducerTimeNanos := footer.blockProducerTimeNanos
  blockUserAgent := footer.blockUserAgent
  -- a footer that cannot be serialized is logged
  footer := (SerializeFooter.serialize footer).getD []

structure BlockFooter where
  slot : UInt64
  bankId : UInt64
  view : BlockFooterView

instance : WireMessage BlockFooter where
  encodeRaw m :=
    (if m.slot ≠ 0 then uint64.encode 1 m.slot else []) ++
    (if m.bankId ≠ 0 then uint64.encode 2 m.bankId else []) ++
    (if m.view.version ≠ 0 then uint32.encode 3 m.view.version else []) ++
    bytesEncode 4 m.view.bankHash ++
    (if m.view.blockProducerTimeNanos ≠ 0 then uint64.encode 5 m.view.blockProducerTimeNanos else []) ++
    (if ¬ m.view.blockUserAgent.isEmpty then bytesEncode 6 m.view.blockUserAgent else []) ++
    (if ¬ m.view.footer.isEmpty then bytesEncode 7 m.view.footer else [])
  encodedLen m :=
    (if m.slot ≠ 0 then uint64.encodedLen 1 m.slot else 0) +
    (if m.bankId ≠ 0 then uint64.encodedLen 2 m.bankId else 0) +
    (if m.view.version ≠ 0 then uint32.encodedLen 3 m.view.version else 0) +
    bytesEncodedLen 4 m.view.bankHash +
    (if m.view.blockProducerTimeNanos ≠ 0 then uint64.encodedLen 5 m.view.blockProducerTimeNanos else 0) +
    (if m.view.blockUserAgent.isEmpty then 0 else bytesEncodedLen 6 m.view.blockUserAgent) +
    (if m.view.footer.isEmpty then 0 else bytesEncodedLen 7 m.view.footer)

instance : WireMessage ReplicaEntryUpdateParentInfo where
  encodeRaw info :=
    (if info.slot ≠ 0 then uint64.encode 1 info.slot else []) ++
    (if info.clearedBankId ≠ 0 then uint64.encode 2 info.clearedBankId else []) ++
    (if info.parentSlot ≠ 0 then uint64.encode 3 info.parentSlot else []) ++
    bytesEncode 4 info.parentBlockId.val
  encodedLen info :=
    (if info.slot ≠ 0 then uint64.encodedLen 1 info.slot else 0) +
    (if info.clearedBankId ≠ 0 then uint64.encodedLen 2 info.clearedBankId else 0) +
    (if info.parentSlot ≠ 0 then uint64.encodedLen 3 info.parentSlot else 0) +
    bytesEncodedLen 4 info.parentBlockId.val

instance : WireMessage ReplicaDeshredUpdateParentInfo where
  encodeRaw info :=
    (if info.slot ≠ 0 then uint64.encode 1 info.slot else []) ++
    (if info.updateParentFecSetIndex ≠ 0 then uint32.encode 2 info.updateParentFecSetIndex else []) ++
    (if info.parentSlot ≠ 0 then uint64.encode 3 info.parentSlot else []) ++
    bytesEncode 4 info.parentBlockId.val
  encodedLen info :=
    (if info.slot ≠ 0 then uint64.encodedLen 1 info.slot else 0) +
    (if info.updateParentFecSetIndex ≠ 0 then uint32.encodedLen 2 info.updateParentFecSetIndex else 0) +
    (if info.parentSlot ≠ 0 then uint64.encodedLen 3 info.parentSlot else 0) +
    bytesEncodedLen 4 info.parentBlockId.val

end Encoding

/-! ### Both encoders -/

inductive ProtobufMessage (E C : Type) where
  | account (slot : UInt64) (bankId : Option UInt64) (account : ReplicaAccountInfo)
  | slot (slot : UInt64) (parent : Option UInt64) (status : SlotStatus) (bankId : Option UInt64)
  | transaction (slot bankId : UInt64) (transaction : ReplicaTransactionInfo E)
  | entry (bankId : UInt64) (entry : ReplicaEntryInfo)
  | blockMeta (bankId : UInt64) (blockinfo : ReplicaBlockInfo)
  | deshredTransaction (slot : UInt64) (transaction : ReplicaDeshredTransactionInfo)
  | contactInfo (info : ReplicaContactInfo)
  | contactInfoRemoved (pubkey : Bytes)
  | blockFooter (slot bankId : UInt64) (blockFooter : BlockFooterV1 C)
  | entryUpdateParent (info : ReplicaEntryUpdateParentInfo)
  | deshredUpdateParent (info : ReplicaDeshredUpdateParentInfo)

namespace ProtobufMessage

variable {E C : Type} [SerializeError E] [SerializeFooter C]

/-- The update before or after `created_at`: the fields are in the order of their tags. -/
def encodeWith {α : Type} [WireMessage α] (createdAt : Proto.Timestamp) (tag : ℕ) (msg : α) : Bytes :=
  if tag < 11 then message.encode tag msg ++ message.encode 11 createdAt
  else message.encode 11 createdAt ++ message.encode tag msg

def encodeRaw (createdAt : Proto.Timestamp) : ProtobufMessage E C → Bytes
  | account s bankId info => encodeWith createdAt 2 (⟨s, bankId, info⟩ : Encoding.Account)
  | slot s parent status bankId => encodeWith createdAt 3 (⟨s, parent, status, bankId⟩ : Encoding.Slot)
  | transaction s bankId tx =>
    encodeWith createdAt 4 (⟨s, bankId, tx⟩ : Encoding.Transaction E)
  | blockMeta bankId blockinfo => encodeWith createdAt 7 (⟨bankId, blockinfo⟩ : Encoding.BlockMeta)
  | entry bankId info => encodeWith createdAt 8 (⟨bankId, info⟩ : Encoding.Entry)
  | deshredTransaction s tx =>
    encodeWith createdAt 100 (⟨s, tx⟩ : Encoding.DeshredTransaction)
  | contactInfo info => encodeWith createdAt 101 info
  | contactInfoRemoved pubkey => encodeWith createdAt 102 (⟨pubkey⟩ : Encoding.ContactInfoRemoved)
  | blockFooter s bankId footer =>
    encodeWith createdAt 103 (⟨s, bankId, .new footer⟩ : Encoding.BlockFooter)
  | entryUpdateParent info => encodeWith createdAt 104 info
  | deshredUpdateParent info => encodeWith createdAt 105 info

/-- The status of the generated enumeration. -/
def protoStatus : SlotStatus → Int32
  | .processed => 0
  | .rooted => 2
  | .confirmed => 1
  | .firstShredReceived => 3
  | .completed => 4
  | .createdBank => 5
  | .dead _ => 6

/-- An update of Yellowstone or one of Richat only. -/
def toProto : ProtobufMessage E C → Proto.UpdateOneof ⊕ Proto.RichatOnly.UpdateOneof
  | account s bankId info => .inl <| .account
    { account := some
        { pubkey := info.pubkey.val
          lamports := info.lamports
          owner := info.owner.val
          executable := info.executable
          rentEpoch := info.rentEpoch
          data := info.data
          writeVersion := info.writeVersion
          txnSignature := info.txn.map (·.val) }
      slot := s
      isStartup := false
      bankId := bankId }
  | slot s parent status bankId => .inl <| .slot
    { slot := s
      parent := parent
      status := protoStatus status
      deadError := match status with
        | .dead error => some error
        | _ => none
      bankId := bankId }
  | transaction s bankId tx => .inl <| .transaction
    { transaction := some
        { signature := tx.signature.val
          isVote := tx.isVote
          transaction := some (ConvertTo.createTransaction tx.transaction)
          statusMeta := some
            (ConvertTo.createTransactionMeta SerializeError.serialize tx.transactionStatusMeta)
          index := tx.index }
      slot := s
      bankId := bankId }
  | blockMeta bankId blockinfo => .inl <| .blockMeta
    { slot := blockinfo.slot
      blockhash := blockinfo.blockhash
      rewards := some (ConvertTo.createRewardsObj blockinfo.rewards.rewards blockinfo.rewards.numPartitions)
      blockTime := blockinfo.blockTime.map ConvertTo.createTimestamp
      blockHeight := blockinfo.blockHeight.map ConvertTo.createBlockHeight
      parentSlot := blockinfo.parentSlot
      parentBlockhash := blockinfo.parentBlockhash
      executedTransactionCount := blockinfo.executedTransactionCount
      entriesCount := blockinfo.entryCount
      bankId := bankId }
  | entry bankId info => .inl <| .entry
    { slot := info.slot
      index := info.index
      numHashes := info.numHashes
      hash := info.hash.val
      executedTransactionCount := info.executedTransactionCount
      startingTransactionIndex := info.startingTransactionIndex
      bankId := bankId }
  | deshredTransaction s tx => .inr <| .deshredTransaction
    { transaction := some
        { signature := tx.signature.val
          isVote := tx.isVote
          transaction := some (ConvertTo.createTransaction tx.transaction)
          loadedWritableAddresses :=
            (tx.loadedAddresses.map fun a => ConvertTo.createPubkeys a.writable).getD []
          loadedReadonlyAddresses :=
            (tx.loadedAddresses.map fun a => ConvertTo.createPubkeys a.readonly).getD []
          completedDataSetStartingShredIndex := tx.completedDataSetStartingShredIndex
          completedDataSetEndingShredIndexExclusive :=
            tx.completedDataSetEndingShredIndexExclusive }
      slot := s }
  | contactInfo info => .inr <| .contactInfo
    { pubkey := info.pubkey
      wallclock := info.wallclock
      outset := info.outset
      shredVersion := info.shredVersion.toUInt32
      versionMajor := info.versionMajor.toUInt32
      versionMinor := info.versionMinor.toUInt32
      versionPatch := info.versionPatch.toUInt32
      versionCommit := info.versionCommit
      versionFeatureSet := info.versionFeatureSet
      versionClientId := info.versionClientId.toUInt32
      gossip := info.gossip.map (·.display)
      tpuQuic := info.tpuQuic.map (·.display)
      tpuForwardsQuic := info.tpuForwardsQuic.map (·.display)
      tpuVoteUdp := info.tpuVoteUdp.map (·.display)
      tpuVoteQuic := info.tpuVoteQuic.map (·.display)
      tvuUdp := info.tvuUdp.map (·.display)
      tvuQuic := info.tvuQuic.map (·.display)
      serveRepairUdp := info.serveRepairUdp.map (·.display)
      serveRepairQuic := info.serveRepairQuic.map (·.display)
      rpc := info.rpc.map (·.display)
      rpcPubsub := info.rpcPubsub.map (·.display)
      alpenglow := info.alpenglow.map (·.display) }
  | contactInfoRemoved pubkey => .inr <| .contactInfoRemoved ⟨pubkey⟩
  | blockFooter s bankId footer =>
    let view := Encoding.BlockFooterView.new footer
    .inr <| .blockFooter
      { slot := s
        bankId := bankId
        version := view.version
        bankHash := view.bankHash
        blockProducerTimeNanos := view.blockProducerTimeNanos
        blockUserAgent := view.blockUserAgent
        footer := view.footer }
  | entryUpdateParent info => .inr <| .entryUpdateParent
    { slot := info.slot
      clearedBankId := info.clearedBankId
      parentSlot := info.parentSlot
      parentBlockId := info.parentBlockId.val }
  | deshredUpdateParent info => .inr <| .deshredUpdateParent
    { slot := info.slot
      updateParentFecSetIndex := info.updateParentFecSetIndex
      parentSlot := info.parentSlot
      parentBlockId := info.parentBlockId.val }

def encodeProst (createdAt : Proto.Timestamp) (msg : ProtobufMessage E C) : Bytes :=
  match msg.toProto with
  | .inl update => WireMessage.encodeRaw (⟨[], some update, some createdAt⟩ : Proto.SubscribeUpdate)
  | .inr update => WireMessage.encodeRaw (⟨some update, some createdAt⟩ : Proto.SubscribeUpdateRichat)

end ProtobufMessage

end Richat.Plugin
