import Richat.Convert.Geyser
import Richat.Lib.Protobuf

/-!
# The bytes of the wire format

What a generated message writes: its fields in the order of their tags, without the scalars that are the
default. `update_oneof` stands at the lowest of its tags.
-/

namespace Richat.Proto

open Lib.Protobuf

/-! ### Transactions -/

instance : WireMessage Timestamp := .ofEncodeRaw fun m =>
  plain int64.encode 0 1 m.seconds ++ plain int32.encode 0 2 m.nanos

instance : WireMessage NumPartitions := .ofEncodeRaw fun m =>
  plain uint64.encode 0 1 m.numPartitions

instance : WireMessage UnixTimestamp := .ofEncodeRaw fun m =>
  plain int64.encode 0 1 m.timestamp

instance : WireMessage BlockHeight := .ofEncodeRaw fun m =>
  plain uint64.encode 0 1 m.blockHeight

instance : WireMessage Reward := .ofEncodeRaw fun m =>
  plain string.encode "" 1 m.pubkey ++ plain int64.encode 0 2 m.lamports ++
    plain uint64.encode 0 3 m.postBalance ++ plain int32.encode 0 4 m.rewardType ++
    plain string.encode "" 5 m.commission ++ plain string.encode "" 6 m.commissionBps

instance : WireMessage Rewards := .ofEncodeRaw fun m =>
  repeated message.encode 1 m.rewards ++ optional message.encode 2 m.numPartitions

instance : WireMessage MessageHeader := .ofEncodeRaw fun m =>
  plain uint32.encode 0 1 m.numRequiredSignatures ++
    plain uint32.encode 0 2 m.numReadonlySignedAccounts ++
    plain uint32.encode 0 3 m.numReadonlyUnsignedAccounts

instance : WireMessage CompiledInstruction := .ofEncodeRaw fun m =>
  plain uint32.encode 0 1 m.programIdIndex ++ plain bytesEncode [] 2 m.accounts ++
    plain bytesEncode [] 3 m.data

instance : WireMessage MessageAddressTableLookup := .ofEncodeRaw fun m =>
  plain bytesEncode [] 1 m.accountKey ++ plain bytesEncode [] 2 m.writableIndexes ++
    plain bytesEncode [] 3 m.readonlyIndexes

instance : WireMessage TransactionConfig := .ofEncodeRaw fun m =>
  optional uint64.encode 1 m.priorityFee ++ optional uint32.encode 2 m.computeUnitLimit ++
    optional uint32.encode 3 m.loadedAccountsDataSizeLimit ++ optional uint32.encode 4 m.heapSize

instance : WireMessage Message := .ofEncodeRaw fun m =>
  optional message.encode 1 m.header ++ repeated bytesEncode 2 m.accountKeys ++
    plain bytesEncode [] 3 m.recentBlockhash ++ repeated message.encode 4 m.instructions ++
    plain bool.encode false 5 m.versioned ++ repeated message.encode 6 m.addressTableLookups ++
    optional message.encode 7 m.config

instance : WireMessage Transaction := .ofEncodeRaw fun m =>
  repeated bytesEncode 1 m.signatures ++ optional message.encode 2 m.message

instance : WireMessage TransactionError := .ofEncodeRaw fun m =>
  plain bytesEncode [] 1 m.err

instance : WireMessage InnerInstruction := .ofEncodeRaw fun m =>
  plain uint32.encode 0 1 m.programIdIndex ++ plain bytesEncode [] 2 m.accounts ++
    plain bytesEncode [] 3 m.data ++ optional uint32.encode 4 m.stackHeight

instance : WireMessage InnerInstructions := .ofEncodeRaw fun m =>
  plain uint32.encode 0 1 m.index ++ repeated message.encode 2 m.instructions

instance : WireMessage UiTokenAmount := .ofEncodeRaw fun m =>
  (if double.isZero m.uiAmount then [] else double.encode 1 m.uiAmount) ++
    plain uint32.encode 0 2 m.decimals ++ plain string.encode "" 3 m.amount ++
    plain string.encode "" 4 m.uiAmountString

instance : WireMessage TokenBalance := .ofEncodeRaw fun m =>
  plain uint32.encode 0 1 m.accountIndex ++ plain string.encode "" 2 m.mint ++
    optional message.encode 3 m.uiTokenAmount ++ plain string.encode "" 4 m.owner ++
    plain string.encode "" 5 m.programId

instance : WireMessage ReturnData := .ofEncodeRaw fun m =>
  plain bytesEncode [] 1 m.programId ++ plain bytesEncode [] 2 m.data

instance : WireMessage TransactionStatusMeta := .ofEncodeRaw fun m =>
  optional message.encode 1 m.err ++ plain uint64.encode 0 2 m.fee ++
    uint64.encodePacked 3 m.preBalances ++ uint64.encodePacked 4 m.postBalances ++
    repeated message.encode 5 m.innerInstructions ++ repeated string.encode 6 m.logMessages ++
    repeated message.encode 7 m.preTokenBalances ++ repeated message.encode 8 m.postTokenBalances ++
    repeated message.encode 9 m.rewards ++ plain bool.encode false 10 m.innerInstructionsNone ++
    plain bool.encode false 11 m.logMessagesNone ++
    repeated bytesEncode 12 m.loadedWritableAddresses ++
    repeated bytesEncode 13 m.loadedReadonlyAddresses ++ optional message.encode 14 m.returnData ++
    plain bool.encode false 15 m.returnDataNone ++ optional uint64.encode 16 m.computeUnitsConsumed ++
    optional uint64.encode 17 m.costUnits

/-! ### Updates -/

instance : WireMessage SubscribeUpdateAccountInfo := .ofEncodeRaw fun m =>
  plain bytesEncode [] 1 m.pubkey ++ plain uint64.encode 0 2 m.lamports ++
    plain bytesEncode [] 3 m.owner ++ plain bool.encode false 4 m.executable ++
    plain uint64.encode 0 5 m.rentEpoch ++ plain bytesEncode [] 6 m.data ++
    plain uint64.encode 0 7 m.writeVersion ++ optional bytesEncode 8 m.txnSignature

instance : WireMessage SubscribeUpdateAccount := .ofEncodeRaw fun m =>
  optional message.encode 1 m.account ++ plain uint64.encode 0 2 m.slot ++
    plain bool.encode false 3 m.isStartup ++ optional uint64.encode 4 m.bankId

instance : WireMessage SubscribeUpdateSlot := .ofEncodeRaw fun m =>
  plain uint64.encode 0 1 m.slot ++ optional uint64.encode 2 m.parent ++
    plain int32.encode 0 3 m.status ++ optional string.encode 4 m.deadError ++
    optional uint64.encode 5 m.bankId

instance : WireMessage SubscribeUpdateTransactionInfo := .ofEncodeRaw fun m =>
  plain bytesEncode [] 1 m.signature ++ plain bool.encode false 2 m.isVote ++
    optional message.encode 3 m.transaction ++ optional message.encode 4 m.statusMeta ++
    plain uint64.encode 0 5 m.index

instance : WireMessage SubscribeUpdateTransaction := .ofEncodeRaw fun m =>
  optional message.encode 1 m.transaction ++ plain uint64.encode 0 2 m.slot ++
    plain uint64.encode 0 3 m.bankId

instance : WireMessage SubscribeUpdateTransactionStatus := .ofEncodeRaw fun m =>
  plain uint64.encode 0 1 m.slot ++ plain bytesEncode [] 2 m.signature ++
    plain bool.encode false 3 m.isVote ++ plain uint64.encode 0 4 m.index ++
    optional message.encode 5 m.err ++ plain uint64.encode 0 6 m.bankId

instance : WireMessage SubscribeUpdateEntry := .ofEncodeRaw fun m =>
  plain uint64.encode 0 1 m.slot ++ plain uint64.encode 0 2 m.index ++
    plain uint64.encode 0 3 m.numHashes ++ plain bytesEncode [] 4 m.hash ++
    plain uint64.encode 0 5 m.executedTransactionCount ++
    plain uint64.encode 0 6 m.startingTransactionIndex ++ plain uint64.encode 0 7 m.bankId

instance : WireMessage SubscribeUpdateBlock := .ofEncodeRaw fun m =>
  plain uint64.encode 0 1 m.slot ++ plain string.encode "" 2 m.blockhash ++
    optional message.encode 3 m.rewards ++ optional message.encode 4 m.blockTime ++
    optional message.encode 5 m.blockHeight ++ repeated message.encode 6 m.transactions ++
    plain uint64.encode 0 7 m.parentSlot ++ plain string.encode "" 8 m.parentBlockhash ++
    plain uint64.encode 0 9 m.executedTransactionCount ++
    plain uint64.encode 0 10 m.updatedAccountCount ++ repeated message.encode 11 m.accounts ++
    plain uint64.encode 0 12 m.entriesCount ++ repeated message.encode 13 m.entries ++
    plain uint64.encode 0 14 m.bankId

instance : WireMessage SubscribeUpdateBlockMeta := .ofEncodeRaw fun m =>
  plain uint64.encode 0 1 m.slot ++ plain string.encode "" 2 m.blockhash ++
    optional message.encode 3 m.rewards ++ optional message.encode 4 m.blockTime ++
    optional message.encode 5 m.blockHeight ++ plain uint64.encode 0 6 m.parentSlot ++
    plain string.encode "" 7 m.parentBlockhash ++ plain uint64.encode 0 8 m.executedTransactionCount ++
    plain uint64.encode 0 9 m.entriesCount ++ plain uint64.encode 0 10 m.bankId

instance : WireMessage BlockFooterVotesAggregate := .ofEncodeRaw fun m =>
  plain int32.encode 0 1 m.signatureKind ++ plain bytesEncode [] 2 m.signature ++
    plain bytesEncode [] 3 m.blockId ++ plain bytesEncode [] 4 m.signerBitmap

instance : WireMessage BlockFooterFinalCert := .ofEncodeRaw fun m =>
  plain uint64.encode 0 1 m.slot ++ optional message.encode 2 m.finalAggregate ++
    optional message.encode 3 m.notarAggregate

instance : WireMessage BlockFooterSkipRewardCert := .ofEncodeRaw fun m =>
  plain uint64.encode 0 1 m.slot ++ optional message.encode 2 m.aggregate

instance : WireMessage BlockFooterNotarRewardCert := .ofEncodeRaw fun m =>
  plain uint64.encode 0 1 m.slot ++ optional message.encode 2 m.aggregate

instance : WireMessage SubscribeUpdateBlockFooter := .ofEncodeRaw fun m =>
  plain uint64.encode 0 1 m.slot ++ plain uint64.encode 0 2 m.bankId ++
    plain bytesEncode [] 3 m.bankHash ++ plain uint64.encode 0 4 m.blockProducerTimeNanos ++
    plain bytesEncode [] 5 m.blockUserAgent ++ optional message.encode 9 m.blockFinalCert ++
    optional message.encode 10 m.skipRewardCert ++ optional message.encode 11 m.notarRewardCert

instance : WireMessage SubscribeUpdateEntryUpdateParent := .ofEncodeRaw fun m =>
  plain uint64.encode 0 1 m.slot ++ plain uint64.encode 0 2 m.clearedBankId ++
    plain uint64.encode 0 3 m.parentSlot ++ plain bytesEncode [] 4 m.parentBlockId

namespace UpdateOneof

def encode : UpdateOneof → Bytes
  | account update => message.encode 2 update
  | slot update => message.encode 3 update
  | transaction update => message.encode 4 update
  | transactionStatus update => message.encode 10 update
  | block update => message.encode 5 update
  | ping => bytesEncode 6 []
  | pong id => bytesEncode 9 (plain int32.encode 0 1 id)
  | blockMeta update => message.encode 7 update
  | entry update => message.encode 8 update
  | blockFooter update => message.encode 12 update
  | entryUpdateParent update => message.encode 13 update

end UpdateOneof

instance : WireMessage SubscribeUpdate := .ofEncodeRaw fun m =>
  repeated string.encode 1 m.filters ++ m.updateOneof.elim [] (·.encode) ++
    optional message.encode 11 m.createdAt

/-! ### Richat-only updates -/

instance : WireMessage SubscribeUpdateDeshredTransactionInfo := .ofEncodeRaw fun m =>
  plain bytesEncode [] 1 m.signature ++ plain bool.encode false 2 m.isVote ++
    optional message.encode 3 m.transaction ++ repeated bytesEncode 4 m.loadedWritableAddresses ++
    repeated bytesEncode 5 m.loadedReadonlyAddresses ++
    plain uint32.encode 0 6 m.completedDataSetStartingShredIndex ++
    plain uint32.encode 0 7 m.completedDataSetEndingShredIndexExclusive

instance : WireMessage SubscribeUpdateDeshredTransaction := .ofEncodeRaw fun m =>
  optional message.encode 1 m.transaction ++ plain uint64.encode 0 2 m.slot

instance : WireMessage SubscribeUpdateContactInfoNode := .ofEncodeRaw fun m =>
  plain bytesEncode [] 1 m.pubkey ++ plain uint64.encode 0 2 m.wallclock ++
    plain uint64.encode 0 3 m.outset ++ plain uint32.encode 0 4 m.shredVersion ++
    plain uint32.encode 0 5 m.versionMajor ++ plain uint32.encode 0 6 m.versionMinor ++
    plain uint32.encode 0 7 m.versionPatch ++ plain uint32.encode 0 8 m.versionCommit ++
    plain uint32.encode 0 9 m.versionFeatureSet ++ plain uint32.encode 0 10 m.versionClientId ++
    optional string.encode 11 m.gossip ++ optional string.encode 12 m.tpuQuic ++
    optional string.encode 13 m.tpuForwardsQuic ++ optional string.encode 14 m.tpuVoteUdp ++
    optional string.encode 15 m.tpuVoteQuic ++ optional string.encode 16 m.tvuUdp ++
    optional string.encode 17 m.tvuQuic ++ optional string.encode 18 m.serveRepairUdp ++
    optional string.encode 19 m.serveRepairQuic ++ optional string.encode 20 m.rpc ++
    optional string.encode 21 m.rpcPubsub ++ optional string.encode 22 m.alpenglow

instance : WireMessage SubscribeUpdateContactInfoRemoved := .ofEncodeRaw fun m =>
  plain bytesEncode [] 1 m.pubkey

instance : WireMessage RichatOnly.SubscribeUpdateBlockFooter := .ofEncodeRaw fun m =>
  plain uint64.encode 0 1 m.slot ++ plain uint64.encode 0 2 m.bankId ++
    plain uint32.encode 0 3 m.version ++ plain bytesEncode [] 4 m.bankHash ++
    plain uint64.encode 0 5 m.blockProducerTimeNanos ++ plain bytesEncode [] 6 m.blockUserAgent ++
    plain bytesEncode [] 7 m.footer

instance : WireMessage RichatOnly.SubscribeUpdateEntryUpdateParent := .ofEncodeRaw fun m =>
  plain uint64.encode 0 1 m.slot ++ plain uint64.encode 0 2 m.clearedBankId ++
    plain uint64.encode 0 3 m.parentSlot ++ plain bytesEncode [] 4 m.parentBlockId

instance : WireMessage RichatOnly.SubscribeUpdateDeshredUpdateParent := .ofEncodeRaw fun m =>
  plain uint64.encode 0 1 m.slot ++ plain uint32.encode 0 2 m.updateParentFecSetIndex ++
    plain uint64.encode 0 3 m.parentSlot ++ plain bytesEncode [] 4 m.parentBlockId

namespace RichatOnly.UpdateOneof

def encode : UpdateOneof → Bytes
  | deshredTransaction update => message.encode 100 update
  | contactInfo update => message.encode 101 update
  | contactInfoRemoved update => message.encode 102 update
  | blockFooter update => message.encode 103 update
  | entryUpdateParent update => message.encode 104 update
  | deshredUpdateParent update => message.encode 105 update

end RichatOnly.UpdateOneof

instance : WireMessage SubscribeUpdateRichat := .ofEncodeRaw fun m =>
  optional message.encode 11 m.createdAt ++ m.updateOneof.elim [] (·.encode)

end Richat.Proto
