import Richat.Convert.Geyser

/-!
# From the validator to the wire format

`convert_to.rs`. The serializer of transaction errors is a parameter.
-/

namespace Richat.ConvertTo

open Solana

def createPubkeys (pubkeys : List Pubkey) : List Bytes := pubkeys.map (·.val)

def createHeader (header : MessageHeader) : Proto.MessageHeader :=
  ⟨header.numRequiredSignatures.toUInt32, header.numReadonlySignedAccounts.toUInt32,
    header.numReadonlyUnsignedAccounts.toUInt32⟩

def createInstruction (ix : CompiledInstruction) : Proto.CompiledInstruction :=
  ⟨ix.programIdIndex.toUInt32, ix.accounts, ix.data⟩

def createInstructions (ixs : List CompiledInstruction) : List Proto.CompiledInstruction :=
  ixs.map createInstruction

def createLookup (lookup : MessageAddressTableLookup) : Proto.MessageAddressTableLookup :=
  ⟨lookup.accountKey.val, lookup.writableIndexes, lookup.readonlyIndexes⟩

def createLookups (lookups : List MessageAddressTableLookup) : List Proto.MessageAddressTableLookup :=
  lookups.map createLookup

def createTransactionConfig (config : TransactionConfig) : Proto.TransactionConfig :=
  ⟨config.priorityFee, config.computeUnitLimit, config.loadedAccountsDataSizeLimit, config.heapSize⟩

def createMessage : VersionedMessage → Proto.Message
  | .legacy message =>
    { header := some (createHeader message.header)
      accountKeys := createPubkeys message.accountKeys
      recentBlockhash := message.recentBlockhash.val
      instructions := createInstructions message.instructions
      versioned := false
      addressTableLookups := []
      config := none }
  | .v0 message =>
    { header := some (createHeader message.header)
      accountKeys := createPubkeys message.accountKeys
      recentBlockhash := message.recentBlockhash.val
      instructions := createInstructions message.instructions
      versioned := true
      addressTableLookups := createLookups message.addressTableLookups
      config := none }
  | .v1 message =>
    { header := some (createHeader message.header)
      accountKeys := createPubkeys message.accountKeys
      recentBlockhash := message.lifetimeSpecifier.val
      instructions := createInstructions message.instructions
      versioned := true
      addressTableLookups := []
      config := some (createTransactionConfig message.config) }

def createTransaction (tx : VersionedTransaction) : Proto.Transaction :=
  ⟨tx.signatures.map (·.val), some (createMessage tx.message)⟩

/-! ### The meta -/

def createInnerInstruction (instruction : InnerInstruction) : Proto.InnerInstruction :=
  ⟨instruction.instruction.programIdIndex.toUInt32, instruction.instruction.accounts,
    instruction.instruction.data, instruction.stackHeight⟩

def createInnerInstructions (instructions : InnerInstructions) : Proto.InnerInstructions :=
  ⟨instructions.index.toUInt32, instructions.instructions.map createInnerInstruction⟩

def createInnerInstructionsVec (ixs : List InnerInstructions) : List Proto.InnerInstructions :=
  ixs.map createInnerInstructions

def createTokenBalance (balance : TransactionTokenBalance) : Proto.TokenBalance :=
  { accountIndex := balance.accountIndex.toUInt32
    mint := balance.mint
    uiTokenAmount := some
      { uiAmount := balance.uiTokenAmount.uiAmount.getD 0
        decimals := balance.uiTokenAmount.decimals.toUInt32
        amount := balance.uiTokenAmount.amount
        uiAmountString := balance.uiTokenAmount.uiAmountString }
    owner := balance.owner
    programId := balance.programId }

def createTokenBalances (balances : List TransactionTokenBalance) : List Proto.TokenBalance :=
  balances.map createTokenBalance

def createRewardType : Option RewardType → Proto.RewardType
  | none => .unspecified
  | some .fee => .fee
  | some .rent => .rent
  | some .staking => .staking
  | some .voting => .voting
  | some .deactivatedStake => .deactivatedStake
  | some .vatDebit => .vatDebit

def createReward (reward : Reward) : Proto.Reward :=
  { pubkey := reward.pubkey
    lamports := reward.lamports
    postBalance := reward.postBalance
    rewardType := (createRewardType reward.rewardType).toI32
    commission := (reward.commission.map fun c => c.toNat.repr).getD ""
    commissionBps := (reward.commissionBps.map fun c => c.toNat.repr).getD "" }

def createRewards (rewards : List Reward) : List Proto.Reward := rewards.map createReward

def createNumPartitions (numPartitions : UInt64) : Proto.NumPartitions := ⟨numPartitions⟩

def createRewardsObj (rewards : List Reward) (numPartitions : Option UInt64) : Proto.Rewards :=
  ⟨createRewards rewards, numPartitions.map createNumPartitions⟩

def createBlockHeight (blockHeight : UInt64) : Proto.BlockHeight := ⟨blockHeight⟩
def createTimestamp (timestamp : Int64) : Proto.UnixTimestamp := ⟨timestamp⟩

def createReturnData (returnData : TransactionReturnData) : Proto.ReturnData :=
  ⟨returnData.programId.val, returnData.data⟩

section Meta

variable {E : Type} (serialize : E → Bytes)

def createTransactionError : Except E Unit → Option Proto.TransactionError
  | .ok () => none
  | .error err => some ⟨serialize err⟩

def createTransactionMeta (statusMeta : TransactionStatusMeta E) : Proto.TransactionStatusMeta :=
  { err := createTransactionError serialize statusMeta.status
    fee := statusMeta.fee
    preBalances := statusMeta.preBalances
    postBalances := statusMeta.postBalances
    innerInstructions := (statusMeta.innerInstructions.map createInnerInstructionsVec).getD []
    innerInstructionsNone := statusMeta.innerInstructions.isNone
    logMessages := statusMeta.logMessages.getD []
    logMessagesNone := statusMeta.logMessages.isNone
    preTokenBalances := (statusMeta.preTokenBalances.map createTokenBalances).getD []
    postTokenBalances := (statusMeta.postTokenBalances.map createTokenBalances).getD []
    rewards := (statusMeta.rewards.map createRewards).getD []
    loadedWritableAddresses := createPubkeys statusMeta.loadedAddresses.writable
    loadedReadonlyAddresses := createPubkeys statusMeta.loadedAddresses.readonly
    returnData := statusMeta.returnData.map createReturnData
    returnDataNone := statusMeta.returnData.isNone
    computeUnitsConsumed := statusMeta.computeUnitsConsumed
    costUnits := statusMeta.costUnits }

end Meta

end Richat.ConvertTo
