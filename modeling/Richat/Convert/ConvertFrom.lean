import Richat.Convert.Types

/-!
# From the wire format to the validator

`convert_from.rs`, with the texts of its errors. The deserializer of transaction errors is a parameter.
-/

namespace Richat.ConvertFrom

open Solana

/-- `ok_or`, or the `map_err` of a conversion that fails in one way only. -/
def okOr {α : Type} (o : Option α) (e : String) : Except String α :=
  match o with
  | some x => .ok x
  | none => .error e

/-- `try_into` of an `u32`. -/
def toU8 (n : UInt32) : Option UInt8 := if n.toNat < 2 ^ 8 then some n.toUInt8 else none

/-- `parse` of an unsigned integer: digits, that a plus may precede. -/
def parseUnsigned (bits : ℕ) (s : String) : Option ℕ :=
  let digits := match s.toList with
    | '+' :: cs => cs
    | cs => cs
  if digits ≠ [] ∧ digits.all Char.isDigit ∧ Nat.ofDigitChars 10 digits 0 < 2 ^ bits then
    some (Nat.ofDigitChars 10 digits 0)
  else none

/-- `try_from` of a slice. -/
def toArray (n : ℕ) (bytes : Bytes) : Option { bytes : Bytes // bytes.length = n } :=
  if h : bytes.length = n then some ⟨bytes, h⟩ else none

def createPubkey (pubkey : Bytes) : Except String Pubkey := okOr (toArray 32 pubkey) "failed to parse Pubkey"

def createPubkeyVec (pubkeys : List Bytes) : Except String (List Pubkey) := pubkeys.mapM createPubkey

def createMessageInstruction (ix : Proto.CompiledInstruction) : Except String CompiledInstruction := do
  let programIdIndex ← okOr (toU8 ix.programIdIndex)
    "failed to decode CompiledInstruction.program_id_index)"
  return ⟨programIdIndex, ix.accounts, ix.data⟩

def createMessageInstructions (ixs : List Proto.CompiledInstruction) :
    Except String (List CompiledInstruction) :=
  ixs.mapM createMessageInstruction

/-- The `header` of `create_message`. -/
def createHeader (header : Proto.MessageHeader) : Except String MessageHeader := do
  let numRequiredSignatures ← okOr (toU8 header.numRequiredSignatures)
    "failed to parse num_required_signatures"
  let numReadonlySignedAccounts ← okOr (toU8 header.numReadonlySignedAccounts)
    "failed to parse num_readonly_signed_accounts"
  let numReadonlyUnsignedAccounts ← okOr (toU8 header.numReadonlyUnsignedAccounts)
    "failed to parse num_readonly_unsigned_accounts"
  return ⟨numRequiredSignatures, numReadonlySignedAccounts, numReadonlyUnsignedAccounts⟩

/-- A step of the loop over the lookups in `create_message`. -/
def createLookup (table : Proto.MessageAddressTableLookup) : Except String MessageAddressTableLookup := do
  let accountKey ← okOr (toArray 32 table.accountKey) "failed to parse Pubkey"
  return ⟨accountKey, table.writableIndexes, table.readonlyIndexes⟩

def createMessage (message : Proto.Message) : Except String VersionedMessage := do
  let header ← okOr message.header "failed to get MessageHeader"
  let header ← createHeader header
  let recentBlockhash ← okOr (toArray 32 message.recentBlockhash) "failed to parse hash"
  -- `versioned` is true for both V0 and V1, so `config` is the only signal that separates them
  match message.config with
  | some config =>
    let accountKeys ← createPubkeyVec message.accountKeys
    let instructions ← createMessageInstructions message.instructions
    return .v1
      { header
        config := ⟨config.priorityFee, config.computeUnitLimit, config.loadedAccountsDataSizeLimit,
          config.heapSize⟩
        lifetimeSpecifier := recentBlockhash
        accountKeys
        instructions }
  | none =>
    if message.versioned then
      let addressTableLookups ← message.addressTableLookups.mapM createLookup
      let accountKeys ← createPubkeyVec message.accountKeys
      let instructions ← createMessageInstructions message.instructions
      return .v0 ⟨header, accountKeys, recentBlockhash, instructions, addressTableLookups⟩
    else
      let accountKeys ← createPubkeyVec message.accountKeys
      let instructions ← createMessageInstructions message.instructions
      return .legacy ⟨header, accountKeys, recentBlockhash, instructions⟩

def createTxVersioned (tx : Proto.Transaction) : Except String VersionedTransaction := do
  let signatures ← tx.signatures.mapM fun signature =>
    okOr (toArray 64 signature) "failed to parse Signature"
  let message ← okOr tx.message "failed to get message"
  let message ← createMessage message
  return ⟨signatures, message⟩

/-! ### The meta -/

/-- A step of the loop in `create_meta_inner_instruction`. -/
def createInnerInstruction (ix : Proto.InnerInstruction) : Except String InnerInstruction := do
  let programIdIndex ← okOr (toU8 ix.programIdIndex)
    "failed to decode CompiledInstruction.program_id_index)"
  return ⟨⟨programIdIndex, ix.accounts, ix.data⟩, ix.stackHeight⟩

def createMetaInnerInstruction (ix : Proto.InnerInstructions) : Except String InnerInstructions := do
  let instructions ← ix.instructions.mapM createInnerInstruction
  let index ← okOr (toU8 ix.index) "failed to decode InnerInstructions.index"
  return ⟨index, instructions⟩

def createMetaInnerInstructions (ixs : List Proto.InnerInstructions) :
    Except String (List InnerInstructions) :=
  ixs.mapM createMetaInnerInstruction

def createRewardType (rewardType : Int32) : Except String (Option RewardType) := do
  let rewardType ← okOr (Proto.RewardType.tryFrom rewardType) "failed to parse reward_type"
  return match rewardType with
    | .unspecified => none
    | .fee => some .fee
    | .rent => some .rent
    | .staking => some .staking
    | .voting => some .voting
    | .deactivatedStake => some .deactivatedStake
    | .vatDebit => some .vatDebit

/-- A number that is absent when its text is empty. -/
def createCommission (bits : ℕ) (s : String) (e : String) : Except String (Option ℕ) :=
  if s.isEmpty then .ok none else (okOr (parseUnsigned bits s) e).map some

def createReward (reward : Proto.Reward) : Except String Reward := do
  let rewardType ← createRewardType reward.rewardType
  let commission ← createCommission 8 reward.commission "failed to parse reward commission"
  let commissionBps ← createCommission 16 reward.commissionBps "failed to parse reward commission_bps"
  return { pubkey := reward.pubkey
           lamports := reward.lamports
           postBalance := reward.postBalance
           rewardType
           commission := commission.map UInt8.ofNat
           commissionBps := commissionBps.map UInt16.ofNat }

/-- A step of the loop in `create_token_balances`. -/
def createTokenBalance (balance : Proto.TokenBalance) : Except String TransactionTokenBalance := do
  let uiAmount ← okOr balance.uiTokenAmount "failed to get ui_token_amount"
  let accountIndex ← okOr (toU8 balance.accountIndex) "failed to parse account_index"
  let decimals ← okOr (toU8 uiAmount.decimals) "failed to parse decimals"
  return { accountIndex
           mint := balance.mint
           uiTokenAmount := ⟨some uiAmount.uiAmount, decimals, uiAmount.amount, uiAmount.uiAmountString⟩
           owner := balance.owner
           programId := balance.programId }

def createTokenBalances (balances : List Proto.TokenBalance) :
    Except String (List TransactionTokenBalance) :=
  balances.mapM createTokenBalance

def createReturnData (returnDataNone : Bool) (returnData : Option Proto.ReturnData) :
    Except String (Option TransactionReturnData) := do
  if returnDataNone then
    return none
  else
    let data ← okOr returnData "failed to get return_data"
    let programId ← okOr (toArray 32 data.programId) "failed to parse program_id"
    return some ⟨programId, data.data⟩

section Meta

variable {E : Type} (deserialize : Bytes → Option E)

def createTxError : Option Proto.TransactionError → Except String (Option E)
  | none => .ok none
  | some err => (okOr (deserialize err.err) "failed to decode TransactionError").map some

def createTxMeta (statusMeta : Proto.TransactionStatusMeta) : Except String (TransactionStatusMeta E) := do
  let err ← createTxError deserialize statusMeta.err
  let rewards ← statusMeta.rewards.mapM createReward
  let innerInstructions ← createMetaInnerInstructions statusMeta.innerInstructions
  let preTokenBalances ← createTokenBalances statusMeta.preTokenBalances
  let postTokenBalances ← createTokenBalances statusMeta.postTokenBalances
  let writable ← createPubkeyVec statusMeta.loadedWritableAddresses
  let readonly ← createPubkeyVec statusMeta.loadedReadonlyAddresses
  let returnData ← createReturnData statusMeta.returnDataNone statusMeta.returnData
  return { status := match err with
             | some err => .error err
             | none => .ok ()
           fee := statusMeta.fee
           preBalances := statusMeta.preBalances
           postBalances := statusMeta.postBalances
           innerInstructions := some innerInstructions
           logMessages := some statusMeta.logMessages
           preTokenBalances := some preTokenBalances
           postTokenBalances := some postTokenBalances
           rewards := some rewards
           loadedAddresses := ⟨writable, readonly⟩
           returnData
           computeUnitsConsumed := statusMeta.computeUnitsConsumed
           costUnits := statusMeta.costUnits }

end Meta

end Richat.ConvertFrom
