import Richat.Message

/-!
# Transactions of the validator and of the wire format

`Solana` has the types that the validator gives to the plugin, `Proto` the messages that are generated
from `solana-storage.proto`. A double is its bits. The error of a transaction is a type parameter.
-/

namespace Richat

/-- A blockhash: 32 bytes. -/
abbrev Hash := { bytes : Bytes // bytes.length = 32 }

/-- The bits of a double. -/
abbrev F64 := UInt64

namespace Solana

structure MessageHeader where
  numRequiredSignatures : UInt8
  numReadonlySignedAccounts : UInt8
  numReadonlyUnsignedAccounts : UInt8

structure CompiledInstruction where
  programIdIndex : UInt8
  accounts : Bytes
  data : Bytes

structure MessageAddressTableLookup where
  accountKey : Pubkey
  writableIndexes : Bytes
  readonlyIndexes : Bytes

structure LegacyMessage where
  header : MessageHeader
  accountKeys : List Pubkey
  recentBlockhash : Hash
  instructions : List CompiledInstruction

structure MessageV0 where
  header : MessageHeader
  accountKeys : List Pubkey
  recentBlockhash : Hash
  instructions : List CompiledInstruction
  addressTableLookups : List MessageAddressTableLookup

structure TransactionConfig where
  priorityFee : Option UInt64
  computeUnitLimit : Option UInt32
  loadedAccountsDataSizeLimit : Option UInt32
  heapSize : Option UInt32

structure MessageV1 where
  header : MessageHeader
  config : TransactionConfig
  lifetimeSpecifier : Hash
  accountKeys : List Pubkey
  instructions : List CompiledInstruction

inductive VersionedMessage where
  | legacy (message : LegacyMessage)
  | v0 (message : MessageV0)
  | v1 (message : MessageV1)

structure VersionedTransaction where
  signatures : List Signature
  message : VersionedMessage

structure InnerInstruction where
  instruction : CompiledInstruction
  stackHeight : Option UInt32

structure InnerInstructions where
  index : UInt8
  instructions : List InnerInstruction

structure UiTokenAmount where
  uiAmount : Option F64
  decimals : UInt8
  amount : String
  uiAmountString : String

structure TransactionTokenBalance where
  accountIndex : UInt8
  mint : String
  uiTokenAmount : UiTokenAmount
  owner : String
  programId : String

inductive RewardType where
  | fee | rent | staking | voting | deactivatedStake | vatDebit
  deriving DecidableEq

structure Reward where
  pubkey : String
  lamports : Int64
  postBalance : UInt64
  rewardType : Option RewardType
  commission : Option UInt8
  commissionBps : Option UInt16

structure LoadedAddresses where
  writable : List Pubkey
  readonly : List Pubkey

structure TransactionReturnData where
  programId : Pubkey
  data : Bytes

/-- `status` is the error of a transaction that failed. -/
structure TransactionStatusMeta (TransactionError : Type) where
  status : Except TransactionError Unit
  fee : UInt64
  preBalances : List UInt64
  postBalances : List UInt64
  innerInstructions : Option (List InnerInstructions)
  logMessages : Option (List String)
  preTokenBalances : Option (List TransactionTokenBalance)
  postTokenBalances : Option (List TransactionTokenBalance)
  rewards : Option (List Reward)
  loadedAddresses : LoadedAddresses
  returnData : Option TransactionReturnData
  computeUnitsConsumed : Option UInt64
  costUnits : Option UInt64

end Solana

namespace Proto

structure MessageHeader where
  numRequiredSignatures : UInt32
  numReadonlySignedAccounts : UInt32
  numReadonlyUnsignedAccounts : UInt32

structure CompiledInstruction where
  programIdIndex : UInt32
  accounts : Bytes
  data : Bytes

structure MessageAddressTableLookup where
  accountKey : Bytes
  writableIndexes : Bytes
  readonlyIndexes : Bytes

structure TransactionConfig where
  priorityFee : Option UInt64
  computeUnitLimit : Option UInt32
  loadedAccountsDataSizeLimit : Option UInt32
  heapSize : Option UInt32

structure Message where
  header : Option MessageHeader
  accountKeys : List Bytes
  recentBlockhash : Bytes
  instructions : List CompiledInstruction
  versioned : Bool
  addressTableLookups : List MessageAddressTableLookup
  config : Option TransactionConfig

structure Transaction where
  signatures : List Bytes
  message : Option Message

structure TransactionError where
  err : Bytes

structure InnerInstruction where
  programIdIndex : UInt32
  accounts : Bytes
  data : Bytes
  stackHeight : Option UInt32

structure InnerInstructions where
  index : UInt32
  instructions : List InnerInstruction

structure UiTokenAmount where
  uiAmount : F64
  decimals : UInt32
  amount : String
  uiAmountString : String

structure TokenBalance where
  accountIndex : UInt32
  mint : String
  uiTokenAmount : Option UiTokenAmount
  owner : String
  programId : String

inductive RewardType where
  | unspecified | fee | rent | staking | voting | deactivatedStake | vatDebit
  deriving DecidableEq

structure Reward where
  pubkey : String
  lamports : Int64
  postBalance : UInt64
  /-- an enumeration value of the wire -/
  rewardType : Int32
  commission : String
  commissionBps : String

structure ReturnData where
  programId : Bytes
  data : Bytes

structure TransactionStatusMeta where
  err : Option TransactionError
  fee : UInt64
  preBalances : List UInt64
  postBalances : List UInt64
  innerInstructions : List InnerInstructions
  innerInstructionsNone : Bool
  logMessages : List String
  logMessagesNone : Bool
  preTokenBalances : List TokenBalance
  postTokenBalances : List TokenBalance
  rewards : List Reward
  loadedWritableAddresses : List Bytes
  loadedReadonlyAddresses : List Bytes
  returnData : Option ReturnData
  returnDataNone : Bool
  computeUnitsConsumed : Option UInt64
  costUnits : Option UInt64

namespace RewardType

/-- `as i32`. -/
def toI32 : RewardType → Int32
  | unspecified => 0
  | fee => 1
  | rent => 2
  | staking => 3
  | voting => 4
  | deactivatedStake => 5
  | vatDebit => 6

/-- `RewardType::try_from`. -/
def tryFrom (n : Int32) : Option RewardType :=
  [unspecified, fee, rent, staking, voting, deactivatedStake, vatDebit].find? (·.toI32 = n)

@[simp] theorem tryFrom_toI32 : ∀ r : RewardType, tryFrom r.toI32 = some r
  | unspecified | fee | rent | staking | voting | deactivatedStake | vatDebit => rfl

end RewardType

end Proto

end Richat
