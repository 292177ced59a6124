import Richat.Filter.Decode

/-!
# Messages of the filters

A message of the limited parser keeps the buffer it was parsed from, with the values that were extracted
and the places of the others; a message of prost keeps the generated value. The accessors give the same
answers for both.

`Generated` are the decoders of the generated types. The sizes of the messages are left out.
-/

namespace Richat.Filter

open Lib.Protobuf

inductive MessageParserEncoding where
  /-- Use optimized parser to extract only required fields -/
  | limited
  /-- Parse full message with `prost` -/
  | prost
  deriving DecidableEq

inductive MessageParseError where
  | prost (error : DecodeError)
  | fieldNotDefined (field : String)
  | invalidEnumValue (value : Int32)
  | invalidPubkey
  | invalidUpdateMessage (kind : String)
  | incompatibleEncoding
  | invalidBlockFooter (error : String)

inductive MessageBlockCreatedAt where
  | limited (createdAt : Proto.Timestamp)
  | prost (createdAt : Proto.Timestamp)

namespace MessageBlockCreatedAt

def new (createdAt : Proto.Timestamp) : MessageParserEncoding → MessageBlockCreatedAt
  | .limited => limited createdAt
  | .prost => prost createdAt

def encoding : MessageBlockCreatedAt → MessageParserEncoding
  | limited _ => .limited
  | prost _ => .prost

def timestamp : MessageBlockCreatedAt → Proto.Timestamp
  | limited createdAt => createdAt
  | prost createdAt => createdAt

end MessageBlockCreatedAt

/-- `&buffer[range.start..range.end]` -/
def slice (buffer : Bytes) (range : Range) : Bytes := (buffer.drop range.start).take (range.stop - range.start)

/-- A range of a part that starts at `offset`. -/
def Range.shift (range : Range) (offset : ℕ) : Range := ⟨range.start + offset, range.stop + offset⟩

/-- The varint at `offset`; `none` is the panic "already verified". -/
def varintAt (buffer : Bytes) (offset : ℕ) : Option UInt64 :=
  ((decodeVarint (buffer.drop offset)).toOption.map (·.1)).map UInt64.ofNat

/-- Yellowstone uses `0` for messages without bank in non-optional `bank_id` fields -/
def nonzeroBankId (bankId : UInt64) : Option UInt64 := if bankId = 0 then none else some bankId

/-- `SlotStatus::try_from`. -/
def slotStatusTryFrom (status : Int32) : Option SlotStatus :=
  if status = 0 then some .slotProcessed
  else if status = 1 then some .slotConfirmed
  else if status = 2 then some .slotFinalized
  else if status = 3 then some .slotFirstShredReceived
  else if status = 4 then some .slotCompleted
  else if status = 5 then some .slotCreatedBank
  else if status = 6 then some .slotDead
  else none

/-! ### Slots -/

structure LimitedSlot where
  slot : UInt64
  parent : Option UInt64
  status : SlotStatus
  deadError : Option Range
  bankId : Option UInt64
  createdAt : Proto.Timestamp
  buffer : Bytes
  range : Range

structure ProstSlot where
  slot : UInt64
  parent : Option UInt64
  status : SlotStatus
  deadError : Option String
  bankId : Option UInt64
  createdAt : Proto.Timestamp

inductive MessageSlot where
  | limited (msg : LimitedSlot)
  | prost (msg : ProstSlot)

namespace MessageSlot

def createdAt : MessageSlot → MessageBlockCreatedAt
  | limited msg => .limited msg.createdAt
  | prost msg => .prost msg.createdAt

def slot : MessageSlot → UInt64
  | limited msg => msg.slot
  | prost msg => msg.slot

def status : MessageSlot → SlotStatus
  | limited msg => msg.status
  | prost msg => msg.status

def parent : MessageSlot → Option UInt64
  | limited msg => msg.parent
  | prost msg => msg.parent

/-- `none` for `FirstShredReceived`, `Completed` and `Dead` statuses -/
def bankId : MessageSlot → Option UInt64
  | limited msg => msg.bankId
  | prost msg => msg.bankId

/-- The bytes of the text. -/
def deadError : MessageSlot → Option Bytes
  | limited msg => msg.deadError.map (slice msg.buffer)
  | prost msg => msg.deadError.map utf8

end MessageSlot

/-! ### Accounts -/

structure LimitedAccount where
  pubkey : Pubkey
  owner : Pubkey
  lamports : UInt64
  executable : Bool
  rentEpoch : UInt64
  data : Range
  txnSignatureOffset : Option ℕ
  /-- where the varint stands -/
  writeVersion : ℕ
  slot : UInt64
  isStartup : Bool
  bankId : Option UInt64
  createdAt : Proto.Timestamp
  buffer : Bytes
  /-- where the length of the nested message stands -/
  accountOffset : ℕ
  range : Range

structure ProstAccount where
  pubkey : Pubkey
  owner : Pubkey
  account : Proto.SubscribeUpdateAccountInfo
  slot : UInt64
  isStartup : Bool
  bankId : Option UInt64
  createdAt : Proto.Timestamp

inductive MessageAccount where
  | limited (msg : LimitedAccount)
  | prost (msg : ProstAccount)

namespace MessageAccount

def encoding : MessageAccount → MessageParserEncoding
  | limited _ => .limited
  | prost _ => .prost

def slot : MessageAccount → UInt64
  | limited msg => msg.slot
  | prost msg => msg.slot

def createdAt : MessageAccount → MessageBlockCreatedAt
  | limited msg => .limited msg.createdAt
  | prost msg => .prost msg.createdAt

def pubkey : MessageAccount → Pubkey
  | limited msg => msg.pubkey
  | prost msg => msg.pubkey

/-- `none` for startup accounts -/
def bankId : MessageAccount → Option UInt64
  | limited msg => msg.bankId
  | prost msg => msg.bankId

/-- `none` is the panic "already verified". -/
def writeVersion : MessageAccount → Option UInt64
  | limited msg => varintAt msg.buffer msg.writeVersion
  | prost msg => some msg.account.writeVersion

def txnSignature : MessageAccount → Option Bytes
  | limited msg =>
    msg.txnSignatureOffset.map fun offset => slice msg.buffer ⟨offset, offset + 64⟩
  | prost msg => msg.account.txnSignature

def nonemptyTxnSignature : MessageAccount → Bool
  | limited msg => msg.txnSignatureOffset.isSome
  | prost msg => msg.account.txnSignature.isSome

def lamports : MessageAccount → UInt64
  | limited msg => msg.lamports
  | prost msg => msg.account.lamports

def data : MessageAccount → Bytes
  | limited msg => slice msg.buffer msg.data
  | prost msg => msg.account.data

def owner : MessageAccount → Pubkey
  | limited msg => msg.owner
  | prost msg => msg.owner

def executable : MessageAccount → Bool
  | limited msg => msg.executable
  | prost msg => msg.account.executable

def rentEpoch : MessageAccount → UInt64
  | limited msg => msg.rentEpoch
  | prost msg => msg.account.rentEpoch

end MessageAccount

/-! ### Transactions -/

structure LimitedTransaction where
  signatureOffset : Option ℕ
  error : Option Proto.TransactionError
  accountKeys : Finset Pubkey
  isVote : Bool
  index : UInt64
  transactionRange : Range
  slot : UInt64
  bankId : UInt64
  createdAt : Proto.Timestamp
  buffer : Bytes
  range : Range

structure ProstTransaction where
  error : Option Proto.TransactionError
  accountKeys : Finset Pubkey
  transaction : Proto.SubscribeUpdateTransactionInfo
  slot : UInt64
  bankId : UInt64
  createdAt : Proto.Timestamp

inductive MessageTransaction where
  | limited (msg : LimitedTransaction)
  | prost (msg : ProstTransaction)

/-- The decoders of the generated types, and the footer of a block in its own format. -/
structure Generated where
  subscribeUpdate : Bytes → Except DecodeError Proto.SubscribeUpdate
  subscribeUpdateRichat : Bytes → Except DecodeError Proto.SubscribeUpdateRichat
  transactionInfo : Bytes → Except DecodeError Proto.SubscribeUpdateTransactionInfo
  transactionError : Bytes → Except DecodeError Proto.TransactionError
  blockMeta : Bytes → Except DecodeError Proto.SubscribeUpdateBlockMeta
  blockFooter : Bytes → Except DecodeError Proto.SubscribeUpdateBlockFooter
  entryUpdateParent : Bytes → Except DecodeError Proto.SubscribeUpdateEntryUpdateParent
  createBlockFooterFromWincode : UInt64 → UInt64 → Bytes → Except String Proto.SubscribeUpdateBlockFooter

def pubkeyTryFrom (bytes : Bytes) : Except MessageParseError Pubkey :=
  if h : bytes.length = 32 then .ok ⟨bytes, h⟩ else .error .invalidPubkey

namespace MessageTransaction

def encoding : MessageTransaction → MessageParserEncoding
  | limited _ => .limited
  | prost _ => .prost

def slot : MessageTransaction → UInt64
  | limited msg => msg.slot
  | prost msg => msg.slot

def createdAt : MessageTransaction → MessageBlockCreatedAt
  | limited msg => .limited msg.createdAt
  | prost msg => .prost msg.createdAt

/-- The public keys of a list, added to those found before. -/
def insertKeys (keys : Finset Pubkey) (pubkeys : List Bytes) : Except MessageParseError (Finset Pubkey) :=
  pubkeys.foldlM (fun keys bytes => do return insert (← pubkeyTryFrom bytes) keys) keys

def genAccountKeysProst (transaction : Proto.SubscribeUpdateTransactionInfo)
    (statusMeta : Proto.TransactionStatusMeta) : Except MessageParseError (Finset Pubkey) := do
  let some tx := transaction.transaction | throw (.fieldNotDefined "transaction")
  -- static account keys
  let keys ← insertKeys ∅ ((tx.message.map (·.accountKeys)).getD [])
  -- dynamic account keys
  let keys ← insertKeys keys statusMeta.loadedWritableAddresses
  insertKeys keys statusMeta.loadedReadonlyAddresses

/-- `none` is the panic "transaction should have valid signature". -/
def signatureRef : MessageTransaction → Option Bytes
  | limited msg => msg.signatureOffset.map fun offset => slice msg.buffer ⟨offset, offset + signatureBytes⟩
  | prost msg => some msg.transaction.signature

def vote : MessageTransaction → Bool
  | limited msg => msg.isVote
  | prost msg => msg.transaction.isVote

def index : MessageTransaction → UInt64
  | limited msg => msg.index
  | prost msg => msg.transaction.index

def bankId : MessageTransaction → Option UInt64
  | limited msg => nonzeroBankId msg.bankId
  | prost msg => nonzeroBankId msg.bankId

def error : MessageTransaction → Option Proto.TransactionError
  | limited msg => msg.error
  | prost msg => msg.error

def failed (msg : MessageTransaction) : Bool := msg.error.isSome

/-- The whole transaction: the limited message decodes it when it is asked for. -/
def transaction (gen : Generated) : MessageTransaction → Except String Proto.SubscribeUpdateTransactionInfo
  | limited msg =>
    match gen.transactionInfo (slice msg.buffer msg.transactionRange) with
    | .ok transaction => .ok transaction
    | .error _ => .error "FailedToDecode"
  | prost msg => .ok msg.transaction

def transactionMeta (gen : Generated) (msg : MessageTransaction) :
    Except String Proto.TransactionStatusMeta := do
  match (← msg.transaction gen).statusMeta with
  | some statusMeta => return statusMeta
  | none => throw "FieldNotDefined"

def accountKeys : MessageTransaction → Finset Pubkey
  | limited msg => msg.accountKeys
  | prost msg => msg.accountKeys

end MessageTransaction

/-! ### Entries -/

structure LimitedEntry where
  slot : UInt64
  index : UInt64
  executedTransactionCount : UInt64
  bankId : UInt64
  createdAt : Proto.Timestamp
  buffer : Bytes
  range : Range

structure ProstEntry where
  entry : Proto.SubscribeUpdateEntry
  createdAt : Proto.Timestamp

inductive MessageEntry where
  | limited (msg : LimitedEntry)
  | prost (msg : ProstEntry)

namespace MessageEntry

def encoding : MessageEntry → MessageParserEncoding
  | limited _ => .limited
  | prost _ => .prost

def slot : MessageEntry → UInt64
  | limited msg => msg.slot
  | prost msg => msg.entry.slot

def createdAt : MessageEntry → MessageBlockCreatedAt
  | limited msg => .limited msg.createdAt
  | prost msg => .prost msg.createdAt

def index : MessageEntry → UInt64
  | limited msg => msg.index
  | prost msg => msg.entry.index

def executedTransactionCount : MessageEntry → UInt64
  | limited msg => msg.executedTransactionCount
  | prost msg => msg.entry.executedTransactionCount

def bankId : MessageEntry → Option UInt64
  | limited msg => nonzeroBankId msg.bankId
  | prost msg => nonzeroBankId msg.entry.bankId

end MessageEntry

/-! ### Block meta -/

structure LimitedBlockMeta where
  blockMeta : Proto.SubscribeUpdateBlockMeta
  blockHeight : UInt64
  createdAt : Proto.Timestamp
  buffer : Bytes
  range : Range

structure ProstBlockMeta where
  blockMeta : Proto.SubscribeUpdateBlockMeta
  blockHeight : UInt64
  createdAt : Proto.Timestamp

inductive MessageBlockMeta where
  | limited (msg : LimitedBlockMeta)
  | prost (msg : ProstBlockMeta)

namespace MessageBlockMeta

def encoding : MessageBlockMeta → MessageParserEncoding
  | limited _ => .limited
  | prost _ => .prost

def createdAt : MessageBlockMeta → MessageBlockCreatedAt
  | limited msg => .limited msg.createdAt
  | prost msg => .prost msg.createdAt

/-- The generated value, which both keep. -/
def blockMeta : MessageBlockMeta → Proto.SubscribeUpdateBlockMeta
  | limited msg => msg.blockMeta
  | prost msg => msg.blockMeta

def slot (msg : MessageBlockMeta) : UInt64 := msg.blockMeta.slot
def blockhash (msg : MessageBlockMeta) : String := msg.blockMeta.blockhash

def blockHeight : MessageBlockMeta → UInt64
  | limited msg => msg.blockHeight
  | prost msg => msg.blockHeight

def executedTransactionCount (msg : MessageBlockMeta) : UInt64 := msg.blockMeta.executedTransactionCount
def entriesCount (msg : MessageBlockMeta) : UInt64 := msg.blockMeta.entriesCount
def bankId (msg : MessageBlockMeta) : Option UInt64 := nonzeroBankId msg.blockMeta.bankId

end MessageBlockMeta

/-! ### Blocks, footers and cleared banks -/

structure MessageBlock where
  accounts : List MessageAccount
  transactions : List MessageTransaction
  entries : List MessageEntry
  blockMeta : MessageBlockMeta
  createdAt : MessageBlockCreatedAt

namespace MessageBlock

def slot (msg : MessageBlock) : UInt64 := msg.blockMeta.slot
def bankId (msg : MessageBlock) : Option UInt64 := msg.blockMeta.bankId

end MessageBlock

/-- Alpenglow block footer, always stored with certificates. -/
structure MessageBlockFooter where
  footer : Proto.SubscribeUpdateBlockFooter
  createdAt : MessageBlockCreatedAt

namespace MessageBlockFooter

def new (footer : Proto.SubscribeUpdateBlockFooter) (createdAt : Proto.Timestamp)
    (encoding : MessageParserEncoding) : MessageBlockFooter := ⟨footer, .new createdAt encoding⟩

def slot (msg : MessageBlockFooter) : UInt64 := msg.footer.slot
def bankId (msg : MessageBlockFooter) : Option UInt64 := nonzeroBankId msg.footer.bankId

end MessageBlockFooter

/-- Bank `clearedBankId` of the slot was cleared: all updates of that bank are invalid. -/
structure MessageEntryUpdateParent where
  update : Proto.SubscribeUpdateEntryUpdateParent
  createdAt : MessageBlockCreatedAt

namespace MessageEntryUpdateParent

def new (update : Proto.SubscribeUpdateEntryUpdateParent) (createdAt : Proto.Timestamp)
    (encoding : MessageParserEncoding) : MessageEntryUpdateParent := ⟨update, .new createdAt encoding⟩

def slot (msg : MessageEntryUpdateParent) : UInt64 := msg.update.slot
def clearedBankId (msg : MessageEntryUpdateParent) : UInt64 := msg.update.clearedBankId

end MessageEntryUpdateParent

inductive Message where
  | slot (msg : MessageSlot)
  | account (msg : MessageAccount)
  | transaction (msg : MessageTransaction)
  | entry (msg : MessageEntry)
  | blockMeta (msg : MessageBlockMeta)
  | block (msg : MessageBlock)
  | blockFooter (msg : MessageBlockFooter)
  | entryUpdateParent (msg : MessageEntryUpdateParent)

namespace Message

/-- `Message::slot`. -/
def slotOf : Message → UInt64
  | slot msg => msg.slot
  | account msg => msg.slot
  | transaction msg => msg.slot
  | entry msg => msg.slot
  | blockMeta msg => msg.slot
  | block msg => msg.slot
  | blockFooter msg => msg.slot
  | entryUpdateParent msg => msg.slot

/-- Bank of the message, `none` for messages not tied to a bank -/
def bankId : Message → Option UInt64
  | slot msg => msg.bankId
  | account msg => msg.bankId
  | transaction msg => msg.bankId
  | entry msg => msg.bankId
  | blockMeta msg => msg.bankId
  | block msg => msg.bankId
  | blockFooter msg => msg.bankId
  | entryUpdateParent msg => some msg.clearedBankId

def createdAt : Message → MessageBlockCreatedAt
  | slot msg => msg.createdAt
  | account msg => msg.createdAt
  | transaction msg => msg.createdAt
  | entry msg => msg.createdAt
  | blockMeta msg => msg.createdAt
  | block msg => msg.createdAt
  | blockFooter msg => msg.createdAt
  | entryUpdateParent msg => msg.createdAt

/-! ### Richat-only updates -/

def parseRichatBlockFooter (gen : Generated) (footer : Proto.RichatOnly.SubscribeUpdateBlockFooter)
    (createdAt : Proto.Timestamp) (encoding : MessageParserEncoding) :
    Except MessageParseError Message := do
  let footer ← (gen.createBlockFooterFromWincode footer.slot footer.bankId footer.footer).mapError
    .invalidBlockFooter
  return .blockFooter (.new footer createdAt encoding)

def parseRichatEntryUpdateParent (update : Proto.RichatOnly.SubscribeUpdateEntryUpdateParent)
    (createdAt : Proto.Timestamp) (encoding : MessageParserEncoding) : Message :=
  .entryUpdateParent (.new
    { slot := update.slot
      clearedBankId := update.clearedBankId
      parentSlot := update.parentSlot
      parentBlockId := update.parentBlockId } createdAt encoding)

def parseRichat (gen : Generated) (update : Proto.SubscribeUpdateRichat)
    (encoding : MessageParserEncoding) : Except MessageParseError Message := do
  let some createdAt := update.createdAt | throw (.fieldNotDefined "created_at")
  match update.updateOneof with
  | some (.blockFooter footer) => parseRichatBlockFooter gen footer createdAt encoding
  | some (.entryUpdateParent update) => return parseRichatEntryUpdateParent update createdAt encoding
  | some _ => throw (.invalidUpdateMessage "Richat")
  | none => throw (.fieldNotDefined "update_oneof")

end Message

/-! ### The limited parser -/

/-- `?` on an error of a decoder. -/
def ofDecode {α : Type} (r : Except DecodeError α) : Except MessageParseError α := r.mapError .prost

namespace MessageParserLimited

def parseSlot (data : Bytes) (createdAt : Proto.Timestamp) (range : Range) :
    Except MessageParseError Message := do
  let message ← ofDecode (limitedDecode UpdateOneofLimitedDecodeSlot.mergeField .default (slice data range))
  let some status := slotStatusTryFrom message.status | throw (.invalidEnumValue message.status)
  return .slot (.limited
    { slot := message.slot
      parent := message.parent
      status
      deadError := message.deadError
      bankId := message.bankId
      createdAt
      buffer := data
      range })

def parseAccount (data : Bytes) (createdAt : Proto.Timestamp) (range : Range) :
    Except MessageParseError Message := do
  let message ← ofDecode (limitedDecode UpdateOneofLimitedDecodeAccount.mergeField .default (slice data range))
  let some account := message.account | throw (.fieldNotDefined "account")
  return .account (.limited
    { pubkey := message.pubkey
      owner := message.owner
      lamports := message.lamports
      executable := message.executable
      rentEpoch := message.rentEpoch
      data := message.data.shift range.start
      txnSignatureOffset := message.txnSignatureOffset.map (· + range.start)
      writeVersion := message.writeVersion + range.start
      slot := message.slot
      isStartup := message.isStartup
      bankId := message.bankId
      createdAt
      buffer := data
      accountOffset := account + range.start
      range })

def parseTransaction (gen : Generated) (data : Bytes) (createdAt : Proto.Timestamp) (range : Range) :
    Except MessageParseError Message := do
  let message ← ofDecode
    (limitedDecode UpdateOneofLimitedDecodeTransaction.mergeField .default (slice data range))
  let some transaction := message.transaction | throw (.fieldNotDefined "transaction")
  let transactionRange := transaction.shift range.start
  let txInfo ← ofDecode (limitedDecode UpdateOneofLimitedDecodeTransactionInfo.mergeField .default
    (slice data transactionRange))
  let error ← txInfo.err.mapM fun err =>
    ofDecode (gen.transactionError (slice data (err.shift transactionRange.start)))
  return .transaction (.limited
    { signatureOffset := txInfo.signatureOffset.map (transactionRange.start + ·)
      error
      accountKeys := txInfo.accountKeys
      isVote := txInfo.isVote
      index := txInfo.index
      transactionRange
      slot := message.slot
      bankId := message.bankId
      createdAt
      buffer := data
      range })

def parseEntry (data : Bytes) (createdAt : Proto.Timestamp) (range : Range) :
    Except MessageParseError Message := do
  let entry ← ofDecode (limitedDecode UpdateOneofLimitedDecodeEntry.mergeField .default (slice data range))
  return .entry (.limited
    { slot := entry.slot
      index := entry.index
      executedTransactionCount := entry.executedTransactionCount
      bankId := entry.bankId
      createdAt
      buffer := data
      range })

def parseBlockMeta (gen : Generated) (data : Bytes) (createdAt : Proto.Timestamp) (range : Range) :
    Except MessageParseError Message := do
  let blockMeta ← ofDecode (gen.blockMeta (slice data range))
  let some blockHeight := blockMeta.blockHeight | throw (.fieldNotDefined "block_height")
  return .blockMeta (.limited
    { blockMeta
      blockHeight := blockHeight.blockHeight
      createdAt
      buffer := data
      range })

def parse (gen : Generated) (data : Bytes) : Except MessageParseError Message := do
  let update ← ofDecode (limitedDecode SubscribeUpdateLimitedDecode.mergeField .default data)
  let some createdAt := update.createdAt | throw (.fieldNotDefined "created_at")
  match update.updateOneof with
  | none =>
    -- Richat-only updates are rare (block footers / update parents), decode with prost
    if update.richatUpdate then
      Message.parseRichat gen (← ofDecode (gen.subscribeUpdateRichat data)) .limited
    else throw (.fieldNotDefined "update_oneof")
  | some ⟨.slot, range⟩ => parseSlot data createdAt range
  | some ⟨.account, range⟩ => parseAccount data createdAt range
  | some ⟨.transaction, range⟩ => parseTransaction gen data createdAt range
  | some ⟨.transactionStatus, _⟩ => throw (.invalidUpdateMessage "TransactionStatus")
  | some ⟨.entry, range⟩ => parseEntry data createdAt range
  | some ⟨.blockMeta, range⟩ => parseBlockMeta gen data createdAt range
  | some ⟨.block, _⟩ => throw (.invalidUpdateMessage "Block")
  | some ⟨.ping, _⟩ => throw (.invalidUpdateMessage "Ping")
  | some ⟨.pong, _⟩ => throw (.invalidUpdateMessage "Pong")
  | some ⟨.blockFooter, range⟩ => do
    return .blockFooter (.new (← ofDecode (gen.blockFooter (slice data range))) createdAt .limited)
  | some ⟨.entryUpdateParent, range⟩ => do
    return .entryUpdateParent
      (.new (← ofDecode (gen.entryUpdateParent (slice data range))) createdAt .limited)

end MessageParserLimited

/-! ### The parser with prost -/

namespace MessageParserProst

def parseSlot (createdAt : Proto.Timestamp) (message : Proto.SubscribeUpdateSlot) :
    Except MessageParseError Message := do
  let some status := slotStatusTryFrom message.status | throw (.invalidEnumValue message.status)
  return .slot (.prost
    { slot := message.slot
      parent := message.parent
      status
      deadError := message.deadError
      bankId := message.bankId
      createdAt })

/-- An account update, by itself or of a block. -/
def createAccount (createdAt : Proto.Timestamp) (account : Proto.SubscribeUpdateAccountInfo) (slot : UInt64)
    (isStartup : Bool) (bankId : Option UInt64) : Except MessageParseError MessageAccount := do
  let pubkey ← pubkeyTryFrom account.pubkey
  let owner ← pubkeyTryFrom account.owner
  return .prost { pubkey, owner, account, slot, isStartup, bankId, createdAt }

def parseAccount (createdAt : Proto.Timestamp) (message : Proto.SubscribeUpdateAccount) :
    Except MessageParseError Message := do
  let some account := message.account | throw (.fieldNotDefined "account")
  return .account (← createAccount createdAt account message.slot message.isStartup message.bankId)

/-- A transaction, by itself or of a block. -/
def createTransaction (createdAt : Proto.Timestamp) (transaction : Proto.SubscribeUpdateTransactionInfo)
    (slot bankId : UInt64) : Except MessageParseError MessageTransaction := do
  let some statusMeta := transaction.statusMeta | throw (.fieldNotDefined "meta")
  let accountKeys ← MessageTransaction.genAccountKeysProst transaction statusMeta
  return .prost { error := statusMeta.err, accountKeys, transaction, slot, bankId, createdAt }

def parseTransaction (createdAt : Proto.Timestamp) (message : Proto.SubscribeUpdateTransaction) :
    Except MessageParseError Message := do
  let some transaction := message.transaction | throw (.fieldNotDefined "transaction")
  return .transaction (← createTransaction createdAt transaction message.slot message.bankId)

def createBlockMeta (createdAt : Proto.Timestamp) (blockMeta : Proto.SubscribeUpdateBlockMeta) :
    Except MessageParseError MessageBlockMeta := do
  let some blockHeight := blockMeta.blockHeight | throw (.fieldNotDefined "block_height")
  return .prost { blockMeta, blockHeight := blockHeight.blockHeight, createdAt }

/-- The block meta of a block. -/
def blockMetaOf (message : Proto.SubscribeUpdateBlock) : Proto.SubscribeUpdateBlockMeta where
  slot := message.slot
  blockhash := message.blockhash
  rewards := message.rewards
  blockTime := message.blockTime
  blockHeight := message.blockHeight
  parentSlot := message.parentSlot
  parentBlockhash := message.parentBlockhash
  executedTransactionCount := message.executedTransactionCount
  entriesCount := message.entriesCount
  bankId := message.bankId

def parseBlock (createdAt : Proto.Timestamp) (message : Proto.SubscribeUpdateBlock) :
    Except MessageParseError Message := do
  let accounts ← message.accounts.mapM fun account =>
    createAccount createdAt account message.slot false (nonzeroBankId message.bankId)
  let transactions ← message.transactions.mapM fun transaction =>
    createTransaction createdAt transaction message.slot message.bankId
  let entries := message.entries.map fun entry => MessageEntry.prost ⟨entry, createdAt⟩
  let blockMeta ← createBlockMeta createdAt (blockMetaOf message)
  return .block ⟨accounts, transactions, entries, blockMeta, .prost createdAt⟩

def parse (gen : Generated) (data : Bytes) : Except MessageParseError Message := do
  let update ← ofDecode (gen.subscribeUpdate data)
  let some createdAt := update.createdAt | throw (.fieldNotDefined "created_at")
  match update.updateOneof with
  -- Yellowstone `SubscribeUpdate` skips Richat-only updates (tags `100+`)
  | none => Message.parseRichat gen (← ofDecode (gen.subscribeUpdateRichat data)) .prost
  | some (.slot message) => parseSlot createdAt message
  | some (.account message) => parseAccount createdAt message
  | some (.transaction message) => parseTransaction createdAt message
  | some (.transactionStatus _) => throw (.invalidUpdateMessage "TransactionStatus")
  | some (.entry entry) => return .entry (.prost ⟨entry, createdAt⟩)
  | some (.blockMeta blockMeta) => return .blockMeta (← createBlockMeta createdAt blockMeta)
  | some (.block message) => parseBlock createdAt message
  | some .ping => throw (.invalidUpdateMessage "Ping")
  | some (.pong _) => throw (.invalidUpdateMessage "Pong")
  | some (.blockFooter footer) => return .blockFooter (.new footer createdAt .prost)
  | some (.entryUpdateParent update) => return .entryUpdateParent (.new update createdAt .prost)

end MessageParserProst

/-- `Message::parse`. -/
def Message.parse (gen : Generated) (data : Bytes) :
    MessageParserEncoding → Except MessageParseError Message
  | .limited => MessageParserLimited.parse gen data
  | .prost => MessageParserProst.parse gen data

end Richat.Filter
