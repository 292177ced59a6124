import Richat.Convert.Wire
import Richat.Filter.Message

/-!
# The encoder of filtered updates

A message of the limited parser is written back from its buffer: the parts that a client gets unchanged are
copied, and what is selected (slices of the account data, the items of a block) is put together again. Every
message has a function for its bytes and one for its length, which is computed before.
-/

namespace Richat.Filter

open Lib.Protobuf

/-- The panics of the filters. -/
inductive FilterPanic where
  /-- an addition or subtraction of 64 bits, which wraps around without overflow checks -/
  | overflow
  /-- `&buffer[start..stop]` -/
  | sliceIndex (start stop len : ℕ)
  | indexOutOfBounds (index len : ℕ)
  /-- more bytes than a vector may hold -/
  | capacityOverflow
  /-- `expect("already verified")` -/
  | alreadyVerified
  /-- `expect("transaction should have valid signature")` -/
  | noSignature
  | unreachable
  deriving DecidableEq

/-- `isize::MAX`, the capacity of a vector of bytes. -/
def isizeMax : ℕ := 2 ^ 63 - 1

def checkedAdd (a b : ℕ) : Except FilterPanic ℕ :=
  if a + b < 2 ^ 64 then .ok (a + b) else .error .overflow

def checkedSub (a b : ℕ) : Except FilterPanic ℕ :=
  if b ≤ a then .ok (a - b) else .error .overflow

/-- `&buffer[range.start..range.end]`, where `slice` takes what is there. -/
def indexRange (buffer : Bytes) (range : Range) : Except FilterPanic Bytes :=
  if range.start ≤ range.stop ∧ range.stop ≤ buffer.length then .ok (slice buffer range)
  else .error (.sliceIndex range.start range.stop buffer.length)

/-- `&items[index]` -/
def indexItem {α : Type} (items : List α) (index : ℕ) : Except FilterPanic α :=
  match items[index]? with
  | some item => .ok item
  | none => .error (.indexOutOfBounds index items.length)

/-! ### Slices of the account data -/

abbrev FilterAccountDataSlices := List Range

namespace FilterAccountDataSlices

/-- The sum of the lengths of the slices. -/
def capacity (dataSlices : FilterAccountDataSlices) : Except FilterPanic ℕ :=
  dataSlices.foldlM (fun sum ds => do checkedAdd sum (← checkedSub ds.stop ds.start)) 0

/-- The slices that are in the data, one after the other. -/
def extend (dataSlices : FilterAccountDataSlices) (source : Bytes) : Except FilterPanic Bytes :=
  dataSlices.foldlM (fun data ds => do
    if ds.stop ≤ source.length then return data ++ (← indexRange source ds) else return data) []

def getSlice (dataSlices : FilterAccountDataSlices) (source : Bytes) : Except FilterPanic Bytes :=
  match dataSlices with
  | [] => .ok source
  | [ds] => if ds.stop ≤ source.length then indexRange source ds else .ok []
  | _ => do
    let capacity ← dataSlices.capacity
    if isizeMax < capacity then throw .capacityOverflow
    dataSlices.extend source

end FilterAccountDataSlices

/-! ### Accounts -/

structure UpdateOneofLimitedEncodeAccountInner where
  pubkey : Pubkey
  lamports : UInt64
  owner : Pubkey
  executable : Bool
  rentEpoch : UInt64
  data : Bytes
  writeVersion : UInt64
  txnSignature : Option Bytes

namespace UpdateOneofLimitedEncodeAccountInner

def encodeRaw (m : UpdateOneofLimitedEncodeAccountInner) : Bytes :=
  bytesEncode 1 m.pubkey.val ++
    (if m.lamports ≠ 0 then uint64.encode 2 m.lamports else []) ++
    bytesEncode 3 m.owner.val ++
    (if m.executable then bool.encode 4 m.executable else []) ++
    (if m.rentEpoch ≠ 0 then uint64.encode 5 m.rentEpoch else []) ++
    (if ¬ m.data.isEmpty then bytesEncode 6 m.data else []) ++
    (if m.writeVersion ≠ 0 then uint64.encode 7 m.writeVersion else []) ++
    m.txnSignature.elim [] (bytesEncode 8)

def encodedLen (m : UpdateOneofLimitedEncodeAccountInner) : ℕ :=
  bytesEncodedLen 1 m.pubkey.val +
    (if m.lamports ≠ 0 then uint64.encodedLen 2 m.lamports else 0) +
    bytesEncodedLen 3 m.owner.val +
    (if m.executable then bool.encodedLen 4 m.executable else 0) +
    (if m.rentEpoch ≠ 0 then uint64.encodedLen 5 m.rentEpoch else 0) +
    (if ¬ m.data.isEmpty then bytesEncodedLen 6 m.data else 0) +
    (if m.writeVersion ≠ 0 then uint64.encodedLen 7 m.writeVersion else 0) +
    m.txnSignature.elim 0 (bytesEncodedLen 8)

instance : WireMessage UpdateOneofLimitedEncodeAccountInner := ⟨encodeRaw, encodedLen⟩

end UpdateOneofLimitedEncodeAccountInner

inductive UpdateOneofLimitedEncodeAccount where
  | slice (bytes : Bytes)
  | fields (account : UpdateOneofLimitedEncodeAccountInner) (slot : UInt64) (isStartup : Bool)
      (bankId : Option UInt64)

namespace UpdateOneofLimitedEncodeAccount

def encodeRaw : UpdateOneofLimitedEncodeAccount → Bytes
  | slice bytes => bytes
  | fields account slot isStartup bankId =>
    encodeKey 1 .lengthDelimited ++ encodeVarint account.encodedLen ++ account.encodeRaw ++
      (if slot ≠ 0 then uint64.encode 2 slot else []) ++
      (if ¬ isStartup then bool.encode 3 isStartup else []) ++
      bankId.elim [] (uint64.encode 4)

def encodedLen : UpdateOneofLimitedEncodeAccount → ℕ
  | slice bytes => bytes.length
  | fields account slot isStartup bankId =>
    keyLen 1 + encodedLenVarint account.encodedLen + account.encodedLen +
      (if slot ≠ 0 then uint64.encodedLen 2 slot else 0) +
      (if ¬ isStartup then bool.encodedLen 3 isStartup else 0) +
      bankId.elim 0 (uint64.encodedLen 4)

instance : WireMessage UpdateOneofLimitedEncodeAccount := ⟨encodeRaw, encodedLen⟩

end UpdateOneofLimitedEncodeAccount

/-! ### Transaction statuses -/

structure UpdateOneofLimitedEncodeTransactionStatus where
  slot : UInt64
  signature : Bytes
  isVote : Bool
  index : UInt64
  err : Option Proto.TransactionError
  bankId : UInt64

namespace UpdateOneofLimitedEncodeTransactionStatus

def encodeRaw (m : UpdateOneofLimitedEncodeTransactionStatus) : Bytes :=
  (if m.slot ≠ 0 then uint64.encode 1 m.slot else []) ++
    (if ¬ m.signature.isEmpty then bytesEncode 2 m.signature else []) ++
    (if m.isVote then bool.encode 3 m.isVote else []) ++
    (if m.index ≠ 0 then uint64.encode 4 m.index else []) ++
    m.err.elim [] (message.encode 5) ++
    (if m.bankId ≠ 0 then uint64.encode 6 m.bankId else [])

def encodedLen (m : UpdateOneofLimitedEncodeTransactionStatus) : ℕ :=
  (if m.slot ≠ 0 then uint64.encodedLen 1 m.slot else 0) +
    (if ¬ m.signature.isEmpty then bytesEncodedLen 2 m.signature else 0) +
    (if m.isVote then bool.encodedLen 3 m.isVote else 0) +
    (if m.index ≠ 0 then uint64.encodedLen 4 m.index else 0) +
    m.err.elim 0 (message.encodedLen 5) +
    (if m.bankId ≠ 0 then uint64.encodedLen 6 m.bankId else 0)

instance : WireMessage UpdateOneofLimitedEncodeTransactionStatus := ⟨encodeRaw, encodedLen⟩

end UpdateOneofLimitedEncodeTransactionStatus

/-! ### Blocks -/

structure UpdateOneofLimitedEncodeBlock where
  slot : UInt64
  blockhash : String
  rewards : Option Proto.Rewards
  blockTime : Option Proto.UnixTimestamp
  blockHeight : Option Proto.BlockHeight
  parentSlot : UInt64
  parentBlockhash : String
  executedTransactionCount : UInt64
  transactions : List Bytes
  updatedAccountCount : UInt64
  accounts : List UpdateOneofLimitedEncodeAccountInner
  entriesCount : UInt64
  entries : List Bytes
  bankId : UInt64

namespace UpdateOneofLimitedEncodeBlock

/-- The items that are copied. -/
def encodeSlices (tag : ℕ) (slices : List Bytes) : Bytes :=
  slices.flatMap fun slice => encodeKey tag .lengthDelimited ++ encodeVarint slice.length ++ slice

def encodedLenSlices (tag : ℕ) (slices : List Bytes) : ℕ :=
  keyLen tag * slices.length + (slices.map fun slice => slice.length + encodedLenVarint slice.length).sum

def encodeRaw (m : UpdateOneofLimitedEncodeBlock) : Bytes :=
  (if m.slot ≠ 0 then uint64.encode 1 m.slot else []) ++
    (if ¬ (utf8 m.blockhash).isEmpty then bytesEncode 2 (utf8 m.blockhash) else []) ++
    m.rewards.elim [] (message.encode 3) ++
    m.blockTime.elim [] (message.encode 4) ++
    m.blockHeight.elim [] (message.encode 5) ++
    encodeSlices 6 m.transactions ++
    (if m.parentSlot ≠ 0 then uint64.encode 7 m.parentSlot else []) ++
    (if ¬ (utf8 m.parentBlockhash).isEmpty then bytesEncode 8 (utf8 m.parentBlockhash) else []) ++
    (if m.executedTransactionCount ≠ 0 then uint64.encode 9 m.executedTransactionCount else []) ++
    (if m.updatedAccountCount ≠ 0 then uint64.encode 10 m.updatedAccountCount else []) ++
    message.encodeRepeated 11 m.accounts ++
    (if m.entriesCount ≠ 0 then uint64.encode 12 m.entriesCount else []) ++
    encodeSlices 13 m.entries ++
    (if m.bankId ≠ 0 then uint64.encode 14 m.bankId else [])

def encodedLen (m : UpdateOneofLimitedEncodeBlock) : ℕ :=
  (if m.slot ≠ 0 then uint64.encodedLen 1 m.slot else 0) +
    (if ¬ (utf8 m.blockhash).isEmpty then bytesEncodedLen 2 (utf8 m.blockhash) else 0) +
    m.rewards.elim 0 (message.encodedLen 3) +
    m.blockTime.elim 0 (message.encodedLen 4) +
    m.blockHeight.elim 0 (message.encodedLen 5) +
    encodedLenSlices 6 m.transactions +
    (if m.parentSlot ≠ 0 then uint64.encodedLen 7 m.parentSlot else 0) +
    (if ¬ (utf8 m.parentBlockhash).isEmpty then bytesEncodedLen 8 (utf8 m.parentBlockhash) else 0) +
    (if m.executedTransactionCount ≠ 0 then uint64.encodedLen 9 m.executedTransactionCount else 0) +
    (if m.updatedAccountCount ≠ 0 then uint64.encodedLen 10 m.updatedAccountCount else 0) +
    message.encodedLenRepeated 11 m.accounts +
    (if m.entriesCount ≠ 0 then uint64.encodedLen 12 m.entriesCount else 0) +
    encodedLenSlices 13 m.entries +
    (if m.bankId ≠ 0 then uint64.encodedLen 14 m.bankId else 0)

instance : WireMessage UpdateOneofLimitedEncodeBlock := ⟨encodeRaw, encodedLen⟩

end UpdateOneofLimitedEncodeBlock

/-! ### The update and its message -/

inductive UpdateOneofLimitedEncode where
  | account (account : UpdateOneofLimitedEncodeAccount)
  | slot (slice : Bytes)
  | transaction (slice : Bytes)
  | transactionStatus (txStatus : UpdateOneofLimitedEncodeTransactionStatus)
  | block (block : UpdateOneofLimitedEncodeBlock)
  | blockMeta (slice : Bytes)
  | entry (slice : Bytes)

namespace UpdateOneofLimitedEncode

def tag : UpdateOneofLimitedEncode → ℕ
  | account _ => 2
  | slot _ => 3
  | transaction _ => 4
  | transactionStatus _ => 10
  | block _ => 5
  | blockMeta _ => 7
  | entry _ => 8

def len : UpdateOneofLimitedEncode → ℕ
  | account msg => msg.encodedLen
  | slot slice => slice.length
  | transaction slice => slice.length
  | transactionStatus txStatus => txStatus.encodedLen
  | block msg => msg.encodedLen
  | blockMeta slice => slice.length
  | entry slice => slice.length

def encodeRaw : UpdateOneofLimitedEncode → Bytes
  | account msg => msg.encodeRaw
  | slot slice => slice
  | transaction slice => slice
  | transactionStatus txStatus => txStatus.encodeRaw
  | block msg => msg.encodeRaw
  | blockMeta slice => slice
  | entry slice => slice

def encode (update : UpdateOneofLimitedEncode) : Bytes :=
  encodeKey update.tag .lengthDelimited ++ encodeVarint update.len ++ update.encodeRaw

def encodedLen (update : UpdateOneofLimitedEncode) : ℕ :=
  keyLen update.tag + encodedLenVarint update.len + update.len

end UpdateOneofLimitedEncode

structure SubscribeUpdateMessageLimited where
  filters : List String
  update : UpdateOneofLimitedEncode
  createdAt : Proto.Timestamp

structure SubscribeUpdateMessageProst where
  filters : List String
  update : Proto.UpdateOneof
  createdAt : Proto.Timestamp

inductive SubscribeUpdateMessage where
  | limited (msg : SubscribeUpdateMessageLimited)
  | prost (msg : SubscribeUpdateMessageProst)

namespace SubscribeUpdateMessage

def filters : SubscribeUpdateMessage → List String
  | limited msg => msg.filters
  | prost msg => msg.filters

def createdAt : SubscribeUpdateMessage → Proto.Timestamp
  | limited msg => msg.createdAt
  | prost msg => msg.createdAt

/-- The bytes of the update: the generated types compute their length from them. -/
def encodeUpdate : SubscribeUpdateMessage → Bytes
  | limited msg => msg.update.encode
  | prost msg => msg.update.encode

def encodedLenUpdate : SubscribeUpdateMessage → ℕ
  | limited msg => msg.update.encodedLen
  | prost msg => msg.update.encode.length

def encodeRaw (msg : SubscribeUpdateMessage) : Bytes :=
  (msg.filters.flatMap fun filter => bytesEncode 1 (utf8 filter)) ++ msg.encodeUpdate ++
    message.encode 11 msg.createdAt

def encodedLen (msg : SubscribeUpdateMessage) : ℕ :=
  (msg.filters.map fun filter => bytesEncodedLen 1 (utf8 filter)).sum + msg.encodedLenUpdate +
    message.encodedLen 11 msg.createdAt

instance : WireMessage SubscribeUpdateMessage := ⟨encodeRaw, encodedLen⟩

/-- Appends to the buffer: the reservation is refused when the vector cannot hold it. -/
def encodeReserved (msg : SubscribeUpdateMessage) (buf : Bytes) : Except FilterPanic Bytes :=
  if buf.length + msg.encodedLen ≤ isizeMax then .ok (buf ++ msg.encodeRaw) else .error .capacityOverflow

end SubscribeUpdateMessage

/-! ### Filtered updates -/

inductive FilteredUpdateType where
  | slot (message : MessageSlot)
  | account (message : MessageAccount) (dataSlices : FilterAccountDataSlices)
  | transaction (message : MessageTransaction)
  | transactionStatus (message : MessageTransaction)
  | entry (message : MessageEntry)
  | blockMeta (message : MessageBlockMeta)
  | block (message : MessageBlock) (accounts transactions : List ℕ) (entries : Bool)
      (dataSlices : FilterAccountDataSlices)
  | blockFooter (message : MessageBlockFooter) (includeCertificates : Bool)
  | entryUpdateParent (message : MessageEntryUpdateParent)

structure FilteredUpdate where
  filters : List String
  filteredUpdate : FilteredUpdateType

/-- `FilteredUpdateType::from`: everything of the message. -/
def FilteredUpdateType.ofMessage : Message → FilteredUpdateType
  | .slot message => slot message
  | .account message => account message []
  | .transaction message => transaction message
  | .entry message => entry message
  | .blockMeta message => blockMeta message
  | .block message =>
    block message (List.range message.accounts.length) (List.range message.transactions.length) true []
  | .blockFooter message => blockFooter message true
  | .entryUpdateParent message => entryUpdateParent message

/-- `status as i32` -/
def slotStatusToI32 : SlotStatus → Int32
  | .slotProcessed => 0
  | .slotConfirmed => 1
  | .slotFinalized => 2
  | .slotFirstShredReceived => 3
  | .slotCompleted => 4
  | .slotCreatedBank => 5
  | .slotDead => 6

theorem slotStatusTryFrom_toI32 (status : SlotStatus) :
    slotStatusTryFrom (slotStatusToI32 status) = some status := by
  cases status <;> decide

/-- `decode_varint(&buffer[offset..]).expect("already verified")` -/
def indexVarint (buffer : Bytes) (offset : ℕ) : Except FilterPanic UInt64 :=
  if offset ≤ buffer.length then
    match varintAt buffer offset with
    | some value => .ok value
    | none => .error .alreadyVerified
  else .error (.sliceIndex offset buffer.length buffer.length)

/-- `message.signature_ref()` -/
def indexSignature : MessageTransaction → Except FilterPanic Bytes
  | .limited msg =>
    match msg.signatureOffset with
    | some offset => indexRange msg.buffer ⟨offset, offset + signatureBytes⟩
    | none => .error .noSignature
  | .prost msg => .ok msg.transaction.signature

namespace FilteredUpdate

/-- The nested account of a limited message, by itself or of a block. -/
def limitedAccountInner (msg : LimitedAccount) (dataSlices : FilterAccountDataSlices) :
    Except FilterPanic UpdateOneofLimitedEncodeAccountInner := do
  let data ← dataSlices.getSlice (← indexRange msg.buffer msg.data)
  let writeVersion ← indexVarint msg.buffer msg.writeVersion
  let txnSignature ← msg.txnSignatureOffset.mapM fun offset => indexRange msg.buffer ⟨offset, offset + 64⟩
  return {
    pubkey := msg.pubkey
    lamports := msg.lamports
    owner := msg.owner
    executable := msg.executable
    rentEpoch := msg.rentEpoch
    data
    writeVersion
    txnSignature }

def prostAccountInfo (account : Proto.SubscribeUpdateAccountInfo) (dataSlices : FilterAccountDataSlices) :
    Except FilterPanic Proto.SubscribeUpdateAccountInfo := do
  return { account with data := ← dataSlices.getSlice account.data }

def limitedAccount (msg : LimitedAccount) (dataSlices : FilterAccountDataSlices) :
    Except FilterPanic UpdateOneofLimitedEncodeAccount := do
  if dataSlices.isEmpty then return .slice (← indexRange msg.buffer msg.range)
  return .fields (← limitedAccountInner msg dataSlices) msg.slot msg.isStartup msg.bankId

def limitedTransactionStatus (msg : LimitedTransaction) :
    Except FilterPanic UpdateOneofLimitedEncodeTransactionStatus := do
  return {
    slot := msg.slot
    signature := ← indexSignature (.limited msg)
    isVote := msg.isVote
    index := msg.index
    err := msg.error
    bankId := msg.bankId }

/-- The parts of a block that is put together from limited messages. -/
def limitedBlock (message : MessageBlock) (accounts transactions : List ℕ) (entries : Bool)
    (dataSlices : FilterAccountDataSlices) : Except FilterPanic UpdateOneofLimitedEncodeBlock := do
  let .limited { blockMeta, .. } := message.blockMeta | throw .unreachable
  let transactions ← transactions.mapM fun idx => do
    match ← indexItem message.transactions idx with
    | .limited msg => indexRange msg.buffer msg.transactionRange
    | .prost _ => throw .unreachable
  let encoded ← accounts.mapM fun idx => do
    match ← indexItem message.accounts idx with
    | .limited msg => limitedAccountInner msg dataSlices
    | .prost _ => throw .unreachable
  let entries ← if entries then
      message.entries.mapM fun
        | .limited msg => indexRange msg.buffer msg.range
        | .prost _ => throw .unreachable
    else pure []
  return {
    slot := blockMeta.slot
    blockhash := blockMeta.blockhash
    rewards := blockMeta.rewards
    blockTime := blockMeta.blockTime
    blockHeight := blockMeta.blockHeight
    parentSlot := blockMeta.parentSlot
    parentBlockhash := blockMeta.parentBlockhash
    executedTransactionCount := blockMeta.executedTransactionCount
    transactions
    updatedAccountCount := UInt64.ofNat message.accounts.length
    accounts := encoded
    entriesCount := blockMeta.entriesCount
    entries
    bankId := blockMeta.bankId }

def prostBlock (message : MessageBlock) (accounts transactions : List ℕ) (entries : Bool)
    (dataSlices : FilterAccountDataSlices) : Except FilterPanic Proto.SubscribeUpdateBlock := do
  let .prost { blockMeta, .. } := message.blockMeta | throw .unreachable
  let transactions ← transactions.mapM fun idx => do
    match ← indexItem message.transactions idx with
    | .limited _ => throw .unreachable
    | .prost msg => return msg.transaction
  let encoded ← accounts.mapM fun idx => do
    match ← indexItem message.accounts idx with
    | .limited _ => throw .unreachable
    | .prost msg => prostAccountInfo msg.account dataSlices
  let entries ← if entries then
      message.entries.mapM fun
        | .limited _ => throw .unreachable
        | .prost msg => return msg.entry
    else pure []
  return {
    slot := blockMeta.slot
    blockhash := blockMeta.blockhash
    rewards := blockMeta.rewards
    blockTime := blockMeta.blockTime
    blockHeight := blockMeta.blockHeight
    transactions
    parentSlot := blockMeta.parentSlot
    parentBlockhash := blockMeta.parentBlockhash
    executedTransactionCount := blockMeta.executedTransactionCount
    updatedAccountCount := UInt64.ofNat message.accounts.length
    accounts := encoded
    entriesCount := blockMeta.entriesCount
    entries
    bankId := blockMeta.bankId }

/-- The footer without its certificates, if they are not asked for. -/
def footerOf (footer : Proto.SubscribeUpdateBlockFooter) (includeCertificates : Bool) :
    Proto.SubscribeUpdateBlockFooter :=
  if includeCertificates then footer
  else { footer with blockFinalCert := none, skipRewardCert := none, notarRewardCert := none }

section

variable (filters : List String)

def limited (createdAt : Proto.Timestamp) (update : UpdateOneofLimitedEncode) : SubscribeUpdateMessage :=
  .limited ⟨filters, update, createdAt⟩

def prost (createdAt : Proto.Timestamp) (update : Proto.UpdateOneof) : SubscribeUpdateMessage :=
  .prost ⟨filters, update, createdAt⟩

def messageOf : FilteredUpdateType → Except FilterPanic SubscribeUpdateMessage
  | .slot (.limited msg) => return limited filters msg.createdAt (.slot (← indexRange msg.buffer msg.range))
  | .slot (.prost msg) =>
    return prost filters msg.createdAt (.slot
      { slot := msg.slot
        parent := msg.parent
        status := slotStatusToI32 msg.status
        deadError := msg.deadError
        bankId := msg.bankId })
  | .account (.limited msg) dataSlices =>
    return limited filters msg.createdAt (.account (← limitedAccount msg dataSlices))
  | .account (.prost msg) dataSlices =>
    return prost filters msg.createdAt (.account
      { account := some (← prostAccountInfo msg.account dataSlices)
        slot := msg.slot
        isStartup := msg.isStartup
        bankId := msg.bankId })
  | .transaction (.limited msg) =>
    return limited filters msg.createdAt (.transaction (← indexRange msg.buffer msg.range))
  | .transaction (.prost msg) =>
    return prost filters msg.createdAt (.transaction
      { transaction := some msg.transaction
        slot := msg.slot
        bankId := msg.bankId })
  | .transactionStatus (.limited msg) =>
    return limited filters msg.createdAt (.transactionStatus (← limitedTransactionStatus msg))
  | .transactionStatus (.prost msg) =>
    return prost filters msg.createdAt (.transactionStatus
      { slot := msg.slot
        signature := msg.transaction.signature
        isVote := msg.transaction.isVote
        index := msg.transaction.index
        err := msg.error
        bankId := msg.bankId })
  | .entry (.limited msg) => return limited filters msg.createdAt (.entry (← indexRange msg.buffer msg.range))
  | .entry (.prost msg) => return prost filters msg.createdAt (.entry msg.entry)
  | .blockMeta (.limited msg) =>
    return limited filters msg.createdAt (.blockMeta (← indexRange msg.buffer msg.range))
  | .blockMeta (.prost msg) => return prost filters msg.createdAt (.blockMeta msg.blockMeta)
  | .block message accounts transactions entries dataSlices =>
    match message.createdAt with
    | .limited createdAt =>
      return limited filters createdAt
        (.block (← limitedBlock message accounts transactions entries dataSlices))
    | .prost createdAt =>
      return prost filters createdAt (.block (← prostBlock message accounts transactions entries dataSlices))
  | .blockFooter message includeCertificates =>
    return prost filters message.createdAt.timestamp (.blockFooter (footerOf message.footer includeCertificates))
  | .entryUpdateParent message =>
    return prost filters message.createdAt.timestamp (.entryUpdateParent message.update)

end

/-- Reserves the exact message size before encoding -/
def encode (update : FilteredUpdate) (buf : Bytes) : Except FilterPanic Bytes := do
  (← messageOf update.filters update.filteredUpdate).encodeReserved buf

def encodeToVec (update : FilteredUpdate) : Except FilterPanic Bytes := update.encode []

end FilteredUpdate

end Richat.Filter
