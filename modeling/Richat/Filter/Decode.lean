import Richat.Convert.Geyser
import Richat.Lib.ProtobufDecode
import Richat.Message
import Mathlib.Data.Finset.Basic

/-!
# The limited decoder

A decoder that only extracts what the channel and the filters need. Of the fields that are passed on as
they are it records where they stand in the buffer: a position is the length of the buffer less what is
left of it.
-/

namespace Richat.Filter

open Lib.Protobuf

structure Range where
  start : ℕ
  stop : ℕ
  deriving DecidableEq

/-- `Range::default`. -/
def Range.default : Range := ⟨0, 0⟩

def pubkeyBytes : ℕ := 32
def signatureBytes : ℕ := 64

def createDecodeError (description : String) : DecodeError := .new (.other description)

def decodeError (description message field : String) : DecodeError :=
  (createDecodeError description).push message field

/-! ### Length-delimited fields -/

/-- The bytes of the field are not looked at: only where they stand. -/
def delimitedRange (error : DecodeError) (bufLen : ℕ) (buf : Bytes) :
    Except DecodeError (Range × Bytes) := do
  let (len, buf) ← decodeVarint buf
  if buf.length < len then throw error
  let start := bufLen - buf.length
  let buf := buf.drop len
  return (⟨start, bufLen - buf.length⟩, buf)

def decodePubkey (wireType : WireType) (message field : String) (buf : Bytes) :
    Except DecodeError (Pubkey × Bytes) := do
  checkWireType .lengthDelimited wireType
  let (len, buf) ← decodeVarint buf
  if buf.length < len then throw (decodeError "buffer underflow" message field)
  if h : (buf.take len).length = pubkeyBytes then return (⟨buf.take len, h⟩, buf.drop len)
  else throw (decodeError "invalid pubkey length" message field)

/-- Where a signature starts. -/
def signatureOffset (message field : String) (wireType : WireType) (bufLen : ℕ) (buf : Bytes) :
    Except DecodeError (ℕ × Bytes) := do
  checkWireType .lengthDelimited wireType
  let (len, buf) ← decodeVarint buf
  if buf.length < len then throw (decodeError "buffer underflow" message field)
  if len ≠ signatureBytes then throw (decodeError "invalid signature length" message field)
  return (bufLen - buf.length, buf.drop len)

/-- `LimitedDecode::decode`: all fields of a buffer. -/
def limitedDecode {α : Type}
    (mergeField : ℕ → α → ℕ → WireType → Bytes → Except DecodeError (α × Bytes)) (default : α)
    (buf : Bytes) : Except DecodeError α :=
  mergeAll (mergeField buf.length) default buf

/-! ### Updates -/

/-- The kinds of `update_oneof`. -/
inductive UpdateKind where
  | account | slot | transaction | transactionStatus | block | ping | pong | blockMeta | entry
  | blockFooter | entryUpdateParent
  deriving DecidableEq

def UpdateKind.ofTag : ℕ → Option UpdateKind
  | 2 => some account
  | 3 => some slot
  | 4 => some transaction
  | 10 => some transactionStatus
  | 5 => some block
  | 6 => some ping
  | 9 => some pong
  | 7 => some blockMeta
  | 8 => some entry
  | 12 => some blockFooter
  | 13 => some entryUpdateParent
  | _ => none

structure UpdateOneofLimitedDecode where
  kind : UpdateKind
  range : Range

def UpdateOneofLimitedDecode.merge (field : Option UpdateOneofLimitedDecode) (kind : UpdateKind)
    (bufLen : ℕ) (buf : Bytes) : Except DecodeError (UpdateOneofLimitedDecode × Bytes) := do
  let (range, buf) ← delimitedRange (createDecodeError "buffer underflow") bufLen buf
  if field.any (·.kind = kind) then throw (createDecodeError "merge is not supported")
  return (⟨kind, range⟩, buf)

/-- The prost decoder of a timestamp. -/
def Timestamp.mergeField (msg : Proto.Timestamp) (tag : ℕ) (wireType : WireType) (buf : Bytes) :
    Except DecodeError (Proto.Timestamp × Bytes) :=
  match tag with
  | 1 => do
    let (seconds, buf) ← atField "Timestamp" "seconds" (int64.merge wireType buf)
    return ({ msg with seconds }, buf)
  | 2 => do
    let (nanos, buf) ← atField "Timestamp" "nanos" (int32.merge wireType buf)
    return ({ msg with nanos }, buf)
  | tag => do return (msg, ← skipField wireType tag buf)

structure SubscribeUpdateLimitedDecode where
  updateOneof : Option UpdateOneofLimitedDecode
  createdAt : Option Proto.Timestamp
  /-- Richat-only update (`SubscribeUpdateRichat`) is present, tags `100+` -/
  richatUpdate : Bool

namespace SubscribeUpdateLimitedDecode

def default : SubscribeUpdateLimitedDecode := ⟨none, none, false⟩

def structName : String := "SubscribeUpdateLimitedDecode"

def mergeField (bufLen : ℕ) (msg : SubscribeUpdateLimitedDecode) (tag : ℕ) (wireType : WireType)
    (buf : Bytes) : Except DecodeError (SubscribeUpdateLimitedDecode × Bytes) := do
  checkWireType .lengthDelimited wireType
  if tag = 1 then
    let (_, buf) ← delimitedRange (decodeError "buffer underflow" structName "filters") bufLen buf
    return (msg, buf)
  else if let some kind := UpdateKind.ofTag tag then
    let (update, buf) ← atField structName "update_oneof"
      (UpdateOneofLimitedDecode.merge msg.updateOneof kind bufLen buf)
    return ({ msg with updateOneof := some update }, buf)
  else if tag = 11 then
    let (createdAt, buf) ← atField structName "created_at"
      (message.merge Timestamp.mergeField .lengthDelimited (msg.createdAt.getD ⟨0, 0⟩) buf)
    return ({ msg with createdAt := some createdAt }, buf)
  else if 100 ≤ tag ∧ tag ≤ 105 then
    return ({ msg with richatUpdate := true }, ← skipField .lengthDelimited tag buf)
  else return (msg, ← skipField .lengthDelimited tag buf)

end SubscribeUpdateLimitedDecode

/-! ### Account -/

structure UpdateOneofLimitedDecodeAccount where
  /-- where the length of the nested message stands; `none` is `usize::MAX`, no account -/
  account : Option ℕ
  pubkey : Pubkey
  owner : Pubkey
  lamports : UInt64
  executable : Bool
  rentEpoch : UInt64
  data : Range
  txnSignatureOffset : Option ℕ
  /-- where the varint stands -/
  writeVersion : ℕ
  slot : UInt64
  isStartup : Bool
  bankId : Option UInt64

namespace UpdateOneofLimitedDecodeAccount

def default : UpdateOneofLimitedDecodeAccount where
  account := none
  pubkey := Pubkey.instInhabited.default
  owner := Pubkey.instInhabited.default
  lamports := 0
  executable := false
  rentEpoch := 0
  data := .default
  txnSignatureOffset := none
  writeVersion := 0
  slot := 0
  isStartup := false
  bankId := none

def structName : String := "UpdateOneofLimitedDecodeAccount"

def accountMergeField (bufLen : ℕ) (msg : UpdateOneofLimitedDecodeAccount) (tag : ℕ)
    (wireType : WireType) (buf : Bytes) :
    Except DecodeError (UpdateOneofLimitedDecodeAccount × Bytes) :=
  match tag with
  | 1 => do
    let (pubkey, buf) ← decodePubkey wireType structName "pubkey" buf
    return ({ msg with pubkey }, buf)
  | 2 => do
    let (lamports, buf) ← atField structName "lamports" (uint64.merge wireType buf)
    return ({ msg with lamports }, buf)
  | 3 => do
    let (owner, buf) ← decodePubkey wireType structName "owner" buf
    return ({ msg with owner }, buf)
  | 4 => do
    let (executable, buf) ← atField structName "executable" (bool.merge wireType buf)
    return ({ msg with executable }, buf)
  | 5 => do
    let (rentEpoch, buf) ← atField structName "rent_epoch" (uint64.merge wireType buf)
    return ({ msg with rentEpoch }, buf)
  | 6 => do
    checkWireType .lengthDelimited wireType
    let (data, buf) ← delimitedRange (decodeError "buffer underflow" structName "data") bufLen buf
    return ({ msg with data }, buf)
  | 7 => do
    let writeVersion := bufLen - buf.length
    let (_, buf) ← atField structName "write_version" (uint64.merge wireType buf)
    return ({ msg with writeVersion }, buf)
  | 8 => do
    let (offset, buf) ← signatureOffset structName "txn_signature" wireType bufLen buf
    return ({ msg with txnSignatureOffset := some offset }, buf)
  | tag => do return (msg, ← skipField wireType tag buf)

def accountMerge (bufLen : ℕ) (msg : UpdateOneofLimitedDecodeAccount) (buf : Bytes) :
    Except DecodeError (UpdateOneofLimitedDecodeAccount × Bytes) := do
  let (len, buf) ← decodeVarint buf
  if buf.length < len then throw (createDecodeError "buffer underflow")
  let limit := buf.length - len
  let (msg, buf) ← mergeLoop (accountMergeField bufLen) limit buf.length msg buf
  if buf.length ≠ limit then throw (createDecodeError "delimited length exceeded")
  return (msg, buf)

def mergeField (bufLen : ℕ) (msg : UpdateOneofLimitedDecodeAccount) (tag : ℕ) (wireType : WireType)
    (buf : Bytes) : Except DecodeError (UpdateOneofLimitedDecodeAccount × Bytes) :=
  match tag with
  | 1 => do
    checkWireType .lengthDelimited wireType
    let account := some (bufLen - buf.length)
    atField structName "account" (accountMerge bufLen { msg with account } buf)
  | 2 => do
    let (slot, buf) ← atField structName "slot" (uint64.merge wireType buf)
    return ({ msg with slot }, buf)
  | 3 => do
    let (isStartup, buf) ← atField structName "is_startup" (bool.merge wireType buf)
    return ({ msg with isStartup }, buf)
  | 4 => do
    let (bankId, buf) ← atField structName "bank_id" (uint64.merge wireType buf)
    return ({ msg with bankId := some bankId }, buf)
  | tag => do return (msg, ← skipField wireType tag buf)

end UpdateOneofLimitedDecodeAccount

/-! ### Slot -/

structure UpdateOneofLimitedDecodeSlot where
  slot : UInt64
  parent : Option UInt64
  status : Int32
  deadError : Option Range
  bankId : Option UInt64

namespace UpdateOneofLimitedDecodeSlot

def default : UpdateOneofLimitedDecodeSlot := ⟨0, none, 0, none, none⟩

def structName : String := "UpdateOneofLimitedDecodeSlot"

def mergeField (bufLen : ℕ) (msg : UpdateOneofLimitedDecodeSlot) (tag : ℕ) (wireType : WireType)
    (buf : Bytes) : Except DecodeError (UpdateOneofLimitedDecodeSlot × Bytes) :=
  match tag with
  | 1 => do
    let (slot, buf) ← atField structName "slot" (uint64.merge wireType buf)
    return ({ msg with slot }, buf)
  | 2 => do
    let (parent, buf) ← atField structName "parent" (uint64.merge wireType buf)
    return ({ msg with parent := some parent }, buf)
  | 3 => do
    let (status, buf) ← atField structName "status" (int32.merge wireType buf)
    return ({ msg with status }, buf)
  | 4 => do
    checkWireType .lengthDelimited wireType
    let (deadError, buf) ←
      delimitedRange (decodeError "buffer underflow" structName "dead_error") bufLen buf
    return ({ msg with deadError := some deadError }, buf)
  | 5 => do
    let (bankId, buf) ← atField structName "bank_id" (uint64.merge wireType buf)
    return ({ msg with bankId := some bankId }, buf)
  | tag => do return (msg, ← skipField wireType tag buf)

end UpdateOneofLimitedDecodeSlot

/-! ### Transaction -/

structure UpdateOneofLimitedDecodeTransaction where
  transaction : Option Range
  slot : UInt64
  bankId : UInt64

namespace UpdateOneofLimitedDecodeTransaction

def default : UpdateOneofLimitedDecodeTransaction := ⟨none, 0, 0⟩

def structName : String := "UpdateOneofLimitedDecodeTransaction"

def mergeField (bufLen : ℕ) (msg : UpdateOneofLimitedDecodeTransaction) (tag : ℕ)
    (wireType : WireType) (buf : Bytes) :
    Except DecodeError (UpdateOneofLimitedDecodeTransaction × Bytes) :=
  match tag with
  | 1 => do
    checkWireType .lengthDelimited wireType
    let (transaction, buf) ←
      delimitedRange (decodeError "buffer underflow" structName "transaction") bufLen buf
    return ({ msg with transaction := some transaction }, buf)
  | 2 => do
    let (slot, buf) ← atField structName "slot" (uint64.merge wireType buf)
    return ({ msg with slot }, buf)
  | 3 => do
    let (bankId, buf) ← atField structName "bank_id" (uint64.merge wireType buf)
    return ({ msg with bankId }, buf)
  | tag => do return (msg, ← skipField wireType tag buf)

end UpdateOneofLimitedDecodeTransaction

structure UpdateOneofLimitedDecodeTransactionInfo where
  signatureOffset : Option ℕ
  isVote : Bool
  index : UInt64
  accountKeys : Finset Pubkey
  err : Option Range

namespace UpdateOneofLimitedDecodeTransactionInfo

def default : UpdateOneofLimitedDecodeTransactionInfo := ⟨none, false, 0, ∅, none⟩

def structName : String := "UpdateOneofLimitedDecodeTransactionInfo"

/-- One of the account keys. -/
def insertKey (field : String) (msg : UpdateOneofLimitedDecodeTransactionInfo) (wireType : WireType)
    (buf : Bytes) : Except DecodeError (UpdateOneofLimitedDecodeTransactionInfo × Bytes) := do
  let (pubkey, buf) ← decodePubkey wireType structName field buf
  return ({ msg with accountKeys := insert pubkey msg.accountKeys }, buf)

def messageMergeField (msg : UpdateOneofLimitedDecodeTransactionInfo) (tag : ℕ) (wireType : WireType)
    (buf : Bytes) : Except DecodeError (UpdateOneofLimitedDecodeTransactionInfo × Bytes) :=
  match tag with
  | 2 => insertKey "account_keys" msg wireType buf
  | tag => do return (msg, ← skipField wireType tag buf)

def mergeTransactionMessage (msg : UpdateOneofLimitedDecodeTransactionInfo) (buf : Bytes) :
    Except DecodeError (UpdateOneofLimitedDecodeTransactionInfo × Bytes) :=
  mergeLengthDelimited messageMergeField (createDecodeError "buffer underflow") msg buf

def transactionMergeField (msg : UpdateOneofLimitedDecodeTransactionInfo) (tag : ℕ)
    (wireType : WireType) (buf : Bytes) :
    Except DecodeError (UpdateOneofLimitedDecodeTransactionInfo × Bytes) :=
  match tag with
  | 2 => do
    checkWireType .lengthDelimited wireType
    mergeTransactionMessage msg buf
  | tag => do return (msg, ← skipField wireType tag buf)

def mergeTransaction (msg : UpdateOneofLimitedDecodeTransactionInfo) (buf : Bytes) :
    Except DecodeError (UpdateOneofLimitedDecodeTransactionInfo × Bytes) :=
  mergeLengthDelimited transactionMergeField (createDecodeError "buffer underflow") msg buf

def metaMergeField (bufLen : ℕ) (msg : UpdateOneofLimitedDecodeTransactionInfo) (tag : ℕ)
    (wireType : WireType) (buf : Bytes) :
    Except DecodeError (UpdateOneofLimitedDecodeTransactionInfo × Bytes) :=
  match tag with
  | 1 => do
    checkWireType .lengthDelimited wireType
    let (err, buf) ← delimitedRange (createDecodeError "buffer underflow") bufLen buf
    return ({ msg with err := some err }, buf)
  | 12 => insertKey "loaded_writable_addresses" msg wireType buf
  | 13 => insertKey "loaded_readonly_addresses" msg wireType buf
  | tag => do return (msg, ← skipField wireType tag buf)

def mergeMeta (bufLen : ℕ) (msg : UpdateOneofLimitedDecodeTransactionInfo) (buf : Bytes) :
    Except DecodeError (UpdateOneofLimitedDecodeTransactionInfo × Bytes) :=
  mergeLengthDelimited (metaMergeField bufLen) (createDecodeError "buffer underflow") msg buf

def mergeField (bufLen : ℕ) (msg : UpdateOneofLimitedDecodeTransactionInfo) (tag : ℕ)
    (wireType : WireType) (buf : Bytes) :
    Except DecodeError (UpdateOneofLimitedDecodeTransactionInfo × Bytes) :=
  match tag with
  | 1 => do
    let (offset, buf) ← Filter.signatureOffset structName "signature" wireType bufLen buf
    return ({ msg with signatureOffset := some offset }, buf)
  | 2 => do
    let (isVote, buf) ← atField structName "is_vote" (bool.merge wireType buf)
    return ({ msg with isVote }, buf)
  | 3 => do
    checkWireType .lengthDelimited wireType
    atField structName "transaction" (mergeTransaction msg buf)
  | 4 => do
    checkWireType .lengthDelimited wireType
    atField structName "meta" (mergeMeta bufLen msg buf)
  | 5 => do
    let (index, buf) ← atField structName "index" (uint64.merge wireType buf)
    return ({ msg with index }, buf)
  | tag => do return (msg, ← skipField wireType tag buf)

end UpdateOneofLimitedDecodeTransactionInfo

/-! ### Entry -/

structure UpdateOneofLimitedDecodeEntry where
  slot : UInt64
  index : UInt64
  executedTransactionCount : UInt64
  bankId : UInt64

namespace UpdateOneofLimitedDecodeEntry

def default : UpdateOneofLimitedDecodeEntry := ⟨0, 0, 0, 0⟩

def structName : String := "UpdateOneofLimitedDecodeEntry"

def mergeField (bufLen : ℕ) (msg : UpdateOneofLimitedDecodeEntry) (tag : ℕ) (wireType : WireType)
    (buf : Bytes) : Except DecodeError (UpdateOneofLimitedDecodeEntry × Bytes) :=
  match tag with
  | 1 => do
    let (slot, buf) ← atField structName "slot" (uint64.merge wireType buf)
    return ({ msg with slot }, buf)
  | 2 => do
    let (index, buf) ← atField structName "index" (uint64.merge wireType buf)
    return ({ msg with index }, buf)
  | 3 => do
    let (_, buf) ← atField structName "num_hashes" (uint64.merge wireType buf)
    return (msg, buf)
  | 4 => do
    checkWireType .lengthDelimited wireType
    let (_, buf) ← delimitedRange (decodeError "buffer underflow" structName "hash") bufLen buf
    return (msg, buf)
  | 5 => do
    let (executedTransactionCount, buf) ←
      atField structName "executed_transaction_count" (uint64.merge wireType buf)
    return ({ msg with executedTransactionCount }, buf)
  | 6 => do
    let (_, buf) ← atField structName "starting_transaction_index" (uint64.merge wireType buf)
    return (msg, buf)
  | 7 => do
    let (bankId, buf) ← atField structName "bank_id" (uint64.merge wireType buf)
    return ({ msg with bankId }, buf)
  | tag => do return (msg, ← skipField wireType tag buf)

end UpdateOneofLimitedDecodeEntry

end Richat.Filter
