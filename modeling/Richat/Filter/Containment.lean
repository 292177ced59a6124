import Richat.Filter.EncodeSpec
import Richat.Filter.ParseSpec
import Richat.Lib.ProtobufMerge

/-!
# What a parsed message points to

The limited parser with its slices, each of which panics when it is out of range (`parseChecked`), and what the places
that it stores are for: a range lies in the bytes of its own nested message. `Contained` is what is promised of a
message, `Sound` what the bytes must be for it.
-/

namespace Richat.Filter

open Lib Lib.Protobuf

/-! ### The parser with its slices -/

/-- A result of the parser, or a panic. -/
abbrev Parsed := ExceptT MessageParseError (Except FilterPanic)

/-- `&data.as_slice()[range.start..range.end]` -/
def sliceData (data : Bytes) (range : Range) : Parsed Bytes := ExceptT.lift (indexRange data range)

namespace MessageParserLimited

def parseTransactionChecked (gen : Generated) (data : Bytes) (createdAt : Proto.Timestamp) (range : Range) :
    Parsed Message := do
  let body ← sliceData data range
  let message ← liftExcept
    (ofDecode (limitedDecode UpdateOneofLimitedDecodeTransaction.mergeField .default body))
  let some transaction := message.transaction | throw (.fieldNotDefined "transaction")
  let transactionRange := transaction.shift range.start
  let info ← sliceData data transactionRange
  let txInfo ← liftExcept
    (ofDecode (limitedDecode UpdateOneofLimitedDecodeTransactionInfo.mergeField .default info))
  let error ← match txInfo.err with
    | none => pure none
    | some err => do
      let bytes ← sliceData data (err.shift transactionRange.start)
      some <$> liftExcept (ofDecode (gen.transactionError bytes))
  return .transaction (.limited
    { signatureOffset := txInfo.signatureOffset.map (transactionRange.start + ·)
      error
      accountKeys := txInfo.accountKeys
      isVote := txInfo.isVote
      index := txInfo.index
      transactionRange
      slot := message.slot
      bankId := message.bankId
      createdAt
      buffer := data
      range })

/-- The kinds that are not looked at. -/
def refused : UpdateKind → Option String
  | .transactionStatus => some "TransactionStatus"
  | .block => some "Block"
  | .ping => some "Ping"
  | .pong => some "Pong"
  | _ => none

def parseChecked (gen : Generated) (data : Bytes) : Parsed Message := do
  let update ← liftExcept (ofDecode (limitedDecode SubscribeUpdateLimitedDecode.mergeField .default data))
  let some createdAt := update.createdAt | throw (.fieldNotDefined "created_at")
  match update.updateOneof with
  | none =>
    if update.richatUpdate then
      liftExcept (do Message.parseRichat gen (← ofDecode (gen.subscribeUpdateRichat data)) .limited)
    else throw (.fieldNotDefined "update_oneof")
  | some ⟨kind, range⟩ =>
    match refused kind with
    | some name => throw (.invalidUpdateMessage name)
    | none =>
      if kind = .transaction then parseTransactionChecked gen data createdAt range
      else do
        -- the others only slice their own message
        let _ ← sliceData data range
        liftExcept (parseUpdate gen data createdAt ⟨kind, range⟩)

end MessageParserLimited

/-! ### A decoder that looks where the nested messages end -/

namespace UpdateOneofLimitedDecodeTransactionInfo

/-- `mergeLengthDelimited` with a look at where the last field ends. -/
def mergeExact (mergeField : UpdateOneofLimitedDecodeTransactionInfo → ℕ → WireType → Bytes →
      Except DecodeError (UpdateOneofLimitedDecodeTransactionInfo × Bytes))
    (msg : UpdateOneofLimitedDecodeTransactionInfo) (buf : Bytes) :
    Except DecodeError (UpdateOneofLimitedDecodeTransactionInfo × Bytes) := do
  let (len, buf) ← decodeVarint buf
  if buf.length < len then throw (createDecodeError "buffer underflow")
  let limit := buf.length - len
  let (msg, buf) ← mergeLoop mergeField limit buf.length msg buf
  if buf.length ≠ limit then throw (createDecodeError "delimited length exceeded")
  return (msg, buf)

def transactionMergeFieldExact (msg : UpdateOneofLimitedDecodeTransactionInfo) (tag : ℕ) (wireType : WireType)
    (buf : Bytes) : Except DecodeError (UpdateOneofLimitedDecodeTransactionInfo × Bytes) :=
  match tag with
  | 2 => do
    checkWireType .lengthDelimited wireType
    mergeExact messageMergeField msg buf
  | tag => do return (msg, ← skipField wireType tag buf)

/-- `mergeField`, and every nested message stops at its declared end. -/
def mergeFieldExact (bufLen : ℕ) (msg : UpdateOneofLimitedDecodeTransactionInfo) (tag : ℕ) (wireType : WireType)
    (buf : Bytes) : Except DecodeError (UpdateOneofLimitedDecodeTransactionInfo × Bytes) :=
  match tag with
  | 3 => do
    checkWireType .lengthDelimited wireType
    atField structName "transaction" (mergeExact transactionMergeFieldExact msg buf)
  | 4 => do
    checkWireType .lengthDelimited wireType
    atField structName "meta" (mergeExact (metaMergeField bufLen) msg buf)
  | tag => mergeField bufLen msg tag wireType buf

end UpdateOneofLimitedDecodeTransactionInfo

/-! ### What is promised of a message -/

/-- The range is one of the buffer. -/
def Range.In (range : Range) (buffer : Bytes) : Prop := range.start ≤ range.stop ∧ range.stop ≤ buffer.length

/-- The bytes of the range are bytes of the other one. -/
def Range.Within (range outer : Range) : Prop :=
  range.start < range.stop → outer.start ≤ range.start ∧ range.stop ≤ outer.stop

/-- The bytes of the range, in a message that starts at `offset`, belong to a field of the tag. -/
def Range.InField (range : Range) (body : Bytes) (offset tag : ℕ) : Prop :=
  range.start < range.stop → ∃ content after, HasMessage body tag content after ∧
    range.Within ((place body.length content after).shift offset)

def IsUtf8 (bytes : Bytes) : Prop := ∃ text, utf8 text = bytes

/-- A varint stands there, up to `stop`. -/
def VarintStands (buffer : Bytes) (offset stop : ℕ) : Prop :=
  ∃ n rest, decodeVarint (buffer.drop offset) = .ok (n, rest) ∧ stop + rest.length = buffer.length

/-- The tags of `update_oneof`. -/
def IsUpdateTag (tag : ℕ) : Prop := (UpdateKind.ofTag tag).isSome = true

/-- The nested message of the update, of which the last one counts. -/
def IsUpdate (data : Bytes) (kind : UpdateKind) (body after : Bytes) : Prop :=
  ∃ tag, LastMessage IsUpdateTag data tag body after ∧ UpdateKind.ofTag tag = some kind

/-- The range is the one of the nested message of the update. -/
def IsUpdateRange (data : Bytes) (kind : UpdateKind) (range : Range) : Prop :=
  range.In data ∧ ∃ body after, IsUpdate data kind body after ∧ range = place data.length body after

structure SlotContained (data : Bytes) (msg : LimitedSlot) : Prop where
  buffer : msg.buffer = data
  range : IsUpdateRange data .slot msg.range
  deadError : ∀ text ∈ msg.deadError, text.In data ∧ text.Within msg.range ∧ IsUtf8 (slice data text)
  accessors : ∀ text ∈ msg.deadError, Succeeds (indexRange msg.buffer text)

structure AccountContained (data : Bytes) (msg : LimitedAccount) : Prop where
  buffer : msg.buffer = data
  range : IsUpdateRange data .account msg.range
  accountOffset : ∃ stop, VarintStands data msg.accountOffset stop ∧
    Range.Within ⟨msg.accountOffset, stop⟩ msg.range
  accountData : msg.data.In data ∧ msg.data.InField (slice data msg.range) msg.range.start 1
  txnSignature : ∀ offset ∈ msg.txnSignatureOffset, Range.In ⟨offset, offset + signatureBytes⟩ data ∧
    Range.InField ⟨offset, offset + signatureBytes⟩ (slice data msg.range) msg.range.start 1
  writeVersion : ∃ stop, msg.writeVersion < stop ∧ VarintStands data msg.writeVersion stop ∧
    Range.InField ⟨msg.writeVersion, stop⟩ (slice data msg.range) msg.range.start 1
  accessors : Succeeds (indexRange msg.buffer msg.data) ∧ Succeeds (indexVarint msg.buffer msg.writeVersion) ∧
    ∀ offset ∈ msg.txnSignatureOffset, Succeeds (indexRange msg.buffer ⟨offset, offset + signatureBytes⟩)

structure TransactionContained (data : Bytes) (msg : LimitedTransaction) : Prop where
  buffer : msg.buffer = data
  range : IsUpdateRange data .transaction msg.range
  transaction : msg.transactionRange.In data ∧
    msg.transactionRange.InField (slice data msg.range) msg.range.start 1
  signature : ∀ offset ∈ msg.signatureOffset, Range.In ⟨offset, offset + signatureBytes⟩ data ∧
    Range.Within ⟨offset, offset + signatureBytes⟩ msg.transactionRange
  /-- every nested loop stops at the declared end -/
  exact : ∃ info, limitedDecode UpdateOneofLimitedDecodeTransactionInfo.mergeFieldExact .default
    (slice data msg.transactionRange) = .ok info
  error : ∀ info, limitedDecode UpdateOneofLimitedDecodeTransactionInfo.mergeField .default
      (slice data msg.transactionRange) = .ok info → ∀ err ∈ info.err,
    (err.shift msg.transactionRange.start).In data ∧ err.InField (slice data msg.transactionRange) 0 4
  accessors : Succeeds (indexSignature (.limited msg))

/-- Every place that is stored is in the buffer and in the bytes that it is about, and no accessor panics. -/
def Contained (data : Bytes) : Message → Prop
  | .slot (.limited msg) => SlotContained data msg
  | .account (.limited msg) => AccountContained data msg
  | .transaction (.limited msg) => TransactionContained data msg
  | .entry (.limited msg) => msg.buffer = data ∧ IsUpdateRange data .entry msg.range
  | .blockMeta (.limited msg) => msg.buffer = data ∧ IsUpdateRange data .blockMeta msg.range
  | .blockFooter _ => True
  | .entryUpdateParent _ => True
  | _ => False

/-! ### What the bytes must be -/

/-- Every nested message of a transaction is made of whole fields. -/
def Framed (info : Bytes) : Prop :=
  (∀ content after, HasMessage info 3 content after →
    WholeFields content ∧ ∀ message rest, HasMessage content 2 message rest → WholeFields message) ∧
  ∀ content after, HasMessage info 4 content after → WholeFields content

structure Sound (data : Bytes) : Prop where
  /-- the text of the error, if there is one, is looked for at its place in the message of the slot -/
  slot : ∀ body after, IsUpdate data .slot body after → ∀ text rest, LastMessage (· = 4) body 4 text rest →
    (place body.length text rest).Within (place data.length body after) ∧
      IsUtf8 (slice data (place body.length text rest))
  account : ∀ body after, IsUpdate data .account body after →
    ∃ account rest, HasMessage body 1 account rest ∧ HasTag account 7
  transaction : ∀ body after, IsUpdate data .transaction body after → ∀ info rest,
    LastMessage (· = 1) body 1 info rest → HasTag info 1 ∧ Framed info

end Richat.Filter
