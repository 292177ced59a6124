import Mathlib.Tactic

/-!
# Messages

The messages of an upstream source, with what the channel reads of them: slot, bank, and the fields
that identify the event or order the updates of an account. What the channel carries along without
looking at it is one field `body`. A message that the channel holds is behind an `Arc`; the
allocation is part of `ParsedMessage`, because the storage tells payloads apart by it.

Both parsers fill the same fields. Where a message of the `Limited` parser can lack one that a
`Prost` message always has (the signature of a transaction), the field is optional.
-/

namespace Richat

abbrev Slot := ℕ
abbrev BankId := ℕ
abbrev Bytes := List UInt8

/-- A public key: 32 bytes. -/
abbrev Pubkey := { bytes : Bytes // bytes.length = 32 }

/-- `Pubkey::default`: all bytes zero. -/
instance Pubkey.instInhabited : Inhabited Pubkey := ⟨List.replicate 32 0, List.length_replicate⟩

instance Pubkey.instLawfulBEq : LawfulBEq Pubkey := inferInstance

/-- A transaction signature: 64 bytes. -/
abbrev Signature := { bytes : Bytes // bytes.length = 64 }

/-- `Signature::try_from`. -/
def Signature.tryFrom (bytes : Bytes) : Option Signature :=
  if h : bytes.length = 64 then some ⟨bytes, h⟩ else none

/-- The panics that a pushed message can run into. -/
inductive Panic where
  /-- `unreachable!()` -/
  | unreachable
  /-- `expect("valid signature")`: the signature of an account update -/
  | validSignature
  /-- `expect("signature must be 64 bytes")`: the signature of a transaction -/
  | signatureLength
  /-- `panic!("transaction should have valid signature")` -/
  | noSignature
  /-- an index into a vector that is not below its length -/
  | indexOutOfBounds (index len : ℕ)
  deriving DecidableEq, Repr

inductive CommitmentLevel where
  | processed | confirmed | finalized
  deriving DecidableEq, Repr

inductive SlotStatus where
  | slotProcessed | slotConfirmed | slotFinalized | slotFirstShredReceived | slotCompleted
  | slotCreatedBank | slotDead
  deriving DecidableEq, Repr

structure Timestamp where
  seconds : ℤ
  nanos : ℤ
  deriving DecidableEq, Repr

structure MessageSlot where
  slot : Slot
  status : SlotStatus
  bankId : Option BankId
  body : Bytes
  deriving DecidableEq

structure MessageAccount where
  slot : Slot
  bankId : Option BankId
  pubkey : Pubkey
  owner : Pubkey
  lamports : ℕ
  executable : Bool
  rentEpoch : ℕ
  data : Bytes
  writeVersion : ℕ
  txnSignature : Option Bytes
  isStartup : Bool
  deriving DecidableEq

def MessageAccount.updateWriteVersion (msg : MessageAccount) (writeVersion : ℕ) : MessageAccount :=
  { msg with writeVersion }

structure MessageTransaction where
  slot : Slot
  bankId : BankId
  signatureBytes : Option Bytes
  index : ℕ
  body : Bytes
  deriving DecidableEq

/-- The signature as raw bytes. -/
def MessageTransaction.signatureRef (msg : MessageTransaction) : Except Panic Bytes :=
  match msg.signatureBytes with
  | some bytes => .ok bytes
  | none => .error .noSignature

def MessageTransaction.signature (msg : MessageTransaction) : Except Panic Signature :=
  match msg.signatureRef with
  | .error e => .error e
  | .ok bytes =>
    match Signature.tryFrom bytes with
    | some signature => .ok signature
    | none => .error .signatureLength

structure MessageEntry where
  slot : Slot
  bankId : BankId
  index : ℕ
  body : Bytes
  deriving DecidableEq

structure MessageBlockMeta where
  slot : Slot
  bankId : BankId
  executedTransactionCount : ℕ
  entriesCount : ℕ
  createdAt : Timestamp
  body : Bytes
  deriving DecidableEq

structure MessageBlock where
  accounts : List MessageAccount
  transactions : List MessageTransaction
  entries : List MessageEntry
  blockMeta : MessageBlockMeta
  createdAt : Timestamp
  deriving DecidableEq

def MessageBlock.slot (msg : MessageBlock) : Slot := msg.blockMeta.slot
def MessageBlock.bankId (msg : MessageBlock) : BankId := msg.blockMeta.bankId

structure MessageBlockFooter where
  slot : Slot
  bankId : BankId
  body : Bytes
  deriving DecidableEq

/-- The bank `clearedBankId` of the slot is replaced, all its messages are invalid. -/
structure MessageEntryUpdateParent where
  slot : Slot
  clearedBankId : BankId
  body : Bytes
  deriving DecidableEq

inductive Message where
  | slot (msg : MessageSlot)
  | account (msg : MessageAccount)
  | transaction (msg : MessageTransaction)
  | entry (msg : MessageEntry)
  | blockMeta (msg : MessageBlockMeta)
  | block (msg : MessageBlock)
  | blockFooter (msg : MessageBlockFooter)
  | entryUpdateParent (msg : MessageEntryUpdateParent)
  deriving DecidableEq

def nonzeroBankId (bankId : BankId) : Option BankId := if bankId = 0 then none else some bankId

namespace Message

/-- The slot of the message, `Message::slot`. -/
@[simp] def slotOf : Message → Slot
  | slot msg => msg.slot
  | account msg => msg.slot
  | transaction msg => msg.slot
  | entry msg => msg.slot
  | blockMeta msg => msg.slot
  | block msg => msg.slot
  | blockFooter msg => msg.slot
  | entryUpdateParent msg => msg.slot

/-- `Message::bank_id`: the bank of the message, for `EntryUpdateParent` the cleared one. -/
def rawBankId : Message → Option BankId
  | slot msg => msg.bankId
  | account msg => msg.bankId
  | transaction msg => nonzeroBankId msg.bankId
  | entry msg => nonzeroBankId msg.bankId
  | blockMeta msg => nonzeroBankId msg.bankId
  | block msg => nonzeroBankId msg.bankId
  | blockFooter msg => nonzeroBankId msg.bankId
  | entryUpdateParent msg => some msg.clearedBankId

/-- The bank of the message as the channel sees it: the bank `0` is no bank. -/
def bankId (message : Message) : Option BankId := message.rawBankId.filter (· ≠ 0)

@[simp] def isSlot : Message → Bool
  | slot _ => true
  | _ => false

@[simp] def isEntryUpdateParent : Message → Bool
  | entryUpdateParent _ => true
  | _ => false

@[simp] def isAccount : Message → Bool
  | account _ => true
  | _ => false

@[simp] def isBlock : Message → Bool
  | block _ => true
  | _ => false

end Message

/-- What `get_id` writes into the hasher. -/
inductive HashInput where
  | u64 (value : ℕ)
  | u8 (value : ℕ)
  | status (status : SlotStatus)
  | bytes (value : Bytes)
  deriving DecidableEq

/-- The state of the hasher: a hash for every sequence of writes. -/
abbrev RandomState := List HashInput → ℕ

/-- A message behind its `Arc`. -/
structure ParsedMessage where
  /-- the allocation -/
  arc : ℕ
  message : Message
  deriving DecidableEq

namespace ParsedMessage

def slot (msg : ParsedMessage) : Slot := msg.message.slotOf
def bankId (msg : ParsedMessage) : Option BankId := msg.message.bankId

def getAccount (msg : ParsedMessage) : Option MessageAccount :=
  match msg.message with
  | .account m => some m
  | _ => none

theorem getAccount_eq_none {msg : ParsedMessage} (h : msg.message.isAccount = false) :
    msg.getAccount = none := by
  unfold getAccount
  split
  · rename_i m hm
    rw [hm] at h
    cases h
  · rfl

def getTransaction (msg : ParsedMessage) : Option MessageTransaction :=
  match msg.message with
  | .transaction m => some m
  | _ => none

def getEntry (msg : ParsedMessage) : Option MessageEntry :=
  match msg.message with
  | .entry m => some m
  | _ => none

/-- The writes that `get_id` hashes: candidates of the same slot carry the same content, but are
different events. -/
def idInputs (msg : ParsedMessage) : Except Panic (List HashInput) :=
  let bank := HashInput.u64 (msg.bankId.getD 0)
  match msg.message with
  | .slot m => .ok [bank, .u8 0, .u64 m.slot, .status m.status]
  | .account m =>
    -- signature doesn't exist for block reward and system account updates
    .ok ([bank, .u8 1, .u64 m.slot, .bytes m.pubkey, .u64 m.writeVersion] ++
      (m.txnSignature.map HashInput.bytes).toList)
  | .transaction m =>
    match m.signatureRef with
    | .ok signature => .ok [bank, .u8 2, .u64 m.slot, .bytes signature]
    | .error e => .error e
  | .entry m => .ok [bank, .u8 3, .u64 m.slot, .u64 m.index]
  | .blockMeta m => .ok [bank, .u8 4, .u64 m.slot]
  | .block m => .ok [bank, .u8 5, .u64 m.slot]
  | .blockFooter m => .ok [bank, .u8 6, .u64 m.slot]
  | .entryUpdateParent m => .ok [bank, .u8 7, .u64 m.slot]

def getId (msg : ParsedMessage) (hasher : RandomState) : Except Panic ℕ :=
  match msg.idInputs with
  | .ok inputs => .ok (hasher inputs)
  | .error e => .error e

end ParsedMessage

end Richat
