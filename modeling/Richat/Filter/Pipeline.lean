import Richat.Channel.NoPanic
import Richat.Convert.Wire
import Richat.Filter.Message

/-!
# From the bytes of a source to the channel

A message of the filters is pushed to the channel, which looks at a part of it (`Message.toChannel`). A
source is a list of byte strings; what its parser does not accept is not pushed.
-/

namespace Richat.Filter

open Lib Lib.Protobuf

/-! ### What the channel sees of a message -/

def slotStatusAsI32 : SlotStatus → Int32
  | .slotProcessed => 0
  | .slotConfirmed => 1
  | .slotFinalized => 2
  | .slotFirstShredReceived => 3
  | .slotCompleted => 4
  | .slotCreatedBank => 5
  | .slotDead => 6

def timestampToChannel (createdAt : Proto.Timestamp) : Timestamp :=
  ⟨createdAt.seconds.toInt, createdAt.nanos.toInt⟩

def ProstSlot.update (msg : ProstSlot) : Proto.SubscribeUpdateSlot where
  slot := msg.slot
  parent := msg.parent
  status := slotStatusAsI32 msg.status
  deadError := msg.deadError
  bankId := msg.bankId

def MessageSlot.toChannel (msg : MessageSlot) : Richat.MessageSlot where
  slot := msg.slot.toNat
  status := msg.status
  bankId := msg.bankId.map (·.toNat)
  body :=
    match msg with
    | limited msg => slice msg.buffer msg.range
    | prost msg => WireMessage.encodeRaw msg.update

def MessageAccount.isStartup : MessageAccount → Bool
  | limited msg => msg.isStartup
  | prost msg => msg.isStartup

def MessageAccount.toChannel (msg : MessageAccount) : Richat.MessageAccount where
  slot := msg.slot.toNat
  bankId := msg.bankId.map (·.toNat)
  pubkey := msg.pubkey
  owner := msg.owner
  lamports := msg.lamports.toNat
  executable := msg.executable
  rentEpoch := msg.rentEpoch.toNat
  data := msg.data
  writeVersion := (msg.writeVersion.getD 0).toNat
  txnSignature := msg.txnSignature
  isStartup := msg.isStartup

/-- The bank of a message, `0` for none. -/
def bankIdToChannel (bankId : Option UInt64) : BankId := (bankId.getD 0).toNat

def MessageTransaction.toChannel (msg : MessageTransaction) : Richat.MessageTransaction where
  slot := msg.slot.toNat
  bankId := bankIdToChannel msg.bankId
  signatureBytes := msg.signatureRef
  index := msg.index.toNat
  body :=
    match msg with
    | limited msg => slice msg.buffer msg.transactionRange
    | prost msg => WireMessage.encodeRaw msg.transaction

def MessageEntry.toChannel (msg : MessageEntry) : Richat.MessageEntry where
  slot := msg.slot.toNat
  bankId := bankIdToChannel msg.bankId
  index := msg.index.toNat
  body :=
    match msg with
    | limited msg => slice msg.buffer msg.range
    | prost msg => WireMessage.encodeRaw msg.entry

def MessageBlockMeta.toChannel (msg : MessageBlockMeta) : Richat.MessageBlockMeta where
  slot := msg.slot.toNat
  bankId := bankIdToChannel msg.bankId
  executedTransactionCount := msg.executedTransactionCount.toNat
  entriesCount := msg.entriesCount.toNat
  createdAt := timestampToChannel msg.createdAt.timestamp
  body := WireMessage.encodeRaw msg.blockMeta

def MessageBlock.toChannel (msg : MessageBlock) : Richat.MessageBlock where
  accounts := msg.accounts.map (·.toChannel)
  transactions := msg.transactions.map (·.toChannel)
  entries := msg.entries.map (·.toChannel)
  blockMeta := msg.blockMeta.toChannel
  createdAt := timestampToChannel msg.createdAt.timestamp

def MessageBlockFooter.toChannel (msg : MessageBlockFooter) : Richat.MessageBlockFooter where
  slot := msg.slot.toNat
  bankId := bankIdToChannel msg.bankId
  body := WireMessage.encodeRaw msg.footer

def MessageEntryUpdateParent.toChannel (msg : MessageEntryUpdateParent) :
    Richat.MessageEntryUpdateParent where
  slot := msg.slot.toNat
  clearedBankId := msg.clearedBankId.toNat
  body := WireMessage.encodeRaw msg.update

namespace Message

def toChannel : Message → Richat.Message
  | slot msg => .slot msg.toChannel
  | account msg => .account msg.toChannel
  | transaction msg => .transaction msg.toChannel
  | entry msg => .entry msg.toChannel
  | blockMeta msg => .blockMeta msg.toChannel
  | block msg => .block msg.toChannel
  | blockFooter msg => .blockFooter msg.toChannel
  | entryUpdateParent msg => .entryUpdateParent msg.toChannel

theorem slotOf_toChannel (message : Message) : message.toChannel.slotOf = message.slotOf.toNat := by
  cases message <;> rfl

theorem nonzeroBankId_toChannel (bankId : UInt64) :
    Richat.nonzeroBankId (bankIdToChannel (nonzeroBankId bankId)) =
      (nonzeroBankId bankId).map (·.toNat) := by
  unfold Filter.nonzeroBankId bankIdToChannel Richat.nonzeroBankId
  split
  · rfl
  · rename_i hne
    have hne' : bankId.toNat ≠ 0 := fun h => hne (UInt64.toNat_inj.mp h)
    simp [hne']

/-- The channel sees the bank that the accessor gives. -/
theorem rawBankId_toChannel (message : Message) :
    message.toChannel.rawBankId = message.bankId.map (·.toNat) := by
  cases message with
  | transaction msg => cases msg <;> exact nonzeroBankId_toChannel _
  | entry msg => cases msg <;> exact nonzeroBankId_toChannel _
  | blockMeta msg => exact nonzeroBankId_toChannel _
  | block msg => exact nonzeroBankId_toChannel _
  | blockFooter msg => exact nonzeroBankId_toChannel _
  | _ => rfl

end Message

/-! ### Pushes -/

/-- What comes from a source. -/
structure Received where
  encoding : MessageParserEncoding
  data : Bytes
  dedupRequired : Bool
  sourceName : SourceName

/-- A message that is accepted is pushed. -/
def receive (gen : Generated) (cfg : Config) : Step Sender Received Effect Panic := fun s input =>
  match Message.parse gen input.data input.encoding with
  | .error _ => .ok (s, [])
  | .ok message => s.push cfg ⟨input.dedupRequired, input.sourceName, message.toChannel⟩

/-- The write version stands in the nested message, whose length is written in the shortest form: then
`update_write_version` finds both where it looks for them. -/
def LimitedAccount.rewritable (msg : LimitedAccount) : Bool :=
  msg.accountOffset < msg.writeVersion &&
    match decodeVarint (msg.buffer.drop msg.accountOffset) with
    | .ok (len, rest) => (msg.buffer.length - msg.accountOffset) - rest.length = encodedLenVarint len
    | .error _ => false

/-- What deduplication overwrites is there, and what it makes room for can be allocated. -/
def Message.dedupable : Message → Bool
  | .account (.limited msg) => msg.rewritable
  | .entry msg => msg.index.toNat ≤ 2 ^ 62
  | _ => true

/-- The push of what is received does not panic. -/
def takesReceived (gen : Generated) (s : Sender) (input : Received) : Bool :=
  match Message.parse gen input.data input.encoding with
  | .error _ => true
  | .ok message =>
    (!input.dedupRequired || message.dedupable) &&
      s.takes ⟨input.dedupRequired, input.sourceName, message.toChannel⟩

variable {gen : Generated} {cfg : Config} {s : Sender} {input : Received} {inputs : List Received}

theorem receive_ok (h : takesReceived gen s input = true) :
    ∃ s' effects, receive gen cfg s input = .ok (s', effects) := by
  unfold receive
  unfold takesReceived at h
  cases hparse : Message.parse gen input.data input.encoding with
  | error e => exact ⟨s, [], rfl⟩
  | ok message =>
    rw [hparse] at h
    obtain ⟨⟨s', effects⟩, hpush⟩ := Sender.push_ok_iff.mpr (Bool.and_eq_true_iff.mp h).2
    exact ⟨s', effects, hpush⟩

theorem run_receive_ok : ∀ {inputs : List Received} {s : Sender},
    AllSteps (receive gen cfg) (fun s input => takesReceived gen s input = true) s inputs →
      ∃ s' effects, run (receive gen cfg) s inputs = .ok (s', effects)
  | [], s, _ => ⟨s, [], rfl⟩
  | input :: inputs, s, h => by
    obtain ⟨s₁, effects₁, h₁⟩ : ∃ s' effects, receive gen cfg s input = .ok (s', effects) :=
      receive_ok h.1
    obtain ⟨s₂, effects₂, h₂⟩ := run_receive_ok (h.2 s₁ effects₁ h₁)
    exact ⟨s₂, _, run_cons_ok.mpr ⟨s₁, effects₁, effects₂, h₁, h₂, rfl⟩⟩

/-- The decoders of a source that only sends this update. -/
def Generated.only (update : Proto.SubscribeUpdate) : Generated where
  subscribeUpdate data :=
    if data = WireMessage.encodeRaw update then .ok update else .error (.new .invalidVarint)
  subscribeUpdateRichat _ := .error (.new .invalidVarint)
  transactionInfo _ := .error (.new .invalidVarint)
  transactionError _ := .error (.new .invalidVarint)
  blockMeta _ := .error (.new .invalidVarint)
  blockFooter _ := .error (.new .invalidVarint)
  entryUpdateParent _ := .error (.new .invalidVarint)
  createBlockFooterFromWincode _ _ _ := .error "failed to deserialize block footer"

/-- An update at slot `5` of the bank `1`. -/
def accountUpdate (writeVersion : UInt64) (txnSignature : Option Bytes) : Proto.SubscribeUpdate where
  filters := []
  updateOneof := some (.account
    { account := some
        { pubkey := List.replicate 32 1
          lamports := 7
          owner := List.replicate 32 2
          executable := false
          rentEpoch := 0
          data := [1, 2, 3]
          writeVersion
          txnSignature }
      slot := 5
      isStartup := false
      bankId := some 1 })
  createdAt := some ⟨1, 0⟩

def transactionUpdate (signature : Bytes) : Proto.SubscribeUpdate where
  filters := []
  updateOneof := some (.transaction
    { transaction := some
        { signature
          isVote := false
          transaction := none
          statusMeta := none
          index := 0 }
      slot := 5
      bankId := 1 })
  createdAt := some ⟨1, 0⟩

def emptyBlockUpdate : Proto.SubscribeUpdate where
  filters := []
  updateOneof := some (.block
    { slot := 5
      blockhash := ""
      rewards := none
      blockTime := none
      blockHeight := some ⟨4⟩
      parentSlot := 4
      parentBlockhash := ""
      executedTransactionCount := 0
      transactions := []
      updatedAccountCount := 0
      accounts := []
      entriesCount := 0
      entries := []
      bankId := 1 })
  createdAt := some ⟨1, 0⟩

/-- The update as a source sends it. -/
def receivedUpdate (encoding : MessageParserEncoding) (dedupRequired : Bool)
    (update : Proto.SubscribeUpdate) : Received :=
  ⟨encoding, WireMessage.encodeRaw update, dedupRequired, "source"⟩

/-- An account update and its transaction, from the limited parser. -/
def signedUpdates : List Received :=
  [receivedUpdate .limited true (accountUpdate 9 (some (List.replicate 64 3))),
    receivedUpdate .limited true (transactionUpdate (List.replicate 64 3))]

/-- The panic of a push. -/
def panicOf {α : Type} : Except Panic α → Option Panic
  | .ok _ => none
  | .error e => some e

end Richat.Filter
