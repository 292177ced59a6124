import Richat.Filter.DecodeSpec
import Richat.Filter.Message

/-!
# The two parsers

Both parsers read what prost writes, and `Message.view` are the answers of the accessors of a message. The limited
parser records where the write version of an account stands, which is nowhere when it is zero; and where the error
of a dead slot stands in the message of the slot, which it takes for a place of the whole buffer. `ReadAlike`
excludes this, and then the parsers agree: `parsers_agree_iff`.
-/

namespace Richat

open Lib.Protobuf

/-! ### What prost reads of what it wrote -/

namespace Proto

/-- A zero loses its sign. -/
def UiTokenAmount.readBack (m : UiTokenAmount) : UiTokenAmount :=
  if double.isZero m.uiAmount then { m with uiAmount := 0 } else m

def TokenBalance.readBack (m : TokenBalance) : TokenBalance :=
  { m with uiTokenAmount := m.uiTokenAmount.map (·.readBack) }

def TransactionStatusMeta.readBack (m : TransactionStatusMeta) : TransactionStatusMeta :=
  { m with
    preTokenBalances := m.preTokenBalances.map (·.readBack)
    postTokenBalances := m.postTokenBalances.map (·.readBack) }

def SubscribeUpdateTransactionInfo.readBack (m : SubscribeUpdateTransactionInfo) :
    SubscribeUpdateTransactionInfo :=
  { m with statusMeta := m.statusMeta.map (·.readBack) }

def UpdateOneof.readBack : UpdateOneof → UpdateOneof
  | transaction m => transaction { m with transaction := m.transaction.map (·.readBack) }
  | block m => block { m with transactions := m.transactions.map (·.readBack) }
  | update => update

def SubscribeUpdate.readBack (m : SubscribeUpdate) : SubscribeUpdate :=
  { m with updateOneof := m.updateOneof.map (·.readBack) }

end Proto

namespace Filter

open Proto

/-- The generated decoders read what is written for an update and its parts. -/
structure Generated.Reads (gen : Generated) (u : SubscribeUpdate) : Prop where
  subscribeUpdate : gen.subscribeUpdate (WireMessage.encodeRaw u) = .ok u.readBack
  /-- an update without any of its kinds is one of richat without any of its kinds -/
  subscribeUpdateRichat : u.updateOneof = none →
    gen.subscribeUpdateRichat (WireMessage.encodeRaw u) = .ok ⟨none, u.createdAt⟩
  transactionInfo : ∀ m t, u.updateOneof = some (.transaction m) → m.transaction = some t →
    gen.transactionInfo (WireMessage.encodeRaw t) = .ok t.readBack
  transactionError : ∀ m t statusMeta err, u.updateOneof = some (.transaction m) → m.transaction = some t →
    t.statusMeta = some statusMeta → statusMeta.err = some err →
    gen.transactionError (WireMessage.encodeRaw err) = .ok err
  blockMeta : ∀ m, u.updateOneof = some (.blockMeta m) → gen.blockMeta (WireMessage.encodeRaw m) = .ok m
  blockFooter : ∀ m, u.updateOneof = some (.blockFooter m) → gen.blockFooter (WireMessage.encodeRaw m) = .ok m
  entryUpdateParent : ∀ m, u.updateOneof = some (.entryUpdateParent m) →
    gen.entryUpdateParent (WireMessage.encodeRaw m) = .ok m

/-! ### The answers of the accessors -/

structure AccountView where
  slot : UInt64
  bankId : Option UInt64
  pubkey : Pubkey
  owner : Pubkey
  lamports : UInt64
  executable : Bool
  rentEpoch : UInt64
  data : Bytes
  writeVersion : Option UInt64
  txnSignature : Option Bytes
  nonemptyTxnSignature : Bool

def MessageAccount.view (msg : MessageAccount) : AccountView where
  slot := msg.slot
  bankId := msg.bankId
  pubkey := msg.pubkey
  owner := msg.owner
  lamports := msg.lamports
  executable := msg.executable
  rentEpoch := msg.rentEpoch
  data := msg.data
  writeVersion := msg.writeVersion
  txnSignature := msg.txnSignature
  nonemptyTxnSignature := msg.nonemptyTxnSignature

structure TransactionView where
  slot : UInt64
  bankId : Option UInt64
  signature : Option Bytes
  vote : Bool
  index : UInt64
  error : Option Proto.TransactionError
  failed : Bool
  accountKeys : Finset Pubkey
  transaction : Except String SubscribeUpdateTransactionInfo
  transactionMeta : Except String TransactionStatusMeta

def MessageTransaction.view (gen : Generated) (msg : MessageTransaction) : TransactionView where
  slot := msg.slot
  bankId := msg.bankId
  signature := msg.signatureRef
  vote := msg.vote
  index := msg.index
  error := msg.error
  failed := msg.failed
  accountKeys := msg.accountKeys
  transaction := msg.transaction gen
  transactionMeta := msg.transactionMeta gen

structure EntryView where
  slot : UInt64
  index : UInt64
  executedTransactionCount : UInt64
  bankId : Option UInt64

def MessageEntry.view (msg : MessageEntry) : EntryView where
  slot := msg.slot
  index := msg.index
  executedTransactionCount := msg.executedTransactionCount
  bankId := msg.bankId

/-- The other answers of a block meta are fields of the generated value. -/
structure BlockMetaView where
  blockMeta : SubscribeUpdateBlockMeta
  blockHeight : UInt64

def MessageBlockMeta.view (msg : MessageBlockMeta) : BlockMetaView where
  blockMeta := msg.blockMeta
  blockHeight := msg.blockHeight

inductive MessageView where
  | slot (slot : UInt64) (status : SlotStatus) (parent bankId : Option UInt64) (deadError : Option Bytes)
  | account (view : AccountView)
  | transaction (view : TransactionView)
  | entry (view : EntryView)
  | blockMeta (view : BlockMetaView)
  | block (accounts : List AccountView) (transactions : List TransactionView) (entries : List EntryView)
      (blockMeta : BlockMetaView)
  | blockFooter (footer : SubscribeUpdateBlockFooter)
  | entryUpdateParent (update : SubscribeUpdateEntryUpdateParent)

/-- The kind of the message and the answers of its accessors, with the time of its creation. -/
def Message.view (gen : Generated) (msg : Message) : MessageView × Proto.Timestamp :=
  (match msg with
  | .slot m => .slot m.slot m.status m.parent m.bankId m.deadError
  | .account m => .account m.view
  | .transaction m => .transaction (m.view gen)
  | .entry m => .entry m.view
  | .blockMeta m => .blockMeta m.view
  | .block m => .block (m.accounts.map (·.view)) (m.transactions.map (·.view gen)) (m.entries.map (·.view))
      m.blockMeta.view
  | .blockFooter m => .blockFooter m.footer
  | .entryUpdateParent m => .entryUpdateParent m.update, msg.createdAt.timestamp)

/-- Both fail, or the two messages are of one kind with the same answers. -/
def SameResult (gen : Generated) : Except MessageParseError Message → Except MessageParseError Message → Prop
  | .ok msg, .ok msg' => msg.view gen = msg'.view gen
  | .error _, .error _ => True
  | _, _ => False

def ParsersAgree (gen : Generated) (data : Bytes) : Prop :=
  SameResult gen (Message.parse gen data .limited) (Message.parse gen data .prost)

/-! ### Parts of a buffer -/

theorem slice_eq {data part : Bytes} {range : Range} (h : StandsAt data range.start part)
    (hlen : range.stop = range.start + part.length) : slice data range = part := by
  rw [slice, hlen, Nat.add_sub_cancel_left]
  exact h.take_drop

section

variable {body data value rest : Bytes} {offset : ℕ}

theorem standsAt_place (h : value ++ rest <:+ body) : StandsAt body (place body.length value rest).start value :=
  .of_suffix h

/-- A part of a part. -/
theorem slice_place_shift (hbody : StandsAt data offset body) (h : value ++ rest <:+ body) :
    slice data ((place body.length value rest).shift offset) = value := by
  refine slice_eq (hbody.trans (standsAt_place h)) ?_
  have hle := h.length_le
  rw [List.length_append] at hle
  simp only [place, Range.shift, List.length_append]
  omega

theorem slice_place (h : value ++ rest <:+ body) : slice body (place body.length value rest) = value := by
  have hbody : StandsAt body 0 body := ⟨[], [], (List.append_nil body).symm, rfl⟩
  exact slice_place_shift hbody h

end

/-! ### What the limited decoder finds -/

section

variable {u : SubscribeUpdate} {v : UpdateOneof} {t : Proto.Timestamp} {gen : Generated}

theorem limitedDecode_update (hfits : (WireMessage.encodeRaw u).length < 2 ^ 64) :
    limitedDecode SubscribeUpdateLimitedDecode.mergeField .default (WireMessage.encodeRaw u) =
      .ok ⟨u.updateOneof.map fun v =>
        ⟨kindOf v, place (WireMessage.encodeRaw u).length (bodyOf v) (afterUpdate u)⟩, u.createdAt, false⟩ := by
  have h := (reads_update (WireMessage.encodeRaw u).length u []).mergeAll_eq hfits
  rw [List.append_nil] at h
  exact h

theorem suffix_update (hv : u.updateOneof = some v) : bodyOf v ++ afterUpdate u <:+ WireMessage.encodeRaw u := by
  refine ⟨repeated string.encode 1 u.filters ++ (encodeKey (tagOf v) .lengthDelimited ++
    encodeVarint (bodyOf v).length), ?_⟩
  have hraw : WireMessage.encodeRaw u = repeated string.encode 1 u.filters ++ v.encode ++ afterUpdate u := by
    simp only [WireMessage.encodeRaw, hv]
    rfl
  rw [hraw, encode_eq, bytesEncode]
  simp only [List.append_assoc]

/-- Where the nested message of the update stands. -/
def updateRange (u : SubscribeUpdate) (v : UpdateOneof) : Range :=
  place (WireMessage.encodeRaw u).length (bodyOf v) (afterUpdate u)

theorem standsAt_update (hv : u.updateOneof = some v) :
    StandsAt (WireMessage.encodeRaw u) (updateRange u v).start (bodyOf v) := standsAt_place (suffix_update hv)

theorem slice_update (hv : u.updateOneof = some v) :
    slice (WireMessage.encodeRaw u) (updateRange u v) = bodyOf v := slice_place (suffix_update hv)

theorem length_body_lt (hv : u.updateOneof = some v) (hfits : (WireMessage.encodeRaw u).length < 2 ^ 64) :
    (bodyOf v).length < 2 ^ 64 := by
  have hle := (suffix_update hv).length_le
  rw [List.length_append] at hle
  omega

theorem limitedDecode_slot {m : SubscribeUpdateSlot} (hfits : (WireMessage.encodeRaw m).length < 2 ^ 64) :
    limitedDecode UpdateOneofLimitedDecodeSlot.mergeField .default (WireMessage.encodeRaw m) =
      .ok ⟨m.slot, m.parent, m.status,
        m.deadError.map fun text => place (WireMessage.encodeRaw m).length (utf8 text) (afterDeadError m),
        m.bankId⟩ := by
  have h := (reads_slot (WireMessage.encodeRaw m).length m []).mergeAll_eq hfits
  rw [List.append_nil] at h
  exact h

theorem limitedDecode_entry {m : SubscribeUpdateEntry} (hfits : (WireMessage.encodeRaw m).length < 2 ^ 64) :
    limitedDecode UpdateOneofLimitedDecodeEntry.mergeField .default (WireMessage.encodeRaw m) =
      .ok ⟨m.slot, m.index, m.executedTransactionCount, m.bankId⟩ :=
  (reads_entry (WireMessage.encodeRaw m).length m []).mergeAll_eq hfits

theorem limitedDecode_account {m : SubscribeUpdateAccount} {a : SubscribeUpdateAccountInfo}
    (ha : m.account = some a) (h : AccountInfoWellFormed a) (hfits : (WireMessage.encodeRaw m).length < 2 ^ 64) :
    limitedDecode UpdateOneofLimitedDecodeAccount.mergeField .default (WireMessage.encodeRaw m) =
      .ok { accountRead (WireMessage.encodeRaw m).length
          (some (accountPlace (WireMessage.encodeRaw m).length m a [])) a h (afterAccount m) with
        slot := m.slot, isStartup := m.isStartup, bankId := m.bankId } := by
  have h := (reads_account (WireMessage.encodeRaw m).length m ha h []).mergeAll_eq hfits
  rw [List.append_nil] at h
  exact h

theorem limitedDecode_account_none {m : SubscribeUpdateAccount} (ha : m.account = none)
    (hfits : (WireMessage.encodeRaw m).length < 2 ^ 64) :
    limitedDecode UpdateOneofLimitedDecodeAccount.mergeField .default (WireMessage.encodeRaw m) =
      .ok { UpdateOneofLimitedDecodeAccount.default with
        slot := m.slot, isStartup := m.isStartup, bankId := m.bankId } :=
  (reads_account_none (WireMessage.encodeRaw m).length m ha []).mergeAll_eq hfits

theorem limitedDecode_transaction {m : SubscribeUpdateTransaction}
    (hfits : (WireMessage.encodeRaw m).length < 2 ^ 64) :
    limitedDecode UpdateOneofLimitedDecodeTransaction.mergeField .default (WireMessage.encodeRaw m) =
      .ok ⟨m.transaction.map fun t =>
        place (WireMessage.encodeRaw m).length (WireMessage.encodeRaw t) (afterTransaction m), m.slot, m.bankId⟩ := by
  have h := (reads_transaction (WireMessage.encodeRaw m).length m []).mergeAll_eq hfits
  rw [List.append_nil] at h
  exact h

theorem limitedDecode_transactionInfo {t : SubscribeUpdateTransactionInfo} {tx : Proto.Transaction}
    {m : TransactionStatusMeta} (h : TransactionWellFormed t tx m)
    (hfits : (WireMessage.encodeRaw t).length < 2 ^ 64) :
    limitedDecode UpdateOneofLimitedDecodeTransactionInfo.mergeField .default (WireMessage.encodeRaw t) =
      .ok { signatureOffset := some ((WireMessage.encodeRaw t).length - (t.signature ++ afterSignature t).length)
            isVote := t.isVote
            index := t.index
            accountKeys := keysOf tx m
            err := m.err.map fun err => place (WireMessage.encodeRaw t).length (WireMessage.encodeRaw err)
              (afterErr m ++ plain uint64.encode 0 5 t.index) } := by
  have h := (reads_transactionInfo (WireMessage.encodeRaw t).length h []).mergeAll_eq hfits
  rw [List.append_nil, List.append_nil] at h
  exact h

end

/-! ### The parsers on an update -/

section

variable {u : SubscribeUpdate} {t : Proto.Timestamp} {gen : Generated}

/-- The limited parser, after the update is decoded. -/
def MessageParserLimited.parseUpdate (gen : Generated) (data : Bytes) (createdAt : Proto.Timestamp) :
    UpdateOneofLimitedDecode → Except MessageParseError Message
  | ⟨.slot, range⟩ => parseSlot data createdAt range
  | ⟨.account, range⟩ => parseAccount data createdAt range
  | ⟨.transaction, range⟩ => parseTransaction gen data createdAt range
  | ⟨.transactionStatus, _⟩ => throw (.invalidUpdateMessage "TransactionStatus")
  | ⟨.entry, range⟩ => parseEntry data createdAt range
  | ⟨.blockMeta, range⟩ => parseBlockMeta gen data createdAt range
  | ⟨.block, _⟩ => throw (.invalidUpdateMessage "Block")
  | ⟨.ping, _⟩ => throw (.invalidUpdateMessage "Ping")
  | ⟨.pong, _⟩ => throw (.invalidUpdateMessage "Pong")
  | ⟨.blockFooter, range⟩ => do
    return .blockFooter (.new (← ofDecode (gen.blockFooter (slice data range))) createdAt .limited)
  | ⟨.entryUpdateParent, range⟩ => do
    return .entryUpdateParent
      (.new (← ofDecode (gen.entryUpdateParent (slice data range))) createdAt .limited)

/-- The parser with prost, after the update is decoded. -/
def MessageParserProst.parseUpdate (createdAt : Proto.Timestamp) :
    UpdateOneof → Except MessageParseError Message
  | .slot message => parseSlot createdAt message
  | .account message => parseAccount createdAt message
  | .transaction message => parseTransaction createdAt message
  | .transactionStatus _ => throw (.invalidUpdateMessage "TransactionStatus")
  | .entry entry => return .entry (.prost ⟨entry, createdAt⟩)
  | .blockMeta blockMeta => do return .blockMeta (← createBlockMeta createdAt blockMeta)
  | .block message => parseBlock createdAt message
  | .ping => throw (.invalidUpdateMessage "Ping")
  | .pong _ => throw (.invalidUpdateMessage "Pong")
  | .blockFooter footer => return .blockFooter (.new footer createdAt .prost)
  | .entryUpdateParent update => return .entryUpdateParent (.new update createdAt .prost)

theorem limited_parse {v : UpdateOneof} (hv : u.updateOneof = some v) (ht : u.createdAt = some t)
    (hfits : (WireMessage.encodeRaw u).length < 2 ^ 64) :
    Message.parse gen (WireMessage.encodeRaw u) .limited =
      MessageParserLimited.parseUpdate gen (WireMessage.encodeRaw u) t ⟨kindOf v, updateRange u v⟩ := by
  have hdecode := limitedDecode_update hfits
  rw [hv, ht, Option.map_some, ← updateRange] at hdecode
  simp only [Message.parse, MessageParserLimited.parse, hdecode, ofDecode, Except.mapError, bind, Except.bind]
  cases kindOf v <;> rfl

theorem prost_parse {v : UpdateOneof} (hgen : gen.Reads u) (hv : u.updateOneof = some v)
    (ht : u.createdAt = some t) :
    Message.parse gen (WireMessage.encodeRaw u) .prost = MessageParserProst.parseUpdate t v.readBack := by
  have hread := hgen.subscribeUpdate
  rw [SubscribeUpdate.readBack, hv, ht, Option.map_some] at hread
  simp only [Message.parse, MessageParserProst.parse, hread, ofDecode, Except.mapError, bind, Except.bind]
  cases v.readBack <;> rfl

theorem agree_slot {m : SubscribeUpdateSlot} (hgen : gen.Reads u) (hv : u.updateOneof = some (.slot m))
    (ht : u.createdAt = some t) (hfits : (WireMessage.encodeRaw u).length < 2 ^ 64) :
    ParsersAgree gen (WireMessage.encodeRaw u) ↔
      ∀ text, m.deadError = some text → slotStatusTryFrom m.status ≠ none →
        slice (WireMessage.encodeRaw u)
          (place (WireMessage.encodeRaw m).length (utf8 text) (afterDeadError m)) = utf8 text := by
  have hbody : slice (WireMessage.encodeRaw u) (updateRange u (.slot m)) = WireMessage.encodeRaw m := slice_update hv
  rw [ParsersAgree, limited_parse hv ht hfits, prost_parse hgen hv ht]
  simp only [kindOf, MessageParserLimited.parseUpdate, MessageParserLimited.parseSlot, hbody,
    limitedDecode_slot (length_body_lt hv hfits), UpdateOneof.readBack, MessageParserProst.parseUpdate,
    MessageParserProst.parseSlot]
  cases hstatus : slotStatusTryFrom m.status with
  | none =>
    simp only [ofDecode, Except.mapError, bind, Except.bind, hstatus]
    exact ⟨fun _ _ _ hne => absurd rfl hne, fun _ => trivial⟩
  | some status =>
    have hview : ∀ deadError : Option String, deadError.map (fun text => slice (WireMessage.encodeRaw u)
        (place (WireMessage.encodeRaw m).length (utf8 text) (afterDeadError m))) = deadError.map utf8 ↔
        ∀ text, deadError = some text → slice (WireMessage.encodeRaw u)
          (place (WireMessage.encodeRaw m).length (utf8 text) (afterDeadError m)) = utf8 text := by
      rintro (_ | text) <;> simp
    simp only [ofDecode, Except.mapError, bind, Except.bind, hstatus]
    simp only [SameResult, pure, Except.pure, Message.view, Prod.mk.injEq, MessageView.slot.injEq]
    simp only [MessageSlot.slot, MessageSlot.status, MessageSlot.parent, MessageSlot.bankId, MessageSlot.deadError,
      Message.createdAt, MessageSlot.createdAt, MessageBlockCreatedAt.timestamp, Option.map_map, true_and, and_true]
    refine (hview m.deadError).trans ?_
    exact forall₂_congr fun _ _ => ⟨fun h _ => h, fun h => h (Option.some_ne_none status)⟩

/-! ### Accounts -/

section

variable {m : SubscribeUpdateAccount} {a : SubscribeUpdateAccountInfo}

theorem encodeRaw_some_account (ha : m.account = some a) :
    WireMessage.encodeRaw m = bytesEncode 1 (WireMessage.encodeRaw a) ++ afterAccount m := by
  rw [encodeRaw_account, ha]
  rfl

/-- What stands before the `data` of an account. -/
def beforeData (a : SubscribeUpdateAccountInfo) : Bytes :=
  plain bytesEncode [] 1 a.pubkey ++ plain uint64.encode 0 2 a.lamports ++
    plain bytesEncode [] 3 a.owner ++ plain bool.encode false 4 a.executable ++
    plain uint64.encode 0 5 a.rentEpoch

theorem encodeRaw_accountInfo (a : SubscribeUpdateAccountInfo) :
    WireMessage.encodeRaw a = beforeData a ++ (plain bytesEncode [] 6 a.data ++ afterData a) := by
  simp only [beforeData, afterData, ← List.append_assoc]
  rfl

/-- A suffix of the account is followed by the rest of the update. -/
theorem suffix_account (ha : m.account = some a) {part : Bytes} (h : part <:+ WireMessage.encodeRaw a) :
    part ++ afterAccount m <:+ WireMessage.encodeRaw m := by
  obtain ⟨pre, hpre⟩ := h
  rw [encodeRaw_some_account ha, ← hpre]
  exact ⟨encodeKey 1 .lengthDelimited ++ encodeVarint (pre ++ part).length ++ pre, by
    simp only [bytesEncode, List.append_assoc]⟩

theorem suffix_data (hdata : a.data ≠ []) : a.data ++ afterData a <:+ WireMessage.encodeRaw a := by
  rw [encodeRaw_accountInfo, plain, if_neg hdata]
  exact ⟨beforeData a ++ (encodeKey 6 .lengthDelimited ++ encodeVarint a.data.length), by
    simp only [bytesEncode, List.append_assoc]⟩

theorem suffix_afterData (a : SubscribeUpdateAccountInfo) : afterData a <:+ WireMessage.encodeRaw a := by
  rw [encodeRaw_accountInfo, ← List.append_assoc]
  exact List.suffix_append _ _

theorem suffix_writeVersion (hversion : a.writeVersion ≠ 0) :
    encodeVarint a.writeVersion.toNat ++ optional bytesEncode 8 a.txnSignature <:+ WireMessage.encodeRaw a := by
  refine List.IsSuffix.trans ?_ (suffix_afterData a)
  rw [afterData, plain, if_neg hversion]
  exact ⟨encodeKey 7 .varint, by simp only [uint64.encode, varintEncode, List.append_assoc]⟩

theorem suffix_signature {signature : Bytes} (h : a.txnSignature = some signature) :
    signature <:+ WireMessage.encodeRaw a := by
  refine List.IsSuffix.trans ?_ (suffix_afterData a)
  rw [afterData, h]
  exact ⟨plain uint64.encode 0 7 a.writeVersion ++ (encodeKey 8 .lengthDelimited ++
    encodeVarint signature.length), by
      simp only [Lib.Protobuf.optional, Option.elim_some, bytesEncode, List.append_assoc]⟩

/-- The view of an account that prost has read. -/
def accountView (m : SubscribeUpdateAccount) (a : SubscribeUpdateAccountInfo) (h : AccountInfoWellFormed a)
    (writeVersion : Option UInt64) : AccountView where
  slot := m.slot
  bankId := m.bankId
  pubkey := ⟨a.pubkey, h.pubkey⟩
  owner := ⟨a.owner, h.owner⟩
  lamports := a.lamports
  executable := a.executable
  rentEpoch := a.rentEpoch
  data := a.data
  writeVersion
  txnSignature := a.txnSignature
  nonemptyTxnSignature := a.txnSignature.isSome

theorem prost_parseAccount (ha : m.account = some a) (h : AccountInfoWellFormed a) :
    ∃ msg, MessageParserProst.parseAccount t m = .ok (.account msg) ∧
      msg.view = accountView m a h (some a.writeVersion) ∧ msg.createdAt.timestamp = t := by
  have hcreate : MessageParserProst.createAccount t a m.slot m.isStartup m.bankId =
      .ok (.prost ⟨⟨a.pubkey, h.pubkey⟩, ⟨a.owner, h.owner⟩, a, m.slot, m.isStartup, m.bankId, t⟩) := by
    simp only [MessageParserProst.createAccount, pubkeyTryFrom, dif_pos h.pubkey, dif_pos h.owner]
    rfl
  refine ⟨.prost ⟨⟨a.pubkey, h.pubkey⟩, ⟨a.owner, h.owner⟩, a, m.slot, m.isStartup, m.bankId, t⟩, ?_, rfl, rfl⟩
  simp only [MessageParserProst.parseAccount, ha, hcreate]
  rfl

/-- The write version that the limited parser finds: it takes the key of the account for it when it is left out. -/
def readWriteVersion (a : SubscribeUpdateAccountInfo) : UInt64 := if a.writeVersion = 0 then 10 else a.writeVersion

theorem varintAt_eq {data : Bytes} {offset : ℕ} {value : UInt64}
    (h : StandsAt data offset (encodeVarint value.toNat)) : varintAt data offset = some value := by
  obtain ⟨post, heq⟩ := h.decodeVarint_eq value.toNat_lt
  simp [varintAt, heq, Except.toOption]

section

variable {data : Bytes} {range : Range}

theorem slice_accountRead (ha : m.account = some a) (h : AccountInfoWellFormed a) (offset : Option ℕ)
    (hstands : StandsAt data range.start (WireMessage.encodeRaw m)) :
    slice data ((accountRead (WireMessage.encodeRaw m).length offset a h (afterAccount m)).data.shift range.start) =
      a.data := by
  rw [accountRead]
  split
  · rename_i hnil
    simp [hnil, slice, Range.shift, Range.default]
  · rename_i hdata
    have hsuffix := suffix_account ha (suffix_data hdata)
    rw [List.append_assoc] at hsuffix
    exact slice_place_shift hstands hsuffix

theorem varintAt_accountRead (ha : m.account = some a) (h : AccountInfoWellFormed a) (offset : Option ℕ)
    (hstands : StandsAt data range.start (WireMessage.encodeRaw m)) :
    varintAt data ((accountRead (WireMessage.encodeRaw m).length offset a h (afterAccount m)).writeVersion +
      range.start) = some (readWriteVersion a) := by
  simp only [accountRead, readWriteVersion]
  split
  · -- the first bytes of the update are the key of the account
    refine varintAt_eq (hstands.trans ⟨[], encodeVarint (WireMessage.encodeRaw a).length ++
      WireMessage.encodeRaw a ++ afterAccount m, ?_, rfl⟩)
    rw [encodeRaw_some_account ha, bytesEncode]
    simp only [List.nil_append, List.append_assoc]
    rfl
  · rename_i hversion
    have hsuffix := suffix_account ha (suffix_writeVersion hversion)
    rw [List.append_assoc] at hsuffix
    have hplace := StandsAt.of_suffix hsuffix
    rw [← List.append_assoc] at hplace
    exact varintAt_eq (hstands.trans hplace)

theorem slice_txnSignature (ha : m.account = some a) (h : AccountInfoWellFormed a) (offset : Option ℕ)
    (hstands : StandsAt data range.start (WireMessage.encodeRaw m)) :
    (((accountRead (WireMessage.encodeRaw m).length offset a h (afterAccount m)).txnSignatureOffset.map
      (· + range.start)).map fun offset => slice data ⟨offset, offset + 64⟩) = a.txnSignature := by
  simp only [accountRead]
  cases hsignature : a.txnSignature with
  | none => rfl
  | some signature =>
    have hplace := StandsAt.of_suffix (suffix_account ha (suffix_signature hsignature))
    refine congrArg some (slice_eq (hstands.trans hplace) ?_)
    rw [h.txnSignature signature hsignature]

/-- The account that the limited parser makes of an update. -/
def limitedAccount (data : Bytes) (range : Range) (t : Proto.Timestamp) (m : SubscribeUpdateAccount)
    (a : SubscribeUpdateAccountInfo) (h : AccountInfoWellFormed a) : LimitedAccount :=
  let offset := accountPlace (WireMessage.encodeRaw m).length m a []
  let read := accountRead (WireMessage.encodeRaw m).length (some offset) a h (afterAccount m)
  { pubkey := read.pubkey
    owner := read.owner
    lamports := read.lamports
    executable := read.executable
    rentEpoch := read.rentEpoch
    data := read.data.shift range.start
    txnSignatureOffset := read.txnSignatureOffset.map (· + range.start)
    writeVersion := read.writeVersion + range.start
    slot := m.slot
    isStartup := m.isStartup
    bankId := m.bankId
    createdAt := t
    buffer := data
    accountOffset := offset + range.start
    range }

theorem limited_parseAccount (ha : m.account = some a) (h : AccountInfoWellFormed a)
    (hfits : (WireMessage.encodeRaw m).length < 2 ^ 64) (hslice : slice data range = WireMessage.encodeRaw m) :
    MessageParserLimited.parseAccount data t range =
      .ok (.account (.limited (limitedAccount data range t m a h))) := by
  simp only [MessageParserLimited.parseAccount, hslice, limitedDecode_account ha h hfits]
  rfl

theorem view_limitedAccount (ha : m.account = some a) (h : AccountInfoWellFormed a)
    (hstands : StandsAt data range.start (WireMessage.encodeRaw m)) :
    (MessageAccount.limited (limitedAccount data range t m a h)).view =
      accountView m a h (some (readWriteVersion a)) := by
  have hdata := slice_accountRead ha h (some (accountPlace (WireMessage.encodeRaw m).length m a [])) hstands
  have hversion := varintAt_accountRead ha h (some (accountPlace (WireMessage.encodeRaw m).length m a [])) hstands
  have hsignature := slice_txnSignature ha h (some (accountPlace (WireMessage.encodeRaw m).length m a [])) hstands
  simp only [MessageAccount.view, MessageAccount.data, MessageAccount.writeVersion, MessageAccount.txnSignature,
    limitedAccount, hdata, hversion, hsignature, accountView]
  simp only [MessageAccount.slot, MessageAccount.bankId, MessageAccount.pubkey, MessageAccount.owner,
    MessageAccount.lamports, MessageAccount.executable, MessageAccount.rentEpoch,
    MessageAccount.nonemptyTxnSignature, accountRead, Option.isSome_map]

end

end

theorem agree_account {m : SubscribeUpdateAccount} (hgen : gen.Reads u) (hv : u.updateOneof = some (.account m))
    (ht : u.createdAt = some t) (hwf : ∀ a, m.account = some a → AccountInfoWellFormed a)
    (hfits : (WireMessage.encodeRaw u).length < 2 ^ 64) :
    ParsersAgree gen (WireMessage.encodeRaw u) ↔ ∀ a, m.account = some a → a.writeVersion ≠ 0 := by
  have hbody : slice (WireMessage.encodeRaw u) (updateRange u (.account m)) = WireMessage.encodeRaw m :=
    slice_update hv
  have hfits' : (WireMessage.encodeRaw m).length < 2 ^ 64 := length_body_lt hv hfits
  rw [ParsersAgree, limited_parse hv ht hfits, prost_parse hgen hv ht]
  simp only [kindOf, MessageParserLimited.parseUpdate, UpdateOneof.readBack, MessageParserProst.parseUpdate]
  cases ha : m.account with
  | none =>
    simp only [MessageParserLimited.parseAccount, hbody, limitedDecode_account_none ha hfits',
      MessageParserProst.parseAccount, ha]
    exact ⟨fun _ _ h => (Option.some_ne_none _ h.symm).elim, fun _ => trivial⟩
  | some a =>
    have h := hwf a ha
    obtain ⟨msg, hparse, hview, hcreated⟩ := prost_parseAccount (t := t) ha h
    rw [limited_parseAccount ha h hfits' hbody, hparse]
    simp only [SameResult, Message.view, view_limitedAccount ha h (standsAt_update hv), hview,
      Message.createdAt, hcreated, Prod.mk.injEq, MessageView.account.injEq]
    have hversion : readWriteVersion a = a.writeVersion ↔ a.writeVersion ≠ 0 := by
      unfold readWriteVersion
      split <;> simp_all
    constructor
    · rintro ⟨hsame, -⟩ b hb
      cases hb
      exact hversion.mp (Option.some.inj (congrArg AccountView.writeVersion hsame))
    · intro hne
      rw [hversion.mpr (hne a rfl)]
      exact ⟨rfl, rfl⟩

/-! ### Transactions -/

theorem insertKeys_eq {values : List Bytes} : ∀ {keys : Finset Pubkey}, (∀ value ∈ values, value.length = 32) →
    MessageTransaction.insertKeys keys values = .ok (addKeys keys values) := by
  induction values with
  | nil =>
    intro keys _
    rfl
  | cons value values ih =>
    intro keys h
    have hvalue := h value List.mem_cons_self
    have hrest : MessageTransaction.insertKeys (insert ⟨value, hvalue⟩ keys) values =
        .ok (addKeys (insert ⟨value, hvalue⟩ keys) values) := ih fun v hv => h v (List.mem_cons_of_mem _ hv)
    unfold MessageTransaction.insertKeys at hrest ⊢
    rw [List.foldlM_cons, pubkeyTryFrom, dif_pos hvalue, addKeys, List.foldl_cons, dif_pos hvalue]
    exact hrest

section

variable {info : SubscribeUpdateTransactionInfo} {tx : Proto.Transaction} {statusMeta : TransactionStatusMeta}

theorem genAccountKeysProst_eq (h : TransactionParts info tx statusMeta) :
    MessageTransaction.genAccountKeysProst info.readBack statusMeta.readBack = .ok (keysOf tx statusMeta) := by
  have hmessage : ∀ key ∈ (tx.message.map (·.accountKeys)).getD [], key.length = 32 := by
    intro key hkey
    cases hmessage : tx.message with
    | none =>
      rw [hmessage] at hkey
      cases hkey
    | some message =>
      rw [hmessage] at hkey
      exact h.accountKeys message hmessage key hkey
  have htransaction : info.readBack.transaction = some tx := h.transaction
  simp only [MessageTransaction.genAccountKeysProst, htransaction, insertKeys_eq hmessage, bind, Except.bind]
  rw [show statusMeta.readBack.loadedWritableAddresses = statusMeta.loadedWritableAddresses from rfl,
    insertKeys_eq h.writable]
  exact insertKeys_eq h.readonly

theorem suffix_transaction {m : SubscribeUpdateTransaction} (hm : m.transaction = some info) :
    WireMessage.encodeRaw info ++ afterTransaction m <:+ WireMessage.encodeRaw m := by
  have hraw : WireMessage.encodeRaw m = bytesEncode 1 (WireMessage.encodeRaw info) ++ afterTransaction m := by
    have happend : WireMessage.encodeRaw m =
        Lib.Protobuf.optional message.encode 1 m.transaction ++ afterTransaction m := by
      rw [afterTransaction, ← List.append_assoc]
      rfl
    rw [happend, hm]
    rfl
  rw [hraw]
  exact ⟨encodeKey 1 .lengthDelimited ++ encodeVarint (WireMessage.encodeRaw info).length, by
    simp only [bytesEncode, List.append_assoc]⟩

theorem suffix_infoSignature (h : TransactionWellFormed info tx statusMeta) :
    info.signature ++ afterSignature info <:+ WireMessage.encodeRaw info := by
  have hsignature : info.signature ≠ [] := by
    intro hnil
    have hlen := h.signature
    rw [hnil] at hlen
    cases hlen
  rw [encodeRaw_transactionInfo, plain, if_neg hsignature]
  exact ⟨encodeKey 1 .lengthDelimited ++ encodeVarint info.signature.length, by
    simp only [bytesEncode, List.append_assoc]⟩

theorem suffix_afterSignature (info : SubscribeUpdateTransactionInfo) :
    afterSignature info <:+ WireMessage.encodeRaw info := by
  rw [encodeRaw_transactionInfo]
  exact List.suffix_append _ _

theorem suffix_err (h : TransactionParts info tx statusMeta) {err : Proto.TransactionError}
    (herr : statusMeta.err = some err) :
    WireMessage.encodeRaw err ++ (afterErr statusMeta ++ plain uint64.encode 0 5 info.index) <:+
      WireMessage.encodeRaw info := by
  have hmeta : WireMessage.encodeRaw statusMeta = bytesEncode 1 (WireMessage.encodeRaw err) ++ afterErr statusMeta := by
    rw [encodeRaw_statusMeta, herr]
    rfl
  have hafter : afterSignature info = plain bool.encode false 2 info.isVote ++
      Lib.Protobuf.optional message.encode 3 info.transaction ++
        (bytesEncode 4 (WireMessage.encodeRaw statusMeta) ++ plain uint64.encode 0 5 info.index) := by
    rw [afterSignature, h.statusMeta, List.append_assoc]
    rfl
  refine List.IsSuffix.trans ?_ (suffix_afterSignature info)
  rw [hafter, hmeta]
  generalize Lib.Protobuf.optional message.encode 3 info.transaction = part
  exact ⟨plain bool.encode false 2 info.isVote ++ part ++ (encodeKey 4 .lengthDelimited ++
    encodeVarint (bytesEncode 1 (WireMessage.encodeRaw err) ++ afterErr statusMeta).length ++
      (encodeKey 1 .lengthDelimited ++ encodeVarint (WireMessage.encodeRaw err).length)), by
    simp only [bytesEncode, List.append_assoc]⟩

/-- The view of a transaction. -/
def transactionView (m : SubscribeUpdateTransaction) (info : SubscribeUpdateTransactionInfo) (tx : Proto.Transaction)
    (statusMeta : TransactionStatusMeta) : TransactionView where
  slot := m.slot
  bankId := nonzeroBankId m.bankId
  signature := some info.signature
  vote := info.isVote
  index := info.index
  error := statusMeta.err
  failed := statusMeta.err.isSome
  accountKeys := keysOf tx statusMeta
  transaction := .ok info.readBack
  transactionMeta := .ok statusMeta.readBack

variable (t gen) in
theorem prost_parseTransaction {m : SubscribeUpdateTransaction} (hm : m.transaction = some info)
    (h : TransactionWellFormed info tx statusMeta) :
    ∃ msg, MessageParserProst.parseTransaction t { m with transaction := m.transaction.map (·.readBack) } =
        .ok (.transaction msg) ∧ msg.view gen = transactionView m info tx statusMeta ∧
      msg.createdAt.timestamp = t := by
  have hmeta : info.readBack.statusMeta = some statusMeta.readBack := by
    rw [SubscribeUpdateTransactionInfo.readBack, h.statusMeta]
    rfl
  refine ⟨.prost ⟨statusMeta.err, keysOf tx statusMeta, info.readBack, m.slot, m.bankId, t⟩, ?_, ?_, rfl⟩
  · simp only [MessageParserProst.parseTransaction, hm, Option.map_some, MessageParserProst.createTransaction,
      hmeta, genAccountKeysProst_eq h.parts]
    rfl
  · simp only [MessageTransaction.view, MessageTransaction.transactionMeta, MessageTransaction.transaction,
      bind, Except.bind, hmeta]
    rfl

/-- The transaction that the limited parser makes of an update. -/
def limitedTransaction (data : Bytes) (range : Range) (t : Proto.Timestamp) (m : SubscribeUpdateTransaction)
    (info : SubscribeUpdateTransactionInfo) (tx : Proto.Transaction) (statusMeta : TransactionStatusMeta) :
    LimitedTransaction :=
  let transactionRange := (place (WireMessage.encodeRaw m).length (WireMessage.encodeRaw info)
    (afterTransaction m)).shift range.start
  { signatureOffset := some (transactionRange.start +
      ((WireMessage.encodeRaw info).length - (info.signature ++ afterSignature info).length))
    error := statusMeta.err
    accountKeys := keysOf tx statusMeta
    isVote := info.isVote
    index := info.index
    transactionRange
    slot := m.slot
    bankId := m.bankId
    createdAt := t
    buffer := data
    range }

section

variable {m : SubscribeUpdateTransaction} {data : Bytes} {range : Range}

/-- The limited parser, from what its decoder reads of the transaction. -/
theorem limited_parseTransaction_of_decode {offset : Option ℕ} (hm : m.transaction = some info)
    (h : TransactionParts info tx statusMeta)
    (hdecode : limitedDecode UpdateOneofLimitedDecodeTransactionInfo.mergeField .default (WireMessage.encodeRaw info) =
      .ok { signatureOffset := offset
            isVote := info.isVote
            index := info.index
            accountKeys := keysOf tx statusMeta
            err := statusMeta.err.map fun err => place (WireMessage.encodeRaw info).length (WireMessage.encodeRaw err)
              (afterErr statusMeta ++ plain uint64.encode 0 5 info.index) })
    (hfits : (WireMessage.encodeRaw m).length < 2 ^ 64)
    (herror : ∀ err, statusMeta.err = some err → gen.transactionError (WireMessage.encodeRaw err) = .ok err)
    (hslice : slice data range = WireMessage.encodeRaw m)
    (hstands : StandsAt data range.start (WireMessage.encodeRaw m)) :
    MessageParserLimited.parseTransaction gen data t range =
      .ok (.transaction (.limited { limitedTransaction data range t m info tx statusMeta with
        signatureOffset := offset.map
          ((limitedTransaction data range t m info tx statusMeta).transactionRange.start + ·) })) := by
  have hsuffix := suffix_transaction hm
  have hinfo := slice_place_shift hstands hsuffix
  have hplace : StandsAt data ((place (WireMessage.encodeRaw m).length (WireMessage.encodeRaw info)
      (afterTransaction m)).shift range.start).start (WireMessage.encodeRaw info) :=
    hstands.trans (standsAt_place hsuffix)
  simp only [MessageParserLimited.parseTransaction, hslice, limitedDecode_transaction hfits, hm, ofDecode,
    Except.mapError, bind, Except.bind, Option.map_some, hinfo, hdecode]
  rw [limitedTransaction]
  generalize (place (WireMessage.encodeRaw m).length (WireMessage.encodeRaw info)
    (afterTransaction m)).shift range.start = transactionRange at hplace ⊢
  cases herr : statusMeta.err with
  | none => rfl
  | some err =>
    have hdecode := slice_place_shift hplace (suffix_err h herr)
    simp only [Option.map_some, Option.mapM_some, hdecode, herror err herr]
    rfl

theorem length_info_lt (hm : m.transaction = some info) (hfits : (WireMessage.encodeRaw m).length < 2 ^ 64) :
    (WireMessage.encodeRaw info).length < 2 ^ 64 := by
  have hle := (suffix_transaction hm).length_le
  rw [List.length_append] at hle
  omega

theorem limited_parseTransaction (hm : m.transaction = some info) (h : TransactionWellFormed info tx statusMeta)
    (hfits : (WireMessage.encodeRaw m).length < 2 ^ 64)
    (herror : ∀ err, statusMeta.err = some err → gen.transactionError (WireMessage.encodeRaw err) = .ok err)
    (hslice : slice data range = WireMessage.encodeRaw m)
    (hstands : StandsAt data range.start (WireMessage.encodeRaw m)) :
    MessageParserLimited.parseTransaction gen data t range =
      .ok (.transaction (.limited (limitedTransaction data range t m info tx statusMeta))) :=
  limited_parseTransaction_of_decode hm h.parts (limitedDecode_transactionInfo h (length_info_lt hm hfits)) hfits herror
    hslice hstands

theorem view_limitedTransaction (hm : m.transaction = some info) (h : TransactionWellFormed info tx statusMeta)
    (hgen : gen.transactionInfo (WireMessage.encodeRaw info) = .ok info.readBack)
    (hstands : StandsAt data range.start (WireMessage.encodeRaw m)) :
    (MessageTransaction.limited (limitedTransaction data range t m info tx statusMeta)).view gen =
      transactionView m info tx statusMeta := by
  have hsuffix := suffix_transaction hm
  have hinfo := slice_place_shift hstands hsuffix
  have hplace : StandsAt data ((place (WireMessage.encodeRaw m).length (WireMessage.encodeRaw info)
      (afterTransaction m)).shift range.start).start (WireMessage.encodeRaw info) :=
    hstands.trans (standsAt_place hsuffix)
  have hstatus : info.readBack.statusMeta = some statusMeta.readBack := by
    rw [SubscribeUpdateTransactionInfo.readBack, h.statusMeta]
    rfl
  rw [limitedTransaction]
  generalize (place (WireMessage.encodeRaw m).length (WireMessage.encodeRaw info)
    (afterTransaction m)).shift range.start = transactionRange at hplace hinfo ⊢
  have hsignature : slice data ⟨transactionRange.start +
      ((WireMessage.encodeRaw info).length - (info.signature ++ afterSignature info).length),
      transactionRange.start + ((WireMessage.encodeRaw info).length -
        (info.signature ++ afterSignature info).length) + signatureBytes⟩ = info.signature := by
    have hstart := hplace.trans (StandsAt.of_suffix (suffix_infoSignature h))
    rw [Nat.add_comm] at hstart
    exact slice_eq hstart (by rw [h.signature]; rfl)
  simp only [MessageTransaction.view, MessageTransaction.transactionMeta, MessageTransaction.transaction,
    MessageTransaction.signatureRef, Option.map_some, hsignature, hinfo, hgen, hstatus, bind, Except.bind]
  rfl

end

end

theorem agree_transaction {m : SubscribeUpdateTransaction} (hgen : gen.Reads u)
    (hv : u.updateOneof = some (.transaction m)) (ht : u.createdAt = some t)
    (hwf : ∀ info, m.transaction = some info → ∃ tx statusMeta, TransactionWellFormed info tx statusMeta)
    (hfits : (WireMessage.encodeRaw u).length < 2 ^ 64) : ParsersAgree gen (WireMessage.encodeRaw u) := by
  have hbody : slice (WireMessage.encodeRaw u) (updateRange u (.transaction m)) = WireMessage.encodeRaw m :=
    slice_update hv
  have hfits' : (WireMessage.encodeRaw m).length < 2 ^ 64 := length_body_lt hv hfits
  rw [ParsersAgree, limited_parse hv ht hfits, prost_parse hgen hv ht]
  simp only [kindOf, MessageParserLimited.parseUpdate, UpdateOneof.readBack, MessageParserProst.parseUpdate]
  cases hm : m.transaction with
  | none =>
    simp only [MessageParserLimited.parseTransaction, hbody, limitedDecode_transaction hfits',
      MessageParserProst.parseTransaction, hm]
    exact trivial
  | some info =>
    obtain ⟨tx, statusMeta, h⟩ := hwf info hm
    have hinfo := hgen.transactionInfo m info hv hm
    have herror : ∀ err, statusMeta.err = some err → gen.transactionError (WireMessage.encodeRaw err) = .ok err :=
      fun err => hgen.transactionError m info statusMeta err hv hm h.statusMeta
    have hstands : StandsAt (WireMessage.encodeRaw u) (updateRange u (.transaction m)).start
      (WireMessage.encodeRaw m) := standsAt_update hv
    obtain ⟨msg, hparse, hview, hcreated⟩ := prost_parseTransaction t gen hm h
    rw [hm] at hparse
    rw [limited_parseTransaction hm h hfits' herror hbody hstands, hparse]
    simp only [SameResult, Message.view, view_limitedTransaction hm h hinfo hstands, hview, Message.createdAt,
      hcreated]
    rfl

/-! ### The other kinds -/

theorem limited_parseEntry {m : SubscribeUpdateEntry} {data : Bytes} {range : Range}
    (hfits : (WireMessage.encodeRaw m).length < 2 ^ 64) (hslice : slice data range = WireMessage.encodeRaw m) :
    MessageParserLimited.parseEntry data t range =
      .ok (.entry (.limited ⟨m.slot, m.index, m.executedTransactionCount, m.bankId, t, data, range⟩)) := by
  simp only [MessageParserLimited.parseEntry, hslice, limitedDecode_entry hfits]
  rfl

theorem agree_entry {m : SubscribeUpdateEntry} (hgen : gen.Reads u) (hv : u.updateOneof = some (.entry m))
    (ht : u.createdAt = some t) (hfits : (WireMessage.encodeRaw u).length < 2 ^ 64) :
    ParsersAgree gen (WireMessage.encodeRaw u) := by
  rw [ParsersAgree, limited_parse hv ht hfits, prost_parse hgen hv ht]
  simp only [kindOf, MessageParserLimited.parseUpdate, UpdateOneof.readBack, MessageParserProst.parseUpdate]
  rw [limited_parseEntry (length_body_lt hv hfits) (slice_update hv)]
  simp only [SameResult, Message.view, Message.createdAt]
  rfl

theorem limited_parseBlockMeta {m : SubscribeUpdateBlockMeta} {data : Bytes} {range : Range}
    (hgen : gen.blockMeta (WireMessage.encodeRaw m) = .ok m) (hslice : slice data range = WireMessage.encodeRaw m) :
    MessageParserLimited.parseBlockMeta gen data t range =
      match m.blockHeight with
      | some height => .ok (.blockMeta (.limited ⟨m, height.blockHeight, t, data, range⟩))
      | none => .error (.fieldNotDefined "block_height") := by
  simp only [MessageParserLimited.parseBlockMeta, hslice, hgen, ofDecode, Except.mapError, bind, Except.bind]
  cases m.blockHeight <;> rfl

theorem agree_blockMeta {m : SubscribeUpdateBlockMeta} (hgen : gen.Reads u)
    (hv : u.updateOneof = some (.blockMeta m)) (ht : u.createdAt = some t)
    (hfits : (WireMessage.encodeRaw u).length < 2 ^ 64) : ParsersAgree gen (WireMessage.encodeRaw u) := by
  rw [ParsersAgree, limited_parse hv ht hfits, prost_parse hgen hv ht]
  simp only [kindOf, MessageParserLimited.parseUpdate, UpdateOneof.readBack, MessageParserProst.parseUpdate]
  rw [limited_parseBlockMeta (hgen.blockMeta m hv) (slice_update hv), MessageParserProst.createBlockMeta]
  cases m.blockHeight with
  | none => exact trivial
  | some height =>
    simp only [SameResult, Message.view, Message.createdAt, bind, Except.bind, pure, Except.pure]
    rfl

theorem agree_blockFooter {m : SubscribeUpdateBlockFooter} (hgen : gen.Reads u)
    (hv : u.updateOneof = some (.blockFooter m)) (ht : u.createdAt = some t)
    (hfits : (WireMessage.encodeRaw u).length < 2 ^ 64) : ParsersAgree gen (WireMessage.encodeRaw u) := by
  have hbody : slice (WireMessage.encodeRaw u) (updateRange u (.blockFooter m)) = WireMessage.encodeRaw m :=
    slice_update hv
  rw [ParsersAgree, limited_parse hv ht hfits, prost_parse hgen hv ht]
  simp only [kindOf, MessageParserLimited.parseUpdate, hbody, hgen.blockFooter m hv]
  rfl

theorem agree_entryUpdateParent {m : SubscribeUpdateEntryUpdateParent} (hgen : gen.Reads u)
    (hv : u.updateOneof = some (.entryUpdateParent m)) (ht : u.createdAt = some t)
    (hfits : (WireMessage.encodeRaw u).length < 2 ^ 64) : ParsersAgree gen (WireMessage.encodeRaw u) := by
  have hbody : slice (WireMessage.encodeRaw u) (updateRange u (.entryUpdateParent m)) = WireMessage.encodeRaw m :=
    slice_update hv
  rw [ParsersAgree, limited_parse hv ht hfits, prost_parse hgen hv ht]
  simp only [kindOf, MessageParserLimited.parseUpdate, hbody, hgen.entryUpdateParent m hv]
  rfl

theorem agree_none (hgen : gen.Reads u) (hv : u.updateOneof = none) (ht : u.createdAt = some t)
    (hfits : (WireMessage.encodeRaw u).length < 2 ^ 64) : ParsersAgree gen (WireMessage.encodeRaw u) := by
  have hdecode := limitedDecode_update hfits
  have hread := hgen.subscribeUpdate
  have hrichat := hgen.subscribeUpdateRichat hv
  rw [hv, ht, Option.map_none] at hdecode
  rw [SubscribeUpdate.readBack, hv, ht, Option.map_none] at hread
  rw [ht] at hrichat
  simp only [ParsersAgree, Message.parse, MessageParserLimited.parse, MessageParserProst.parse, hdecode, hread,
    hrichat, ofDecode, Except.mapError, bind, Except.bind]
  exact trivial

/-! ### All updates -/

/-- The time of creation is there, and the parts of the nested message that both parsers need; and it is not a
block. -/
structure UpdateWellFormed (u : SubscribeUpdate) : Prop where
  createdAt : u.createdAt.isSome
  account : ∀ m a, u.updateOneof = some (.account m) → m.account = some a → AccountInfoWellFormed a
  transaction : ∀ m info, u.updateOneof = some (.transaction m) → m.transaction = some info →
    ∃ tx statusMeta, TransactionWellFormed info tx statusMeta
  block : ∀ m, u.updateOneof ≠ some (.block m)

/-- The write version of an account is not the default; and the error of a dead slot stands also at the place of
the buffer that has the number of its place in the slot. -/
structure ReadAlike (u : SubscribeUpdate) : Prop where
  account : ∀ m a, u.updateOneof = some (.account m) → m.account = some a → a.writeVersion ≠ 0
  slot : ∀ m text, u.updateOneof = some (.slot m) → m.deadError = some text → slotStatusTryFrom m.status ≠ none →
    slice (WireMessage.encodeRaw u) (place (WireMessage.encodeRaw m).length (utf8 text) (afterDeadError m)) =
      utf8 text

/-- **The parsers agree** on what prost writes for an update just if it is `ReadAlike`. -/
theorem parsers_agree_iff (hwf : UpdateWellFormed u) (hgen : gen.Reads u)
    (hfits : (WireMessage.encodeRaw u).length < 2 ^ 64) :
    ParsersAgree gen (WireMessage.encodeRaw u) ↔ ReadAlike u := by
  obtain ⟨t, ht⟩ := Option.isSome_iff_exists.mp hwf.createdAt
  have hother : (∀ m, u.updateOneof ≠ some (.account m)) → (∀ m, u.updateOneof ≠ some (.slot m)) → ReadAlike u :=
    fun haccount hslot => ⟨fun m _ h => absurd h (haccount m), fun m _ h => absurd h (hslot m)⟩
  cases hv : u.updateOneof with
  | none => exact iff_of_true (agree_none hgen hv ht hfits) (hother (by simp [hv]) (by simp [hv]))
  | some v =>
    cases v with
    | account m =>
      refine (agree_account hgen hv ht (fun a => hwf.account m a hv) hfits).trans ?_
      constructor
      · intro h
        refine ⟨fun m' a hm' ha => ?_, fun m' _ hm' => ?_⟩
        · cases hv.symm.trans hm'
          exact h a ha
        · cases hv.symm.trans hm'
      · exact fun h a ha => h.account m a hv ha
    | slot m =>
      refine (agree_slot hgen hv ht hfits).trans ?_
      constructor
      · intro h
        refine ⟨fun m' _ hm' => ?_, fun m' text hm' => ?_⟩
        · cases hv.symm.trans hm'
        · cases hv.symm.trans hm'
          exact h text
      · exact fun h text => h.slot m text hv
    | transaction m =>
      exact iff_of_true (agree_transaction hgen hv ht (fun info => hwf.transaction m info hv) hfits)
        (hother (by simp [hv]) (by simp [hv]))
    | block m => exact absurd hv (hwf.block m)
    | entry m => exact iff_of_true (agree_entry hgen hv ht hfits) (hother (by simp [hv]) (by simp [hv]))
    | blockMeta m => exact iff_of_true (agree_blockMeta hgen hv ht hfits) (hother (by simp [hv]) (by simp [hv]))
    | blockFooter m => exact iff_of_true (agree_blockFooter hgen hv ht hfits) (hother (by simp [hv]) (by simp [hv]))
    | entryUpdateParent m =>
      exact iff_of_true (agree_entryUpdateParent hgen hv ht hfits) (hother (by simp [hv]) (by simp [hv]))
    | transactionStatus | ping | pong =>
      refine iff_of_true ?_ (hother (by simp [hv]) (by simp [hv]))
      rw [ParsersAgree, limited_parse hv ht hfits, prost_parse hgen hv ht]
      exact trivial

end

/-- A decoder that knows one update. -/
def Generated.reading (u : SubscribeUpdate) : Generated where
  subscribeUpdate := fun data =>
    if data = WireMessage.encodeRaw u then .ok u.readBack else .error (.new .bufferUnderflow)
  subscribeUpdateRichat := fun _ => .ok ⟨none, u.createdAt⟩
  transactionInfo := fun _ => .error (.new .bufferUnderflow)
  transactionError := fun _ => .error (.new .bufferUnderflow)
  blockMeta := fun _ => .error (.new .bufferUnderflow)
  blockFooter := fun _ => .error (.new .bufferUnderflow)
  entryUpdateParent := fun _ => .error (.new .bufferUnderflow)
  createBlockFooterFromWincode := fun _ _ _ => .error ""

theorem Generated.reads_reading {u : SubscribeUpdate} {v : UpdateOneof} (hv : u.updateOneof = some v)
    (hkind : kindOf v = .account ∨ kindOf v = .slot) : (Generated.reading u).Reads u := by
  have hne : ∀ w, u.updateOneof = some w → kindOf w = .account ∨ kindOf w = .slot := by
    intro w hw
    cases hv.symm.trans hw
    exact hkind
  constructor
  · simp only [Generated.reading, if_true]
  · intro hnone
    cases hv.symm.trans hnone
  · intro m t hm
    rcases hne _ hm with h | h <;> cases h
  · intro m t statusMeta err hm
    rcases hne _ hm with h | h <;> cases h
  · intro m hm
    rcases hne _ hm with h | h <;> cases h
  · intro m hm
    rcases hne _ hm with h | h <;> cases h
  · intro m hm
    rcases hne _ hm with h | h <;> cases h

/-- An update of an account of the slot `5`. -/
def writtenAccount (writeVersion : UInt64) : SubscribeUpdate where
  filters := ["a"]
  updateOneof := some (.account
    { account := some ⟨List.replicate 32 1, 9, List.replicate 32 2, false, 4, [1, 2, 3], writeVersion, none⟩
      slot := 5
      isStartup := false
      bankId := some 6 })
  createdAt := some ⟨7, 8⟩

theorem wellFormed_writtenAccount (writeVersion : UInt64) : UpdateWellFormed (writtenAccount writeVersion) where
  createdAt := rfl
  account := by
    intro m a hm ha
    cases hm
    cases ha
    refine ⟨rfl, rfl, ?_⟩
    intro signature h
    cases h
  transaction := by
    intro m info hm
    cases hm
  block := by
    intro m hm
    cases hm

theorem parsers_agree_account :
    ParsersAgree (.reading (writtenAccount 10)) (WireMessage.encodeRaw (writtenAccount 10)) := by
  refine (parsers_agree_iff (wellFormed_writtenAccount 10) (Generated.reads_reading rfl (.inl rfl))
    (by decide +kernel)).mpr ⟨?_, ?_⟩
  · intro m a hm ha
    cases hm
    cases ha
    decide
  · intro m text hm
    cases hm

/-- The update of a slot that is dead. -/
def deadUpdate : SubscribeUpdate where
  filters := []
  updateOneof := some (.slot ⟨5, some 4, 6, some "dead", none⟩)
  createdAt := some ⟨7, 8⟩

theorem wellFormed_deadUpdate : UpdateWellFormed deadUpdate where
  createdAt := rfl
  account := by
    intro m a hm
    cases hm
  transaction := by
    intro m info hm
    cases hm
  block := by
    intro m hm
    cases hm

/-- The parsers differ on the write version zero of an account, and on the error of a dead slot. -/
theorem parsers_disagree :
    (UpdateWellFormed (writtenAccount 0) ∧ (Generated.reading (writtenAccount 0)).Reads (writtenAccount 0) ∧
      ¬ ParsersAgree (.reading (writtenAccount 0)) (WireMessage.encodeRaw (writtenAccount 0))) ∧
    UpdateWellFormed deadUpdate ∧ (Generated.reading deadUpdate).Reads deadUpdate ∧
      ¬ ParsersAgree (.reading deadUpdate) (WireMessage.encodeRaw deadUpdate) := by
  have haccount : (Generated.reading (writtenAccount 0)).Reads (writtenAccount 0) :=
    Generated.reads_reading rfl (.inl rfl)
  have hdead : (Generated.reading deadUpdate).Reads deadUpdate := Generated.reads_reading rfl (.inr rfl)
  refine ⟨⟨wellFormed_writtenAccount 0, haccount, fun h => ?_⟩, wellFormed_deadUpdate, hdead, fun h => ?_⟩
  · exact (agree_account haccount rfl rfl (fun a => (wellFormed_writtenAccount 0).account _ a rfl)
      (by decide +kernel)).mp h _ rfl rfl
  · have hsame := (agree_slot hdead rfl rfl (by decide +kernel)).mp h "dead" rfl (by decide)
    revert hsame
    decide +kernel

end Filter

end Richat
