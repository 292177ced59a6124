import Richat.Filter.ParseSpec
import Richat.Plugin.MessageSpec

/-!
# From the plugin to richat

What the plugin encodes is parsed by richat. `received` says of every message what its accessors answer then, in the
terms of the validator.
-/

namespace Richat.Plugin

open Richat.Filter Lib Lib.Protobuf Solana

variable {E C : Type} [SerializeError E] [SerializeFooter C]

/-- The status as richat names it. -/
def SlotStatus.received : SlotStatus → Richat.SlotStatus
  | processed => .slotProcessed
  | rooted => .slotFinalized
  | confirmed => .slotConfirmed
  | firstShredReceived => .slotFirstShredReceived
  | completed => .slotCompleted
  | createdBank => .slotCreatedBank
  | dead _ => .slotDead

def SlotStatus.deadError : SlotStatus → Option String
  | dead error => some error
  | _ => none

/-- The keys of the transaction, and those that it loads. -/
def ReplicaTransactionInfo.keys (tx : ReplicaTransactionInfo E) : List Pubkey :=
  (match tx.transaction.message with
  | .legacy msg => msg.accountKeys
  | .v0 msg => msg.accountKeys
  | .v1 msg => msg.accountKeys) ++
  tx.transactionStatusMeta.loadedAddresses.writable ++ tx.transactionStatusMeta.loadedAddresses.readonly

/-- The transaction with the conversions of the plugin. -/
def ReplicaTransactionInfo.info (tx : ReplicaTransactionInfo E) : Proto.SubscribeUpdateTransactionInfo where
  signature := tx.signature.val
  isVote := tx.isVote
  transaction := some (ConvertTo.createTransaction tx.transaction)
  statusMeta := some (ConvertTo.createTransactionMeta SerializeError.serialize tx.transactionStatusMeta)
  index := tx.index

namespace ProtobufMessage

/-- **What richat receives**: the answers for an update that is not of richat only, if it is not refused. -/
def received (encoding : MessageParserEncoding) : ProtobufMessage E C → Option MessageView
  | .account s bankId info => some <| .account
    { slot := s
      bankId
      pubkey := info.pubkey
      owner := info.owner
      lamports := info.lamports
      executable := info.executable
      rentEpoch := info.rentEpoch
      data := info.data
      -- the limited parser reads a zero at another place
      writeVersion := some (if encoding = .limited ∧ info.writeVersion = 0 then 10 else info.writeVersion)
      txnSignature := info.txn.map (·.val)
      nonemptyTxnSignature := info.txn.isSome }
  | .slot s parent status bankId => some <| .slot s status.received parent bankId (status.deadError.map utf8)
  | .transaction s bankId tx =>
    let statusMeta := ConvertTo.createTransactionMeta SerializeError.serialize tx.transactionStatusMeta
    some <| .transaction
      { slot := s
        bankId := Filter.nonzeroBankId bankId
        signature := some tx.signature.val
        vote := tx.isVote
        index := tx.index
        error := statusMeta.err
        failed := statusMeta.err.isSome
        accountKeys := tx.keys.toFinset
        transaction := .ok tx.info.readBack
        transactionMeta := .ok statusMeta.readBack }
  | .entry bankId info =>
    some <| .entry ⟨info.slot, info.index, info.executedTransactionCount, Filter.nonzeroBankId bankId⟩
  | .blockMeta bankId info => info.blockHeight.map fun height => .blockMeta
    { blockMeta :=
        { slot := info.slot
          blockhash := info.blockhash
          rewards := some (ConvertTo.createRewardsObj info.rewards.rewards info.rewards.numPartitions)
          blockTime := info.blockTime.map ConvertTo.createTimestamp
          blockHeight := some (ConvertTo.createBlockHeight height)
          parentSlot := info.parentSlot
          parentBlockhash := info.parentBlockhash
          executedTransactionCount := info.executedTransactionCount
          entriesCount := info.entryCount
          bankId }
      blockHeight := height }
  | _ => none

/-! ### The parsers -/

/-- The answers for what is parsed. -/
def parsed (gen : Generated) (encoding : MessageParserEncoding) (data : Bytes) :
    Option (MessageView × Proto.Timestamp) :=
  (Filter.Message.parse gen data encoding).toOption.map (·.view gen)

section

variable {gen : Generated} {encoding : MessageParserEncoding} {u : Proto.SubscribeUpdate} {t : Proto.Timestamp}
  (hgen : gen.Reads u) (ht : u.createdAt = some t) (hfits : (WireMessage.encodeRaw u).length < 2 ^ 64)

theorem parsed_eq_prost {data : Bytes} (h : encoding = .limited → ParsersAgree gen data) :
    parsed gen encoding data = parsed gen .prost data := by
  cases encoding with
  | prost => rfl
  | limited =>
    have hsame := h rfl
    unfold ParsersAgree at hsame
    unfold parsed
    cases hlimited : Filter.Message.parse gen data .limited <;>
      cases hprost : Filter.Message.parse gen data .prost <;> rw [hlimited, hprost] at hsame
    · rfl
    · exact hsame.elim
    · exact hsame.elim
    · exact congrArg some hsame

include hgen ht hfits

theorem parsed_account {m : Proto.SubscribeUpdateAccount} {a : Proto.SubscribeUpdateAccountInfo}
    (hv : u.updateOneof = some (.account m)) (ha : m.account = some a) (h : AccountInfoWellFormed a) :
    parsed gen encoding (WireMessage.encodeRaw u) = some (.account (accountView m a h
      (some (if encoding = .limited ∧ a.writeVersion = 0 then 10 else a.writeVersion))), t) := by
  unfold parsed
  cases encoding with
  | limited =>
    rw [limited_parse hv ht hfits]
    simp only [kindOf, MessageParserLimited.parseUpdate]
    rw [limited_parseAccount ha h (length_body_lt hv hfits) (slice_update hv)]
    simp only [Except.toOption, Option.map_some, Message.view, view_limitedAccount ha h (standsAt_update hv), true_and]
    rfl
  | prost =>
    obtain ⟨msg, hparse, hview, hcreated⟩ := prost_parseAccount (t := t) ha h
    rw [prost_parse hgen hv ht]
    simp only [Proto.UpdateOneof.readBack, MessageParserProst.parseUpdate, hparse]
    simp only [Except.toOption, Option.map_some, Message.view, hview, Message.createdAt, hcreated]
    rfl

theorem parsed_transaction {m : Proto.SubscribeUpdateTransaction} {info : Proto.SubscribeUpdateTransactionInfo}
    {tx : Proto.Transaction} {statusMeta : Proto.TransactionStatusMeta} (hv : u.updateOneof = some (.transaction m))
    (hm : m.transaction = some info) (h : TransactionWellFormed info tx statusMeta) :
    parsed gen encoding (WireMessage.encodeRaw u) = some (.transaction (transactionView m info tx statusMeta), t) := by
  have hagree : ParsersAgree gen (WireMessage.encodeRaw u) := by
    refine agree_transaction hgen hv ht (fun info' hinfo => ?_) hfits
    obtain rfl := Option.some.inj (hm.symm.trans hinfo)
    exact ⟨tx, statusMeta, h⟩
  obtain ⟨msg, hparse, hview, hcreated⟩ := prost_parseTransaction t gen hm h
  rw [parsed_eq_prost fun _ => hagree, parsed, (prost_parse hgen hv ht).trans hparse]
  simp only [Except.toOption, Option.map_some, Message.view, hview, Message.createdAt, hcreated]

end

/-! ### A message of the plugin -/

theorem length_createPubkeys (pubkeys : List Pubkey) : ∀ key ∈ ConvertTo.createPubkeys pubkeys, key.length = 32 := by
  intro key hkey
  obtain ⟨pubkey, -, rfl⟩ := List.mem_map.mp hkey
  exact pubkey.property

theorem addKeys_createPubkeys (pubkeys : List Pubkey) : ∀ keys : Finset Pubkey,
    addKeys keys (ConvertTo.createPubkeys pubkeys) = keys ∪ pubkeys.toFinset := by
  induction pubkeys with
  | nil => exact fun keys => (Finset.union_empty keys).symm
  | cons pubkey pubkeys ih =>
    intro keys
    have hkey : addKeys keys (ConvertTo.createPubkeys (pubkey :: pubkeys)) =
        addKeys (insert pubkey keys) (ConvertTo.createPubkeys pubkeys) :=
      congrArg (List.foldl _ · _) (dif_pos pubkey.property)
    rw [hkey, ih, List.toFinset_cons, Finset.insert_union, Finset.union_insert]

theorem keysOf_info (tx : ReplicaTransactionInfo E) : keysOf (ConvertTo.createTransaction tx.transaction)
    (ConvertTo.createTransactionMeta SerializeError.serialize tx.transactionStatusMeta) = tx.keys.toFinset := by
  unfold keysOf ReplicaTransactionInfo.keys
  rw [List.toFinset_append, List.toFinset_append]
  cases hmessage : tx.transaction.message <;>
    simp [ConvertTo.createTransaction, ConvertTo.createMessage, ConvertTo.createTransactionMeta, hmessage,
      addKeys_createPubkeys]

theorem wellFormed_info (tx : ReplicaTransactionInfo E) :
    TransactionWellFormed tx.info (ConvertTo.createTransaction tx.transaction)
      (ConvertTo.createTransactionMeta SerializeError.serialize tx.transactionStatusMeta) where
  signature := tx.signature.property
  transaction := rfl
  statusMeta := rfl
  accountKeys := by
    intro message hmessage
    obtain rfl := Option.some.inj hmessage
    cases tx.transaction.message <;> exact length_createPubkeys _
  writable := length_createPubkeys _
  readonly := length_createPubkeys _

open Encoding in
theorem encodeRaw_eq {msg : ProtobufMessage E C} {v : Proto.UpdateOneof} (hv : msg.toProto = .inl v)
    (createdAt : Proto.Timestamp) (hlt : (msg.encodeRaw createdAt).length < 2 ^ 64) :
    msg.encodeRaw createdAt = WireMessage.encodeRaw (⟨[], some v, some createdAt⟩ : Proto.SubscribeUpdate) := by
  cases msg with
  | account s bankId info =>
    cases hv
    exact encodeWith_low (by decide) (writes_account ⟨s, bankId, info⟩) rfl hlt
  | slot s parent status bankId =>
    cases hv
    refine (encodeWith_low (by decide) (writes_slot ⟨s, parent, status, bankId⟩) rfl hlt).trans ?_
    cases status <;> rfl
  | transaction s bankId tx =>
    cases hv
    exact encodeWith_low (by decide) (writes_transactionUpdate ⟨s, bankId, tx⟩) rfl hlt
  | blockMeta bankId info =>
    cases hv
    exact encodeWith_low (by decide) (writes_blockMeta ⟨bankId, info⟩) rfl hlt
  | entry bankId info =>
    cases hv
    exact encodeWith_low (by decide) (writes_entry ⟨bankId, info⟩) rfl hlt
  | _ => cases hv

end ProtobufMessage

end Richat.Plugin
