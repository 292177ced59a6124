import Richat.Message
import Mathlib.Logic.Function.Basic

/-!
# Deduplication of several sources

`DedupInfo` is what the sender keeps for a slot to publish every event once, whichever source is
first. Bank-scoped messages are taken from the first source that sent one (`DedupInfo.source`);
statuses and messages without a bank race.

An account update is released with a write version that no source chose: the number of updates
without signature before it, or the place of its transaction plus `1_000`. An update whose
transaction is not known yet is parked (`DedupInfoTransactionIndex.accounts`) and released by the
transaction.

The hash maps are total functions where the code only goes through `entry(..).or_default()`.
-/

namespace Richat

abbrev SourceName := String

structure DedupInfoAccountTransactionKey where
  signature : Option Signature
  pubkey : Pubkey
  deriving DecidableEq

inductive DedupInfoTransactionIndex where
  /-- the transaction is known: the write version of its account updates -/
  | index (index : ℕ)
  /-- account updates that wait for the transaction -/
  | accounts (accounts : List MessageAccount)
  deriving DecidableEq

structure DedupInfoBank where
  accountsUpdates : Finset DedupInfoAccountTransactionKey
  accountsUpdatesPhantomIndex : ℕ
  transactions : Signature → Option DedupInfoTransactionIndex
  entries : List Bool
  blockMeta : Bool
  blockFooter : Bool
  entryUpdateParent : Bool

/-- `DedupInfoBank::default`. -/
def DedupInfoBank.default : DedupInfoBank where
  accountsUpdates := ∅
  accountsUpdatesPhantomIndex := 0
  transactions := fun _ => none
  entries := List.replicate 256 false
  blockMeta := false
  blockFooter := false
  entryUpdateParent := false

structure DedupInfo where
  /-- source of bank-scoped messages of the slot -/
  source : Option SourceName
  slots : Option BankId → SlotStatus → Bool
  banks : Option BankId → DedupInfoBank

/-- `DedupInfo::default`. -/
def DedupInfo.default : DedupInfo where
  source := none
  slots := fun _ _ => false
  banks := fun _ => .default

/-- `DedupInfoAccountTransactionKey::from`. -/
def MessageAccount.dedupKey (msg : MessageAccount) :
    Except Panic DedupInfoAccountTransactionKey :=
  match msg.txnSignature with
  | none => .ok ⟨none, msg.pubkey⟩
  | some bytes =>
    match Signature.tryFrom bytes with
    | some signature => .ok ⟨some signature, msg.pubkey⟩
    | none => .error .validSignature

/-- `usize::next_power_of_two`. -/
def nextPowerOfTwo (n : ℕ) : ℕ := if n ≤ 1 then 1 else 2 ^ (Nat.log2 (n - 1) + 1)

/-- `Vec::resize` with a length that is not below the present one. -/
def resize (entries : List Bool) (len : ℕ) : List Bool :=
  entries ++ List.replicate (len - entries.length) false

/-- The write version of the account updates of a transaction: some space is kept for account
updates without signature. The addition wraps. -/
def transactionWriteVersion (index : ℕ) : ℕ := (index + 1000) % 2 ^ 64

namespace DedupInfoBank

/-- `HashMap::insert` on the transactions. -/
def setTransaction (dedup : DedupInfoBank) (signature : Signature)
    (index : DedupInfoTransactionIndex) : DedupInfoBank :=
  { dedup with transactions := Function.update dedup.transactions signature (some index) }

/-- The account branch of the dedup `match`. -/
def pushAccount (dedup : DedupInfoBank) (msg : MessageAccount) :
    Except Panic (DedupInfoBank × List Message) :=
  match msg.dedupKey with
  | .error e => .error e
  | .ok key =>
    if key ∈ dedup.accountsUpdates then .ok (dedup, [])
    else
      let dedup := { dedup with accountsUpdates := insert key dedup.accountsUpdates }
      match key.signature with
      | some signature =>
        match dedup.transactions signature with
        | some (.index index) => .ok (dedup, [.account (msg.updateWriteVersion index)])
        | some (.accounts vec) =>
          .ok (dedup.setTransaction signature (.accounts (vec ++ [msg])), [])
        | none => .ok (dedup.setTransaction signature (.accounts [msg]), [])
      | none =>
        let index := dedup.accountsUpdatesPhantomIndex
        .ok ({ dedup with accountsUpdatesPhantomIndex := index + 1 },
          [.account (msg.updateWriteVersion index)])

/-- The transaction branch. -/
def pushTransaction (dedup : DedupInfoBank) (msg : MessageTransaction) :
    Except Panic (DedupInfoBank × List Message) :=
  match msg.signature with
  | .error e => .error e
  | .ok signature =>
    let index := transactionWriteVersion msg.index
    let known := dedup.setTransaction signature (.index index)
    match dedup.transactions signature with
    | some (.index _) => .ok (dedup, [])
    | some (.accounts vec) =>
      .ok (known, vec.map (fun m => .account (m.updateWriteVersion index)) ++ [.transaction msg])
    | none => .ok (known, [.transaction msg])

/-- The length of the bitmap once it is asked for `index`. -/
def entriesLen (len index : ℕ) : ℕ :=
  if len ≤ index then max (nextPowerOfTwo index) (len * 2) else len

/-- The entry branch. -/
def pushEntry (dedup : DedupInfoBank) (msg : MessageEntry) :
    Except Panic (DedupInfoBank × List Message) :=
  let entries := resize dedup.entries (entriesLen dedup.entries.length msg.index)
  match entries[msg.index]? with
  | none => .error (.indexOutOfBounds msg.index entries.length)
  | some true => .ok ({ dedup with entries }, [])
  | some false => .ok ({ dedup with entries := entries.set msg.index true }, [.entry msg])

/-- The branches of the dedup `match`, for every message that is not a status. -/
def push (dedup : DedupInfoBank) (message : Message) : Except Panic (DedupInfoBank × List Message) :=
  match message with
  | .slot _ => .error .unreachable
  | .account msg => dedup.pushAccount msg
  | .transaction msg => dedup.pushTransaction msg
  | .entry msg => dedup.pushEntry msg
  | .blockMeta _ =>
    if dedup.blockMeta then .ok (dedup, []) else .ok ({ dedup with blockMeta := true }, [message])
  | .block _ => .error .unreachable
  | .blockFooter _ =>
    if dedup.blockFooter then .ok (dedup, [])
    else .ok ({ dedup with blockFooter := true }, [message])
  | .entryUpdateParent _ =>
    if dedup.entryUpdateParent then .ok (dedup, [])
    else .ok ({ dedup with entryUpdateParent := true }, [message])

end DedupInfoBank

namespace DedupInfo

/-- `bank_id` is local to the node, so bank-scoped messages of a slot are accepted only from the
first source that sent one of them; `none` for a message of another source. -/
def acceptSource (dedup : DedupInfo) (bankId : Option BankId) (sourceName : SourceName) :
    Option DedupInfo :=
  if bankId.isNone then some dedup
  else
    match dedup.source with
    | some source => if source ≠ sourceName then none else some dedup
    | none => some { dedup with source := some sourceName }

/-- The dedup stage of `Sender::push` for the dedup info of the slot. -/
def push (dedup : DedupInfo) (sourceName : SourceName) (message : Message) :
    Except Panic (DedupInfo × List Message) :=
  let bankId := message.bankId
  match dedup.acceptSource bankId sourceName with
  | none => .ok (dedup, [])
  | some dedup =>
    match message with
    | .slot msg =>
      if dedup.slots bankId msg.status then .ok (dedup, [])
      else
        let slots := Function.update (dedup.slots bankId) msg.status true
        .ok ({ dedup with slots := Function.update dedup.slots bankId slots }, [message])
    | _ =>
      match (dedup.banks bankId).push message with
      | .error e => .error e
      | .ok (bank, messages) =>
        .ok ({ dedup with banks := Function.update dedup.banks bankId bank }, messages)

/-- A message that is no status and comes from the source of the slot goes to its bank. -/
theorem push_message {dedup accepted : DedupInfo} {sourceName : SourceName} {message : Message}
    (hslot : message.isSlot = false)
    (h : dedup.acceptSource message.bankId sourceName = some accepted) :
    dedup.push sourceName message =
      match (accepted.banks message.bankId).push message with
      | .error e => .error e
      | .ok (bank, messages) =>
        .ok ({ accepted with banks := Function.update accepted.banks message.bankId bank },
          messages) := by
  unfold push
  dsimp only
  rw [h]
  cases message <;> first | rfl | cases hslot

/-- The first status of a kind is passed on. -/
theorem push_slot {dedup accepted : DedupInfo} {sourceName : SourceName} {msg : MessageSlot}
    (h : dedup.acceptSource (Message.slot msg).bankId sourceName = some accepted) :
    dedup.push sourceName (.slot msg) =
      if accepted.slots (Message.slot msg).bankId msg.status then .ok (accepted, [])
      else
        .ok ({ accepted with
          slots := Function.update accepted.slots (Message.slot msg).bankId
            (Function.update (accepted.slots (Message.slot msg).bankId) msg.status true) },
          [.slot msg]) := by
  unfold push
  dsimp only
  rw [h]

theorem push_of_other_source {dedup : DedupInfo} {sourceName : SourceName} {message : Message}
    (h : dedup.acceptSource message.bankId sourceName = none) :
    dedup.push sourceName message = .ok (dedup, []) := by
  unfold push
  dsimp only
  rw [h]

end DedupInfo

end Richat
