import Richat.Message
import Mathlib.Logic.Function.Basic

/-!
# The messages of a bank

`BankInfo` stores the messages of one candidate block in the order they arrived, until the block is
announced, confirmed or finalized. Of the updates of an account only one survives: the one with the
highest write version, the first of them for equal ones. A superseded update leaves a hole, and
`accountsDedup` finds the surviving update of a public key. That it does is the field `indexed`:
a bank whose index is out of step with its messages cannot be built.

Once the block meta is known and as many transactions and entries as it announces are stored, the
`Block` message is built from the stored messages and stored as well. From then on only block
footers are stored.

The fields `slot`, `failed` and `landed` only feed the report of blocks that were not built and are
left out.
-/

namespace Richat

/-- `accountsDedup` leads from a public key to its account update in `messages`, and to its write
version. -/
def Indexed (messages : List (Option ParsedMessage)) (accountsDedup : Pubkey → Option (ℕ × ℕ)) :
    Prop :=
  ∀ pubkey version idx, accountsDedup pubkey = some (version, idx) ↔
    ∃ message msg, messages[idx]? = some (some message) ∧ message.getAccount = some msg ∧
      msg.pubkey = pubkey ∧ msg.writeVersion = version

structure BankInfo where
  blockCreated : Bool
  messages : List (Option ParsedMessage)
  accountsDedup : Pubkey → Option (ℕ × ℕ)
  transactionsCount : ℕ
  entriesCount : ℕ
  blockMeta : Option MessageBlockMeta
  indexed : Indexed messages accountsDedup

/-! ### Storing a message -/

theorem Indexed.append {messages : List (Option ParsedMessage)}
    {accountsDedup : Pubkey → Option (ℕ × ℕ)} (h : Indexed messages accountsDedup)
    {item : Option ParsedMessage} (hitem : ∀ message ∈ item, message.getAccount = none) :
    Indexed (messages ++ [item]) accountsDedup := by
  intro pubkey version idx
  rw [h pubkey version idx]
  constructor
  · rintro ⟨message, msg, hget, hrest⟩
    refine ⟨message, msg, ?_, hrest⟩
    rw [List.getElem?_append_left (List.getElem?_eq_some_iff.mp hget).1, hget]
  · rintro ⟨message, msg, hget, hmsg, hrest⟩
    refine ⟨message, msg, ?_, hmsg, hrest⟩
    rw [List.getElem?_append] at hget
    split at hget
    · exact hget
    · -- the new item is no account update
      have hmem : some message ∈ [item] := List.mem_of_getElem? hget
      rw [List.mem_singleton] at hmem
      rw [hitem message hmem.symm] at hmsg
      cases hmsg

/-- The store of an account update, `(messages, accountsDedup)` afterwards. -/
def insertAccount (messages : List (Option ParsedMessage))
    (accountsDedup : Pubkey → Option (ℕ × ℕ)) (item : ParsedMessage) (msg : MessageAccount) :
    List (Option ParsedMessage) × (Pubkey → Option (ℕ × ℕ)) :=
  let idxNew := messages.length
  let messages := messages ++ [some item]
  match accountsDedup msg.pubkey with
  | some entry =>
    if entry.1 < msg.writeVersion then
      (messages.set entry.2 none,
        Function.update accountsDedup msg.pubkey (some (msg.writeVersion, idxNew)))
    else (messages.set idxNew none, accountsDedup)
  | none =>
    (messages, Function.update accountsDedup msg.pubkey (some (msg.writeVersion, idxNew)))

/-- The new update takes over the index of its public key: no other stored update has it. -/
theorem Indexed.append_account {messages : List (Option ParsedMessage)}
    {accountsDedup : Pubkey → Option (ℕ × ℕ)} (h : Indexed messages accountsDedup)
    {item : ParsedMessage} {msg : MessageAccount} (hitem : item.getAccount = some msg)
    {messages' : List (Option ParsedMessage)} (hlen : messages'.length = messages.length)
    (hother : ∀ (idx : ℕ) (message : ParsedMessage) (other : MessageAccount),
      message.getAccount = some other →
      (messages'[idx]? = some (some message) ↔
        messages[idx]? = some (some message) ∧ other.pubkey ≠ msg.pubkey)) :
    Indexed (messages' ++ [some item])
      (Function.update accountsDedup msg.pubkey (some (msg.writeVersion, messages.length))) := by
  intro pubkey version idx
  by_cases hkey : pubkey = msg.pubkey
  · subst hkey
    rw [Function.update_self]
    constructor
    · intro heq
      simp only [Option.some.injEq, Prod.mk.injEq] at heq
      obtain ⟨rfl, rfl⟩ := heq
      exact ⟨item, msg, by simp [← hlen], hitem, rfl, rfl⟩
    · rintro ⟨message, other, hget, hmsg, hpubkey, rfl⟩
      rw [List.getElem?_append] at hget
      split at hget
      · exact absurd hpubkey ((hother _ _ _ hmsg).mp hget).2
      · rename_i hidx
        obtain ⟨hlt, heq⟩ := List.getElem?_eq_some_iff.mp hget
        have hidx' : idx = messages'.length := by simp at hlt; omega
        subst hidx'
        simp only [Nat.sub_self, List.getElem_cons_zero, Option.some.injEq] at heq
        subst heq
        rw [hitem] at hmsg
        cases hmsg
        rw [hlen]
  · rw [Function.update_of_ne hkey, h pubkey version idx]
    constructor
    · rintro ⟨message, other, hget, hmsg, rfl, hver⟩
      have hget' := (hother _ _ _ hmsg).mpr ⟨hget, hkey⟩
      refine ⟨message, other, ?_, hmsg, rfl, hver⟩
      rw [List.getElem?_append_left (List.getElem?_eq_some_iff.mp hget').1, hget']
    · rintro ⟨message, other, hget, hmsg, rfl, hver⟩
      refine ⟨message, other, ?_, hmsg, rfl, hver⟩
      rw [List.getElem?_append] at hget
      split at hget
      · exact ((hother _ _ _ hmsg).mp hget).1
      · have hmem : some message ∈ [some item] := List.mem_of_getElem? hget
        rw [List.mem_singleton, Option.some.injEq] at hmem
        subst hmem
        rw [hitem] at hmsg
        cases hmsg
        exact absurd rfl hkey

theorem Indexed.insertAccount {messages : List (Option ParsedMessage)}
    {accountsDedup : Pubkey → Option (ℕ × ℕ)} (h : Indexed messages accountsDedup)
    {item : ParsedMessage} {msg : MessageAccount} (hitem : item.getAccount = some msg) :
    Indexed (insertAccount messages accountsDedup item msg).1
      (insertAccount messages accountsDedup item msg).2 := by
  unfold Richat.insertAccount
  cases hentry : accountsDedup msg.pubkey with
  | none =>
    refine h.append_account hitem rfl fun idx message other hmsg => ?_
    refine ⟨fun hget => ⟨hget, fun hkey => ?_⟩, fun hget => hget.1⟩
    rw [← hkey, (h other.pubkey other.writeVersion idx).mpr ⟨message, other, hget, hmsg, rfl, rfl⟩]
      at hentry
    cases hentry
  | some entry =>
    obtain ⟨old, hold⟩ := entry
    obtain ⟨prev, prevMsg, hprev, hprevMsg, hprevKey, -⟩ := (h _ _ _).mp hentry
    have hlt := (List.getElem?_eq_some_iff.mp hprev).1
    dsimp only
    split
    · rw [List.set_append_left _ _ hlt]
      refine h.append_account hitem (List.length_set ..) fun idx message other hmsg => ?_
      rw [List.getElem?_set]
      by_cases hidx : hold = idx
      · subst hidx
        rw [if_pos rfl, if_pos hlt]
        refine ⟨fun hget => (by cases hget), fun ⟨hget, hkey⟩ => ?_⟩
        rw [hprev] at hget
        cases hget
        rw [hprevMsg] at hmsg
        cases hmsg
        exact absurd hprevKey hkey
      · rw [if_neg hidx]
        refine ⟨fun hget => ⟨hget, fun hkey => hidx ?_⟩, fun hget => hget.1⟩
        have := (h other.pubkey other.writeVersion idx).mpr ⟨message, other, hget, hmsg, rfl, rfl⟩
        rw [hkey, hentry] at this
        cases this
        rfl
    · rw [List.set_append_right _ _ le_rfl, Nat.sub_self, List.set_cons_zero]
      exact h.append (by simp)

namespace BankInfo

/-- `BankInfo::new`. -/
def new : BankInfo where
  blockCreated := false
  messages := []
  accountsDedup := fun _ => none
  transactionsCount := 0
  entriesCount := 0
  blockMeta := none
  indexed := by intro pubkey version idx; simp

/-- `self.messages.push(Some(item))` for an item that is no account update. -/
def store (bank : BankInfo) (item : ParsedMessage) (h : item.getAccount = none) : BankInfo :=
  { bank with
    messages := bank.messages ++ [some item]
    indexed := bank.indexed.append (by simpa using h) }

def storeAccount (bank : BankInfo) (item : ParsedMessage) (msg : MessageAccount)
    (h : item.getAccount = some msg) : BankInfo :=
  { bank with
    messages := (insertAccount bank.messages bank.accountsDedup item msg).1
    accountsDedup := (insertAccount bank.messages bank.accountsDedup item msg).2
    indexed := bank.indexed.insertAccount h }

/-- The stored messages, without the holes. -/
def stored (bank : BankInfo) : List ParsedMessage := bank.messages.filterMap id

/-- `Message::unchecked_create_block` from the stored messages. -/
def toBlock (bank : BankInfo) (blockMeta : MessageBlockMeta) : MessageBlock where
  accounts := bank.stored.filterMap (·.getAccount)
  transactions := bank.stored.filterMap (·.getTransaction)
  entries := bank.stored.filterMap (·.getEntry)
  blockMeta := blockMeta
  createdAt := blockMeta.createdAt

/-- The attempt to create the `Block`, which would be allocated at `arc`. -/
def createBlock (bank : BankInfo) (arc : ℕ) : BankInfo × Option ParsedMessage :=
  match bank.blockMeta with
  | none => (bank, none)
  | some blockMeta =>
    if blockMeta.executedTransactionCount = bank.transactionsCount ∧
        blockMeta.entriesCount = bank.entriesCount then
      let block : ParsedMessage := ⟨arc, .block (bank.toBlock blockMeta)⟩
      ({ bank.store block (ParsedMessage.getAccount_eq_none rfl) with blockCreated := true }, some block)
    else (bank, none)

/-- The messages that are stored until the block is created. -/
def storeMessage (bank : BankInfo) : ParsedMessage → Except Panic BankInfo
  | ⟨a, .account msg⟩ => .ok (bank.storeAccount ⟨a, .account msg⟩ msg rfl)
  | ⟨a, .transaction msg⟩ =>
    let bank := bank.store ⟨a, .transaction msg⟩ (ParsedMessage.getAccount_eq_none rfl)
    .ok { bank with transactionsCount := bank.transactionsCount + 1 }
  | ⟨a, .entry msg⟩ =>
    let bank := bank.store ⟨a, .entry msg⟩ (ParsedMessage.getAccount_eq_none rfl)
    .ok { bank with entriesCount := bank.entriesCount + 1 }
  | ⟨a, .blockMeta msg⟩ =>
    let bank := bank.store ⟨a, .blockMeta msg⟩ (ParsedMessage.getAccount_eq_none rfl)
    .ok { bank with blockMeta := some msg }
  | ⟨_, .slot _⟩ | ⟨_, .block _⟩ | ⟨_, .blockFooter _⟩ | ⟨_, .entryUpdateParent _⟩ =>
    .error .unreachable

/-- `BankInfo::get_block_message`: stores the message and returns the `Block` it completes, which
would be allocated at `arc`. -/
def getBlockMessage (bank : BankInfo) (message : ParsedMessage) (arc : ℕ) :
    Except Panic (BankInfo × Option ParsedMessage) :=
  match message with
  -- footer is not a part of the block and can be received after it
  | ⟨a, .blockFooter msg⟩ => .ok (bank.store ⟨a, .blockFooter msg⟩ (ParsedMessage.getAccount_eq_none rfl), none)
  | message =>
    if bank.blockCreated then .ok (bank, none)
    else
      match bank.storeMessage message with
      | .error e => .error e
      | .ok bank => .ok (bank.createBlock arc)

/-! ### What a message does to a bank -/

variable {bank bank' : BankInfo} {message : ParsedMessage} {arc : ℕ} {block : Option ParsedMessage}

theorem createBlock_cases (h : bank.createBlock arc = (bank', block)) :
    (bank' = bank ∧ block = none) ∨
    ∃ blockMeta, bank.blockMeta = some blockMeta ∧
      blockMeta.executedTransactionCount = bank.transactionsCount ∧
      blockMeta.entriesCount = bank.entriesCount ∧
      bank' = { bank.store ⟨arc, .block (bank.toBlock blockMeta)⟩
        (ParsedMessage.getAccount_eq_none rfl) with blockCreated := true } ∧
      block = some ⟨arc, .block (bank.toBlock blockMeta)⟩ := by
  unfold createBlock at h
  split at h
  · cases h
    exact Or.inl ⟨rfl, rfl⟩
  · rename_i blockMeta hmeta
    split at h
    · rename_i hcount
      cases h
      exact Or.inr ⟨blockMeta, hmeta, hcount.1, hcount.2, rfl, rfl⟩
    · cases h
      exact Or.inl ⟨rfl, rfl⟩

def isBlockFooter : Message → Bool
  | .blockFooter _ => true
  | _ => false

/-- The three ways of a message: a footer is stored, a message after the `Block` is not, any other
message is stored and may complete the `Block`. -/
theorem getBlockMessage_cases (h : bank.getBlockMessage message arc = .ok (bank', block)) :
    (∃ hacc : message.getAccount = none, isBlockFooter message.message ∧
      bank' = bank.store message hacc ∧ block = none) ∨
    (isBlockFooter message.message = false ∧ bank.blockCreated ∧ bank' = bank ∧ block = none) ∨
    (isBlockFooter message.message = false ∧ bank.blockCreated = false ∧
      ∃ mid, bank.storeMessage message = .ok mid ∧ mid.createBlock arc = (bank', block)) := by
  obtain ⟨a, message⟩ := message
  cases message with
  | blockFooter msg =>
    cases h
    exact Or.inl ⟨ParsedMessage.getAccount_eq_none rfl, rfl, rfl, rfl⟩
  | _ =>
    refine Or.inr ?_
    simp only [getBlockMessage] at h
    split at h
    · rename_i hcreated
      cases h
      exact Or.inl ⟨rfl, hcreated, rfl, rfl⟩
    · rename_i hcreated
      split at h
      · cases h
      · rename_i mid hmid
        exact Or.inr ⟨rfl, by simpa using hcreated, mid, hmid, Except.ok.inj h⟩

theorem mem_stored {m : ParsedMessage} : m ∈ bank.stored ↔ some m ∈ bank.messages := by
  simp [stored]

@[simp] theorem stored_store {item : ParsedMessage} (h : item.getAccount = none) :
    (bank.store item h).stored = bank.stored ++ [item] := by
  simp [stored, store]

/-- A superseded update leaves, nothing but the new update comes. -/
theorem mem_stored_storeAccount {item m : ParsedMessage} {msg : MessageAccount}
    (h : item.getAccount = some msg) (hm : m ∈ (bank.storeAccount item msg h).stored) :
    m ∈ bank.stored ∨ m = item := by
  rw [mem_stored] at hm ⊢
  have hset : ∀ idx, some m ∈ (bank.messages ++ [some item]).set idx none →
      some m ∈ bank.messages ∨ m = item := by
    intro idx hmem
    rcases List.mem_or_eq_of_mem_set hmem with hmem | hmem
    · simpa using hmem
    · cases hmem
  unfold storeAccount insertAccount at hm
  dsimp only at hm
  split at hm
  · split at hm
    · exact hset _ hm
    · exact hset _ hm
  · simpa using hm

/-- What `storeMessage` stores is the message. -/
theorem mem_stored_storeMessage {m : ParsedMessage} (h : bank.storeMessage message = .ok bank')
    (hm : m ∈ bank'.stored) : m ∈ bank.stored ∨ m = message := by
  obtain ⟨a, message⟩ := message
  cases message with
  | account msg =>
    cases h
    exact mem_stored_storeAccount _ hm
  | transaction msg =>
    cases h
    have hm' : m ∈ (bank.store ⟨a, .transaction msg⟩ (ParsedMessage.getAccount_eq_none rfl)).stored := hm
    simpa using hm'
  | entry msg =>
    cases h
    have hm' : m ∈ (bank.store ⟨a, .entry msg⟩ (ParsedMessage.getAccount_eq_none rfl)).stored := hm
    simpa using hm'
  | blockMeta msg =>
    cases h
    have hm' : m ∈ (bank.store ⟨a, .blockMeta msg⟩ (ParsedMessage.getAccount_eq_none rfl)).stored := hm
    simpa using hm'
  | _ => cases h

theorem blockMeta_storeMessage (h : bank.storeMessage message = .ok bank') :
    bank'.blockMeta = bank.blockMeta ∨ ∃ msg, message.message = .blockMeta msg ∧
      bank'.blockMeta = some msg := by
  obtain ⟨a, message⟩ := message
  cases message with
  | blockMeta msg =>
    cases h
    exact Or.inr ⟨msg, rfl, rfl⟩
  | account msg => cases h; exact Or.inl rfl
  | transaction msg => cases h; exact Or.inl rfl
  | entry msg => cases h; exact Or.inl rfl
  | _ => cases h

theorem storeMessage_kind (h : bank.storeMessage message = .ok bank') :
    message.message.isSlot = false ∧ message.message.isEntryUpdateParent = false := by
  obtain ⟨a, message⟩ := message
  cases message <;> first | exact ⟨rfl, rfl⟩ | cases h

/-- The bank has only messages of the slot and of itself. -/
structure Belongs (slot : Slot) (bankId : Option BankId) (bank : BankInfo) : Prop where
  stored : ∀ m ∈ bank.stored, m.slot = slot ∧ m.bankId = bankId ∧
    m.message.isSlot = false ∧ m.message.isEntryUpdateParent = false
  blockMeta : ∀ msg ∈ bank.blockMeta, msg.slot = slot ∧ (Message.blockMeta msg).bankId = bankId

theorem belongs_new (slot : Slot) (bankId : Option BankId) : Belongs slot bankId .new where
  stored := by simp [new, BankInfo.stored]
  blockMeta := by simp [new]

/-- The bank keeps to itself, and the `Block` it completes is its own. -/
theorem Belongs.getBlockMessage {slot : Slot} {bankId : Option BankId} (hb : Belongs slot bankId bank)
    (hslot : message.slot = slot) (hbank : message.bankId = bankId)
    (h : bank.getBlockMessage message arc = .ok (bank', block)) :
    Belongs slot bankId bank' ∧ ∀ b ∈ block, b.slot = slot ∧ b.bankId = bankId := by
  rcases getBlockMessage_cases h with ⟨hacc, hfooter, rfl, rfl⟩ | ⟨_, _, rfl, rfl⟩ |
    ⟨_, _, mid, hmid, hcreate⟩
  · refine ⟨⟨?_, hb.blockMeta⟩, by simp⟩
    intro m hm
    rw [stored_store, List.mem_append, List.mem_singleton] at hm
    rcases hm with hm | rfl
    · exact hb.stored m hm
    · refine ⟨hslot, hbank, ?_⟩
      obtain ⟨a, m⟩ := m
      cases m <;> first | exact ⟨rfl, rfl⟩ | cases hfooter
  · exact ⟨hb, by simp⟩
  · have hmidb : Belongs slot bankId mid := by
      constructor
      · intro m hm
        rcases mem_stored_storeMessage hmid hm with hm | rfl
        · exact hb.stored m hm
        · exact ⟨hslot, hbank, storeMessage_kind hmid⟩
      · intro msg hmsg
        rcases blockMeta_storeMessage hmid with hmeta | ⟨msg', hmsg', hmeta⟩
        · exact hb.blockMeta msg (hmeta ▸ hmsg)
        · rw [hmeta] at hmsg
          cases hmsg
          unfold ParsedMessage.slot ParsedMessage.bankId at *
          rw [hmsg'] at hslot hbank
          exact ⟨hslot, hbank⟩
    rcases createBlock_cases hcreate with ⟨rfl, rfl⟩ | ⟨blockMeta, hmeta, _, _, rfl, rfl⟩
    · exact ⟨hmidb, by simp⟩
    · have hblock := hmidb.blockMeta blockMeta hmeta
      refine ⟨⟨?_, hmidb.blockMeta⟩, by rintro b ⟨⟩; exact hblock⟩
      intro m hm
      have hm' : m ∈ (mid.store ⟨arc, .block (mid.toBlock blockMeta)⟩
          (ParsedMessage.getAccount_eq_none rfl)).stored := hm
      rw [stored_store, List.mem_append, List.mem_singleton] at hm'
      rcases hm' with hm' | rfl
      · exact hmidb.stored m hm'
      · exact ⟨hblock.1, hblock.2, rfl, rfl⟩

theorem blockCreated_storeMessage (h : bank.storeMessage message = .ok bank') :
    bank'.blockCreated = bank.blockCreated := by
  obtain ⟨a, message⟩ := message
  cases message with
  | account msg => cases h; rfl
  | transaction msg => cases h; rfl
  | entry msg => cases h; rfl
  | blockMeta msg => cases h; rfl
  | _ => cases h

/-- A `Block` is completed once. -/
theorem blockCreated_getBlockMessage (h : bank.getBlockMessage message arc = .ok (bank', block)) :
    (bank.blockCreated → bank'.blockCreated) ∧
      (block.isSome → bank.blockCreated = false ∧ bank'.blockCreated) := by
  rcases getBlockMessage_cases h with ⟨_, _, rfl, rfl⟩ | ⟨_, hcreated, rfl, rfl⟩ |
    ⟨_, hcreated, mid, hmid, hcreate⟩
  · exact ⟨id, by simp⟩
  · exact ⟨id, by simp⟩
  · refine ⟨fun hc => absurd hc (by simp [hcreated]), fun hsome => ⟨hcreated, ?_⟩⟩
    rcases createBlock_cases hcreate with ⟨_, rfl⟩ | ⟨_, _, _, _, rfl, _⟩
    · cases hsome
    · rfl

/-- Only a `Block` is returned. -/
theorem getBlockMessage_block (h : bank.getBlockMessage message arc = .ok (bank', block)) :
    ∀ b ∈ block, ∃ msg, b = ⟨arc, .block msg⟩ := by
  rcases getBlockMessage_cases h with ⟨_, _, _, rfl⟩ | ⟨_, _, _, rfl⟩ | ⟨_, _, mid, _, hcreate⟩
  · simp
  · simp
  · rcases createBlock_cases hcreate with ⟨_, rfl⟩ | ⟨_, _, _, _, _, rfl⟩
    · simp
    · simp

end BankInfo

end Richat
