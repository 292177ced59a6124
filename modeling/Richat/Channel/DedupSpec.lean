import Richat.Channel.Dedup

/-!
# What deduplication passes on

An event is what identifies a message within its slot and bank. `Published` reads off a dedup state
which events it has passed on, and `WellFormed` ties the parked account updates to their keys: an
update with a signature is either parked under it or passed on.

The step lemmas say what one message does: the events passed on are new, and they are exactly what
`Published` gains.
-/

namespace Richat

/-- What identifies a message among those of its slot and bank. -/
inductive Event where
  | status (status : SlotStatus)
  | transaction (signature : Option Bytes)
  | account (signature : Option Bytes) (pubkey : Pubkey)
  | entry (index : ℕ)
  | blockMeta
  | block
  | blockFooter
  | entryUpdateParent
  deriving DecidableEq

namespace Message

def event : Message → Event
  | slot msg => .status msg.status
  | account msg => .account msg.txnSignature msg.pubkey
  | transaction msg => .transaction msg.signatureBytes
  | entry msg => .entry msg.index
  | blockMeta _ => .blockMeta
  | block _ => .block
  | blockFooter _ => .blockFooter
  | entryUpdateParent _ => .entryUpdateParent

/-- Slot, bank and kind agree, as far as the sender tells kinds apart before a message is stored. -/
structure Alike (m message : Message) : Prop where
  slot : m.slotOf = message.slotOf
  bankId : m.bankId = message.bankId
  isSlot : m.isSlot = message.isSlot
  isEntryUpdateParent : m.isEntryUpdateParent = message.isEntryUpdateParent

theorem Alike.refl (message : Message) : Alike message message := ⟨rfl, rfl, rfl, rfl⟩

end Message

theorem Signature.tryFrom_eq_some {bytes : Bytes} {signature : Signature} :
    Signature.tryFrom bytes = some signature ↔ signature.1 = bytes := by
  unfold Signature.tryFrom
  split
  · rw [Option.some.injEq]
    exact ⟨fun h => by rw [← h], fun h => Subtype.ext h.symm⟩
  · rename_i h
    exact ⟨fun h' => (by cases h'), fun h' => absurd (h' ▸ signature.2) h⟩

theorem MessageAccount.dedupKey_eq_ok {msg : MessageAccount} {key : DedupInfoAccountTransactionKey}
    (h : msg.dedupKey = .ok key) :
    key.pubkey = msg.pubkey ∧ msg.txnSignature = key.signature.map (·.1) := by
  unfold dedupKey at h
  split at h
  · rename_i hnone
    cases h
    exact ⟨rfl, hnone⟩
  · rename_i bytes hbytes
    split at h
    · rename_i signature hsig
      cases h
      exact ⟨rfl, by rw [hbytes, Option.map_some, Signature.tryFrom_eq_some.mp hsig]⟩
    · cases h

theorem MessageTransaction.signature_eq_ok {msg : MessageTransaction} {signature : Signature}
    (h : msg.signature = .ok signature) : msg.signatureBytes = some signature.1 := by
  unfold MessageTransaction.signature signatureRef at h
  split at h
  · cases h
  · rename_i bytes hbytes
    split at hbytes
    · rename_i b hb
      cases hbytes
      split at h
      · rename_i sig hsig
        cases h
        rw [hb, Signature.tryFrom_eq_some.mp hsig]
      · cases h
    · cases hbytes

namespace DedupInfoBank

/-- The parked updates belong to the bank and to their signature, and the keys of a signature are
those of its parked updates until its transaction is known. -/
structure WellFormed (slot : Slot) (bankId : Option BankId) (dedup : DedupInfoBank) : Prop where
  parked : ∀ signature vec, dedup.transactions signature = some (.accounts vec) → ∀ msg ∈ vec,
    msg.slot = slot ∧ (Message.account msg).bankId = bankId ∧ msg.txnSignature = some signature.1
  nodup : ∀ signature vec, dedup.transactions signature = some (.accounts vec) →
    (vec.map (·.pubkey)).Nodup
  keys : ∀ signature vec, dedup.transactions signature = some (.accounts vec) → ∀ pubkey,
    ⟨some signature, pubkey⟩ ∈ dedup.accountsUpdates ↔ pubkey ∈ vec.map (·.pubkey)
  noKeys : ∀ signature, dedup.transactions signature = none → ∀ pubkey,
    ⟨some signature, pubkey⟩ ∉ dedup.accountsUpdates

/-- Whether the transaction is known. -/
def IsKnown (dedup : DedupInfoBank) (signature : Signature) : Prop :=
  ∃ index, dedup.transactions signature = some (.index index)

/-- The events passed on. -/
def Published (dedup : DedupInfoBank) : Event → Prop
  | .status _ => False
  | .transaction bytes => ∃ signature : Signature, bytes = some signature.1 ∧ dedup.IsKnown signature
  | .account bytes pubkey => ∃ signature : Option Signature, bytes = signature.map (·.1) ∧
      ⟨signature, pubkey⟩ ∈ dedup.accountsUpdates ∧ ∀ s ∈ signature, dedup.IsKnown s
  | .entry index => dedup.entries[index]? = some true
  | .blockMeta => dedup.blockMeta
  | .block => False
  | .blockFooter => dedup.blockFooter
  | .entryUpdateParent => dedup.entryUpdateParent

theorem wellFormed_default (slot : Slot) (bankId : Option BankId) :
    WellFormed slot bankId .default where
  parked := fun _ _ h => nomatch h
  nodup := fun _ _ h => nomatch h
  keys := fun _ _ h => nomatch h
  noKeys := fun _ _ _ h => absurd h (Finset.notMem_empty _)

theorem not_published_default (event : Event) : ¬ DedupInfoBank.default.Published event := by
  intro h
  cases event with
  | status status => exact h
  | transaction signature =>
    obtain ⟨_, _, _, h⟩ := h
    cases h
  | account signature pubkey =>
    obtain ⟨_, _, h, _⟩ := h
    exact Finset.notMem_empty _ h
  | entry index =>
    have h' : (List.replicate 256 false)[index]? = some true := h
    rw [List.getElem?_replicate] at h'
    split at h' <;> cases h'
  | block => exact h
  | _ => cases h

/-- What a message does to the dedup state of its bank and what is passed on. -/
structure Step (slot : Slot) (bankId : Option BankId) (dedup : DedupInfoBank) (message : Message)
    (dedup' : DedupInfoBank) (messages : List Message) : Prop where
  wellFormed : WellFormed slot bankId dedup'
  alike : ∀ m ∈ messages, m.Alike message
  nodup : (messages.map Message.event).Nodup
  fresh : ∀ m ∈ messages, ¬ dedup.Published m.event
  published : ∀ event, dedup'.Published event ↔
    dedup.Published event ∨ event ∈ messages.map Message.event

variable {slot : Slot} {bankId : Option BankId} {dedup dedup' : DedupInfoBank} {message : Message}
  {messages : List Message}

/-- Nothing changes and nothing is passed on. -/
theorem step_nil (h : WellFormed slot bankId dedup) : Step slot bankId dedup message dedup [] where
  wellFormed := h
  alike := by simp
  nodup := by simp
  fresh := by simp
  published := by simp

/-- A message that is passed on as it came, with keys and transactions unchanged. -/
theorem step_single (h : WellFormed slot bankId dedup)
    (hupdates : dedup'.accountsUpdates = dedup.accountsUpdates)
    (htransactions : dedup'.transactions = dedup.transactions)
    (hfresh : ¬ dedup.Published message.event)
    (hpublished : ∀ event, dedup'.Published event ↔
      dedup.Published event ∨ event = message.event) :
    Step slot bankId dedup message dedup' [message] where
  wellFormed := by
    constructor
    · exact htransactions ▸ h.parked
    · exact htransactions ▸ h.nodup
    · exact hupdates ▸ htransactions ▸ h.keys
    · exact hupdates ▸ htransactions ▸ h.noKeys
  alike := by simpa using Message.Alike.refl message
  nodup := by simp
  fresh := by simpa using hfresh
  published := by simpa using hpublished

theorem transactions_setTransaction {signature s : Signature} {value : DedupInfoTransactionIndex} :
    (dedup.setTransaction signature value).transactions s =
      if s = signature then some value else dedup.transactions s := by
  simp [setTransaction, Function.update_apply]

@[simp] theorem accountsUpdates_setTransaction {signature : Signature}
    {value : DedupInfoTransactionIndex} :
    (dedup.setTransaction signature value).accountsUpdates = dedup.accountsUpdates := rfl

theorem isKnown_setTransaction {signature s : Signature} {value : DedupInfoTransactionIndex} :
    (dedup.setTransaction signature value).IsKnown s ↔
      if s = signature then ∃ index, value = .index index else dedup.IsKnown s := by
  unfold IsKnown
  rw [transactions_setTransaction]
  split <;> simp

/-- The parked updates after an entry of the transactions is set. -/
theorem accounts_setTransaction {signature s : Signature} {value : DedupInfoTransactionIndex}
    {vec : List MessageAccount}
    (h : (dedup.setTransaction signature value).transactions s = some (.accounts vec)) :
    (s = signature ∧ value = .accounts vec) ∨
      (s ≠ signature ∧ dedup.transactions s = some (.accounts vec)) := by
  rw [transactions_setTransaction] at h
  split at h
  · rename_i hs
    exact Or.inl ⟨hs, Option.some.inj h⟩
  · rename_i hs
    exact Or.inr ⟨hs, h⟩

/-- Events of accounts are told apart by the signature. -/
theorem map_val_injective {a b : Option Signature} (h : a.map (·.1) = b.map (·.1)) : a = b :=
  Option.map_injective Subtype.val_injective h

theorem published_account {signature : Option Signature} {pubkey : Pubkey} :
    dedup.Published (.account (signature.map (·.1)) pubkey) ↔
      ⟨signature, pubkey⟩ ∈ dedup.accountsUpdates ∧ ∀ s ∈ signature, dedup.IsKnown s := by
  constructor
  · rintro ⟨signature', heq, h⟩
    rwa [map_val_injective heq]
  · intro h
    exact ⟨signature, rfl, h⟩

/-- The updates parked under a signature: none if the signature is not known at all. -/
def IsParked (dedup : DedupInfoBank) (signature : Signature) (vec : List MessageAccount) : Prop :=
  (dedup.transactions signature = none ∧ vec = []) ∨
    dedup.transactions signature = some (.accounts vec)

theorem IsParked.not_isKnown {signature : Signature} {vec : List MessageAccount}
    (h : dedup.IsParked signature vec) : ¬ dedup.IsKnown signature := by
  rintro ⟨index, hindex⟩
  rcases h with ⟨h, -⟩ | h <;> rw [hindex] at h <;> cases h

theorem IsParked.keys {signature : Signature} {vec : List MessageAccount}
    (h : dedup.IsParked signature vec) (hwf : WellFormed slot bankId dedup) (pubkey : Pubkey) :
    ⟨some signature, pubkey⟩ ∈ dedup.accountsUpdates ↔ pubkey ∈ vec.map (·.pubkey) := by
  rcases h with ⟨hnone, rfl⟩ | h
  · simpa using hwf.noKeys signature hnone pubkey
  · exact hwf.keys signature vec h pubkey

theorem IsParked.nodup {signature : Signature} {vec : List MessageAccount}
    (h : dedup.IsParked signature vec) (hwf : WellFormed slot bankId dedup) :
    (vec.map (·.pubkey)).Nodup := by
  rcases h with ⟨hnone, rfl⟩ | h
  · simp
  · exact hwf.nodup signature vec h

theorem IsParked.parked {signature : Signature} {vec : List MessageAccount}
    (h : dedup.IsParked signature vec) (hwf : WellFormed slot bankId dedup) : ∀ msg ∈ vec,
    msg.slot = slot ∧ (Message.account msg).bankId = bankId ∧
      msg.txnSignature = some signature.1 := by
  rcases h with ⟨hnone, rfl⟩ | h
  · simp
  · exact hwf.parked signature vec h

/-- An account update that is passed on: it has no signature, or its transaction is known. -/
theorem step_released {msg : MessageAccount} {signature : Option Signature} {writeVersion index : ℕ}
    (h : WellFormed slot bankId dedup) (hsig : msg.txnSignature = signature.map (·.1))
    (hknown : ∀ s ∈ signature, dedup.IsKnown s)
    (hnew : ⟨signature, msg.pubkey⟩ ∉ dedup.accountsUpdates) :
    Step slot bankId dedup (.account msg)
      { dedup with
        accountsUpdates := insert ⟨signature, msg.pubkey⟩ dedup.accountsUpdates
        accountsUpdatesPhantomIndex := index }
      [.account (msg.updateWriteVersion writeVersion)] where
  wellFormed := by
    -- the new key is none of a signature that is parked or not known at all
    have hkeys : ∀ s : Signature, ¬ dedup.IsKnown s → ∀ pubkey,
        (⟨some s, pubkey⟩ : DedupInfoAccountTransactionKey) ∈
          insert ⟨signature, msg.pubkey⟩ dedup.accountsUpdates ↔
        ⟨some s, pubkey⟩ ∈ dedup.accountsUpdates := by
      intro s hs pubkey
      rw [Finset.mem_insert, or_iff_right]
      intro heq
      obtain ⟨rfl, -⟩ := DedupInfoAccountTransactionKey.mk.inj heq
      exact hs (hknown s rfl)
    constructor
    · exact h.parked
    · exact h.nodup
    · intro s vec hvec pubkey
      rw [hkeys s (IsParked.not_isKnown (Or.inr hvec))]
      exact h.keys s vec hvec pubkey
    · intro s hs pubkey
      rw [hkeys s (IsParked.not_isKnown (Or.inl ⟨hs, rfl⟩))]
      exact h.noKeys s hs pubkey
  alike := by simpa using ⟨rfl, rfl, rfl, rfl⟩
  nodup := by simp
  fresh := by
    simp only [List.mem_singleton, forall_eq, Message.event, MessageAccount.updateWriteVersion]
    rw [hsig, published_account]
    exact fun hpub => hnew hpub.1
  published := by
    intro event
    simp only [List.map_cons, List.map_nil, List.mem_singleton, Message.event,
      MessageAccount.updateWriteVersion]
    cases event with
    | account bytes pubkey =>
      constructor
      · rintro ⟨s, rfl, hmem, hs⟩
        rcases Finset.mem_insert.mp hmem with heq | hmem
        · obtain ⟨rfl, rfl⟩ := DedupInfoAccountTransactionKey.mk.inj heq
          exact Or.inr (by rw [hsig])
        · exact Or.inl ⟨s, rfl, hmem, hs⟩
      · rintro (⟨s, rfl, hmem, hs⟩ | heq)
        · exact ⟨s, rfl, Finset.mem_insert_of_mem hmem, hs⟩
        · obtain ⟨rfl, rfl⟩ := Event.account.inj heq
          exact ⟨signature, hsig, Finset.mem_insert_self _ _, hknown⟩
    | _ => exact ⟨Or.inl, fun h => h.resolve_right (by simp)⟩

/-- An account update that is parked under its signature. -/
theorem step_parked {msg : MessageAccount} {signature : Signature} {vec : List MessageAccount}
    (h : WellFormed slot bankId dedup) (hslot : msg.slot = slot)
    (hbank : (Message.account msg).bankId = bankId) (hsig : msg.txnSignature = some signature.1)
    (hvec : dedup.IsParked signature vec)
    (hnew : ⟨some signature, msg.pubkey⟩ ∉ dedup.accountsUpdates) :
    Step slot bankId dedup (.account msg)
      ({ dedup with
        accountsUpdates := insert (⟨some signature, msg.pubkey⟩ : DedupInfoAccountTransactionKey)
          dedup.accountsUpdates
        }.setTransaction signature (.accounts (vec ++ [msg]))) [] where
  wellFormed := by
    have hother : ∀ s : Signature, s ≠ signature → ∀ pubkey,
        (⟨some s, pubkey⟩ : DedupInfoAccountTransactionKey) ∈
          insert ⟨some signature, msg.pubkey⟩ dedup.accountsUpdates ↔
        ⟨some s, pubkey⟩ ∈ dedup.accountsUpdates := by
      intro s hs pubkey
      rw [Finset.mem_insert, or_iff_right]
      intro heq
      exact hs (Option.some.inj (DedupInfoAccountTransactionKey.mk.inj heq).1)
    constructor
    · intro s vec' hvec' m hm
      rcases accounts_setTransaction hvec' with ⟨rfl, heq⟩ | ⟨-, hold⟩
      · cases heq
        rcases List.mem_append.mp hm with hm | hm
        · exact hvec.parked h m hm
        · rw [List.mem_singleton.mp hm]
          exact ⟨hslot, hbank, hsig⟩
      · exact h.parked s vec' hold m hm
    · intro s vec' hvec'
      rcases accounts_setTransaction hvec' with ⟨rfl, heq⟩ | ⟨-, hold⟩
      · cases heq
        rw [hvec.keys h] at hnew
        rw [List.map_append, List.nodup_append]
        refine ⟨hvec.nodup h, by simp, ?_⟩
        intro a ha b hb heq
        rw [List.map_cons, List.map_nil, List.mem_singleton] at hb
        exact hnew (hb ▸ heq ▸ ha)
      · exact h.nodup s vec' hold
    · intro s vec' hvec' pubkey
      rcases accounts_setTransaction hvec' with ⟨rfl, heq⟩ | ⟨hs, hold⟩
      · cases heq
        rw [accountsUpdates_setTransaction, Finset.mem_insert, hvec.keys h, List.map_append,
          List.mem_append, DedupInfoAccountTransactionKey.mk.injEq]
        simp [or_comm]
      · exact (hother s hs pubkey).trans (h.keys s vec' hold pubkey)
    · intro s hnone pubkey
      rw [transactions_setTransaction] at hnone
      split at hnone
      · cases hnone
      · rename_i hs
        exact fun hmem => h.noKeys s hnone pubkey ((hother s hs pubkey).mp hmem)
  alike := by simp
  nodup := by simp
  fresh := by simp
  published := by
    intro event
    have hknown : ∀ s, ({ dedup with
        accountsUpdates := insert (⟨some signature, msg.pubkey⟩ : DedupInfoAccountTransactionKey)
          dedup.accountsUpdates
        }.setTransaction signature (.accounts (vec ++ [msg]))).IsKnown s ↔ dedup.IsKnown s := by
      intro s
      rw [isKnown_setTransaction]
      split
      · rename_i hs
        subst hs
        exact ⟨fun ⟨index, hindex⟩ => (by cases hindex), fun hs => absurd hs hvec.not_isKnown⟩
      · rfl
    simp only [List.map_nil, List.not_mem_nil, or_false]
    cases event with
    | transaction bytes => simp only [Published, hknown]
    | account bytes pubkey =>
      simp only [Published, hknown]
      constructor
      · rintro ⟨s, rfl, hmem, hs⟩
        refine ⟨s, rfl, ?_, hs⟩
        rcases Finset.mem_insert.mp hmem with heq | hmem
        · obtain ⟨rfl, -⟩ := DedupInfoAccountTransactionKey.mk.inj heq
          exact absurd (hs signature rfl) hvec.not_isKnown
        · exact hmem
      · rintro ⟨s, rfl, hmem, hs⟩
        exact ⟨s, rfl, Finset.mem_insert_of_mem hmem, hs⟩
    | _ => rfl

/-- **An account update.** -/
theorem step_pushAccount {msg : MessageAccount} (h : WellFormed slot bankId dedup)
    (hslot : msg.slot = slot) (hbank : (Message.account msg).bankId = bankId)
    (hpush : dedup.pushAccount msg = .ok (dedup', messages)) :
    Step slot bankId dedup (.account msg) dedup' messages := by
  unfold pushAccount at hpush
  split at hpush
  · cases hpush
  · rename_i key hkey
    obtain ⟨signature, pubkey⟩ := key
    obtain ⟨rfl, hsig⟩ := MessageAccount.dedupKey_eq_ok hkey
    split at hpush
    · cases hpush
      exact step_nil h
    · rename_i hnew
      dsimp only at hpush hsig
      cases signature with
      | some signature =>
        dsimp only at hpush
        split at hpush
        · rename_i index hindex
          cases hpush
          refine step_released h hsig ?_ hnew
          rintro s ⟨⟩
          exact ⟨index, hindex⟩
        · rename_i vec hvec
          cases hpush
          exact step_parked h hslot hbank hsig (Or.inr hvec) hnew
        · rename_i hnone
          cases hpush
          exact step_parked h hslot hbank hsig (Or.inl ⟨hnone, rfl⟩) hnew
      | none =>
        cases hpush
        exact step_released h hsig (by simp) hnew

/-- The transaction of parked updates: they are passed on, and the transaction after them. -/
theorem step_released_transaction {msg : MessageTransaction} {signature : Signature}
    {vec : List MessageAccount} {index : ℕ} (h : WellFormed slot bankId dedup)
    (hslot : msg.slot = slot) (hbank : (Message.transaction msg).bankId = bankId)
    (hsig : msg.signatureBytes = some signature.1) (hvec : dedup.IsParked signature vec) :
    Step slot bankId dedup (.transaction msg) (dedup.setTransaction signature (.index index))
      (vec.map (fun m => .account (m.updateWriteVersion index)) ++ [.transaction msg]) where
  wellFormed := by
    constructor
    · intro s vec' hvec' m hm
      rcases accounts_setTransaction hvec' with ⟨-, heq⟩ | ⟨-, hold⟩
      · cases heq
      · exact h.parked s vec' hold m hm
    · intro s vec' hvec'
      rcases accounts_setTransaction hvec' with ⟨-, heq⟩ | ⟨-, hold⟩
      · cases heq
      · exact h.nodup s vec' hold
    · intro s vec' hvec' pubkey
      rcases accounts_setTransaction hvec' with ⟨-, heq⟩ | ⟨-, hold⟩
      · cases heq
      · exact h.keys s vec' hold pubkey
    · intro s hnone pubkey
      rw [transactions_setTransaction] at hnone
      split at hnone
      · cases hnone
      · exact h.noKeys s hnone pubkey
  alike := by
    intro m hm
    rcases List.mem_append.mp hm with hm | hm
    · obtain ⟨account, haccount, rfl⟩ := List.mem_map.mp hm
      obtain ⟨haslot, habank, -⟩ := hvec.parked h account haccount
      exact ⟨haslot.trans hslot.symm, habank.trans hbank.symm, rfl, rfl⟩
    · rw [List.mem_singleton.mp hm]
      exact Message.Alike.refl _
  nodup := by
    have hevents : (vec.map fun m => Message.account (m.updateWriteVersion index)).map Message.event =
        (vec.map (·.pubkey)).map fun pubkey => Event.account (some signature.1) pubkey := by
      rw [List.map_map, List.map_map]
      refine List.map_congr_left fun m hm => ?_
      simp [Message.event, MessageAccount.updateWriteVersion, (hvec.parked h m hm).2.2]
    rw [List.map_append, hevents, List.nodup_append]
    refine ⟨(hvec.nodup h).map fun a b hab => (Event.account.inj hab).2, by simp, ?_⟩
    intro a ha b hb
    obtain ⟨pubkey, -, rfl⟩ := List.mem_map.mp ha
    rw [List.map_cons, List.map_nil, List.mem_singleton] at hb
    rw [hb]
    simp [Message.event]
  fresh := by
    intro m hm hpub
    refine hvec.not_isKnown ?_
    rcases List.mem_append.mp hm with hm | hm
    · obtain ⟨account, haccount, rfl⟩ := List.mem_map.mp hm
      have hsig' : account.txnSignature = (some signature).map (·.1) := (hvec.parked h account haccount).2.2
      simp only [Message.event, MessageAccount.updateWriteVersion] at hpub
      rw [hsig', published_account] at hpub
      exact hpub.2 signature rfl
    · rw [List.mem_singleton.mp hm, Message.event, hsig] at hpub
      obtain ⟨s, hs, hknown⟩ := hpub
      rwa [Subtype.ext (Option.some.inj hs)]
  published := by
    intro event
    have hmem : event ∈ (vec.map (fun m : MessageAccount => Message.account (m.updateWriteVersion index))
          ++ [Message.transaction msg]).map Message.event ↔
        (∃ m ∈ vec, event = .account (some signature.1) m.pubkey) ∨
          event = .transaction (some signature.1) := by
      rw [List.map_append, List.mem_append, List.map_map]
      refine or_congr ?_ (by simp [Message.event, hsig])
      rw [List.mem_map]
      refine exists_congr fun m => and_congr_right fun hm => ?_
      simp only [Function.comp, Message.event, MessageAccount.updateWriteVersion,
        (hvec.parked h m hm).2.2]
      exact eq_comm
    rw [hmem]
    cases event with
    | transaction bytes =>
      simp only [Published, isKnown_setTransaction]
      constructor
      · rintro ⟨s, rfl, hs⟩
        by_cases heq : s = signature
        · exact Or.inr (Or.inr (by rw [heq]))
        · rw [if_neg heq] at hs
          exact Or.inl ⟨s, rfl, hs⟩
      · rintro (⟨s, rfl, hs⟩ | ⟨m, _, hm⟩ | hs)
        · refine ⟨s, rfl, ?_⟩
          split
          · exact ⟨index, rfl⟩
          · exact hs
        · cases hm
        · exact ⟨signature, Event.transaction.inj hs, by rw [if_pos rfl]; exact ⟨index, rfl⟩⟩
    | account bytes pubkey =>
      simp only [Published, isKnown_setTransaction, accountsUpdates_setTransaction]
      constructor
      · rintro ⟨s, rfl, hmem, hs⟩
        by_cases heq : s = some signature
        · rw [heq, hvec.keys h] at hmem
          obtain ⟨m, hm, rfl⟩ := List.mem_map.mp hmem
          exact Or.inr (Or.inl ⟨m, hm, by rw [heq]; rfl⟩)
        · refine Or.inl ⟨s, rfl, hmem, fun s' hs' => ?_⟩
          have hne : s' ≠ signature := fun e => heq (by rw [← e]; exact hs')
          simpa [hne] using hs s' hs'
      · rintro (⟨s, rfl, hmem, hs⟩ | ⟨m, hm, heq⟩ | heq)
        · refine ⟨s, rfl, hmem, fun s' hs' => ?_⟩
          split
          · exact ⟨index, rfl⟩
          · exact hs s' hs'
        · obtain ⟨rfl, rfl⟩ := Event.account.inj heq
          refine ⟨some signature, rfl, (hvec.keys h _).mpr (List.mem_map_of_mem hm), ?_⟩
          rintro s ⟨⟩
          rw [if_pos rfl]
          exact ⟨index, rfl⟩
        · cases heq
    | _ => simp [Published, setTransaction]

/-- **A transaction.** -/
theorem step_pushTransaction {msg : MessageTransaction} (h : WellFormed slot bankId dedup)
    (hslot : msg.slot = slot) (hbank : (Message.transaction msg).bankId = bankId)
    (hpush : dedup.pushTransaction msg = .ok (dedup', messages)) :
    Step slot bankId dedup (.transaction msg) dedup' messages := by
  unfold pushTransaction at hpush
  split at hpush
  · cases hpush
  · rename_i signature hsig
    have hbytes := MessageTransaction.signature_eq_ok hsig
    dsimp only at hpush
    split at hpush
    · cases hpush
      exact step_nil h
    · rename_i vec hvec
      cases hpush
      exact step_released_transaction h hslot hbank hbytes (Or.inr hvec)
    · rename_i hnone
      cases hpush
      have hvec : dedup.IsParked signature [] := Or.inl ⟨hnone, rfl⟩
      exact step_released_transaction h hslot hbank hbytes hvec

/-- Enlarging the bitmap marks nothing. -/
theorem getElem?_resize {entries : List Bool} {len i : ℕ} :
    (resize entries len)[i]? = some true ↔ entries[i]? = some true := by
  unfold resize
  rw [List.getElem?_append]
  split
  · exact Iff.rfl
  · rename_i h
    rw [List.getElem?_replicate, List.getElem?_eq_none (by omega)]
    split <;> simp

/-- **An entry.** -/
theorem step_pushEntry {msg : MessageEntry} (h : WellFormed slot bankId dedup)
    (hpush : dedup.pushEntry msg = .ok (dedup', messages)) :
    Step slot bankId dedup (.entry msg) dedup' messages := by
  unfold pushEntry at hpush
  dsimp only at hpush
  split at hpush
  · cases hpush
  · cases hpush
    refine { step_nil h with wellFormed := ⟨h.parked, h.nodup, h.keys, h.noKeys⟩, published := ?_ }
    intro event
    cases event with
    | entry i => simp [Published, getElem?_resize]
    | _ => simp [Published, IsKnown]
  · rename_i hfalse
    cases hpush
    refine step_single h rfl rfl ?_ ?_
    · intro hpub
      have htrue : dedup.entries[msg.index]? = some true := hpub
      rw [← getElem?_resize, hfalse] at htrue
      cases htrue
    · intro event
      cases event with
      | entry i =>
        simp only [Published, Message.event, Event.entry.injEq]
        rw [List.getElem?_set]
        by_cases hi : msg.index = i
        · subst hi
          have hlt := (List.getElem?_eq_some_iff.mp hfalse).1
          simp [hlt]
        · rw [if_neg hi, getElem?_resize]
          exact (or_iff_left fun e => hi e.symm).symm
      | _ => simp [Message.event, Published, IsKnown]

/-- **A message of a bank.** -/
theorem step_push (h : WellFormed slot bankId dedup) (hslot : message.slotOf = slot)
    (hbank : message.bankId = bankId) (hpush : dedup.push message = .ok (dedup', messages)) :
    Step slot bankId dedup message dedup' messages := by
  cases message with
  | slot msg => cases hpush
  | block msg => cases hpush
  | account msg => exact step_pushAccount h hslot hbank hpush
  | transaction msg => exact step_pushTransaction h hslot hbank hpush
  | entry msg => exact step_pushEntry h hpush
  | _ =>
    simp only [push] at hpush
    split at hpush
    · cases hpush
      exact step_nil h
    · rename_i hnew
      cases hpush
      refine step_single h rfl rfl hnew fun event => ?_
      cases event <;> simp [Message.event, Published, IsKnown]

end DedupInfoBank

namespace DedupInfo

/-- Every bank is well formed. -/
def WellFormed (slot : Slot) (dedup : DedupInfo) : Prop :=
  ∀ bankId, (dedup.banks bankId).WellFormed slot bankId

/-- The events passed on, by bank. -/
def Published (dedup : DedupInfo) (bankId : Option BankId) (event : Event) : Prop :=
  (∃ status, event = .status status ∧ dedup.slots bankId status) ∨
    (dedup.banks bankId).Published event

theorem wellFormed_default (slot : Slot) : WellFormed slot .default :=
  fun bankId => DedupInfoBank.wellFormed_default slot bankId

/-- What a message does to the dedup state of its slot and what is passed on. -/
structure Step (slot : Slot) (dedup : DedupInfo) (message : Message) (dedup' : DedupInfo)
    (messages : List Message) : Prop where
  wellFormed : WellFormed slot dedup'
  alike : ∀ m ∈ messages, m.Alike message
  nodup : (messages.map Message.event).Nodup
  fresh : ∀ m ∈ messages, ¬ dedup.Published message.bankId m.event
  published : ∀ bankId event, dedup'.Published bankId event ↔
    dedup.Published bankId event ∨
      (bankId = message.bankId ∧ event ∈ messages.map Message.event)

variable {slot : Slot} {dedup dedup' accepted : DedupInfo} {message : Message}
  {messages : List Message} {sourceName : SourceName}

theorem acceptSource_eq_some {bankId : Option BankId}
    (h : dedup.acceptSource bankId sourceName = some accepted) :
    accepted.slots = dedup.slots ∧ accepted.banks = dedup.banks := by
  unfold acceptSource at h
  split at h
  · cases h
    exact ⟨rfl, rfl⟩
  · split at h
    · split at h
      · cases h
      · cases h
        exact ⟨rfl, rfl⟩
    · cases h
      exact ⟨rfl, rfl⟩

theorem step_nil (h : WellFormed slot dedup) : Step slot dedup message dedup [] where
  wellFormed := h
  alike := by simp
  nodup := by simp
  fresh := by simp
  published := by simp

/-- **A message of the slot.** -/
theorem step_push (h : WellFormed slot dedup) (hslot : message.slotOf = slot)
    (hpush : dedup.push sourceName message = .ok (dedup', messages)) :
    Step slot dedup message dedup' messages := by
  cases haccept : dedup.acceptSource message.bankId sourceName with
  | none =>
    rw [push_of_other_source haccept] at hpush
    cases hpush
    exact step_nil h
  | some accepted =>
    obtain ⟨hslots, hbanks⟩ := acceptSource_eq_some haccept
    have hpub : ∀ bankId event,
        accepted.Published bankId event ↔ dedup.Published bankId event := by
      intro bankId event
      rw [Published, Published, hslots, hbanks]
    have hwf : WellFormed slot accepted := by
      unfold WellFormed
      rw [hbanks]
      exact h
    cases hm : message.isSlot with
    | false =>
      rw [push_message hm haccept] at hpush
      split at hpush
      · cases hpush
      · rename_i bank messages' hbank
        cases hpush
        have hstep := DedupInfoBank.step_push (hwf message.bankId) hslot rfl hbank
        constructor
        · intro bankId
          by_cases hb : bankId = message.bankId
          · subst hb
            simpa using hstep.wellFormed
          · simpa [hb] using hwf bankId
        · exact hstep.alike
        · exact hstep.nodup
        · intro m hmem
          rw [← hpub]
          rintro (⟨status, hstatus, -⟩ | hp)
          · have hm' := (hstep.alike m hmem).isSlot.trans hm
            cases m <;> simp [Message.event] at hstatus hm'
          · exact hstep.fresh m hmem hp
        · intro bankId event
          rw [← hpub, Published, Published]
          dsimp only
          by_cases hb : bankId = message.bankId
          · subst hb
            rw [Function.update_self, hstep.published]
            simp [or_assoc]
          · rw [Function.update_of_ne hb]
            simp [hb]
    | true =>
      cases message with
      | slot msg =>
        rw [push_slot haccept] at hpush
        split at hpush
        · cases hpush
          exact ⟨hwf, by simp, by simp, by simp, by simp [hpub]⟩
        · rename_i hnew
          cases hpush
          constructor
          · exact hwf
          · simpa using Message.Alike.refl _
          · simp
          · simp only [List.mem_singleton, forall_eq]
            rw [← hpub]
            rintro (⟨status, hstatus, hp⟩ | hp)
            · cases hstatus
              exact hnew hp
            · exact hp
          · intro bankId event
            rw [← hpub, Published, Published]
            dsimp only
            by_cases hb : bankId = (Message.slot msg).bankId
            · subst hb
              rw [Function.update_self]
              by_cases hevent : event = .status msg.status
              · subst hevent
                simp [Message.event]
              · have : ∀ status, event = .status status → status ≠ msg.status :=
                  fun status he hs => hevent (by rw [he, hs])
                constructor
                · rintro (⟨status, he, hp⟩ | hp)
                  · rw [Function.update_of_ne (this status he)] at hp
                    exact Or.inl (Or.inl ⟨status, he, hp⟩)
                  · exact Or.inl (Or.inr hp)
                · rintro ((⟨status, he, hp⟩ | hp) | ⟨-, hp⟩)
                  · exact Or.inl ⟨status, he, by rwa [Function.update_of_ne (this status he)]⟩
                  · exact Or.inr hp
                  · exact absurd (by simpa [Message.event] using hp) hevent
            · rw [Function.update_of_ne hb]
              simp [hb]
      | _ => cases hm

end DedupInfo

end Richat
