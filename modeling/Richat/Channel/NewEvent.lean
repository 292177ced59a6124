import Richat.Channel.DedupSpec

/-!
# A new event

What deduplication does with an event that it does not hold yet, case by case: nothing is dropped.
The event is passed on, or an account update is parked until its transaction comes.
-/

namespace Richat

namespace DedupInfoBank

/-- The events passed on or parked. -/
def Holds (dedup : DedupInfoBank) : Event → Prop
  | .account bytes pubkey => ∃ signature : Option Signature, bytes = signature.map (·.1) ∧
      ⟨signature, pubkey⟩ ∈ dedup.accountsUpdates
  | event => dedup.Published event

/-- How a message goes through deduplication, with what is passed on. -/
inductive Passes (dedup dedup' : DedupInfoBank) : Message → List Message → Prop
  | other {m : Message} (hm : ∀ msg, m ≠ .account msg) (ht : ∀ msg, m ≠ .transaction msg)
      (same : dedup'.transactions = dedup.transactions)
      (phantom : dedup'.accountsUpdatesPhantomIndex = dedup.accountsUpdatesPhantomIndex) :
      Passes dedup dedup' m [m]
  | unsigned {msg : MessageAccount} (hsig : msg.txnSignature = none)
      (same : dedup'.transactions = dedup.transactions)
      (phantom : dedup'.accountsUpdatesPhantomIndex = dedup.accountsUpdatesPhantomIndex + 1) :
      Passes dedup dedup' (.account msg)
        [.account (msg.updateWriteVersion dedup.accountsUpdatesPhantomIndex)]
  | known {msg : MessageAccount} {signature : Signature} {index : ℕ}
      (hsig : msg.txnSignature = some signature.1)
      (hknown : dedup.transactions signature = some (.index index))
      (same : dedup'.transactions = dedup.transactions)
      (phantom : dedup'.accountsUpdatesPhantomIndex = dedup.accountsUpdatesPhantomIndex) :
      Passes dedup dedup' (.account msg) [.account (msg.updateWriteVersion index)]
  | parks {msg : MessageAccount} {signature : Signature} {vec : List MessageAccount}
      (hsig : msg.txnSignature = some signature.1) (hvec : dedup.IsParked signature vec)
      (set : dedup'.transactions =
        Function.update dedup.transactions signature (some (.accounts (vec ++ [msg]))))
      (phantom : dedup'.accountsUpdatesPhantomIndex = dedup.accountsUpdatesPhantomIndex) :
      Passes dedup dedup' (.account msg) []
  | releases {msg : MessageTransaction} {signature : Signature} {vec : List MessageAccount}
      (hsig : msg.signatureBytes = some signature.1) (hvec : dedup.IsParked signature vec)
      (set : dedup'.transactions = Function.update dedup.transactions signature
        (some (.index (transactionWriteVersion msg.index))))
      (phantom : dedup'.accountsUpdatesPhantomIndex = dedup.accountsUpdatesPhantomIndex) :
      Passes dedup dedup' (.transaction msg)
        ((vec.map (·.updateWriteVersion (transactionWriteVersion msg.index))).map .account ++
          [.transaction msg])

section

variable {dedup dedup' : DedupInfoBank} {signature s : Signature} {value : DedupInfoTransactionIndex}

theorem isKnown_of_update
    (set : dedup'.transactions = Function.update dedup.transactions signature (some value)) :
    dedup'.IsKnown s ↔ if s = signature then ∃ index, value = .index index else dedup.IsKnown s := by
  unfold IsKnown
  rw [set, Function.update_apply]
  split <;> simp

theorem isParked_of_update {vec : List MessageAccount}
    (set : dedup'.transactions = Function.update dedup.transactions signature (some value)) :
    dedup'.IsParked s vec ↔
      if s = signature then value = .accounts vec else dedup.IsParked s vec := by
  unfold IsParked
  rw [set, Function.update_apply]
  split <;> simp

theorem isKnown_of_same (same : dedup'.transactions = dedup.transactions) :
    dedup'.IsKnown s ↔ dedup.IsKnown s := by
  rw [IsKnown, IsKnown, same]

theorem isParked_of_same {vec : List MessageAccount}
    (same : dedup'.transactions = dedup.transactions) :
    dedup'.IsParked s vec ↔ dedup.IsParked s vec := by
  rw [IsParked, IsParked, same]

end

theorem holds_iff_published {dedup : DedupInfoBank} {event : Event}
    (h : ∀ bytes pubkey, event ≠ .account bytes pubkey) :
    dedup.Holds event ↔ dedup.Published event := by
  cases event with
  | account bytes pubkey => exact absurd rfl (h bytes pubkey)
  | _ => exact Iff.rfl

theorem not_holds_default (event : Event) : ¬ DedupInfoBank.default.Holds event := by
  cases event with
  | account bytes pubkey =>
    rintro ⟨_, _, h⟩
    exact Finset.notMem_empty _ h
  | _ =>
    rw [holds_iff_published (by simp)]
    exact not_published_default _

variable {dedup dedup' : DedupInfoBank} {m : Message} {ms : List Message}

/-- Parking or releasing updates of a signature only changes what is held by the new event. -/
theorem holds_of_updates {bytes : Option Bytes} {pubkey : Pubkey}
    {signature : Option Signature} (hsig : bytes = signature.map (·.1))
    (hupdates : dedup'.accountsUpdates = insert ⟨signature, pubkey⟩ dedup.accountsUpdates)
    (hother : ∀ event, (∀ bytes pubkey, event ≠ .account bytes pubkey) → dedup'.Published event →
      dedup.Published event) :
    ∀ event, dedup'.Holds event → dedup.Holds event ∨ event = .account bytes pubkey := by
  intro event h
  cases event with
  | account bytes' pubkey' =>
    obtain ⟨s, rfl, hmem⟩ := h
    rw [hupdates, Finset.mem_insert] at hmem
    rcases hmem with heq | hmem
    · obtain ⟨rfl, rfl⟩ := DedupInfoAccountTransactionKey.mk.inj heq
      exact Or.inr (by rw [hsig])
    · exact Or.inl ⟨s, rfl, hmem⟩
  | _ =>
    rw [holds_iff_published (by simp)] at h ⊢
    exact Or.inl (hother _ (by simp) h)

/-- An account update. -/
theorem pushAccount_passes {msg : MessageAccount} (h : dedup.pushAccount msg = .ok (dedup', ms))
    (hnew : ¬ dedup.Holds (Message.account msg).event) : Passes dedup dedup' (.account msg) ms ∧
      ∀ event, dedup'.Holds event → dedup.Holds event ∨ event = (Message.account msg).event := by
  unfold pushAccount at h
  split at h
  · cases h
  · rename_i key hkey
    obtain ⟨signature, pubkey⟩ := key
    obtain ⟨rfl, hsig⟩ := MessageAccount.dedupKey_eq_ok hkey
    split at h
    · rename_i hmem
      have hold : dedup.Holds (.account msg.txnSignature msg.pubkey) := ⟨signature, hsig, hmem⟩
      exact absurd hold hnew
    · dsimp only at h hsig
      have hparks : ∀ (s : Signature) (vec : List MessageAccount), signature = some s →
          dedup.IsParked s vec →
          ({ dedup with
            accountsUpdates := insert (⟨signature, msg.pubkey⟩ : DedupInfoAccountTransactionKey)
              dedup.accountsUpdates
            }.setTransaction s (.accounts (vec ++ [msg])), []) = (dedup', ms) →
          Passes dedup dedup' (.account msg) ms ∧ ∀ event, dedup'.Holds event →
            dedup.Holds event ∨ event = (Message.account msg).event := by
        rintro s vec rfl hvec heq
        cases heq
        refine ⟨.parks hsig hvec rfl rfl, holds_of_updates hsig rfl fun event hne hp => ?_⟩
        cases event with
        | account bytes pubkey => exact absurd rfl (hne bytes pubkey)
        | transaction bytes =>
          obtain ⟨s', rfl, hknown⟩ := hp
          refine ⟨s', rfl, ?_⟩
          rw [isKnown_setTransaction] at hknown
          split at hknown
          · obtain ⟨index, hindex⟩ := hknown
            cases hindex
          · exact hknown
        | _ => exact hp
      cases signature with
      | some s =>
        dsimp only at h
        split at h
        · rename_i index hindex
          cases h
          refine ⟨.known hsig hindex rfl rfl, holds_of_updates hsig rfl fun event hne hp => ?_⟩
          cases event with
          | account bytes pubkey => exact absurd rfl (hne bytes pubkey)
          | _ => exact hp
        · rename_i vec hvec
          exact hparks s vec rfl (Or.inr hvec) (Except.ok.inj h)
        · rename_i hnone
          exact hparks s [] rfl (Or.inl ⟨hnone, rfl⟩) (Except.ok.inj h)
      | none =>
        cases h
        refine ⟨.unsigned hsig rfl rfl, holds_of_updates hsig rfl fun event hne hp => ?_⟩
        cases event with
        | account bytes pubkey => exact absurd rfl (hne bytes pubkey)
        | _ => exact hp

/-- A transaction. -/
theorem pushTransaction_passes {msg : MessageTransaction}
    (h : dedup.pushTransaction msg = .ok (dedup', ms))
    (hnew : ¬ dedup.Holds (Message.transaction msg).event) :
    Passes dedup dedup' (.transaction msg) ms ∧ ∀ event, dedup'.Holds event →
      dedup.Holds event ∨ event = (Message.transaction msg).event := by
  unfold pushTransaction at h
  split at h
  · cases h
  · rename_i signature hsig
    have hbytes := MessageTransaction.signature_eq_ok hsig
    have hreleases : ∀ vec, dedup.IsParked signature vec →
        (dedup.setTransaction signature (.index (transactionWriteVersion msg.index)),
          (vec.map (·.updateWriteVersion (transactionWriteVersion msg.index))).map Message.account ++
            [.transaction msg]) = (dedup', ms) →
        Passes dedup dedup' (.transaction msg) ms ∧ ∀ event, dedup'.Holds event →
          dedup.Holds event ∨ event = (Message.transaction msg).event := by
      intro vec hvec heq
      cases heq
      refine ⟨.releases hbytes hvec rfl rfl, fun event hp => ?_⟩
      cases event with
      | transaction bytes =>
        obtain ⟨s, rfl, hknown⟩ := hp
        rw [isKnown_setTransaction] at hknown
        split at hknown
        · rename_i heq
          exact Or.inr (by rw [heq, Message.event, hbytes])
        · exact Or.inl ⟨s, rfl, hknown⟩
      | _ => exact Or.inl hp
    dsimp only at h
    split at h
    · rename_i index hindex
      exact absurd ⟨signature, hbytes, index, hindex⟩ hnew
    · rename_i vec hvec
      refine hreleases vec (Or.inr hvec) ?_
      rw [List.map_map]
      exact Except.ok.inj h
    · rename_i hnone
      exact hreleases [] (Or.inl ⟨hnone, rfl⟩) (Except.ok.inj h)

/-- **A new message of a bank.** -/
theorem push_passes (h : dedup.push m = .ok (dedup', ms)) (hnew : ¬ dedup.Holds m.event) :
    Passes dedup dedup' m ms ∧
      ∀ event, dedup'.Holds event → dedup.Holds event ∨ event = m.event := by
  cases m with
  | slot msg => cases h
  | block msg => cases h
  | account msg => exact pushAccount_passes h hnew
  | transaction msg => exact pushTransaction_passes h hnew
  | entry msg =>
    simp only [push] at h
    unfold pushEntry at h
    dsimp only at h
    split at h
    · cases h
    · rename_i htrue
      rw [getElem?_resize] at htrue
      exact absurd htrue hnew
    · rename_i hfalse
      cases h
      refine ⟨.other (by simp) (by simp) rfl rfl, fun event hp => ?_⟩
      cases event with
      | entry i =>
        have hp' : ((resize dedup.entries (entriesLen dedup.entries.length msg.index)).set msg.index
          true)[i]? = some true := hp
        rw [List.getElem?_set] at hp'
        split at hp'
        · rename_i heq
          exact Or.inr (by rw [← heq]; rfl)
        · rw [getElem?_resize] at hp'
          exact Or.inl hp'
      | _ => exact Or.inl hp
  | _ =>
    simp only [push] at h
    split at h
    · rename_i hold
      exact absurd hold hnew
    · cases h
      refine ⟨.other (by simp) (by simp) rfl rfl, fun event hp => ?_⟩
      cases event <;> first | exact Or.inl hp | exact Or.inr rfl

end DedupInfoBank

namespace DedupInfo

/-- The events passed on or parked, by bank. -/
def Holds (dedup : DedupInfo) (bankId : Option BankId) (event : Event) : Prop :=
  (∃ status, event = .status status ∧ dedup.slots bankId status) ∨
    (dedup.banks bankId).Holds event

theorem not_holds_default (bankId : Option BankId) (event : Event) :
    ¬ DedupInfo.default.Holds bankId event := by
  rintro (⟨_, _, h⟩ | h)
  · cases h
  · exact DedupInfoBank.not_holds_default event h

variable {dedup dedup' : DedupInfo} {m : Message} {ms : List Message} {sourceName : SourceName}

/-- What a new event of the only source does. -/
structure Passes (sourceName : SourceName) (dedup : DedupInfo) (m : Message) (dedup' : DedupInfo)
    (ms : List Message) : Prop where
  source : ∀ source ∈ dedup'.source, source = sourceName
  holds : ∀ bankId event, dedup'.Holds bankId event → dedup.Holds bankId event ∨
    (bankId = m.bankId ∧ event = m.event)
  other : ∀ bankId, bankId ≠ m.bankId → dedup'.banks bankId = dedup.banks bankId
  cases : (m.isSlot ∧ ms = [m] ∧ dedup'.banks = dedup.banks) ∨
    (m.isSlot = false ∧ (dedup.banks m.bankId).Passes (dedup'.banks m.bankId) m ms)

theorem acceptSource_of_source (hsource : ∀ source ∈ dedup.source, source = sourceName)
    (bankId : Option BankId) : ∃ accepted, dedup.acceptSource bankId sourceName = some accepted ∧
      ∀ source ∈ accepted.source, source = sourceName := by
  unfold acceptSource
  split
  · exact ⟨dedup, rfl, hsource⟩
  · cases hs : dedup.source with
    | none => exact ⟨_, rfl, by simp⟩
    | some source =>
      have heq : source = sourceName := hsource source hs
      refine ⟨dedup, by simp [heq], ?_⟩
      rw [hs]
      simpa using heq

/-- **A new message of the slot.** -/
theorem push_passes (hsource : ∀ source ∈ dedup.source, source = sourceName)
    (h : dedup.push sourceName m = .ok (dedup', ms)) (hnew : ¬ dedup.Holds m.bankId m.event) :
    Passes sourceName dedup m dedup' ms := by
  obtain ⟨accepted, haccept, hsource'⟩ := acceptSource_of_source hsource m.bankId
  obtain ⟨hslots, hbanks⟩ := acceptSource_eq_some haccept
  cases hm : m.isSlot with
  | false =>
    rw [push_message hm haccept] at h
    split at h
    · cases h
    · rename_i bank ms' hbank
      cases h
      rw [hbanks] at hbank
      obtain ⟨hpasses, hholds⟩ := DedupInfoBank.push_passes hbank fun hp => hnew (Or.inr hp)
      constructor
      · exact hsource'
      · rintro bankId event (hp | hp)
        · exact Or.inl (Or.inl (hslots ▸ hp))
        · by_cases hb : bankId = m.bankId
          · subst hb
            dsimp only at hp
            rw [Function.update_self] at hp
            exact (hholds event hp).imp Or.inr fun he => ⟨rfl, he⟩
          · dsimp only at hp
            rw [Function.update_of_ne hb, hbanks] at hp
            exact Or.inl (Or.inr hp)
      · intro bankId hb
        dsimp only
        rw [Function.update_of_ne hb, hbanks]
      · refine Or.inr ⟨hm, ?_⟩
        dsimp only
        rwa [Function.update_self]
  | true =>
    cases m with
    | slot msg =>
      rw [push_slot haccept, hslots] at h
      split at h
      · rename_i hold
        exact absurd (Or.inl ⟨msg.status, rfl, hold⟩) hnew
      · cases h
        refine ⟨hsource', ?_, fun _ _ => by rw [hbanks], Or.inl ⟨rfl, rfl, hbanks⟩⟩
        rintro bankId event (⟨status, rfl, hp⟩ | hp)
        · dsimp only at hp
          by_cases hb : bankId = (Message.slot msg).bankId
          · subst hb
            rw [Function.update_self] at hp
            by_cases hstatus : status = msg.status
            · exact Or.inr ⟨rfl, by rw [hstatus]; rfl⟩
            · rw [Function.update_of_ne hstatus] at hp
              exact Or.inl (Or.inl ⟨status, rfl, hp⟩)
          · rw [Function.update_of_ne hb] at hp
            exact Or.inl (Or.inl ⟨status, rfl, hp⟩)
        · exact Or.inl (Or.inr (hbanks ▸ hp))
    | _ => cases hm

end DedupInfo

end Richat
