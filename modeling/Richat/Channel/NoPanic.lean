import Richat.Channel.Completeness
import Richat.Channel.EntryBitmap
import Richat.Channel.RingSpec

/-!
# Pushes that do not panic

`Sender.takes` says of a message, and of the sender before the push, that everything is there that the push
looks at; `push_ok_iff` says that it is exact. The byte loop of a stream cannot run out of messages
(`RingInv.pushAll`).
-/

namespace Richat

open Lib

/-! ### What a push looks at -/

/-- The signatures that deduplication needs, and the bit of an entry. -/
def DedupInfoBank.takes (dedup : DedupInfoBank) : Message → Bool
  | .account msg => msg.txnSignature.all (·.length = 64)
  | .transaction msg => msg.signatureBytes.any (·.length = 64)
  | .entry msg => msg.index < entriesLen dedup.entries.length msg.index
  | .block _ => false
  | _ => true

def DedupInfo.takes (dedup : DedupInfo) (sourceName : SourceName) (message : Message) : Bool :=
  match dedup.acceptSource message.bankId sourceName with
  | none => true
  | some dedup => message.isSlot || (dedup.banks message.bankId).takes message

/-- The signature that the id of a transaction needs. -/
def Message.hasId : Message → Bool
  | .transaction msg => msg.signatureBytes.isSome
  | _ => true

/-- Without deduplication: the journal identifies the message, and a `Block` comes after the one of the
channel. -/
def Sender.takesMessage (s : Sender) (message : Message) : Bool :=
  (((s.replay.get? message.slotOf).bind (·.messages)).isNone || message.hasId) &&
    (!message.isBlock || (s.bankOf message.slotOf message.bankId).blockCreated)

def Sender.takes (s : Sender) (input : PushInput) : Bool :=
  input.slot ≤ s.floor || s.isCleared input.message ||
    if input.dedupRequired then
      ((s.dedup.get? input.slot).getD .default).takes input.sourceName input.message
    else s.takesMessage input.message

/-! ### The slot -/

section

variable {bank : BankInfo} {info : SlotInfo} {message : Message} {a arc : ℕ}

theorem idInputs_ok_iff : (∃ inputs, (⟨a, message⟩ : ParsedMessage).idInputs = .ok inputs) ↔
    message.hasId = true := by
  cases message with
  | transaction msg =>
    simp only [ParsedMessage.idInputs, MessageTransaction.signatureRef, Message.hasId]
    cases msg.signatureBytes <;> simp
  | _ => exact ⟨fun _ => rfl, fun _ => ⟨_, rfl⟩⟩

/-- Only a `Block` is not taken by a bank that has none. -/
theorem BankInfo.getBlockMessage_ok_iff (hslot : message.isSlot = false)
    (heup : message.isEntryUpdateParent = false) :
    (∃ r, bank.getBlockMessage ⟨a, message⟩ arc = .ok r) ↔
      (message.isBlock = true → bank.blockCreated = true) := by
  cases message with
  | slot msg => cases hslot
  | entryUpdateParent msg => cases heup
  | blockFooter msg => exact ⟨fun _ h => (by cases h), fun _ => ⟨_, rfl⟩⟩
  | block msg =>
    simp only [getBlockMessage, storeMessage, Message.isBlock, forall_const]
    split
    · rename_i hcreated
      exact ⟨fun _ => hcreated, fun _ => ⟨_, rfl⟩⟩
    · rename_i hcreated
      refine ⟨?_, fun h => absurd h hcreated⟩
      rintro ⟨r, h⟩
      cases h
  | _ =>
    simp only [getBlockMessage, storeMessage, Message.isBlock, Bool.false_eq_true, false_imp_iff, iff_true]
    split <;> exact ⟨_, rfl⟩

theorem SlotInfo.receive_ok_iff : (∃ r, info.receive ⟨a, message⟩ arc = .ok r) ↔
    (message.isBlock = true → (info.bank message.bankId).blockCreated = true) := by
  cases hslot : message.isSlot with
  | true =>
    cases message with
    | slot msg => exact ⟨fun _ h => (by cases h), fun _ => ⟨_, rfl⟩⟩
    | _ => cases hslot
  | false =>
    cases heup : message.isEntryUpdateParent with
    | true =>
      cases message with
      | entryUpdateParent msg =>
        refine ⟨fun _ h => (by cases h), fun _ => ?_⟩
        simp only [receive, getBlockMessage, Message.isEntryUpdateParent, if_true]
        cases ParsedMessage.bankId ⟨a, .entryUpdateParent msg⟩ <;> exact ⟨_, rfl⟩
      | _ => cases heup
    | false =>
      have hbank : (∃ r, (info.bank message.bankId).getBlockMessage ⟨a, message⟩ arc = .ok r) ↔ _ :=
        BankInfo.getBlockMessage_ok_iff hslot heup
      rw [← hbank]
      constructor
      · rintro ⟨r, h⟩
        obtain ⟨info', block, hblock, -⟩ := (receive_message hslot).mp h
        obtain ⟨h, -⟩ | ⟨-, bank, hget, -⟩ := getBlockMessage_cases hblock
        · exact absurd (heup.symm.trans h) Bool.false_ne_true
        · exact ⟨_, hget⟩
      · rintro ⟨⟨bank, block⟩, h⟩
        have hget : info.getBlockMessage ⟨a, message⟩ arc =
            .ok ({ info with banks := info.banks.insert message.bankId bank }, block) := by
          have hbank : (info.bank (ParsedMessage.mk a message).bankId).getBlockMessage ⟨a, message⟩ arc =
            .ok (bank, block) := h
          rw [getBlockMessage, if_neg fun h => Bool.false_ne_true (heup.symm.trans h), hbank]
          rfl
        exact ⟨_, (receive_message hslot).mpr ⟨_, _, hget, rfl⟩⟩

end

/-! ### Deduplication -/

section

variable {dedup dedup' : DedupInfoBank} {info : DedupInfo} {message : Message}
  {messages : List Message} {sourceName : SourceName}

theorem Signature.tryFrom_isSome_iff {bytes : Bytes} :
    (∃ signature, Signature.tryFrom bytes = some signature) ↔ bytes.length = 64 := by
  unfold Signature.tryFrom
  split
  · rename_i h
    exact ⟨fun _ => h, fun _ => ⟨_, rfl⟩⟩
  · rename_i h
    refine ⟨?_, fun h' => absurd h' h⟩
    rintro ⟨s, hs⟩
    cases hs

theorem DedupInfoBank.pushAccount_ok_iff {msg : MessageAccount} :
    (∃ r, dedup.pushAccount msg = .ok r) ↔ msg.txnSignature.all (·.length = 64) = true := by
  have hkey : (∃ key, msg.dedupKey = .ok key) ↔ msg.txnSignature.all (·.length = 64) = true := by
    unfold MessageAccount.dedupKey
    cases msg.txnSignature with
    | none => exact ⟨fun _ => rfl, fun _ => ⟨_, rfl⟩⟩
    | some bytes =>
      simp only [Option.all_some, decide_eq_true_eq, ← Signature.tryFrom_isSome_iff]
      cases Signature.tryFrom bytes <;> simp
  rw [← hkey]
  unfold pushAccount
  constructor
  · rintro ⟨r, h⟩
    split at h
    · cases h
    · rename_i key hkey
      exact ⟨key, hkey⟩
  · rintro ⟨key, h⟩
    rw [h]
    dsimp only
    split
    · exact ⟨_, rfl⟩
    · split
      · split <;> exact ⟨_, rfl⟩
      · exact ⟨_, rfl⟩

theorem DedupInfoBank.pushTransaction_ok_iff {msg : MessageTransaction} :
    (∃ r, dedup.pushTransaction msg = .ok r) ↔ msg.signatureBytes.any (·.length = 64) = true := by
  have hsignature : (∃ signature, msg.signature = .ok signature) ↔
      msg.signatureBytes.any (·.length = 64) = true := by
    unfold MessageTransaction.signature MessageTransaction.signatureRef
    cases msg.signatureBytes with
    | none => simp
    | some bytes =>
      simp only [Option.any_some, decide_eq_true_eq, ← Signature.tryFrom_isSome_iff]
      cases Signature.tryFrom bytes <;> simp
  rw [← hsignature]
  unfold pushTransaction
  constructor
  · rintro ⟨r, h⟩
    split at h
    · cases h
    · rename_i signature hsignature
      exact ⟨signature, hsignature⟩
  · rintro ⟨signature, h⟩
    rw [h]
    dsimp only
    split <;> exact ⟨_, rfl⟩

theorem DedupInfoBank.pushEntry_ok_iff {msg : MessageEntry} :
    (∃ r, dedup.pushEntry msg = .ok r) ↔ msg.index < entriesLen dedup.entries.length msg.index := by
  have hlen := length_resize (le_entriesLen dedup.entries.length msg.index)
  unfold pushEntry
  dsimp only
  constructor
  · rintro ⟨r, h⟩
    by_contra hge
    rw [List.getElem?_eq_none (by omega)] at h
    cases h
  · intro hlt
    rw [List.getElem?_eq_getElem (by omega)]
    split
    · rename_i h
      cases h
    · exact ⟨_, rfl⟩
    · exact ⟨_, rfl⟩

theorem DedupInfoBank.push_ok_iff (hslot : message.isSlot = false) :
    (∃ r, dedup.push message = .ok r) ↔ dedup.takes message = true := by
  cases message with
  | slot msg => cases hslot
  | account msg => exact pushAccount_ok_iff
  | transaction msg => exact pushTransaction_ok_iff
  | entry msg => exact pushEntry_ok_iff.trans (by simp [takes])
  | block msg =>
    refine ⟨?_, fun h => (by cases h)⟩
    rintro ⟨r, h⟩
    cases h
  | _ =>
    simp only [push, takes, iff_true]
    split <;> exact ⟨_, rfl⟩

/-- What comes out of deduplication has an id and is no `Block`. -/
theorem DedupInfoBank.push_hasId (h : dedup.push message = .ok (dedup', messages)) :
    ∀ m ∈ messages, m.isBlock = false ∧ m.hasId = true := by
  cases message with
  | slot msg => cases h
  | block msg => cases h
  | account msg =>
    simp only [push, pushAccount] at h
    split at h
    · cases h
    · split at h
      · cases h
        simp
      · split at h
        · split at h <;> cases h <;> simp [Message.hasId]
        · cases h
          simp [Message.hasId]
  | transaction msg =>
    have htx : (Message.transaction msg).hasId = true := by
      have htakes := pushTransaction_ok_iff.mp ⟨_, h⟩
      unfold Message.hasId
      dsimp only
      cases hs : msg.signatureBytes with
      | none =>
        rw [hs] at htakes
        cases htakes
      | some bytes => rfl
    simp only [push, pushTransaction] at h
    split at h
    · cases h
    · split at h <;> cases h
      · simp
      · intro m hm
        rcases List.mem_append.mp hm with hm | hm
        · obtain ⟨a, -, rfl⟩ := List.mem_map.mp hm
          exact ⟨rfl, rfl⟩
        · rw [List.mem_singleton.mp hm]
          exact ⟨rfl, htx⟩
      · simpa using htx
  | entry msg =>
    simp only [push, pushEntry] at h
    split at h
    · cases h
    · cases h
      simp
    · cases h
      simp [Message.hasId]
  | _ =>
    simp only [push] at h
    split at h <;> cases h <;> simp [Message.hasId]

theorem DedupInfo.push_ok_iff : (∃ r, info.push sourceName message = .ok r) ↔
    info.takes sourceName message = true := by
  unfold takes
  cases haccept : info.acceptSource message.bankId sourceName with
  | none => exact ⟨fun _ => rfl, fun _ => ⟨_, push_of_other_source haccept⟩⟩
  | some accepted =>
    dsimp only
    cases hslot : message.isSlot with
    | true =>
      cases message with
      | slot msg =>
        refine ⟨fun _ => rfl, fun _ => ?_⟩
        rw [push_slot haccept]
        split <;> exact ⟨_, rfl⟩
      | _ => cases hslot
    | false =>
      rw [Bool.false_or, ← DedupInfoBank.push_ok_iff hslot, push_message hslot haccept]
      constructor
      · rintro ⟨r, h⟩
        split at h
        · cases h
        · rename_i hr
          exact ⟨_, hr⟩
      · rintro ⟨r, h⟩
        rw [h]
        exact ⟨_, rfl⟩

theorem DedupInfo.push_hasId {info' : DedupInfo} (h : info.push sourceName message = .ok (info', messages)) :
    ∀ m ∈ messages, m.isBlock = false ∧ m.hasId = true := by
  cases haccept : info.acceptSource message.bankId sourceName with
  | none =>
    rw [push_of_other_source haccept] at h
    cases h
    simp
  | some accepted =>
    cases hslot : message.isSlot with
    | true =>
      cases message with
      | slot msg =>
        rw [push_slot haccept] at h
        split at h <;> cases h <;> simp [Message.hasId]
      | _ => cases hslot
    | false =>
      rw [push_message hslot haccept] at h
      split at h
      · cases h
      · rename_i hpush
        cases h
        exact DedupInfoBank.push_hasId hpush

end

/-! ### The push -/

section

variable {cfg : Config} {s : Sender} {st : PushState} {slot : Slot} {sourceName : SourceName}
  {message : Message} {input : PushInput}

/-- A message that has an id and is no `Block` is pushed, whatever the state. -/
theorem PushState.pushMessage_of_hasId (hblock : message.isBlock = false) (hid : message.hasId = true) :
    ∃ st' eff, st.pushMessage cfg slot sourceName message = .ok (st', eff) := by
  have hreceive : ∃ r, (st.slotInfo slot).receive ⟨st.sender.nextArc, message⟩
      (st.sender.nextArc + 1) = .ok r :=
    SlotInfo.receive_ok_iff.mpr fun h => absurd (hblock.symm.trans h) Bool.false_ne_true
  obtain ⟨st', eff, hpush, -⟩ :=
    pushMessage_ok cfg sourceName (Or.inr (idInputs_ok_iff.mpr hid)) hreceive
  exact ⟨st', eff, hpush⟩

theorem PushState.run_pushMessage_ok : ∀ (messages : List Message) (st : PushState),
    (∀ m ∈ messages, m.isBlock = false ∧ m.hasId = true) →
      ∃ r, run (pushMessage cfg slot sourceName) st messages = .ok r
  | [], _, _ => ⟨_, rfl⟩
  | m :: messages, st, h => by
    obtain ⟨hblock, hid⟩ := h m List.mem_cons_self
    obtain ⟨st₁, eff₁, h₁⟩ : ∃ st' eff, st.pushMessage cfg slot sourceName m = .ok (st', eff) :=
      pushMessage_of_hasId hblock hid
    obtain ⟨⟨st₂, eff₂⟩, h₂⟩ := run_pushMessage_ok messages st₁ fun m' hm' =>
      h m' (List.mem_cons_of_mem m hm')
    exact ⟨_, run_cons_ok.mpr ⟨st₁, eff₁, eff₂, h₁, h₂, rfl⟩⟩

theorem PushState.bank_slotInfo (st : PushState) (slot : Slot) (bankId : Option BankId) :
    (st.slotInfo slot).bank bankId = st.sender.bankOf slot bankId := by
  unfold slotInfo Sender.bankOf
  cases st.sender.slots.get? slot <;> rfl

/-- The push of a message by itself. -/
theorem PushState.pushMessage_ok_iff : (∃ r, st.pushMessage cfg slot sourceName message = .ok r) ↔
    (st.replay.messages = none ∨ message.hasId = true) ∧
      (message.isBlock = true → (st.sender.bankOf slot message.bankId).blockCreated = true) := by
  rw [← bank_slotInfo, ← idInputs_ok_iff]
  constructor
  · rintro ⟨⟨st', eff⟩, h⟩
    unfold pushMessage at h
    dsimp only at h
    split at h
    · cases h
    · rename_i info cb block hreceive
      refine ⟨?_, SlotInfo.receive_ok_iff.mp ⟨_, hreceive⟩⟩
      split at h
      · cases h
      · rename_i hrun
        -- the message is the first one that is published
        obtain ⟨st₁, eff₁, eff₂, hpublish, -⟩ := run_cons_ok.mp hrun
        unfold publish at hpublish
        split at hpublish
        · rename_i hnone
          exact Or.inl hnone
        · refine Or.inr ?_
          unfold ParsedMessage.getId at hpublish
          split at hpublish
          · cases hpublish
          · rename_i hid
            split at hid
            · rename_i inputs hinputs
              exact ⟨inputs, hinputs⟩
            · cases hid
  · rintro ⟨hid, hblock⟩
    obtain ⟨st', eff, hpush, -⟩ :=
      pushMessage_ok cfg sourceName hid (SlotInfo.receive_ok_iff.mpr hblock)
    exact ⟨_, hpush⟩

theorem Sender.takesMessage_iff : s.takesMessage message = true ↔
    (((s.replay.get? message.slotOf).getD (.new s.index)).messages = none ∨ message.hasId = true) ∧
      (message.isBlock = true → (s.bankOf message.slotOf message.bankId).blockCreated = true) := by
  have hjournal : ((s.replay.get? message.slotOf).bind (·.messages)).isNone = true ↔
      ((s.replay.get? message.slotOf).getD (.new s.index)).messages = none := by
    cases s.replay.get? message.slotOf with
    | none => exact ⟨fun _ => rfl, fun _ => rfl⟩
    | some info => exact Option.isNone_iff_eq_none
  rw [takesMessage, Bool.and_eq_true, Bool.or_eq_true, Bool.or_eq_true, hjournal, Bool.not_eq_true']
  cases message.isBlock <;> simp

/-- The messages of a push, after deduplication. -/
theorem Sender.push_messages (hfloor : ¬ input.slot ≤ s.floor) (hcleared : ¬ s.isCleared input.message) :
    (∃ r, s.push cfg input = .ok r) ↔ ∃ s' messages, s.dedupMessage input = .ok (s', messages) ∧
      (messages = [] ∨ ∃ r, run (PushState.pushMessage cfg input.slot input.sourceName)
        ⟨s', (s'.replay.get? input.slot).getD (.new s'.index), false⟩ messages = .ok r) := by
  unfold push
  rw [if_neg hfloor, if_neg hcleared]
  cases hdedup : s.dedupMessage input with
  | error e =>
    constructor
    · rintro ⟨r, h⟩
      cases h
    · rintro ⟨s', messages, h, -⟩
      cases h
  | ok r =>
    obtain ⟨s', messages⟩ := r
    dsimp only
    cases messages with
    | nil => exact ⟨fun _ => ⟨s', [], rfl, Or.inl rfl⟩, fun _ => ⟨_, rfl⟩⟩
    | cons m messages =>
      rw [List.isEmpty_cons, if_neg Bool.false_ne_true]
      constructor
      · rintro ⟨r, h⟩
        split at h
        · cases h
        · rename_i hrun
          exact ⟨s', m :: messages, rfl, Or.inr ⟨_, hrun⟩⟩
      · rintro ⟨s₁, messages₁, h, hrun⟩
        obtain ⟨rfl, rfl⟩ := Prod.mk.inj (Except.ok.inj h)
        obtain ⟨r, hrun⟩ := hrun.resolve_left (List.cons_ne_nil m messages)
        rw [hrun]
        exact ⟨_, rfl⟩

/-- **What a push takes, exactly**: the messages that it does not panic on. -/
theorem Sender.push_ok_iff : (∃ r, s.push cfg input = .ok r) ↔ s.takes input = true := by
  unfold takes
  by_cases hfloor : input.slot ≤ s.floor
  · rw [decide_eq_true hfloor, Bool.true_or, Bool.true_or, push, if_pos hfloor]
    exact ⟨fun _ => rfl, fun _ => ⟨_, rfl⟩⟩
  by_cases hcleared : s.isCleared input.message = true
  · rw [hcleared, Bool.or_true, Bool.true_or, push, if_neg hfloor, if_pos hcleared]
    exact ⟨fun _ => rfl, fun _ => ⟨_, rfl⟩⟩
  rw [push_messages hfloor hcleared, decide_eq_false hfloor, Bool.eq_false_iff.mpr hcleared, Bool.false_or,
    Bool.false_or]
  unfold dedupMessage
  split
  · rw [← DedupInfo.push_ok_iff]
    constructor
    · rintro ⟨s', messages, h, -⟩
      dsimp only at h
      split at h
      · cases h
      · rename_i hpush
        exact ⟨_, hpush⟩
    · rintro ⟨⟨dedup, messages⟩, h⟩
      dsimp only
      rw [h]
      exact ⟨_, _, rfl, Or.inr (PushState.run_pushMessage_ok messages _ (DedupInfo.push_hasId h))⟩
  · rw [takesMessage_iff]
    constructor
    · rintro ⟨s', messages, h, hrun⟩
      obtain ⟨rfl, rfl⟩ := Prod.mk.inj (Except.ok.inj h)
      obtain ⟨r, hrun⟩ := hrun.resolve_left (List.cons_ne_nil _ _)
      exact PushState.pushMessage_ok_iff.mp ⟨r, run_singleton.mp hrun⟩
    · intro htakes
      obtain ⟨r, h⟩ : ∃ r, PushState.pushMessage cfg input.slot input.sourceName
          ⟨s, (s.replay.get? input.slot).getD (.new s.index), false⟩ input.message = .ok r :=
        PushState.pushMessage_ok_iff.mpr htakes
      exact ⟨s, [input.message], rfl, Or.inr ⟨r, run_singleton.mpr h⟩⟩

end

/-! ### The streams -/

/-- What an effect pushes to the ring of a commitment. -/
def Effect.ring? (commitment : CommitmentLevel) : Effect → Option (Slot × ParsedMessage × Option ℕ)
  | .ring c slot message replayIndex => if c = commitment then some (slot, message, replayIndex) else none
  | _ => none

/-- The pushes to the ring of a commitment, in order; `none` is the panic of one of them. -/
def SenderShared.pushAll (size : ParsedMessage → ℕ) (commitment : CommitmentLevel) (s : SenderShared)
    (effects : List Effect) : Option SenderShared :=
  (effects.filterMap (·.ring? commitment)).foldlM
    (fun s item => s.push size item.1 item.2.1 item.2.2) s

namespace RingInv

variable {size : ParsedMessage → ℕ} {k : ℕ} {log : List Item} {s : SenderShared}

theorem dropExtra : ∀ {n : ℕ} {s : SenderShared} {removed : Option Slot}, RingInv size k log s →
    ∃ r, s.dropExtra size n removed = some r ∧ RingInv size k log r.1
  | 0, s, removed, h => ⟨(s, removed), rfl, h⟩
  | n + 1, s, removed, h => by
    unfold SenderShared.dropExtra
    split
    · rename_i hextra
      have hlt : s.head < s.tail := (of_decide_eq_true hextra).2
      cases hdrop : s.dropHead size removed with
      | none => exact absurd hdrop (h.dropHead_ne_none hlt)
      | some r => exact dropExtra (h.dropHead hlt hdrop).1
    · exact ⟨_, rfl, h⟩

theorem push (h : RingInv size k log s) (slot : Slot) (message : ParsedMessage)
    (replayIndex : Option ℕ) : ∃ s', s.push size slot message replayIndex = some s' ∧
      ∃ log', RingInv size k log' s' := by
  cases hstore : s.store size slot message replayIndex with
  | mk s₁ removed =>
    have h₁ := (h.store hstore).1
    obtain ⟨⟨s₂, removed₂⟩, hdrop, h₂⟩ :
        ∃ r, s₁.dropExtra size (s₁.tail - s₁.head) removed = some r ∧ RingInv size k _ r.1 := h₁.dropExtra
    unfold SenderShared.push
    rw [hstore]
    dsimp only
    rw [hdrop]
    exact ⟨_, rfl, _, h₂.publish⟩

/-- The pushes of a stream never run out of messages to remove. -/
theorem pushAll (h : RingInv size k log s) (commitment : CommitmentLevel) (effects : List Effect) :
    ∃ s', s.pushAll size commitment effects = some s' := by
  unfold SenderShared.pushAll
  generalize effects.filterMap (·.ring? commitment) = items
  induction items generalizing s log with
  | nil => exact ⟨s, rfl⟩
  | cons item items ih =>
    obtain ⟨s₁, hpush, log₁, h₁⟩ := h.push item.1 item.2.1 item.2.2
    obtain ⟨s₂, hrest⟩ := ih h₁
    exact ⟨s₂, by rw [List.foldlM_cons, hpush]; exact hrest⟩

end RingInv

end Richat
