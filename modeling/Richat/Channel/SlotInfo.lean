import Richat.Channel.Bank
import Richat.Lib.SortedMap

/-!
# The candidate banks of a slot

Several candidate banks of a slot can be replayed; messages without a bank share the candidate
`none`. A confirmed status fixes the bank that is promoted (`SlotInfo.confirmedBank`), a finalized
status selects the bank that is drained, and `EntryUpdateParent` clears a bank for good.
-/

namespace Richat

open Lib

structure SlotInfo where
  index : ℕ
  /-- bank selected by the confirmed status (bank `none`: messages without `bank_id`) -/
  confirmedBank : Option (Option BankId)
  banks : SortedMap (Option BankId) BankInfo
  /-- banks cleared by `EntryUpdateParent`, all their messages are invalid -/
  clearedBanks : Finset BankId

namespace SlotInfo

/-- `SlotInfo::new`. -/
def new (index : ℕ) : SlotInfo where
  index := index
  confirmedBank := none
  banks := .empty
  clearedBanks := ∅

/-- The bank a status is about: its own, else the confirmed one, else the latest candidate. -/
def selectBank (info : SlotInfo) (bankId : Option BankId) : Option BankId :=
  (bankId.or info.confirmedBank.join).or info.banks.lastKey?.join

/-- `SlotInfo::commit`: with the bank whose messages go to the commitment of the status. -/
def commit (info : SlotInfo) (status : SlotStatus) (bankId : Option BankId) :
    SlotInfo × Option (Option BankId) :=
  match status with
  | .slotConfirmed =>
    if info.confirmedBank.isNone then
      let bankId := info.selectBank bankId
      ({ info with confirmedBank := some bankId }, some bankId)
    else (info, none)
  | .slotFinalized => (info, some (info.selectBank bankId))
  | _ => (info, none)

/-- The candidate of a bank, a new one if there is none. -/
def bank (info : SlotInfo) (bankId : Option BankId) : BankInfo := (info.banks.get? bankId).getD .new

/-- The removal of a bank that `EntryUpdateParent` names. -/
def clear (info : SlotInfo) (bankId : BankId) : SlotInfo :=
  { info with
    clearedBanks := insert bankId info.clearedBanks
    banks := info.banks.erase (some bankId) }

/-- `SlotInfo::get_block_message`. -/
def getBlockMessage (info : SlotInfo) (message : ParsedMessage) (arc : ℕ) :
    Except Panic (SlotInfo × Option ParsedMessage) :=
  if message.message.isEntryUpdateParent then
    match message.bankId with
    | some bankId => .ok (info.clear bankId, none)
    | none => .ok (info, none)
  else
    match (info.bank message.bankId).getBlockMessage message arc with
    | .error e => .error e
    | .ok (bank, block) =>
      .ok ({ info with banks := info.banks.insert message.bankId bank }, block)

/-- `SlotInfo::get_messages_cloned` and `get_messages_owned`: the stored messages of a bank. -/
def getMessages (info : SlotInfo) (bankId : Option BankId) : List ParsedMessage :=
  match info.banks.get? bankId with
  | some bank => bank.stored
  | none => []

/-- What a message does to its slot: the slot afterwards, the bank selected by a status and the
`Block` completed by any other message. -/
def receive (info : SlotInfo) (message : ParsedMessage) (arc : ℕ) :
    Except Panic (SlotInfo × Option (Option BankId) × Option ParsedMessage) :=
  match message.message with
  | .slot msg =>
    let (info, commitmentBankId) := info.commit msg.status message.bankId
    .ok (info, commitmentBankId, none)
  | _ =>
    match info.getBlockMessage message arc with
    | .error e => .error e
    | .ok (info, block) => .ok (info, none, block)

/-! ### What a message does to a slot -/

variable {info info' : SlotInfo} {message : ParsedMessage} {arc : ℕ}
  {block : Option ParsedMessage}

theorem getMessages_eq_stored (info : SlotInfo) (bankId : Option BankId) :
    info.getMessages bankId = (info.bank bankId).stored := by
  unfold getMessages bank
  cases info.banks.get? bankId <;> rfl

/-- A message that is no status selects no bank. -/
theorem receive_message {r : SlotInfo × Option (Option BankId) × Option ParsedMessage}
    (hslot : message.message.isSlot = false) :
    info.receive message arc = .ok r ↔
      ∃ info' block, info.getBlockMessage message arc = .ok (info', block) ∧
        r = (info', none, block) := by
  have hreceive : info.receive message arc =
      match info.getBlockMessage message arc with
      | .error e => .error e
      | .ok (info, block) => .ok (info, none, block) := by
    obtain ⟨a, message⟩ := message
    cases message <;> first | rfl | cases hslot
  rw [hreceive]
  constructor
  · intro h
    split at h
    · cases h
    · rename_i info' block hget
      exact ⟨info', block, hget, (Except.ok.inj h).symm⟩
  · rintro ⟨info', block, hget, rfl⟩
    rw [hget]

/-- A bank is cleared, or the candidate of the message takes it. -/
theorem getBlockMessage_cases (h : info.getBlockMessage message arc = .ok (info', block)) :
    (message.message.isEntryUpdateParent ∧ block = none ∧
      info' = (message.bankId.map info.clear).getD info) ∨
    (message.message.isEntryUpdateParent = false ∧ ∃ bank,
      (info.bank message.bankId).getBlockMessage message arc = .ok (bank, block) ∧
      info' = { info with banks := info.banks.insert message.bankId bank }) := by
  unfold getBlockMessage at h
  split at h
  · rename_i heup
    refine Or.inl ⟨heup, ?_⟩
    split at h
    · rename_i bankId hbank
      cases h
      exact ⟨rfl, by rw [hbank]; rfl⟩
    · rename_i hbank
      cases h
      exact ⟨rfl, by rw [hbank]; rfl⟩
  · rename_i heup
    refine Or.inr ⟨by simpa using heup, ?_⟩
    split at h
    · cases h
    · rename_i bank _ hbank
      cases h
      exact ⟨bank, hbank, rfl⟩

theorem getBlockMessage_block (h : info.getBlockMessage message arc = .ok (info', block)) :
    ∀ b ∈ block, ∃ msg, b = ⟨arc, .block msg⟩ := by
  rcases getBlockMessage_cases h with ⟨_, rfl, _⟩ | ⟨_, bank, hbank, _⟩
  · simp
  · exact BankInfo.getBlockMessage_block hbank

/-- What a message completes is a `Block`. -/
theorem receive_block {cb : Option (Option BankId)}
    (h : info.receive message arc = .ok (info', cb, block)) : ∀ b ∈ block, ∃ msg, b = ⟨arc, .block msg⟩ := by
  unfold receive at h
  split at h
  · obtain ⟨-, -, rfl⟩ := Prod.mk.inj (Except.ok.inj h) |>.imp_right Prod.mk.inj
    simp
  · split at h
    · cases h
    · rename_i info₁ block₁ hget
      obtain ⟨-, -, rfl⟩ := Prod.mk.inj (Except.ok.inj h) |>.imp_right Prod.mk.inj
      exact getBlockMessage_block hget

theorem getBlockMessage_confirmedBank
    (h : info.getBlockMessage message arc = .ok (info', block)) :
    info'.confirmedBank = info.confirmedBank ∧ info'.index = info.index := by
  rcases getBlockMessage_cases h with ⟨_, _, rfl⟩ | ⟨_, bank, _, rfl⟩
  · cases message.bankId <;> exact ⟨rfl, rfl⟩
  · exact ⟨rfl, rfl⟩

end SlotInfo

end Richat
