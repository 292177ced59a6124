import Richat.Channel.SlotState

/-!
# The candidate of the confirmed and the finalized status

A confirmed status fixes the candidate `k` of its slot in `SlotInfo.confirmedBank`. A finalized
status without a bank goes through `selectBank`: the confirmed bank, else the latest candidate. The
confirmed bank is flattened there, so that a confirmed candidate `none` (the messages without a
bank) does not count, and the latest candidate is taken in its place.

`finalizedCarries_iff` says exactly when the two statuses select the same candidate.
-/

namespace Richat

open Lib

namespace SlotInfo

/-- The latest candidate has a bank as soon as one of them does: `none` is the first key. -/
theorem lastKey?_join_eq_none {info : SlotInfo} :
    info.banks.lastKey?.join = none ↔ ∀ bankId ∈ info.banks.keys, bankId = none := by
  cases hlast : info.banks.lastKey? with
  | none =>
    rw [SortedMap.lastKey?_eq_none] at hlast
    simp [hlast]
  | some last =>
    obtain ⟨hmem, hle⟩ := SortedMap.lastKey?_eq_some hlast
    cases last with
    | none =>
      refine ⟨fun _ bankId hbank => ?_, fun _ => rfl⟩
      rcases hle bankId hbank with h | h
      · exact h
      · cases bankId <;> exact h.elim
    | some b =>
      refine ⟨fun h => (by cases h), fun h => ?_⟩
      cases h (some b) hmem

/-- A status without a bank selects the confirmed candidate if that is a bank, or if no candidate
is. -/
theorem selectBank_eq_confirmed_iff {info : SlotInfo} {k : Option BankId}
    (h : info.confirmedBank = some k) :
    info.selectBank none = k ↔ k ≠ none ∨ ∀ bankId ∈ info.banks.keys, bankId = none := by
  unfold selectBank
  rw [h]
  cases k with
  | none =>
    rw [← lastKey?_join_eq_none]
    simp
  | some b => simp

/-- Nothing changes the confirmed candidate. -/
theorem preserves_confirmedBank (k : Option BankId) :
    Sender.Preserves (fun _ => True) fun info => info.confirmedBank = some k where
  commit := by
    intro info msg _ h
    unfold commit
    split
    · rw [if_neg (by simp [h])]
      exact h
    · exact h
    · exact h
  message := by
    intro info info' message arc block _ _ h hget
    rw [(getBlockMessage_confirmedBank hget).1]
    exact h

end SlotInfo

namespace Sender

/-- The bank that a finalized status without a bank selects in the slot. -/
def selectsFinalized (s : Sender) (slot : Slot) : Option (Option BankId) :=
  (s.slots.get? slot).bind fun info => (info.commit .slotFinalized none).2

/-- The candidate that a confirmed status fixed. -/
def confirmedBank (s : Sender) (slot : Slot) : Option (Option BankId) :=
  (s.slots.get? slot).bind (·.confirmedBank)

/-- The candidates of the slot. -/
def candidates (s : Sender) (slot : Slot) : List (Option BankId) :=
  match s.slots.get? slot with
  | some info => info.banks.keys
  | none => []

/-- A finalized status without a bank selects the candidate `k`, and carries its messages to the
finalized stream when it is pushed. -/
structure FinalizedCarries (cfg : Config) (s : Sender) (slot : Slot) (k : Option BankId) : Prop where
  selects : s.selectsFinalized slot = some k
  carries : ∀ dedupRequired sourceName msg s' out, msg.slot = slot → msg.status = .slotFinalized →
    (Message.slot msg).bankId = none → cfg.finalized →
    s.push cfg ⟨dedupRequired, sourceName, .slot msg⟩ = .ok (s', out) →
    stream .processed out ≠ [] →
    stream .finalized out = stream .processed out ++ s.bankMessages slot (some k)

variable {cfg : Config} {s₁ s₂ : Sender} {slot : Slot} {k : Option BankId} {is : List PushInput}
  {tr : List Effect}

theorem carries_of_selects (h : s₂.selectsFinalized slot = some k) :
    FinalizedCarries cfg s₂ slot k where
  selects := h
  carries := by
    intro dedupRequired sourceName msg s' out hslot hstatus hbank hfinalized hpush hne
    obtain ⟨info, hinfo, hcommit⟩ := Option.bind_eq_some_iff.mp h
    rcases push_status rfl hpush with hnone | ⟨replay, info', selected, hsel, hproc, -, hfin⟩
    · exact absurd (hnone .processed) hne
    · have hslotInfo : PushState.slotInfo ⟨s₂, replay, false⟩ msg.slot = info := by
        simp [PushState.slotInfo, hslot, hinfo]
      rw [hslotInfo, hstatus, hbank] at hsel
      rw [hsel] at hcommit
      cases hcommit
      have hinfo' : info' = info := (congrArg Prod.fst hsel).symm
      subst hinfo'
      rw [hproc, hfin, hfinalized, hstatus]
      simp [bankMessages, hinfo]

/-- **Confirmed and finalized select the same candidate.** From a state in which the candidate `k`
of the slot is fixed, after any run that leaves the slot open: a finalized status without a bank
selects `k` if and only if `k` is a bank or no candidate with a bank is there. -/
theorem finalizedCarries_iff (hfixed : s₁.confirmedBank slot = some k)
    (hrun : run (push cfg) s₁ is = .ok (s₂, tr)) (hopen : s₂.floor < slot) :
    FinalizedCarries cfg s₂ slot k ↔
      k ≠ none ∨ ∀ bankId ∈ s₂.candidates slot, bankId = none := by
  obtain ⟨info₁, hinfo₁, hk₁⟩ := Option.bind_eq_some_iff.mp hfixed
  have hkeeps := run_keeps (SlotInfo.preserves_confirmedBank k) (Or.inr ⟨info₁, hinfo₁, hk₁⟩) hrun
  obtain ⟨info, hinfo, hk⟩ := hkeeps.resolve_left (Nat.not_le_of_lt hopen)
  have hselects : s₂.selectsFinalized slot = some k ↔ info.selectBank none = k := by
    simp [selectsFinalized, hinfo, SlotInfo.commit]
  rw [candidates, hinfo, ← SlotInfo.selectBank_eq_confirmed_iff hk, ← hselects]
  exact ⟨fun h => h.selects, carries_of_selects⟩

/-- An account update of slot `5`. -/
def accountOf (bankId : Option BankId) : Message :=
  .account ⟨5, bankId, default, default, 1, false, 0, [], 1,
    none, false⟩

/-- A status of slot `5` without a bank. -/
def statusOf (status : SlotStatus) : Message := .slot ⟨5, status, none, []⟩

/-- With one candidate, `none`, the two statuses agree. -/
theorem finalizedCarries_single : ∃ s₁ tr₁, run (push .memory) .new
      [⟨false, "a", accountOf none⟩, ⟨false, "a", statusOf .slotConfirmed⟩] = .ok (s₁, tr₁) ∧
    FinalizedCarries .memory s₁ 5 none := by
  refine ⟨_, _, rfl, ?_⟩
  exact (finalizedCarries_iff rfl run_nil (by decide)).mpr (Or.inr (by decide))

/-- The candidate `none` is confirmed, then a message of bank `7` arrives: a finalized status without
a bank selects `7`. -/
theorem finalized_selects_latest : ∃ s₁ tr₁ s₂ tr₂, run (push .memory) .new
      [⟨false, "a", accountOf none⟩, ⟨false, "a", statusOf .slotConfirmed⟩] = .ok (s₁, tr₁) ∧
    s₁.confirmedBank 5 = some none ∧
    run (push .memory) s₁ [⟨false, "b", accountOf (some 7)⟩] = .ok (s₂, tr₂) ∧ s₂.floor < 5 ∧
    s₂.selectsFinalized 5 = some (some 7) ∧ ¬ FinalizedCarries .memory s₂ 5 none := by
  refine ⟨_, _, _, _, rfl, rfl, rfl, by decide, rfl, fun h => ?_⟩
  exact absurd h.selects (by decide)

end Sender

end Richat
