import Richat.Channel.AtMostOnce

/-!
# The sender holds few slots

The slots are trimmed at the end of a push (`finish`), the dedup states too; but a push that returns early
does not get there. `Bounded` is kept by every push that does not make a dedup state for a message that
only waits (`Parks`).
-/

namespace Richat

open Lib

/-- An account update that waits for its transaction. -/
def Message.isSigned : Message → Bool
  | .account msg => msg.txnSignature.isSome
  | _ => false

namespace DedupInfoBank

variable {dedup : DedupInfoBank} {messages : List Message}

theorem pushAccount_default {msg : MessageAccount} (h : default.pushAccount msg = .ok (dedup, messages)) :
    messages = [] ↔ msg.txnSignature.isSome := by
  have hfresh : ∀ key, key ∉ default.accountsUpdates := fun key => Finset.notMem_empty key
  have hnone : ∀ signature, default.transactions signature = none := fun _ => rfl
  unfold pushAccount MessageAccount.dedupKey at h
  cases hsig : msg.txnSignature with
  | none =>
    simp only [hsig, if_neg (hfresh _), Except.ok.injEq, Prod.mk.injEq] at h
    rw [← h.2]
    simp
  | some bytes =>
    cases htry : Signature.tryFrom bytes with
    | none =>
      simp only [hsig, htry] at h
      cases h
    | some signature =>
      simp only [hsig, htry, if_neg (hfresh _), hnone, Except.ok.injEq, Prod.mk.injEq] at h
      rw [← h.2]
      simp

/-- The first message of a bank is passed on, or waits for its transaction. -/
theorem push_default {message : Message} (h : default.push message = .ok (dedup, messages)) :
    messages = [] ↔ message.isSigned := by
  cases message with
  | slot msg => cases h
  | account msg => exact pushAccount_default h
  | transaction msg =>
    have hnone : ∀ signature, default.transactions signature = none := fun _ => rfl
    simp only [push, pushTransaction, hnone] at h
    split at h
    · cases h
    · obtain ⟨-, rfl⟩ := Prod.mk.inj (Except.ok.inj h)
      simp [Message.isSigned]
  | entry msg =>
    simp only [push, pushEntry] at h
    split at h
    · cases h
    · rename_i htrue
      -- no entry is known yet
      have hmem := List.mem_of_getElem? htrue
      rcases List.mem_append.mp hmem with hold | hnew
      · cases List.eq_of_mem_replicate hold
      · cases List.eq_of_mem_replicate hnew
    · obtain ⟨-, rfl⟩ := Prod.mk.inj (Except.ok.inj h)
      simp [Message.isSigned]
  | block msg => cases h
  | blockMeta msg | blockFooter msg | entryUpdateParent msg =>
    obtain ⟨-, rfl⟩ := Prod.mk.inj (Except.ok.inj h)
    simp [Message.isSigned]

end DedupInfoBank

/-- The first message of a slot too. -/
theorem DedupInfo.push_default {sourceName : SourceName} {message : Message} {dedup : DedupInfo}
    {messages : List Message} (h : DedupInfo.default.push sourceName message = .ok (dedup, messages)) :
    messages = [] ↔ message.isSigned := by
  have haccept : ∃ accepted, DedupInfo.default.acceptSource message.bankId sourceName = some accepted ∧
      accepted.banks = DedupInfo.default.banks ∧ accepted.slots = DedupInfo.default.slots := by
    unfold DedupInfo.acceptSource
    split
    · exact ⟨_, rfl, rfl, rfl⟩
    · exact ⟨_, rfl, rfl, rfl⟩
  obtain ⟨accepted, haccepted, hbanks, hslots⟩ := haccept
  cases hslot : message.isSlot with
  | true =>
    cases message with
    | slot msg =>
      have hfresh : ∀ bankId status, DedupInfo.default.slots bankId status = false := fun _ _ => rfl
      rw [push_slot haccepted, hslots, hfresh, if_neg Bool.false_ne_true] at h
      obtain ⟨-, rfl⟩ := Prod.mk.inj (Except.ok.inj h)
      simp [Message.isSigned]
    | _ => cases hslot
  | false =>
    rw [push_message hslot haccepted, hbanks] at h
    split at h
    · cases h
    · rename_i bank messages' hbank
      obtain ⟨-, rfl⟩ := Prod.mk.inj (Except.ok.inj h)
      exact DedupInfoBank.push_default hbank

namespace Sender

/-- At most as many slots as configured, and no slot that is finalized or was dropped. -/
structure Bounded (cfg : Config) (s : Sender) : Prop where
  slots : s.slots.size ≤ cfg.maxUnfinalizedSlots
  dedup : s.dedup.size ≤ cfg.maxUnfinalizedSlots
  above : ∀ slot ∈ s.slots.keys, s.slotFinalized < slot ∧ s.slotDropped < slot

/-- The push makes one dedup state too many, for an account update that waits for its transaction. -/
def Parks (cfg : Config) (s : Sender) (input : PushInput) : Prop :=
  s.floor < input.slot ∧ s.isCleared input.message = false ∧ input.dedupRequired ∧
    input.message.isSigned ∧ s.dedup.contains input.slot = false ∧
    cfg.maxUnfinalizedSlots ≤ s.dedup.size

instance (cfg : Config) (s : Sender) (input : PushInput) : Decidable (s.Parks cfg input) := by
  unfold Parks
  infer_instance

variable {cfg : Config} {s s' s₁ s₀ : Sender} {st : PushState} {input : PushInput}
  {out tr : List Effect} {messages : List Message} {is : List PushInput} {slot : Slot}

theorem Initial.bounded (h : s.Initial) : s.Bounded cfg where
  slots := by
    rw [h.slots]
    exact Nat.zero_le _
  dedup := by
    rw [h.dedup]
    exact Nat.zero_le _
  above := by
    intro slot hslot
    rw [h.slots] at hslot
    cases hslot

theorem size_finish : (st.finish cfg slot).1.slots.size ≤ cfg.maxUnfinalizedSlots ∧
    (st.finish cfg slot).1.dedup.size ≤ cfg.maxUnfinalizedSlots := by
  have hfinish := finishStep cfg slot st
  rw [hfinish.slots, hfinish.dedup, SortedMap.size_popExcess, SortedMap.size_popExcess]
  exact ⟨min_le_right _ _, min_le_right _ _⟩

theorem AboveFloor.above (h : s.AboveFloor) :
    ∀ slot ∈ s.slots.keys, s.slotFinalized < slot ∧ s.slotDropped < slot := by
  intro slot hslot
  exact max_lt_iff.mp (h.of_mem hslot)

theorem Bounded.aboveFloor (h : s.Bounded cfg) : s.AboveFloor := by
  intro slot info hget
  exact max_lt_iff.mpr (h.above slot (SortedMap.mem_keys_of_get? hget))

/-- The dedup states after a message that is not passed on. -/
theorem size_dedupMessage (h : s.Bounded cfg) (hdedup : s.dedupMessage input = .ok (s₁, []))
    (hfloor : s.floor < input.slot) (hcleared : s.isCleared input.message = false) :
    s₁.dedup.size ≤ cfg.maxUnfinalizedSlots ↔ ¬ s.Parks cfg input := by
  rcases dedupMessage_cases hdedup with ⟨-, -, hnil⟩ | ⟨hrequired, dedup, hpush, rfl⟩
  · cases hnil
  · dsimp only
    rw [SortedMap.size_insert]
    have hsize := h.dedup
    cases hcontains : s.dedup.contains input.slot with
    | true =>
      refine iff_of_true (by simpa using hsize) ?_
      rintro ⟨-, -, -, -, hnot, -⟩
      rw [hcontains] at hnot
      cases hnot
    | false =>
      have hnone : s.dedup.get? input.slot = none := by
        simpa [SortedMap.contains] using hcontains
      rw [hnone] at hpush
      have hsigned := (DedupInfo.push_default hpush).mp rfl
      simp only [Bool.false_eq_true, if_false]
      constructor
      · rintro hle ⟨-, -, -, -, -, hfull⟩
        omega
      · intro hparks
        by_contra hgt
        exact hparks ⟨hfloor, hcleared, hrequired, hsigned, hcontains, by omega⟩

/-- After a push the sender is bounded, unless the push parks one message too many. -/
theorem Bounded.push_iff (h : s.Bounded cfg) (hpush : s.push cfg input = .ok (s', out)) :
    s'.Bounded cfg ↔ ¬ s.Parks cfg input := by
  have habove := (h.aboveFloor.push hpush).above
  rcases push_cases hpush with
    ⟨hdoor, rfl, rfl⟩ | ⟨hfloor, hcleared, s₁, messages, hdedup, ⟨rfl, rfl, rfl⟩ | ⟨hne, st, eff, -, rfl, rfl⟩⟩
  · refine iff_of_true h ?_
    rintro ⟨hfloor, hcleared, -⟩
    rcases hdoor with hle | hclear
    · exact absurd hfloor (Nat.not_lt_of_le hle)
    · rw [hcleared] at hclear
      cases hclear
  · have hsize := size_dedupMessage h hdedup hfloor hcleared
    have hslots : s'.slots.size ≤ cfg.maxUnfinalizedSlots := by
      rw [(dedupMessage_frame hdedup).1]
      exact h.slots
    constructor
    · intro hbounded
      exact hsize.mp hbounded.dedup
    · intro hparks
      exact ⟨hslots, hsize.mpr hparks, habove⟩
  · refine iff_of_true ⟨size_finish.1, size_finish.2, habove⟩ ?_
    rintro ⟨-, -, hrequired, hsigned, hnot, -⟩
    -- the first message of a slot that waits is not passed on
    rcases dedupMessage_cases hdedup with ⟨hrequired', -, -⟩ | ⟨-, dedup, hpush', -⟩
    · rw [hrequired'] at hrequired
      cases hrequired
    · have hnone : s.dedup.get? input.slot = none := by
        simpa [SortedMap.contains] using hnot
      rw [hnone] at hpush'
      exact hne ((DedupInfo.push_default hpush').mpr hsigned)

/-- **Bounded sender state**: in a run whose pushes do not park a message of one more slot while the dedup
map is full, the maps hold the configured number of slots at most, the slots are above what was finalized
and dropped, and nothing dropped is published; and the first push that does park one breaks the bound. -/
theorem bounded_state (hinit : s₀.Initial)
    (hall : AllSteps (push cfg) (fun s input => ¬ s.Parks cfg input) s₀ is)
    (hrun : run (push cfg) s₀ is = .ok (s, tr)) :
    s.Bounded cfg ∧ ∀ input s' out, s.push cfg input = .ok (s', out) →
      (∀ c, ∀ m ∈ stream c out, s.slotDropped < m.slot) ∧ (s'.Bounded cfg ↔ ¬ s.Parks cfg input) := by
  have hcontents := run_contents hinit.contents hrun
  have hbounded : s.Bounded cfg := by
    refine run_induction_of (P := fun _ s _ => s.Bounded cfg) hinit.bounded ?_ hall hrun
    intro _ _ _ _ _ _ _ h hok hpush
    exact (h.push_iff hpush).mpr hok
  refine ⟨hbounded, ?_⟩
  intro input s' out hpush
  refine ⟨?_, hbounded.push_iff hpush⟩
  intro c m hm
  rcases push_cases hpush with ⟨-, -, rfl⟩ | ⟨hfloor, -⟩
  · cases hm
  · rw [(hcontents.push hpush).2 c m hm]
    exact (max_lt_iff.mp hfloor).2

/-! ### Room for one slot -/

def Config.oneSlot : Config := { Config.memory with maxUnfinalizedSlots := 1 }

theorem bounded_state_statuses : ∃ s tr,
    run (push Config.oneSlot) .new [statusInput 10 .slotProcessed, statusInput 11 .slotProcessed] =
      .ok (s, tr) ∧ s.Bounded Config.oneSlot := by
  have hreturns : returns (fun _ _ => true) (run (push Config.oneSlot) .new
      [statusInput 10 .slotProcessed, statusInput 11 .slotProcessed]) = true := by decide +kernel
  obtain ⟨s, tr, hrun, -⟩ := exists_of_returns hreturns
  have hcheck : checkSteps (push Config.oneSlot) (fun s input => !decide (s.Parks Config.oneSlot input))
      .new [statusInput 10 .slotProcessed, statusInput 11 .slotProcessed] = true := by decide +kernel
  exact ⟨s, tr, hrun, (bounded_state initial_new
    (allSteps_of_checkSteps (fun _ _ h => by simpa using h) hcheck) hrun).1⟩

/-- An account update of slot `11` that waits for its transaction: the push returns before the dedup map is
trimmed. -/
theorem dedup_unbounded : ∃ s tr,
    run (push Config.oneSlot) .new [statusInput 10 .slotProcessed, parkedInput] = .ok (s, tr) ∧
      ¬ s.Bounded Config.oneSlot := by
  have hreturns : returns (fun s _ => decide (1 < s.dedup.size)) (run (push Config.oneSlot) .new
      [statusInput 10 .slotProcessed, parkedInput]) = true := by decide +kernel
  obtain ⟨s, tr, hrun, hsize⟩ := exists_of_returns hreturns
  refine ⟨s, tr, hrun, ?_⟩
  intro h
  exact absurd h.dedup (Nat.not_le_of_lt (of_decide_eq_true hsize))

end Sender

end Richat
