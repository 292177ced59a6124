import Richat.Channel.DedupSpec
import Richat.Channel.SlotState

/-!
# What the sender holds for a slot

`Contents` is the invariant of the sender that relates its maps to slots and banks: dedup states are
well formed, and the candidates of a slot hold messages of the slot and of their bank only.
It holds of every reachable sender (`run_contents`), and with it everything that a push puts on a
stream belongs to the slot of the push (`push_streams_slot`).
-/

namespace Richat

open Lib

namespace SlotInfo

/-- Every candidate has only messages of the slot and of its bank. -/
def Belongs (slot : Slot) (info : SlotInfo) : Prop :=
  ∀ bankId bank, info.banks.get? bankId = some bank → bank.Belongs slot bankId

theorem belongs_new (slot : Slot) (index : ℕ) : Belongs slot (.new index) := by
  intro bankId bank h
  cases h

theorem Belongs.bank {slot : Slot} {info : SlotInfo} (h : info.Belongs slot)
    (bankId : Option BankId) : (info.bank bankId).Belongs slot bankId := by
  unfold SlotInfo.bank
  cases hb : info.banks.get? bankId with
  | none => exact BankInfo.belongs_new slot bankId
  | some bank => exact h bankId bank hb

theorem Belongs.getMessages {slot : Slot} {info : SlotInfo} (h : info.Belongs slot)
    {bankId : Option BankId} : ∀ m ∈ info.getMessages bankId, m.slot = slot ∧ m.bankId = bankId ∧
      m.message.isSlot = false ∧ m.message.isEntryUpdateParent = false := by
  unfold SlotInfo.getMessages
  cases hb : info.banks.get? bankId with
  | none => simp
  | some bank => exact (h bankId bank hb).stored

theorem commit_banks (info : SlotInfo) (status : SlotStatus) (bankId : Option BankId) :
    (info.commit status bankId).1.banks = info.banks ∧
      (info.commit status bankId).1.clearedBanks = info.clearedBanks := by
  unfold commit
  split
  · split <;> exact ⟨rfl, rfl⟩
  · exact ⟨rfl, rfl⟩
  · exact ⟨rfl, rfl⟩

theorem Belongs.commit {slot : Slot} {info : SlotInfo} (h : info.Belongs slot)
    (status : SlotStatus) (bankId : Option BankId) : (info.commit status bankId).1.Belongs slot := by
  unfold Belongs
  rw [(commit_banks info status bankId).1]
  exact h

theorem Belongs.getBlockMessage {slot : Slot} {info info' : SlotInfo} {message : ParsedMessage}
    {arc : ℕ} {block : Option ParsedMessage} (h : info.Belongs slot) (hslot : message.slot = slot)
    (hget : info.getBlockMessage message arc = .ok (info', block)) :
    info'.Belongs slot ∧ ∀ b ∈ block, b.slot = slot ∧ b.bankId = message.bankId := by
  rcases getBlockMessage_cases hget with ⟨_, rfl, rfl⟩ | ⟨_, bank, hbank, rfl⟩
  · refine ⟨?_, by simp⟩
    cases message.bankId with
    | none => exact h
    | some b =>
      intro bankId bank hb
      simp only [Option.map_some, Option.getD_some, clear, SortedMap.get?_erase] at hb
      split at hb
      · cases hb
      · exact h bankId bank hb
  · obtain ⟨hbelongs, hblock⟩ := (h.bank message.bankId).getBlockMessage hslot rfl hbank
    refine ⟨?_, hblock⟩
    intro bankId bank' hb
    rw [SortedMap.get?_insert] at hb
    split at hb
    · rename_i heq
      cases hb
      exact heq ▸ hbelongs
    · exact h bankId bank' hb

end SlotInfo

namespace Sender

/-- The dedup states are well formed, the slot infos hold messages of their slot. -/
structure Contents (s : Sender) : Prop where
  dedup : ∀ slot dedup, s.dedup.get? slot = some dedup → dedup.WellFormed slot
  slots : ∀ slot info, s.slots.get? slot = some info → info.Belongs slot

theorem Initial.contents {s : Sender} (h : s.Initial) : s.Contents where
  dedup := by rw [h.dedup]; simp
  slots := by rw [h.slots]; simp

variable {cfg : Config} {s s' s₁ : Sender} {st st' : PushState} {input : PushInput}
  {out eff : List Effect} {messages : List Message} {slot : Slot}

theorem Contents.getD_dedup (h : s.Contents) (slot : Slot) :
    ((s.dedup.get? slot).getD .default).WellFormed slot := by
  cases hd : s.dedup.get? slot with
  | none => exact DedupInfo.wellFormed_default slot
  | some dedup => exact h.dedup slot dedup hd

theorem Contents.slotInfo {st : PushState} (h : st.sender.Contents) (slot : Slot) :
    (st.slotInfo slot).Belongs slot := by
  unfold PushState.slotInfo
  cases hs : st.sender.slots.get? slot with
  | none => exact SlotInfo.belongs_new slot _
  | some info => exact h.slots slot info hs

/-- What deduplication passes on is like the pushed message. -/
theorem Contents.dedupMessage (h : s.Contents) (hdedup : s.dedupMessage input = .ok (s₁, messages)) :
    s₁.Contents ∧ ∀ m ∈ messages, m.Alike input.message := by
  rcases dedupMessage_cases hdedup with ⟨_, rfl, rfl⟩ | ⟨_, dedup, hpush, rfl⟩
  · exact ⟨h, by simpa using Message.Alike.refl _⟩
  · have hstep := DedupInfo.step_push (h.getD_dedup input.slot) rfl hpush
    refine ⟨⟨?_, h.slots⟩, hstep.alike⟩
    intro slot dedup' hd
    rw [SortedMap.get?_insert] at hd
    split at hd
    · rename_i heq
      cases hd
      exact heq ▸ hstep.wellFormed
    · exact h.dedup slot dedup' hd

/-- What one message of a push puts on the streams, and the contents after it. -/
theorem Contents.pushMessage {sourceName : SourceName} {message : Message}
    (h : st.sender.Contents) (hslot : message.slotOf = slot)
    (hpush : st.pushMessage cfg slot sourceName message = .ok (st', eff)) :
    st'.sender.Contents ∧ ∀ c, ∀ m ∈ stream c eff, m.slot = slot := by
  have hinfo := h.slotInfo slot
  cases hm : message.isSlot with
  | false =>
    obtain ⟨info, block, kept, hstep⟩ := PushState.pushMessage_message hm hpush
    obtain ⟨hbelongs, hblock⟩ := hinfo.getBlockMessage
      (show ParsedMessage.slot ⟨_, message⟩ = slot from hslot) hstep.receive
    refine ⟨⟨hstep.dedup ▸ h.dedup, ?_⟩, ?_⟩
    · intro slot' info' hget
      rw [hstep.slots, SortedMap.get?_insert] at hget
      split at hget
      · rename_i heq
        cases hget
        exact heq ▸ hbelongs
      · exact h.slots slot' info' hget
    · intro c m hmem
      rcases hstep.mem_stream hmem with rfl | hmem
      · exact hslot
      · exact (hblock m hmem).1
  | true =>
    cases message with
    | slot msg =>
      obtain ⟨info, selected, kept, hstep⟩ := PushState.pushMessage_status hpush
      have hbelongs : info.Belongs slot := by
        have hcommit := hinfo.commit msg.status (Message.slot msg).bankId
        rwa [hstep.receive] at hcommit
      refine ⟨⟨hstep.dedup ▸ h.dedup, ?_⟩, ?_⟩
      · intro slot' info' hget
        have hget' : (st.sender.slots.insert slot info).get? slot' = some info' := by
          rw [hstep.slots] at hget
          split at hget
          · rw [SortedMap.get?_erase] at hget
            split at hget
            · cases hget
            · exact hget
          · exact hget
        rw [SortedMap.get?_insert] at hget'
        split at hget'
        · rename_i heq
          cases hget'
          exact heq ▸ hbelongs
        · exact h.slots slot' info' hget'
      · intro c m hmem
        rcases hstep.mem_stream hmem with rfl | ⟨bankId, -, hmem⟩
        · exact hslot
        · exact (hbelongs.getMessages m hmem).1
    | _ => cases hm

theorem Contents.finish (h : st.sender.Contents) : (st.finish cfg slot).1.Contents := by
  have hfin := finishStep cfg slot st
  constructor
  · intro slot' dedup hget
    rw [hfin.dedup, SortedMap.get?_popExcess, get?_cleaned_dedup] at hget
    split at hget
    · cases hget
    · split at hget
      · cases hget
      · exact h.dedup slot' dedup hget
  · intro slot' info hget
    rw [hfin.slots, SortedMap.get?_popExcess, get?_cleaned_slots] at hget
    split at hget
    · cases hget
    · split at hget
      · cases hget
      · exact h.slots slot' info hget

/-- **A push keeps the contents**, and what it puts on the streams is of its slot. -/
theorem Contents.push (h : s.Contents) (hpush : s.push cfg input = .ok (s', out)) :
    s'.Contents ∧ ∀ c, ∀ m ∈ stream c out, m.slot = input.slot := by
  refine push_rule
    (P := fun s' out => s'.Contents ∧ ∀ c, ∀ m ∈ stream c out, m.slot = input.slot)
    (L := fun st eff ms => st.sender.Contents ∧ (∀ c, ∀ m ∈ stream c eff, m.slot = input.slot) ∧
      ∀ m ∈ ms, m.Alike input.message) ⟨h, by simp⟩ ?_ ?_ ?_ hpush
  · intro s₁ messages _ _ hdedup
    obtain ⟨h₁, halike⟩ := h.dedupMessage hdedup
    exact ⟨fun _ => ⟨h₁, by simp⟩, fun _ => ⟨h₁, by simp, halike⟩⟩
  · rintro st eff m ms st' eff' ⟨hst, heff, hms⟩ hm
    obtain ⟨hst', heff'⟩ := hst.pushMessage (hms m (List.mem_cons_self ..)).slot hm
    refine ⟨hst', fun c x hx => ?_, fun m' hm' => hms m' (List.mem_cons_of_mem _ hm')⟩
    rw [stream_append, List.mem_append] at hx
    exact hx.elim (heff c x) (heff' c x)
  · rintro st eff ⟨hst, heff, -⟩
    exact ⟨hst.finish, by simpa using heff⟩

/-- **The contents of every reachable sender.** -/
theorem run_contents {is : List PushInput} (h : s.Contents)
    (hrun : run (Sender.push cfg) s is = .ok (s', out)) : s'.Contents :=
  run_induction (P := fun _ s' _ => s'.Contents) h
    (fun _ _ _ _ _ _ _ h hpush => (h.push hpush).1) hrun

end Sender

end Richat
