import Richat.Channel.SlotContents

/-!
# Deduplication publishes every event once

`Once s tr` relates a sender to the effects `tr` of its run so far: of a slot above the floor,
whatever was published is recorded, events in the dedup state of the slot and `Block` messages in
its candidates. The two maps are evicted separately, the dedup state of a slot possibly before its
candidates; then the record is lost while the slot is still open. `KeepsDedup` excludes just that
step, and without it every event of a slot is published at most once (`events_nodup`).
-/

namespace Richat

open Lib

/-- What identifies a message within its slot. -/
def ParsedMessage.key (m : ParsedMessage) : Option BankId × Event := (m.bankId, m.message.event)

/-- The events of the slot on the processed stream. -/
def events (slot : Slot) (effects : List Effect) : List (Option BankId × Event) :=
  ((stream .processed effects).filter fun m => m.slot = slot).map ParsedMessage.key

@[simp] theorem events_nil (slot : Slot) : events slot [] = [] := rfl

@[simp] theorem events_append (slot : Slot) (l l' : List Effect) :
    events slot (l ++ l') = events slot l ++ events slot l' := by
  simp [events]

theorem events_of_slot {slot : Slot} {l : List Effect}
    (h : ∀ m ∈ stream .processed l, m.slot = slot) :
    events slot l = (stream .processed l).map ParsedMessage.key := by
  unfold events
  rw [List.filter_eq_self.mpr (by simpa using h)]

theorem events_of_ne {slot t : Slot} {l : List Effect} (ht : t ≠ slot)
    (h : ∀ m ∈ stream .processed l, m.slot = slot) : events t l = [] := by
  unfold events
  rw [List.filter_eq_nil_iff.mpr, List.map_nil]
  intro m hm
  simpa [h m hm] using ht.symm

/-- The bank completed its `Block`, or was cleared. -/
def SlotInfo.BlockDone (info : SlotInfo) (bankId : Option BankId) : Prop :=
  (∃ b, bankId = some b ∧ b ∈ info.clearedBanks) ∨ (info.bank bankId).blockCreated

theorem SlotInfo.BlockDone.getBlockMessage {info info' : SlotInfo} {message : ParsedMessage}
    {arc : ℕ} {block : Option ParsedMessage} {bankId : Option BankId} (h : info.BlockDone bankId)
    (hget : info.getBlockMessage message arc = .ok (info', block)) : info'.BlockDone bankId := by
  rcases getBlockMessage_cases hget with ⟨_, _, rfl⟩ | ⟨_, bank, hbank, rfl⟩
  · cases message.bankId with
    | none => exact h
    | some b' =>
      rcases h with ⟨b, hb, hmem⟩ | h
      · exact Or.inl ⟨b, hb, Finset.mem_insert_of_mem hmem⟩
      · by_cases hb : bankId = some b'
        · exact Or.inl ⟨b', hb, Finset.mem_insert_self _ _⟩
        · refine Or.inr ?_
          simpa [SlotInfo.bank, clear, SortedMap.get?_erase, hb] using h
  · rcases h with h | h
    · exact Or.inl h
    · refine Or.inr ?_
      unfold SlotInfo.bank at h ⊢
      rw [SortedMap.get?_insert]
      split
      · rename_i heq
        exact (BankInfo.blockCreated_getBlockMessage hbank).1 (heq ▸ h)
      · exact h

theorem SlotInfo.BlockDone.commit {info : SlotInfo} {bankId : Option BankId}
    (h : info.BlockDone bankId) (status : SlotStatus) (statusBankId : Option BankId) :
    (info.commit status statusBankId).1.BlockDone bankId := by
  obtain ⟨hbanks, hcleared⟩ := SlotInfo.commit_banks info status statusBankId
  unfold SlotInfo.BlockDone SlotInfo.bank
  rw [hbanks, hcleared]
  exact h

/-- A `Block` comes from a bank that had none, and marks it. -/
theorem SlotInfo.blockDone_of_block {info info' : SlotInfo} {message : ParsedMessage}
    {arc : ℕ} {block : Option ParsedMessage} (hsome : block.isSome)
    (hget : info.getBlockMessage message arc = .ok (info', block)) :
    message.message.isEntryUpdateParent = false ∧
      (info.bank message.bankId).blockCreated = false ∧ info'.BlockDone message.bankId := by
  rcases getBlockMessage_cases hget with ⟨_, rfl, _⟩ | ⟨heup, bank, hbank, rfl⟩
  · cases hsome
  · obtain ⟨hfalse, htrue⟩ := (BankInfo.blockCreated_getBlockMessage hbank).2 hsome
    exact ⟨heup, hfalse, Or.inr (by simpa [SlotInfo.bank] using htrue)⟩

namespace Sender

/-- The dedup state of the slot has recorded the event. -/
def Passed (s : Sender) (slot : Slot) (key : Option BankId × Event) : Prop :=
  ((s.dedup.get? slot).getD .default).Published key.1 key.2

/-- What was published of an open slot is recorded. -/
structure Once (s : Sender) (tr : List Effect) : Prop where
  nodup : ∀ t, (events t tr).Nodup
  passed : ∀ t, s.floor < t → ∀ key ∈ events t tr, key.2 ≠ .block → s.Passed t key
  block : ∀ t, s.floor < t → ∀ bankId, (bankId, .block) ∈ events t tr →
    ∃ info, s.slots.get? t = some info ∧ info.BlockDone bankId
  isOpen : ∀ t, s.floor < t → events t tr ≠ [] → (s.slots.get? t).isSome

/-- What deduplication passed on and the loop has not pushed yet. -/
structure Pending (slot : Slot) (s : Sender) (tr : List Effect) (ms : List Message) : Prop where
  ofSlot : ∀ m ∈ ms, m.slotOf = slot
  sameKind : ∀ m ∈ ms, ∀ m' ∈ ms, m.isEntryUpdateParent = m'.isEntryUpdateParent
  notBlock : ∀ m ∈ ms, m.event ≠ .block
  passed : ∀ m ∈ ms, s.Passed slot (m.bankId, m.event)
  fresh : ∀ m ∈ ms, (m.bankId, m.event) ∉ events slot tr
  notCleared : ∀ m ∈ ms, m.isEntryUpdateParent = false → ∀ b, m.bankId = some b →
    ∀ info, s.slots.get? slot = some info → b ∉ info.clearedBanks
  nodup : (ms.map fun m => (m.bankId, m.event)).Nodup

theorem Initial.once {s : Sender} : s.Once [] where
  nodup := by simp
  passed := by simp
  block := by simp
  isOpen := by simp

variable {cfg : Config} {s s' s₁ : Sender} {st st' : PushState} {input : PushInput}
  {out eff tr : List Effect} {slot : Slot} {messages ms : List Message}

/-! ### Deduplication -/

/-- Deduplication records what it passes on. -/
theorem Once.dedupMessage (h : s.Once tr) (hcontents : s.Contents) (hdedup : input.dedupRequired)
    (hfloor : s.floor < input.slot) (hcleared : s.isCleared input.message = false)
    (hmessages : s.dedupMessage input = .ok (s₁, messages)) :
    s₁.Once tr ∧ Pending input.slot s₁ tr messages := by
  rcases dedupMessage_cases hmessages with ⟨hno, _⟩ | ⟨_, dedup, hpush, rfl⟩
  · rw [hdedup] at hno
    cases hno
  · have hstep := DedupInfo.step_push (hcontents.getD_dedup input.slot) rfl hpush
    have hpassed : ∀ t key, s.Passed t key →
        Passed { s with dedup := s.dedup.insert input.slot dedup } t key := by
      intro t key hp
      unfold Passed at hp ⊢
      rw [SortedMap.get?_insert]
      split
      · rename_i heq
        exact (hstep.published _ _).mpr (Or.inl (heq ▸ hp))
      · exact hp
    have hnew : ∀ m ∈ messages,
        Passed { s with dedup := s.dedup.insert input.slot dedup } input.slot (m.bankId, m.event) := by
      intro m hm
      unfold Passed
      rw [SortedMap.get?_insert_self]
      exact (hstep.published _ _).mpr
        (Or.inr ⟨(hstep.alike m hm).bankId, List.mem_map_of_mem hm⟩)
    have hblock : ∀ m ∈ messages, m.event ≠ .block := by
      intro m hm hevent
      have hp := (hstep.published m.bankId m.event).mpr
        (Or.inr ⟨(hstep.alike m hm).bankId, List.mem_map_of_mem hm⟩)
      rw [hevent] at hp
      rcases hp with ⟨_, he, _⟩ | hp
      · cases he
      · exact hp
    refine ⟨⟨h.nodup, fun t ht key hkey hne => hpassed t key (h.passed t ht key hkey hne), h.block,
      h.isOpen⟩, ?_⟩
    constructor
    · exact fun m hm => (hstep.alike m hm).slot
    · exact fun m hm m' hm' =>
        (hstep.alike m hm).isEntryUpdateParent.trans (hstep.alike m' hm').isEntryUpdateParent.symm
    · exact hblock
    · exact hnew
    · intro m hm hmem
      refine hstep.fresh m hm ?_
      rw [← (hstep.alike m hm).bankId]
      exact h.passed _ hfloor (m.bankId, m.event) hmem (hblock m hm)
    · intro m hm heup b hbank info hinfo hmem
      have ha := hstep.alike m hm
      have hslot : s.slots.get? input.message.slotOf = some info := hinfo
      unfold isCleared at hcleared
      rw [← ha.bankId, hbank] at hcleared
      dsimp only at hcleared
      rw [← ha.isEntryUpdateParent, heup, hslot] at hcleared
      simp [hmem] at hcleared
    · have hkeys : (messages.map fun m => (m.bankId, m.event)) =
          (messages.map Message.event).map fun event => (input.message.bankId, event) := by
        rw [List.map_map]
        refine List.map_congr_left fun m hm => ?_
        simp [(hstep.alike m hm).bankId]
      rw [hkeys]
      exact hstep.nodup.map fun a b hab => (Prod.mk.inj hab).2

/-! ### The loop -/

/-- The floor stays where it is for a message that is no status. -/
theorem floor_pushMessage {sourceName : SourceName} {m : Message} (hm : m.isSlot = false)
    (hpush : st.pushMessage cfg slot sourceName m = .ok (st', eff)) :
    st'.sender.floor = st.sender.floor := by
  obtain ⟨info, block, kept, hstep⟩ := PushState.pushMessage_message hm hpush
  rw [floor, floor, hstep.slotFinalized, hstep.slotDropped]

/-- The keys of what is kept of a message and its `Block`, none of them published before. -/
theorem Pending.keys {m : Message} {info : SlotInfo}
    {block : Option ParsedMessage} {kept : List ParsedMessage} (h : st.sender.Once tr)
    (hp : Pending slot st.sender tr (m :: ms)) (hfloor : st.sender.floor < slot)
    (hcontents : st.sender.Contents)
    (hstep : MessageStep cfg slot st m st' eff info block kept) :
    (kept.map ParsedMessage.key).Nodup ∧
    (∀ key ∈ kept.map ParsedMessage.key, key ∉ events slot tr) ∧
    ∀ key ∈ kept.map ParsedMessage.key, key = (m.bankId, m.event) ∨
      (key = (m.bankId, .block) ∧ block.isSome) := by
  have hblock := ((hcontents.slotInfo slot).getBlockMessage
    (show ParsedMessage.slot ⟨_, m⟩ = slot from hp.ofSlot m (List.mem_cons_self ..)) hstep.receive).2
  have hbkey : ∀ b ∈ block, b.key = (m.bankId, .block) := by
    intro b hb
    obtain ⟨msg, rfl⟩ := SlotInfo.getBlockMessage_block hstep.receive b hb
    exact Prod.ext (hblock _ hb).2 rfl
  have hsub : (kept.map ParsedMessage.key).Sublist
      ((m.bankId, m.event) :: block.toList.map ParsedMessage.key) :=
    hstep.kept_sublist.map ParsedMessage.key
  have hmem : ∀ key ∈ kept.map ParsedMessage.key, key = (m.bankId, m.event) ∨
      (key = (m.bankId, .block) ∧ block.isSome) := by
    intro key hkey
    rcases List.mem_cons.mp (hsub.subset hkey) with rfl | hkey
    · exact Or.inl rfl
    · obtain ⟨b, hb, rfl⟩ := List.mem_map.mp hkey
      rw [Option.mem_toList] at hb
      exact Or.inr ⟨hbkey b hb, by rw [hb]; rfl⟩
  refine ⟨?_, ?_, hmem⟩
  · refine List.Nodup.sublist hsub ?_
    cases hb : block with
    | none => simp
    | some b =>
      have hne := hp.notBlock m (List.mem_cons_self ..)
      simp [hbkey b hb, hne]
  · intro key hkey hold
    rcases hmem key hkey with rfl | ⟨rfl, hsome⟩
    · exact hp.fresh m (List.mem_cons_self ..) hold
    · -- the bank of a new `Block` has none yet and is not cleared
      obtain ⟨info₀, hinfo₀, hdone⟩ := h.block slot hfloor _ hold
      have hst : st.slotInfo slot = info₀ := by simp [PushState.slotInfo, hinfo₀]
      have hreceive := hstep.receive
      rw [hst] at hreceive
      obtain ⟨heup, hfalse, -⟩ := SlotInfo.blockDone_of_block hsome hreceive
      rcases hdone with ⟨b, hb, hmem⟩ | hdone
      · exact hp.notCleared m (List.mem_cons_self ..) heup b hb info₀ hinfo₀ hmem
      · have hfalse' : (info₀.bank m.bankId).blockCreated = false := hfalse
        rw [hfalse'] at hdone
        cases hdone

/-- One message of the loop that is no status. -/
theorem Once.pushMessage {sourceName : SourceName} {m : Message} (h : st.sender.Once tr)
    (hp : Pending slot st.sender tr (m :: ms)) (hfloor : st.sender.floor < slot)
    (hcontents : st.sender.Contents) (hm : m.isSlot = false)
    (hpush : st.pushMessage cfg slot sourceName m = .ok (st', eff)) :
    st'.sender.Once (tr ++ eff) ∧ Pending slot st'.sender (tr ++ eff) ms := by
  have hmslot := hp.ofSlot m (List.mem_cons_self ..)
  have hslots := (hcontents.pushMessage hmslot hpush).2 .processed
  have hsame := floor_pushMessage hm hpush
  obtain ⟨info, block, kept, hstep⟩ := PushState.pushMessage_message hm hpush
  obtain ⟨hnodup, hnew, hkeys⟩ := hp.keys h hfloor hcontents hstep
  have heff : events slot eff = kept.map ParsedMessage.key := by
    rw [events_of_slot hslots, hstep.processed]
  have hother : ∀ t, t ≠ slot → events t (tr ++ eff) = events t tr := by
    intro t ht
    rw [events_append, events_of_ne ht hslots, List.append_nil]
  have hdedup : ∀ t key, st'.sender.Passed t key ↔ st.sender.Passed t key := by
    intro t key
    rw [Passed, Passed, hstep.dedup]
  have hget : st'.sender.slots.get? slot = some info := by
    rw [hstep.slots, SortedMap.get?_insert_self]
  have hgetne : ∀ t, t ≠ slot → st'.sender.slots.get? t = st.sender.slots.get? t := by
    intro t ht
    rw [hstep.slots, SortedMap.get?_insert_of_ne _ _ ht]
  have hdone : ∀ bankId, (bankId, .block) ∈ events slot (tr ++ eff) → info.BlockDone bankId := by
    intro bankId hmem
    rw [events_append, heff, List.mem_append] at hmem
    rcases hmem with hmem | hmem
    · obtain ⟨info₀, hinfo₀, hdone⟩ := h.block slot hfloor bankId hmem
      have hst : st.slotInfo slot = info₀ := by simp [PushState.slotInfo, hinfo₀]
      exact hdone.getBlockMessage (hst ▸ hstep.receive)
    · rcases hkeys _ hmem with heq | ⟨heq, hsome⟩
      · exact absurd (Prod.mk.inj heq).2.symm (hp.notBlock m (List.mem_cons_self ..))
      · rw [(Prod.mk.inj heq).1]
        exact (SlotInfo.blockDone_of_block hsome hstep.receive).2.2
  constructor
  · constructor
    · intro t
      by_cases ht : t = slot
      · subst ht
        rw [events_append, heff, List.nodup_append']
        exact ⟨h.nodup t, hnodup, fun key hold hkey => hnew key hkey hold⟩
      · rw [hother t ht]
        exact h.nodup t
    · intro t ht key hkey hne
      rw [hdedup]
      rw [hsame] at ht
      by_cases heq : t = slot
      · subst heq
        rw [events_append, heff, List.mem_append] at hkey
        rcases hkey with hkey | hkey
        · exact h.passed t ht key hkey hne
        · rcases hkeys key hkey with rfl | ⟨rfl, _⟩
          · exact hp.passed m (List.mem_cons_self ..)
          · exact absurd rfl hne
      · rw [hother t heq] at hkey
        exact h.passed t ht key hkey hne
    · intro t ht bankId hmem
      by_cases heq : t = slot
      · subst heq
        exact ⟨info, hget, hdone bankId hmem⟩
      · rw [hgetne t heq]
        rw [hother t heq] at hmem
        exact h.block t (hsame ▸ ht) bankId hmem
    · intro t ht hne
      by_cases heq : t = slot
      · rw [heq, hget]
        rfl
      · rw [hgetne t heq]
        rw [hother t heq] at hne
        exact h.isOpen t (hsame ▸ ht) hne
  · have htail : ∀ m' ∈ ms, m' ∈ m :: ms := fun m' hm' => List.mem_cons_of_mem _ hm'
    constructor
    · exact fun m' hm' => hp.ofSlot m' (htail m' hm')
    · exact fun m' hm' m'' hm'' => hp.sameKind m' (htail m' hm') m'' (htail m'' hm'')
    · exact fun m' hm' => hp.notBlock m' (htail m' hm')
    · exact fun m' hm' => (hdedup _ _).mpr (hp.passed m' (htail m' hm'))
    · intro m' hm' hmem
      rw [events_append, heff, List.mem_append] at hmem
      rcases hmem with hmem | hmem
      · exact hp.fresh m' (htail m' hm') hmem
      · rcases hkeys _ hmem with heq | ⟨heq, _⟩
        · have hmem' := List.mem_map_of_mem (f := fun m : Message => (m.bankId, m.event)) hm'
          rw [heq] at hmem'
          exact (List.nodup_cons.mp hp.nodup).1 hmem'
        · exact hp.notBlock m' (htail m' hm') (Prod.mk.inj heq).2
    · intro m' hm' heup b hbank info' hinfo' hmem
      rw [hget] at hinfo'
      cases hinfo'
      have heup' : m.isEntryUpdateParent = false :=
        (hp.sameKind m (List.mem_cons_self ..) m' (htail m' hm')).trans heup
      rcases SlotInfo.getBlockMessage_cases hstep.receive with ⟨htrue, _⟩ | ⟨_, bank, _, rfl⟩
      · rw [heup'] at htrue
        cases htrue
      · have hmem' : b ∈ (st.slotInfo slot).clearedBanks := hmem
        unfold PushState.slotInfo at hmem'
        cases hs : st.sender.slots.get? slot with
        | none =>
          rw [hs] at hmem'
          exact Finset.notMem_empty b hmem'
        | some info₀ =>
          rw [hs] at hmem'
          exact hp.notCleared m' (htail m' hm') heup b hbank info₀ hs hmem'
    · exact (List.nodup_cons.mp hp.nodup).2

/-- A status, which is alone in its loop. -/
theorem Once.pushStatus {sourceName : SourceName} {msg : MessageSlot} (h : st.sender.Once tr)
    (hp : Pending slot st.sender tr [.slot msg]) (hfin : st.sender.slotFinalized ≤ slot)
    (hcontents : st.sender.Contents)
    (hpush : st.pushMessage cfg slot sourceName (.slot msg) = .ok (st', eff)) :
    st'.sender.Once (tr ++ eff) := by
  have hslots := (hcontents.pushMessage (hp.ofSlot _ (List.mem_cons_self ..)) hpush).2 .processed
  have hle := (floor_le_pushMessage hfin hpush).1
  obtain ⟨info, selected, kept, hstep⟩ := PushState.pushMessage_status hpush
  have heff : ∀ key ∈ events slot eff, key = ((Message.slot msg).bankId, .status msg.status) := by
    intro key hkey
    rw [events_of_slot hslots, hstep.processed] at hkey
    split at hkey
    · exact List.mem_singleton.mp hkey
    · cases hkey
  have hone : (events slot eff).Nodup := by
    rw [events_of_slot hslots, hstep.processed]
    split <;> simp
  have hother : ∀ t, t ≠ slot → events t (tr ++ eff) = events t tr := by
    intro t ht
    rw [events_append, events_of_ne ht hslots, List.append_nil]
  have hdedup : ∀ t key, st'.sender.Passed t key ↔ st.sender.Passed t key := by
    intro t key
    rw [Passed, Passed, hstep.dedup]
  have hgetne : ∀ t, t ≠ slot → st'.sender.slots.get? t = st.sender.slots.get? t := by
    intro t ht
    rw [hstep.slots]
    split
    · rw [SortedMap.get?_erase, if_neg ht, SortedMap.get?_insert_of_ne _ _ ht]
    · rw [SortedMap.get?_insert_of_ne _ _ ht]
  -- above the new floor the slot was not finalized
  have hget : st'.sender.floor < slot → st'.sender.slots.get? slot = some info := by
    intro hlt
    rw [hstep.slots, if_neg, SortedMap.get?_insert_self]
    rintro ⟨hk, hstatus, -⟩
    have heq : st'.sender.slotFinalized = slot := by rw [hstep.slotFinalized, if_pos ⟨hk, hstatus⟩]
    exact absurd hlt (Nat.not_lt_of_le (heq ▸ le_max_left _ _))
  constructor
  · intro t
    by_cases ht : t = slot
    · subst ht
      rw [events_append, List.nodup_append']
      refine ⟨h.nodup t, hone, fun key hold hkey => ?_⟩
      rw [heff key hkey] at hold
      exact hp.fresh _ (List.mem_cons_self ..) hold
    · rw [hother t ht]
      exact h.nodup t
  · intro t ht key hkey hne
    rw [hdedup]
    by_cases heq : t = slot
    · subst heq
      rw [events_append, List.mem_append] at hkey
      rcases hkey with hkey | hkey
      · exact h.passed t (hle.trans_lt ht) key hkey hne
      · rw [heff key hkey]
        exact hp.passed _ (List.mem_cons_self ..)
    · rw [hother t heq] at hkey
      exact h.passed t (hle.trans_lt ht) key hkey hne
  · intro t ht bankId hmem
    by_cases heq : t = slot
    · subst heq
      rw [events_append, List.mem_append] at hmem
      rcases hmem with hmem | hmem
      · obtain ⟨info₀, hinfo₀, hdone⟩ := h.block t (hle.trans_lt ht) bankId hmem
        have hst : st.slotInfo t = info₀ := by simp [PushState.slotInfo, hinfo₀]
        have hcommit := SlotInfo.BlockDone.commit hdone msg.status (Message.slot msg).bankId
        rw [← hst, hstep.receive] at hcommit
        exact ⟨info, hget ht, hcommit⟩
      · cases heff _ hmem
    · rw [hgetne t heq]
      rw [hother t heq] at hmem
      exact h.block t (hle.trans_lt ht) bankId hmem
  · intro t ht hne
    by_cases heq : t = slot
    · subst heq
      rw [hget ht]
      rfl
    · rw [hgetne t heq]
      rw [hother t heq] at hne
      exact h.isOpen t (hle.trans_lt ht) hne

/-! ### Eviction -/

/-- The end of a push that evicts no dedup state of a slot it keeps open. -/
theorem Once.finish (h : st.sender.Once tr)
    (hkeep : ∀ t, (st.finish cfg slot).1.floor < t → (st.sender.slots.get? t).isSome →
      t ∉ st.cleaned.dedup.excess cfg.maxUnfinalizedSlots) :
    (st.finish cfg slot).1.Once (tr ++ (st.finish cfg slot).2) := by
  have hevents : ∀ t, events t (tr ++ (st.finish cfg slot).2) = events t tr := by
    intro t
    simp [events]
  have hle : st.sender.floor ≤ (st.finish cfg slot).1.floor := floor_le_finish
  have hfin := finishStep cfg slot st
  constructor
  · intro t
    rw [hevents]
    exact h.nodup t
  · intro t ht key hkey hne
    rw [hevents] at hkey
    have hpassed := h.passed t (hle.trans_lt ht) key hkey hne
    have hopen := h.isOpen t (hle.trans_lt ht) (List.ne_nil_of_mem hkey)
    have hfloor : st.sender.slotFinalized < t := by
      rw [← hfin.slotFinalized]
      exact (le_max_left _ _).trans_lt ht
    unfold Passed at hpassed ⊢
    rw [hfin.dedup, SortedMap.get?_popExcess, if_neg (hkeep t ht hopen), get?_cleaned_dedup, if_neg]
    · exact hpassed
    · exact fun hc => absurd hc.2 (Nat.not_lt_of_lt hfloor)
  · intro t ht bankId hmem
    rw [hevents] at hmem
    rw [get?_finish_slots ht]
    exact h.block t (hle.trans_lt ht) bankId hmem
  · intro t ht hne
    rw [hevents] at hne
    rw [get?_finish_slots ht]
    exact h.isOpen t (hle.trans_lt ht) hne

/-- Whether the message was durable at the start. -/
def knows (cfg : Config) (s : Sender) (message : Message) : Bool :=
  ((s.replay.get? message.slotOf).getD (.new s.index)).knows cfg.hasher ⟨s.nextArc, message⟩

/-- Whether the push finalizes its slot. -/
def Finalizes (cfg : Config) (s : Sender) (message : Message) : Prop :=
  ∃ msg, message = .slot msg ∧ msg.status = .slotFinalized ∧ s.knows cfg message = false

/-- The push is stopped neither at the door nor by deduplication. -/
def Accepts (s : Sender) (input : PushInput) : Prop :=
  s.floor < input.slot ∧ s.isCleared input.message = false ∧
    ∃ s₁ messages, s.dedupMessage input = .ok (s₁, messages) ∧ messages ≠ []

/-- The push evicts the dedup state of no slot that it leaves open: a slot with at least
`maxUnfinalizedSlots` slots above it among the dedup states has as many above it among the slots. -/
def KeepsDedup (cfg : Config) (s : Sender) (input : PushInput) : Prop :=
  s.Accepts input → ∀ t, t = input.slot ∨ t ∈ s.slots.keys → s.floor < t →
    (s.Finalizes cfg input.message → input.slot < t) →
    cfg.maxUnfinalizedSlots ≤ (s.dedup.insert input.slot .default).above t →
    cfg.maxUnfinalizedSlots ≤ (s.slots.insert input.slot (.new 0)).above t

/-- The maps at the end of the loop, against those before the push. -/
structure LoopEnd (cfg : Config) (s : Sender) (input : PushInput) (st : PushState) : Prop where
  dedup : ∀ j ∈ st.sender.dedup.keys, j = input.slot ∨ j ∈ s.dedup.keys
  slots : ∀ j ∈ st.sender.slots.keys, j = input.slot ∨ j ∈ s.slots.keys
  kept : ∀ j, j = input.slot ∨ j ∈ s.slots.keys →
    j ∈ st.sender.slots.keys ∨ j ≤ st.sender.slotFinalized
  finalizes : s.Finalizes cfg input.message → st.sender.slotFinalized = input.slot
  floor : s.floor ≤ st.sender.floor

/-- What is evicted of the dedup states is dropped of the slots. -/
theorem LoopEnd.keeps (h : LoopEnd cfg s input st) (haccepts : s.Accepts input)
    (hkeep : KeepsDedup cfg s input) : ∀ t, (st.finish cfg input.slot).1.floor < t →
      (st.sender.slots.get? t).isSome → t ∉ st.cleaned.dedup.excess cfg.maxUnfinalizedSlots := by
  intro t ht hopen hexcess
  have hfin := finishStep cfg input.slot st
  have hfloor : st.sender.slotFinalized < t := by
    rw [← hfin.slotFinalized]
    exact (le_max_left _ _).trans_lt ht
  have hkey := SortedMap.mem_keys.mpr hopen
  have hcleanedSlots : ∀ j, t ≤ j → j ∈ st.sender.slots.keys → j ∈ st.cleaned.slots.keys := by
    intro j hj hmem
    rw [SortedMap.mem_keys, get?_cleaned_slots, if_neg, ← SortedMap.mem_keys]
    · exact hmem
    · exact fun hc => absurd (hfloor.trans_le hj) (Nat.not_lt_of_le hc.2)
  have hcleanedDedup : ∀ j ∈ st.cleaned.dedup.keys, j ∈ st.sender.dedup.keys := by
    intro j hmem
    rw [SortedMap.mem_keys, get?_cleaned_dedup] at hmem
    split at hmem
    · cases hmem
    · exact SortedMap.mem_keys.mpr hmem
  have hdedup : cfg.maxUnfinalizedSlots ≤ (s.dedup.insert input.slot .default).above t := by
    refine ((SortedMap.mem_excess_iff (SortedMap.mem_keys_of_mem_excess hexcess)).mp hexcess).2.trans
      (SortedMap.above_le_above fun j hj _ => ?_)
    exact SortedMap.mem_keys_insert.mpr (h.dedup j (hcleanedDedup j hj))
  have hfloor' : s.floor < t := h.floor.trans_lt (floor_le_finish.trans_lt ht)
  have hslots := hkeep haccepts t (h.slots t hkey) hfloor'
    (fun hf => h.finalizes hf ▸ hfloor) hdedup
  have habove : cfg.maxUnfinalizedSlots ≤ st.cleaned.slots.above t := by
    refine hslots.trans (SortedMap.above_le_above fun j hj hlt => ?_)
    refine hcleanedSlots j hlt.le ((h.kept j (SortedMap.mem_keys_insert.mp hj)).resolve_right ?_)
    exact fun hle => absurd (hfloor.trans hlt) (Nat.not_lt_of_le hle)
  have hmem := hcleanedSlots t le_rfl hkey
  have hexcess' : t ∈ st.cleaned.slots.excess cfg.maxUnfinalizedSlots :=
    (SortedMap.mem_excess_iff hmem).mpr ⟨habove.trans_lt (SortedMap.above_lt_size hmem), habove⟩
  have hdropped : t ≤ (st.finish cfg input.slot).1.slotDropped := by
    rw [hfin.slotDropped]
    exact le_foldl_max (Or.inr hexcess')
  exact absurd ht (Nat.not_lt_of_le (hdropped.trans (le_max_right _ _)))

/-- The push of a status. -/
theorem Once.push_slot {msg : MessageSlot} (h : s.Once tr) (hcontents : s.Contents)
    (hdedup : input.dedupRequired) (hkeep : KeepsDedup cfg s input)
    (hmsg : input.message = .slot msg) (hpush : s.push cfg input = .ok (s', out)) :
    s'.Once (tr ++ out) := by
  rcases push_cases hpush with ⟨_, rfl, rfl⟩ | ⟨hfloor, hcleared, s₁, messages, hmessages, hcases⟩
  · simpa using h
  · obtain ⟨h₁, hpending⟩ := h.dedupMessage hcontents hdedup hfloor hcleared hmessages
    rcases hcases with ⟨_, rfl, rfl⟩ | ⟨hne, st, effects, hrun, rfl, rfl⟩
    · simpa using h₁
    · have haccepts : s.Accepts input := ⟨hfloor, hcleared, s₁, messages, hmessages, hne⟩
      have hsingle := (dedupMessage_slot hmsg hmessages).resolve_left hne
      subst hsingle
      have hpushMessage := run_singleton.mp hrun
      obtain ⟨hslots, hfin, hdrop, harc, hreplay⟩ := dedupMessage_frame hmessages
      have hle : s₁.slotFinalized ≤ input.slot := hfin ▸ (le_max_left _ _).trans hfloor.le
      rw [← List.append_assoc]
      have h₂ := Once.pushStatus h₁ hpending hle (hcontents.dedupMessage hmessages).1 hpushMessage
      refine h₂.finish
        (LoopEnd.keeps (s := s) ?_ haccepts hkeep)
      obtain ⟨info, selected, kept, hstep⟩ := PushState.pushMessage_status hpushMessage
      constructor
      · intro j hj
        rw [hstep.dedup] at hj
        rcases dedupMessage_cases hmessages with ⟨_, rfl, _⟩ | ⟨_, dedup, _, rfl⟩
        · exact Or.inr hj
        · exact SortedMap.mem_keys_insert.mp hj
      · refine keys_pushMessage (fun j hj => Or.inr ?_) hpushMessage
        exact hslots ▸ hj
      · intro j hj
        rcases mem_keys_pushMessage hpushMessage (hslots.symm ▸ hj) with hmem | ⟨rfl, heq⟩
        · exact Or.inl hmem
        · exact Or.inr heq.ge
      · rintro ⟨msg', hmsg', hstatus, hknows⟩
        obtain rfl : msg = msg' := by
          rw [hmsg] at hmsg'
          exact Message.slot.inj hmsg'
        have hkept : kept = true := by
          rw [hstep.kept_eq]
          have hindex : s₁.index = s.index := by
            rcases dedupMessage_cases hmessages with ⟨_, rfl, _⟩ | ⟨_, dedup, _, rfl⟩ <;> rfl
          unfold knows at hknows
          rw [hmsg] at hknows
          dsimp only
          rw [hreplay, hindex, harc]
          have hslot : input.slot = msg.slot := by simp [hmsg]
          rw [hslot]
          simpa using hknows
        rw [hstep.slotFinalized, if_pos ⟨hkept, hstatus⟩]
      · have heq : s₁.floor = s.floor := by rw [floor, floor, hfin, hdrop]
        exact heq ▸ (floor_le_pushMessage hle hpushMessage).1

/-- The push of any other message. -/
theorem Once.push_message (h : s.Once tr) (hcontents : s.Contents)
    (hdedup : input.dedupRequired) (hkeep : KeepsDedup cfg s input)
    (hm : input.message.isSlot = false) (hpush : s.push cfg input = .ok (s', out)) :
    s'.Once (tr ++ out) := by
  refine push_rule (P := fun s' out => s'.Once (tr ++ out))
    (L := fun st eff ms => st.sender.Once (tr ++ eff) ∧ st.sender.Contents ∧
      Pending input.slot st.sender (tr ++ eff) ms ∧ s.Accepts input ∧
      (∀ m ∈ ms, m.isSlot = false) ∧ st.sender.floor = s.floor ∧
      (∀ j ∈ st.sender.dedup.keys, j = input.slot ∨ j ∈ s.dedup.keys) ∧
      (∀ j ∈ st.sender.slots.keys, j = input.slot ∨ j ∈ s.slots.keys) ∧
      (∀ j, (j = input.slot ∧ ms = []) ∨ j ∈ s.slots.keys → j ∈ st.sender.slots.keys))
    (by simpa using h) ?_ ?_ ?_ hpush
  · intro s₁ messages hfloor hcleared hmessages
    obtain ⟨h₁, hpending⟩ := h.dedupMessage hcontents hdedup hfloor hcleared hmessages
    obtain ⟨hcontents₁, halike⟩ := hcontents.dedupMessage hmessages
    obtain ⟨hslots, hfin, hdrop, -⟩ := dedupMessage_frame hmessages
    refine ⟨fun _ => by simpa using h₁, fun hne => ⟨by simpa using h₁, hcontents₁,
      by simpa using hpending, ⟨hfloor, hcleared, s₁, messages, hmessages, hne⟩,
      fun m hmem => (halike m hmem).isSlot.trans hm, by rw [floor, floor, hfin, hdrop], ?_,
      fun j hj => Or.inr (hslots ▸ hj), ?_⟩⟩
    · intro j hj
      rcases dedupMessage_cases hmessages with ⟨_, rfl, _⟩ | ⟨_, dedup, _, rfl⟩
      · exact Or.inr hj
      · exact SortedMap.mem_keys_insert.mp hj
    · rintro j (⟨_, hnil⟩ | hj)
      · exact absurd hnil hne
      · exact hslots.symm ▸ hj
  · rintro st eff m ms st' eff' ⟨h, hcontents, hpending, haccepts, hms, hfloor, hd, hs, hk⟩ hpush
    have hmstatus := hms m (List.mem_cons_self ..)
    have hlt : st.sender.floor < input.slot := hfloor ▸ haccepts.1
    obtain ⟨h', hpending'⟩ := h.pushMessage hpending hlt hcontents hmstatus hpush
    obtain ⟨info, block, kept, hstep⟩ := PushState.pushMessage_message hmstatus hpush
    rw [← List.append_assoc]
    refine ⟨h', (hcontents.pushMessage (hpending.ofSlot m (List.mem_cons_self ..)) hpush).1,
      hpending', haccepts, fun m' hm' => hms m' (List.mem_cons_of_mem _ hm'),
      (floor_pushMessage hmstatus hpush).trans hfloor, hstep.dedup ▸ hd, keys_pushMessage hs hpush,
      ?_⟩
    intro j hj
    rw [hstep.slots, SortedMap.mem_keys_insert]
    rcases hj with ⟨rfl, _⟩ | hj
    · exact Or.inl rfl
    · exact Or.inr (hk j (Or.inr hj))
  · rintro st eff ⟨h, -, -, haccepts, -, hfloor, hd, hs, hk⟩
    rw [← List.append_assoc]
    refine h.finish (LoopEnd.keeps (s := s) ⟨hd, hs, ?_, ?_, hfloor.ge⟩ haccepts hkeep)
    · exact fun j hj => Or.inl (hk j (hj.imp (fun e => ⟨e, rfl⟩) id))
    · rintro ⟨msg, hmsg, -⟩
      rw [hmsg] at hm
      cases hm

/-- **A push with deduplication publishes no event again.** -/
theorem Once.push (h : s.Once tr) (hcontents : s.Contents) (hdedup : input.dedupRequired)
    (hkeep : KeepsDedup cfg s input) (hpush : s.push cfg input = .ok (s', out)) :
    s'.Once (tr ++ out) := by
  cases hmsg : input.message with
  | slot msg => exact h.push_slot hcontents hdedup hkeep hmsg hpush
  | _ => exact h.push_message hcontents hdedup hkeep (by rw [hmsg]; rfl) hpush

/-- **At most once.** In a run of pushes with deduplication, none of which evicts the dedup state of
a slot that stays open, every event of a slot is published at most once. -/
theorem events_nodup (hinit : s.Initial) {is : List PushInput}
    (hdedup : ∀ i ∈ is, i.dedupRequired) (hkeep : AllSteps (push cfg) (KeepsDedup cfg) s is)
    (hrun : run (push cfg) s is = .ok (s', tr)) (slot : Slot) : (events slot tr).Nodup := by
  have hall : (∀ i ∈ is, i.dedupRequired) → s'.Contents ∧ s'.Once tr := by
    refine run_induction_of (P := fun is s' tr =>
      (∀ i ∈ is, i.dedupRequired) → s'.Contents ∧ s'.Once tr)
      (fun _ => ⟨hinit.contents, Initial.once⟩) ?_ hkeep hrun
    intro is s tr i s' out _ ih hok hpush hdedup
    obtain ⟨hcontents, honce⟩ := ih fun j hj => hdedup j (List.mem_append_left _ hj)
    exact ⟨(hcontents.push hpush).1,
      honce.push hcontents (hdedup i (by simp)) hok hpush⟩
  exact (hall hdedup).2.nodup slot

/-- A status of a slot without a bank. -/
def statusInput (slot : Slot) (status : SlotStatus) : PushInput :=
  ⟨true, "a", .slot ⟨slot, status, none, []⟩⟩

/-- A status and its duplicate. -/
theorem events_nodup_status : ∃ s' tr, run (push .memory) .new
      [statusInput 10 .slotProcessed, statusInput 10 .slotProcessed] = .ok (s', tr) ∧
    (events 10 tr).Nodup := by
  obtain ⟨s', tr, hrun, -⟩ := exists_of_returns (p := fun _ _ => true) (x := run (push .memory) .new
    [statusInput 10 .slotProcessed, statusInput 10 .slotProcessed]) (by decide +kernel)
  have hkeep : AllSteps (push .memory) (KeepsDedup .memory) .new
      [statusInput 10 .slotProcessed, statusInput 10 .slotProcessed] := by
    refine And.intro ?_ fun s₁ out hpush => And.intro ?_ fun _ _ _ => trivial
    · rintro _ t ht _ _ hle
      rcases ht with rfl | ht
      · exact absurd hle (by decide)
      · cases ht
    · -- the duplicate is stopped by deduplication
      rintro ⟨-, -, s₂, messages, hmessages, hne⟩
      cases hpush
      cases hmessages
      exact absurd rfl hne
  exact ⟨s', tr, hrun, events_nodup initial_new (by decide) hkeep hrun 10⟩

/-- An account update of slot `11` that waits for its transaction. -/
def parkedInput : PushInput :=
  ⟨true, "a", .account ⟨11, none, default, default, 1, false, 0,
    [], 1, some (List.replicate 64 0), false⟩⟩

/-- With room for one slot: the parked update makes a dedup state for slot `11` but no slot, so the
next status of slot `10` evicts the dedup state of slot `10`, which stays open. The first status is
then published again. -/
theorem events_published_twice : ∃ s' tr,
    run (push { Config.memory with maxUnfinalizedSlots := 1 }) .new
      [statusInput 10 .slotProcessed, parkedInput, statusInput 10 .slotCompleted,
        statusInput 10 .slotProcessed] = .ok (s', tr) ∧ ¬ (events 10 tr).Nodup := by
  obtain ⟨s', tr, hrun, hdup⟩ := exists_of_returns (p := fun _ tr => !decide (events 10 tr).Nodup)
    (x := run (push { Config.memory with maxUnfinalizedSlots := 1 }) .new
      [statusInput 10 .slotProcessed, parkedInput, statusInput 10 .slotCompleted,
        statusInput 10 .slotProcessed]) (by decide +kernel)
  exact ⟨s', tr, hrun, by simpa using hdup⟩

end Sender

end Richat
