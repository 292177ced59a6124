import Richat.Channel.PushSpec

/-!
# The state of a slot over a run

Three facts about the slot map that the claims about candidates, streams and deduplication share.

* The floor never falls (`push_floor_le`), and a slot above it is not removed: what holds of the
  info of a slot and is kept by its messages holds until the slot is at the floor (`push_keeps`).
* Every slot in the map is above the floor (`AboveFloor`).
-/

namespace Richat

open Lib

theorem le_foldl_max {l : List ℕ} : ∀ {a k : ℕ}, k ≤ a ∨ k ∈ l → k ≤ l.foldl max a := by
  induction l with
  | nil =>
    intro a k h
    simpa using h
  | cons b l ih =>
    intro a k h
    refine ih ?_
    rcases h with h | h
    · exact Or.inl (by omega)
    · rcases List.mem_cons.mp h with rfl | h
      · exact Or.inl (by omega)
      · exact Or.inr h

theorem foldl_max_le {l : List ℕ} : ∀ {a n : ℕ}, a ≤ n → (∀ k ∈ l, k ≤ n) → l.foldl max a ≤ n := by
  induction l with
  | nil =>
    intro a n h _
    simpa using h
  | cons b l ih =>
    intro a n h hl
    refine ih ?_ fun k hk => hl k (List.mem_cons_of_mem _ hk)
    have := hl b (List.mem_cons_self ..)
    omega

namespace Sender

/-- `Q` holds of the info of the slot, unless the slot is at the floor. -/
def Keeps (Q : SlotInfo → Prop) (slot : Slot) (s : Sender) : Prop :=
  slot ≤ s.floor ∨ ∃ info, s.slots.get? slot = some info ∧ Q info

variable {cfg : Config} {s s' : Sender} {st st' : PushState} {input : PushInput}
  {out eff : List Effect} {slot t : Slot} {Q : SlotInfo → Prop} {M : Message → Prop}

/-! ### The loop -/

/-- During the loop of a push the slot is above the old floor. -/
theorem floor_le_pushMessage {sourceName : SourceName} {message : Message}
    (hfloor : st.sender.slotFinalized ≤ slot)
    (h : st.pushMessage cfg slot sourceName message = .ok (st', eff)) :
    st.sender.floor ≤ st'.sender.floor ∧ st'.sender.slotFinalized ≤ slot ∧
      st'.sender.slotDropped = st.sender.slotDropped := by
  unfold floor
  cases hm : message.isSlot with
  | false =>
    obtain ⟨info, block, kept, hstep⟩ := PushState.pushMessage_message hm h
    rw [hstep.slotFinalized, hstep.slotDropped]
    exact ⟨le_rfl, hfloor, rfl⟩
  | true =>
    cases message with
    | slot msg =>
      obtain ⟨info, selected, kept, hstep⟩ := PushState.pushMessage_status h
      rw [hstep.slotFinalized, hstep.slotDropped]
      refine ⟨?_, ?_, rfl⟩
      · split
        · exact max_le_max_right _ hfloor
        · exact le_rfl
      · split
        · exact le_rfl
        · exact hfloor
    | _ => cases hm

/-- What the messages of a push do to the info of a slot they keep. -/
structure Preserves (M : Message → Prop) (Q : SlotInfo → Prop) : Prop where
  commit : ∀ info msg, M (.slot msg) → Q info → Q (info.commit msg.status (Message.slot msg).bankId).1
  message : ∀ info info' message arc block, message.message.isSlot = false → M message.message →
    Q info → info.getBlockMessage message arc = .ok (info', block) → Q info'

theorem Keeps.pushMessage {sourceName : SourceName} {message : Message} (hpres : Preserves M Q)
    (hM : slot = t → M message) (hk : Keeps Q t st.sender) (hfloor : st.sender.slotFinalized ≤ slot)
    (h : st.pushMessage cfg slot sourceName message = .ok (st', eff)) : Keeps Q t st'.sender := by
  obtain ⟨hle, -, -⟩ := floor_le_pushMessage hfloor h
  rcases hk with hk | ⟨info, hinfo, hQ⟩
  · exact Or.inl (hk.trans hle)
  · by_cases ht : t = slot
    · subst ht
      have hslot : st.slotInfo t = info := by simp [PushState.slotInfo, hinfo]
      cases hm : message.isSlot with
      | false =>
        obtain ⟨info', block, kept, hstep⟩ := PushState.pushMessage_message hm h
        refine Or.inr ⟨info', by rw [hstep.slots, SortedMap.get?_insert_self], ?_⟩
        exact hpres.message _ _ _ _ _ hm (hM rfl) (hslot ▸ hQ) hstep.receive
      | true =>
        cases message with
        | slot msg =>
          obtain ⟨info', selected, kept, hstep⟩ := PushState.pushMessage_status h
          by_cases hfin : kept ∧ msg.status = .slotFinalized
          · refine Or.inl ?_
            unfold floor
            rw [hstep.slotFinalized, if_pos hfin]
            exact le_max_left _ _
          · have hcommit := hpres.commit _ _ (hM rfl) hQ
            rw [← hslot, hstep.receive] at hcommit
            refine Or.inr ⟨info', ?_, hcommit⟩
            rw [hstep.slots, if_neg (fun hf => hfin ⟨hf.1, hf.2.1⟩), SortedMap.get?_insert_self]
        | _ => cases hm
    · refine Or.inr ⟨info, ?_, hQ⟩
      cases hm : message.isSlot with
      | false =>
        obtain ⟨info', block, kept, hstep⟩ := PushState.pushMessage_message hm h
        rw [hstep.slots, SortedMap.get?_insert_of_ne _ _ ht, hinfo]
      | true =>
        cases message with
        | slot msg =>
          obtain ⟨info', selected, kept, hstep⟩ := PushState.pushMessage_status h
          rw [hstep.slots]
          split
          · rw [SortedMap.get?_erase, if_neg ht, SortedMap.get?_insert_of_ne _ _ ht, hinfo]
          · rw [SortedMap.get?_insert_of_ne _ _ ht, hinfo]
        | _ => cases hm

/-! ### The end of a push -/

theorem floor_le_finish : st.sender.floor ≤ (st.finish cfg slot).1.floor := by
  have hfin := finishStep cfg slot st
  unfold floor
  rw [hfin.slotFinalized, hfin.slotDropped]
  exact max_le_max_left _ (le_foldl_max (Or.inl le_rfl))

theorem get?_cleaned_slots (t : Slot) : st.cleaned.slots.get? t =
    if st.cleanAfterFinalized ∧ t ≤ st.sender.slotFinalized then none
    else st.sender.slots.get? t := by
  unfold PushState.cleaned
  cases st.cleanAfterFinalized with
  | false => simp
  | true =>
    simp only [if_true, cleanFinalized, true_and]
    rw [SortedMap.get?_popWhile _ (fun a b hab hb => by simp at hb ⊢; order)]
    simp

theorem get?_cleaned_dedup (t : Slot) : st.cleaned.dedup.get? t =
    if st.cleanAfterFinalized ∧ t < st.sender.slotFinalized then none
    else st.sender.dedup.get? t := by
  unfold PushState.cleaned
  cases st.cleanAfterFinalized with
  | false => simp
  | true =>
    simp only [if_true, cleanFinalized, true_and]
    rw [SortedMap.get?_popWhile _ (fun a b hab hb => by simp at hb ⊢; order)]
    simp

/-- Above the floor the end of a push removes no slot. -/
theorem get?_finish_slots (ht : (st.finish cfg slot).1.floor < t) :
    (st.finish cfg slot).1.slots.get? t = st.sender.slots.get? t := by
  have hfin := finishStep cfg slot st
  unfold floor at ht
  rw [hfin.slotFinalized, hfin.slotDropped, max_lt_iff] at ht
  rw [hfin.slots, SortedMap.get?_popExcess, get?_cleaned_slots, if_neg, if_neg]
  · intro hclean
    exact absurd hclean.2 (Nat.not_le_of_lt ht.1)
  · intro hexcess
    exact absurd (le_foldl_max (Or.inr hexcess)) (Nat.not_le_of_lt ht.2)

theorem Keeps.finish (hk : Keeps Q t st.sender) : Keeps Q t (st.finish cfg slot).1 := by
  rcases hk with hk | ⟨info, hinfo, hQ⟩
  · exact Or.inl (hk.trans floor_le_finish)
  · by_cases ht : t ≤ (st.finish cfg slot).1.floor
    · exact Or.inl ht
    · exact Or.inr ⟨info, by rw [get?_finish_slots (Nat.lt_of_not_le ht), hinfo], hQ⟩

/-! ### A push -/

theorem dedupMessage_frame {s₁ : Sender} {messages : List Message}
    (h : s.dedupMessage input = .ok (s₁, messages)) :
    s₁.slots = s.slots ∧ s₁.slotFinalized = s.slotFinalized ∧ s₁.slotDropped = s.slotDropped ∧
      s₁.nextArc = s.nextArc ∧ s₁.replay = s.replay := by
  rcases dedupMessage_cases h with ⟨_, rfl, _⟩ | ⟨_, dedup, _, rfl⟩ <;> exact ⟨rfl, rfl, rfl, rfl, rfl⟩

/-- The floor never falls. -/
theorem push_floor_le (h : s.push cfg input = .ok (s', out)) : s.floor ≤ s'.floor := by
  refine push_rule (P := fun s' _ => s.floor ≤ s'.floor)
    (L := fun st _ _ => s.floor ≤ st.sender.floor ∧ st.sender.slotFinalized ≤ input.slot)
    le_rfl ?_ ?_ ?_ h
  · intro s₁ messages hfloor _ hdedup
    obtain ⟨-, hfin, hdrop, -⟩ := dedupMessage_frame hdedup
    have heq : s₁.floor = s.floor := by rw [floor, floor, hfin, hdrop]
    exact ⟨fun _ => heq.ge, fun _ => ⟨heq.ge, hfin ▸ (le_max_left _ _).trans hfloor.le⟩⟩
  · rintro st eff m ms st' eff' ⟨hle, hslot⟩ hpush
    obtain ⟨hle', hslot', -⟩ := floor_le_pushMessage hslot hpush
    exact ⟨hle.trans hle', hslot'⟩
  · rintro st eff ⟨hle, -⟩
    exact hle.trans floor_le_finish

/-- **What a slot keeps.** A property of the slot info that the messages passed on by deduplication
preserve holds until the slot is at the floor. -/
theorem push_keeps (hpres : Preserves M Q)
    (hM : ∀ s₁ messages, s.dedupMessage input = .ok (s₁, messages) → input.slot = t →
      s.floor < input.slot → s.isCleared input.message = false → ∀ m ∈ messages, M m)
    (hk : Keeps Q t s) (h : s.push cfg input = .ok (s', out)) : Keeps Q t s' := by
  refine push_rule (P := fun s' _ => Keeps Q t s')
    (L := fun st _ ms => Keeps Q t st.sender ∧ st.sender.slotFinalized ≤ input.slot ∧
      (input.slot = t → ∀ m ∈ ms, M m)) hk ?_ ?_ ?_ h
  · intro s₁ messages hfloor hcleared hdedup
    obtain ⟨hslots, hfin, hdrop, -⟩ := dedupMessage_frame hdedup
    have hk₁ : Keeps Q t s₁ := by
      unfold Keeps floor
      rw [hslots, hfin, hdrop]
      exact hk
    exact ⟨fun _ => hk₁, fun _ => ⟨hk₁, hfin ▸ (le_max_left _ _).trans hfloor.le,
      fun ht => hM s₁ messages hdedup ht hfloor hcleared⟩⟩
  · rintro st eff m ms st' eff' ⟨hk, hslot, hms⟩ hpush
    refine ⟨hk.pushMessage hpres (fun ht => hms ht m (List.mem_cons_self ..)) hslot hpush,
      (floor_le_pushMessage hslot hpush).2.1,
      fun ht m' hm' => hms ht m' (List.mem_cons_of_mem _ hm')⟩
  · rintro st eff ⟨hk, -⟩
    exact hk.finish

/-- A property that every message preserves holds until the slot is at the floor. -/
theorem run_keeps (hpres : Preserves (fun _ => True) Q) {is : List PushInput}
    (hk : Keeps Q t s) (h : run (push cfg) s is = .ok (s', out)) : Keeps Q t s' :=
  run_induction (P := fun _ s' _ => Keeps Q t s') hk
    (fun _ _ _ _ _ _ _ hk hpush => push_keeps hpres (fun _ _ _ _ _ _ _ _ => trivial) hk hpush) h

/-! ### Slots are above the floor -/

/-- Every slot in the map is above the floor. -/
def AboveFloor (s : Sender) : Prop :=
  ∀ t info, s.slots.get? t = some info → s.floor < t

theorem Initial.aboveFloor (h : s.Initial) : s.AboveFloor := by
  intro t info hget
  rw [h.slots] at hget
  cases hget

theorem AboveFloor.of_mem (h : s.AboveFloor) (ht : t ∈ s.slots.keys) : s.floor < t := by
  obtain ⟨info, hinfo⟩ := Option.isSome_iff_exists.mp (SortedMap.mem_keys.mp ht)
  exact h t info hinfo

/-- The slots after one message of a push. -/
theorem get?_pushMessage {sourceName : SourceName} {message : Message} {info : SlotInfo}
    (h : st.pushMessage cfg slot sourceName message = .ok (st', eff))
    (hget : st'.sender.slots.get? t = some info) :
    t = slot ∨ st.sender.slots.get? t = some info := by
  by_cases ht : t = slot
  · exact Or.inl ht
  · refine Or.inr ?_
    cases hm : message.isSlot with
    | false =>
      obtain ⟨info', block, kept, hstep⟩ := PushState.pushMessage_message hm h
      rwa [hstep.slots, SortedMap.get?_insert_of_ne _ _ ht] at hget
    | true =>
      cases message with
      | slot msg =>
        obtain ⟨info', selected, kept, hstep⟩ := PushState.pushMessage_status h
        rw [hstep.slots] at hget
        split at hget
        · rwa [SortedMap.get?_erase, if_neg ht, SortedMap.get?_insert_of_ne _ _ ht] at hget
        · rwa [SortedMap.get?_insert_of_ne _ _ ht] at hget
      | _ => cases hm

/-- The slots after one message of a push: the pushed one is added, or finalized. -/
theorem mem_keys_pushMessage {sourceName : SourceName} {m : Message}
    (hpush : st.pushMessage cfg slot sourceName m = .ok (st', eff)) {j : Slot}
    (hj : j = slot ∨ j ∈ st.sender.slots.keys) :
    j ∈ st'.sender.slots.keys ∨ (j = slot ∧ st'.sender.slotFinalized = slot) := by
  cases hm : m.isSlot with
  | false =>
    obtain ⟨info, block, kept, hstep⟩ := PushState.pushMessage_message hm hpush
    rw [hstep.slots]
    exact Or.inl (SortedMap.mem_keys_insert.mpr hj)
  | true =>
    cases m with
    | slot msg =>
      obtain ⟨info, selected, kept, hstep⟩ := PushState.pushMessage_status hpush
      by_cases hfin : kept ∧ msg.status = .slotFinalized
      · by_cases heq : j = slot
        · exact Or.inr ⟨heq, by rw [hstep.slotFinalized, if_pos hfin]⟩
        · refine Or.inl ?_
          have hmem : j ∈ (st.sender.slots.insert slot info).keys := SortedMap.mem_keys_insert.mpr hj
          rw [hstep.slots]
          split
          · rw [SortedMap.mem_keys, SortedMap.get?_erase, if_neg heq, ← SortedMap.mem_keys]
            exact hmem
          · exact hmem
      · rw [hstep.slots, if_neg fun hc => hfin ⟨hc.1, hc.2.1⟩]
        exact Or.inl (SortedMap.mem_keys_insert.mpr hj)
    | _ => cases hm

/-- The slots after one message, against those before the push. -/
theorem keys_pushMessage {sourceName : SourceName} {m : Message}
    (hslots : ∀ j ∈ st.sender.slots.keys, j = slot ∨ j ∈ s.slots.keys)
    (hpush : st.pushMessage cfg slot sourceName m = .ok (st', eff)) :
    ∀ j ∈ st'.sender.slots.keys, j = slot ∨ j ∈ s.slots.keys := by
  intro j hj
  obtain ⟨info, hinfo⟩ := Option.isSome_iff_exists.mp (SortedMap.mem_keys.mp hj)
  rcases get?_pushMessage hpush hinfo with rfl | hold
  · exact Or.inl rfl
  · exact hslots j (SortedMap.mem_keys_of_get? hold)

/-- The finalized slot moves with the flag of the loop. -/
theorem slotFinalized_pushMessage {sourceName : SourceName} {message : Message}
    (h : st.pushMessage cfg slot sourceName message = .ok (st', eff)) :
    (st'.sender.slotFinalized = st.sender.slotFinalized ∧
      st'.cleanAfterFinalized = st.cleanAfterFinalized) ∨
    (st'.sender.slotFinalized = slot ∧ st'.cleanAfterFinalized) := by
  cases hm : message.isSlot with
  | false =>
    obtain ⟨info', block, kept, hstep⟩ := PushState.pushMessage_message hm h
    exact Or.inl ⟨hstep.slotFinalized, hstep.clean⟩
  | true =>
    cases message with
    | slot msg =>
      obtain ⟨info', selected, kept, hstep⟩ := PushState.pushMessage_status h
      rw [hstep.slotFinalized, hstep.clean]
      by_cases hfin : kept ∧ msg.status = .slotFinalized
      · exact Or.inr ⟨if_pos hfin, by simp [hfin.1, hfin.2]⟩
      · refine Or.inl ⟨if_neg hfin, ?_⟩
        cases kept with
        | false => simp
        | true => simp [show msg.status ≠ .slotFinalized from fun hs => hfin ⟨rfl, hs⟩]
    | _ => cases hm

/-- A slot that is left at the end of a push is above the new floor. -/
theorem aboveFloor_finish {f : ℕ} (hslots : ∀ t info, st.sender.slots.get? t = some info → f < t)
    (hdropped : st.sender.slotDropped ≤ f)
    (hfin : st.cleanAfterFinalized = false → st.sender.slotFinalized ≤ f) :
    (st.finish cfg slot).1.AboveFloor := by
  intro t info hget
  have hfinish := finishStep cfg slot st
  rw [hfinish.slots] at hget
  have hkeep := SortedMap.mem_keys_of_get? hget
  rw [SortedMap.get?_popExcess] at hget
  split at hget
  · cases hget
  · rw [get?_cleaned_slots] at hget
    split at hget
    · cases hget
    · rename_i hclean
      have hf := hslots t info hget
      unfold floor
      rw [hfinish.slotFinalized, hfinish.slotDropped, max_lt_iff]
      constructor
      · cases hc : st.cleanAfterFinalized with
        | false => exact (hfin hc).trans_lt hf
        | true => exact Nat.lt_of_not_le fun hle => hclean ⟨hc, hle⟩
      · have hle : ∀ k ∈ st.cleaned.slots.excess cfg.maxUnfinalizedSlots, k ≤ t - 1 := by
          intro k hk
          exact Nat.le_sub_one_of_lt (SortedMap.excess_lt hk hkeep)
        have h1 : st.sender.slotDropped ≤ t - 1 :=
          Nat.le_sub_one_of_lt (hdropped.trans_lt hf)
        have hpos : 0 < t := (Nat.zero_le f).trans_lt hf
        exact (foldl_max_le h1 hle).trans_lt (Nat.sub_lt hpos Nat.one_pos)

theorem AboveFloor.push (h : s.AboveFloor) (hpush : s.push cfg input = .ok (s', out)) :
    s'.AboveFloor := by
  refine push_rule (P := fun s' _ => s'.AboveFloor)
    (L := fun st _ _ => (∀ t info, st.sender.slots.get? t = some info → s.floor < t) ∧
      st.sender.slotDropped ≤ s.floor ∧ st.sender.slotFinalized ≤ input.slot ∧
      s.floor < input.slot ∧ (st.cleanAfterFinalized = false → st.sender.slotFinalized ≤ s.floor))
    h ?_ ?_ ?_ hpush
  · intro s₁ messages hfloor _ hdedup
    obtain ⟨hslots, hfin, hdrop, -⟩ := dedupMessage_frame hdedup
    have heq : s₁.floor = s.floor := by rw [floor, floor, hfin, hdrop]
    refine ⟨fun _ => ?_, fun _ => ⟨hslots ▸ h, hdrop ▸ le_max_right _ _,
      hfin ▸ (le_max_left _ _).trans hfloor.le, hfloor, fun _ => hfin ▸ le_max_left _ _⟩⟩
    unfold AboveFloor
    rw [hslots, heq]
    exact h
  · rintro st eff m ms st' eff' ⟨hslots, hdrop, hfin, hfloor, hclean⟩ hm
    obtain ⟨-, hfin', hdrop'⟩ := floor_le_pushMessage hfin hm
    refine ⟨fun t info hget => ?_, hdrop' ▸ hdrop, hfin', hfloor, fun hc => ?_⟩
    · rcases get?_pushMessage hm hget with rfl | hget
      · exact hfloor
      · exact hslots t info hget
    · rcases slotFinalized_pushMessage hm with ⟨hsame, hflag⟩ | ⟨_, hflag⟩
      · exact hsame ▸ hclean (hflag ▸ hc)
      · rw [hflag] at hc
        cases hc
  · rintro st eff ⟨hslots, hdrop, -, -, hclean⟩
    exact aboveFloor_finish hslots hdrop hclean

/-- **Every slot of a reachable sender is above its floor.** -/
theorem run_aboveFloor {is : List PushInput} (h : s.AboveFloor)
    (hrun : run (push cfg) s is = .ok (s', out)) : s'.AboveFloor :=
  run_induction (P := fun _ s' _ => s'.AboveFloor) h
    (fun _ _ _ _ _ _ _ h hpush => h.push hpush) hrun

end Sender

end Richat
