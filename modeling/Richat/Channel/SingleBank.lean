import Richat.Channel.Cleared
import Richat.Channel.Survivors
import Richat.Channel.Transparency
import Richat.Channel.Numbering

/-!
# A run over one bank of one slot

What a sender without a journal knows of the bank after any run (`OneCandidate`): the bank is the only
candidate of the slot, whichever bank a status selects its messages are those of the bank, and the
confirmed bank is fixed as soon as a confirmed status was received.
-/

namespace Richat

open Lib

/-- The messages are of one bank of one slot; a status may leave the bank out. -/
def SingleBank (slot : Slot) (bankId : Option BankId) (ms : List Message) : Prop :=
  ∀ m ∈ ms, m.slotOf = slot ∧ (m.bankId = bankId ∨ m.isSlot ∧ m.bankId = none)

instance (slot : Slot) (bankId : Option BankId) (ms : List Message) :
    Decidable (SingleBank slot bankId ms) := by
  unfold SingleBank
  infer_instance

/-- A confirmed status of the slot was received. -/
def IsConfirmed (slot : Slot) (effects : List Effect) : Prop :=
  ∃ msg, (∃ x ∈ received effects, x.message = .slot msg) ∧ msg.slot = slot ∧
    msg.status = .slotConfirmed

theorem isConfirmed_append {slot : Slot} {l l' : List Effect} :
    IsConfirmed slot (l ++ l') ↔ IsConfirmed slot l ∨ IsConfirmed slot l' := by
  unfold IsConfirmed
  rw [received_append]
  constructor
  · rintro ⟨msg, ⟨x, hx, hmsg⟩, hrest⟩
    exact (List.mem_append.mp hx).imp (fun hx => ⟨msg, ⟨x, hx, hmsg⟩, hrest⟩)
      fun hx => ⟨msg, ⟨x, hx, hmsg⟩, hrest⟩
  · rintro (⟨msg, ⟨x, hx, hmsg⟩, hrest⟩ | ⟨msg, ⟨x, hx, hmsg⟩, hrest⟩)
    · exact ⟨msg, ⟨x, List.mem_append_left _ hx, hmsg⟩, hrest⟩
    · exact ⟨msg, ⟨x, List.mem_append_right _ hx, hmsg⟩, hrest⟩

/-- The effects of one received message. -/
theorem isConfirmed_iff_of_received {slot : Slot} {l : List Effect} {x : ParsedMessage}
    (h : received l = [x]) : IsConfirmed slot l ↔
      ∃ msg, x.message = .slot msg ∧ msg.slot = slot ∧ msg.status = .slotConfirmed := by
  unfold IsConfirmed
  simp [h]

/-! ### The candidate -/

/-- The bank is the only candidate of the slot. -/
structure OneCandidate (bankId : Option BankId) (confirmed : Prop) (info : SlotInfo) : Prop where
  banks : ∀ k ∈ info.banks.keys, k = bankId
  confirmedBank : ∀ b, info.confirmedBank = some (some b) → bankId = some b
  isSome : info.confirmedBank.isSome ↔ confirmed

namespace OneCandidate

variable {bankId k : Option BankId} {confirmed : Prop} {info info' : SlotInfo}
  {message : ParsedMessage} {arc : ℕ} {block : Option ParsedMessage}

theorem new (bankId : Option BankId) (index : ℕ) (hconfirmed : ¬ confirmed) :
    OneCandidate bankId confirmed (.new index) where
  banks := fun _ hk => absurd hk List.not_mem_nil
  confirmedBank := by
    intro b h
    cases h
  isSome := by
    refine ⟨fun h => ?_, fun h => absurd h hconfirmed⟩
    cases h

/-- The latest candidate is the bank. -/
theorem lastKey (h : OneCandidate bankId confirmed info) {b : BankId}
    (hlast : info.banks.lastKey?.join = some b) : bankId = some b := by
  have hlast' : info.banks.lastKey? = some (some b) := Option.join_eq_some_iff.mp hlast
  exact (h.banks _ (SortedMap.lastKey?_eq_some hlast').1).symm

/-- A status of the bank, or without a bank, selects no other bank. -/
theorem selectBank (h : OneCandidate bankId confirmed info) (hk : k = bankId ∨ k = none) {b : BankId}
    (hselect : info.selectBank k = some b) : bankId = some b := by
  unfold SlotInfo.selectBank at hselect
  cases k with
  | some b' =>
    rcases hk with rfl | hk
    · exact hselect
    · cases hk
  | none =>
    cases hconfirmed : info.confirmedBank.join with
    | some b' =>
      rw [hconfirmed] at hselect
      cases hselect
      exact h.confirmedBank b (Option.join_eq_some_iff.mp hconfirmed)
    | none =>
      rw [hconfirmed] at hselect
      exact h.lastKey hselect

/-- If it selects no bank, the bank has no messages. -/
theorem get?_of_selectBank (h : OneCandidate bankId confirmed info)
    (hselect : info.selectBank k = none) : bankId = none ∨ info.banks.get? bankId = none := by
  cases hbank : bankId with
  | none => exact Or.inl rfl
  | some b =>
    refine Or.inr (SortedMap.get?_eq_none.mpr fun hmem => ?_)
    obtain ⟨last, hlast⟩ : ∃ last, info.banks.lastKey? = some last := by
      refine Option.ne_none_iff_exists'.mp fun hnone => ?_
      rw [SortedMap.lastKey?_eq_none.mp hnone] at hmem
      cases hmem
    have hkey : last = some b := (h.banks last (SortedMap.lastKey?_eq_some hlast).1).trans hbank
    unfold SlotInfo.selectBank at hselect
    rw [hlast, hkey, Option.join_some] at hselect
    cases hor : k.or info.confirmedBank.join <;> rw [hor] at hselect <;> cases hselect

/-- **Whatever bank a status selects, it promotes the updates of the bank.** -/
theorem accounts_selected (h : OneCandidate bankId confirmed info) (hk : k = bankId ∨ k = none) :
    (info.getMessages (info.selectBank k)).filterMap (·.getAccount) = (info.bank bankId).accounts := by
  have hempty : info.banks.get? bankId = none → (info.bank bankId).accounts = [] := by
    intro hnone
    unfold SlotInfo.bank
    rw [hnone]
    rfl
  cases hselect : info.selectBank k with
  | some b =>
    rw [h.selectBank hk hselect, SlotInfo.getMessages_eq_stored]
    rfl
  | none =>
    rcases h.get?_of_selectBank hselect with hnone | hnone
    · rw [hnone, SlotInfo.getMessages_eq_stored]
      rfl
    · rw [hempty hnone]
      by_cases hbank : bankId = none
      · unfold SlotInfo.getMessages
        rw [← hbank, hnone]
        rfl
      · have hother : info.banks.get? none = none :=
          SortedMap.get?_eq_none.mpr fun hmem => hbank (h.banks none hmem).symm
        unfold SlotInfo.getMessages
        rw [hother]
        rfl

/-- A message of the bank that is no status. -/
theorem getBlockMessage (h : OneCandidate bankId confirmed info) (hbank : message.bankId = bankId)
    (hget : info.getBlockMessage message arc = .ok (info', block)) :
    OneCandidate bankId confirmed info' := by
  have hconf := (SlotInfo.getBlockMessage_confirmedBank hget).1
  refine ⟨fun k hmem => ?_, hconf ▸ h.confirmedBank, hconf ▸ h.isSome⟩
  rcases SlotInfo.getBlockMessage_cases hget with ⟨-, -, rfl⟩ | ⟨-, bank, -, rfl⟩
  · cases hb : message.bankId with
    | none =>
      rw [hb] at hmem
      exact h.banks k hmem
    | some b =>
      rw [hb, Option.map_some, Option.getD_some, SlotInfo.clear, SortedMap.mem_keys,
        SortedMap.get?_erase] at hmem
      split at hmem
      · cases hmem
      · exact h.banks k (SortedMap.mem_keys.mpr hmem)
  · rw [SortedMap.mem_keys_insert] at hmem
    rcases hmem with rfl | hmem
    · exact hbank
    · exact h.banks k hmem

/-- A status. -/
theorem commit (h : OneCandidate bankId confirmed info) (msg : MessageSlot)
    (hk : k = bankId ∨ k = none) :
    OneCandidate bankId (confirmed ∨ msg.status = .slotConfirmed) (info.commit msg.status k).1 := by
  have hbanks := (SlotInfo.commit_banks info msg.status k).1
  refine ⟨hbanks ▸ h.banks, fun b hb => ?_, ?_⟩
  · unfold SlotInfo.commit at hb
    split at hb
    · split at hb
      · exact h.selectBank hk (Option.some.inj hb)
      · exact h.confirmedBank b hb
    · exact h.confirmedBank b hb
    · exact h.confirmedBank b hb
  · rw [← h.isSome]
    unfold SlotInfo.commit
    cases hstatus : msg.status with
    | slotConfirmed =>
      dsimp only
      split
      · simp
      · rename_i hnot
        simpa [Option.isSome_iff_ne_none] using hnot
    | _ => simp

end OneCandidate

namespace Sender

variable {cfg : Config} {s s' : Sender} {st st' : PushState} {input : PushInput}
  {out eff tr : List Effect} {slot : Slot} {bankId : Option BankId} {m : Message}
  {sourceName : SourceName} {is : List PushInput}

/-! ### Without a journal -/

/-- What is received is published, and what is published and was not received is a `Block`. -/
structure PublishesAll (effects : List Effect) : Prop where
  of_received : ∀ x ∈ received effects, x ∈ stream .processed effects
  received : ∀ x ∈ stream .processed effects, x ∈ received effects ∨ x.message.isBlock

theorem PublishesAll.append {l l' : List Effect} (h : PublishesAll l) (h' : PublishesAll l') :
    PublishesAll (l ++ l') where
  of_received := by
    intro x hx
    rw [received_append, List.mem_append] at hx
    rw [stream_append, List.mem_append]
    exact hx.imp (h.of_received x) (h'.of_received x)
  received := by
    intro x hx
    rw [stream_append, List.mem_append] at hx
    rw [received_append, List.mem_append]
    rcases hx with hx | hx
    · exact (h.received x hx).imp_left Or.inl
    · exact (h'.received x hx).imp_left Or.inr

/-- One message of a push. -/
theorem publishesAll_pushMessage (hnone : st.replay.messages = none)
    (hpush : st.pushMessage cfg slot sourceName m = .ok (st', eff)) :
    st'.replay.messages = none ∧ st'.sender.replay = st.sender.replay ∧ PublishesAll eff := by
  cases hm : m.isSlot with
  | false =>
    obtain ⟨info, block, kept, hstep⟩ := PushState.pushMessage_message hm hpush
    obtain ⟨hkept, hnone'⟩ := hstep.kept_fresh hnone
    refine ⟨hnone', hstep.replay, ⟨fun x hx => ?_, fun x hx => ?_⟩⟩
    · rw [hstep.received] at hx
      rw [hstep.processed, hkept, List.mem_singleton.mp hx]
      exact List.mem_cons_self
    · rcases hstep.mem_stream hx with rfl | hx
      · exact Or.inl (by rw [hstep.received]; exact List.mem_singleton_self _)
      · obtain ⟨msg, rfl⟩ := SlotInfo.getBlockMessage_block hstep.receive x hx
        exact Or.inr rfl
  | true =>
    cases m with
    | slot msg =>
      obtain ⟨info, selected, kept, hstep⟩ := PushState.pushMessage_status hpush
      obtain ⟨hkept, hnone'⟩ := hstep.kept_fresh hnone
      have hprocessed := hstep.processed
      rw [if_pos hkept] at hprocessed
      refine ⟨hnone', hstep.replay, ⟨fun x hx => ?_, fun x hx => Or.inl ?_⟩⟩
      · rwa [hprocessed, ← hstep.received]
      · rwa [hstep.received, ← hprocessed]
    | _ => cases hm

theorem NoJournal.push (h : s.NoJournal) (hpush : s.push cfg input = .ok (s', out)) :
    s'.NoJournal ∧ PublishesAll out := by
  have hnil : PublishesAll [] := ⟨fun _ hx => (nomatch hx), fun _ hx => (nomatch hx)⟩
  refine push_rule (P := fun s' out => s'.NoJournal ∧ PublishesAll out)
    (L := fun st eff _ => st.sender.NoJournal ∧ st.replay.messages = none ∧ PublishesAll eff)
    ⟨h, hnil⟩ ?_ ?_ ?_ hpush
  · intro s₁ messages _ _ hdedup
    have hreplay := (dedupMessage_frame hdedup).2.2.2.2
    have h₁ : s₁.NoJournal := by
      unfold NoJournal
      rw [hreplay]
      exact h
    exact ⟨fun _ => ⟨h₁, hnil⟩, fun _ => ⟨h₁, h₁.replayInfo input.slot, hnil⟩⟩
  · rintro st eff m ms st' eff' ⟨hst, hnone, heff⟩ hm
    obtain ⟨hnone', hreplay, heff'⟩ := publishesAll_pushMessage hnone hm
    refine ⟨?_, hnone', heff.append heff'⟩
    unfold NoJournal
    rw [hreplay]
    exact hst
  · rintro st eff ⟨hst, hnone, heff⟩
    refine ⟨hst.finish hnone, ?_, ?_⟩
    · simpa using heff.of_received
    · simpa using heff.received

/-- **Without a journal everything received is published.** -/
theorem run_publishesAll (h : s.NoJournal) (hrun : run (push cfg) s is = .ok (s', tr)) :
    PublishesAll tr := by
  have hall : s'.NoJournal ∧ PublishesAll tr :=
    run_induction (P := fun _ s' tr => s'.NoJournal ∧ PublishesAll tr)
      ⟨h, ⟨fun _ hx => (nomatch hx), fun _ hx => (nomatch hx)⟩⟩
      (fun _ _ _ _ _ _ _ h hpush => ⟨(h.1.push hpush).1, h.2.append (h.1.push hpush).2⟩) hrun
  exact hall.2

/-! ### The candidate of the slot -/

/-- As long as the slot is open, the bank is its only candidate. -/
def CandidateOf (slot : Slot) (bankId : Option BankId) (s : Sender) (tr : List Effect) : Prop :=
  s.floor < slot → ∀ index,
    OneCandidate bankId (IsConfirmed slot tr) ((s.slots.get? slot).getD (.new index))

theorem CandidateOf.pushMessage (h : CandidateOf slot bankId st.sender tr)
    (hfloor : st.sender.slotFinalized ≤ slot)
    (hm : m.slotOf = slot ∧ (m.bankId = bankId ∨ m.isSlot ∧ m.bankId = none))
    (hpush : st.pushMessage cfg slot sourceName m = .ok (st', eff)) :
    CandidateOf slot bankId st'.sender (tr ++ eff) := by
  intro hopen index
  obtain ⟨hslot, hbank⟩ := hm
  have hinfo : OneCandidate bankId (IsConfirmed slot tr) (st.slotInfo slot) :=
    h ((floor_le_pushMessage hfloor hpush).1.trans_lt hopen) st.replay.head
  cases hstatus : m.isSlot with
  | false =>
    obtain ⟨info, block, kept, hstep⟩ := PushState.pushMessage_message hstatus hpush
    have hsame : IsConfirmed slot (tr ++ eff) = IsConfirmed slot tr := by
      refine propext (isConfirmed_append.trans (or_iff_left ?_))
      rw [isConfirmed_iff_of_received hstep.received]
      rintro ⟨msg, hmsg, -⟩
      dsimp only at hmsg
      rw [hmsg] at hstatus
      cases hstatus
    rw [hsame, hstep.slots, SortedMap.get?_insert_self, Option.getD_some]
    have hbank' : ParsedMessage.bankId ⟨st.sender.nextArc, m⟩ = bankId := by
      refine hbank.resolve_right fun hno => ?_
      rw [hstatus] at hno
      exact Bool.false_ne_true hno.1
    exact hinfo.getBlockMessage hbank' hstep.receive
  | true =>
    cases m with
    | slot msg =>
      obtain ⟨info, selected, kept, hstep⟩ := PushState.pushMessage_status hpush
      have hnot : ¬ (kept ∧ msg.status = .slotFinalized ∧ cfg.finalized) := by
        intro hfin
        have hle : st'.sender.slotFinalized ≤ st'.sender.floor := le_max_left _ _
        rw [hstep.slotFinalized, if_pos ⟨hfin.1, hfin.2.1⟩] at hle
        exact absurd hopen (Nat.not_lt_of_le hle)
      have hsame : IsConfirmed slot (tr ++ eff) =
          (IsConfirmed slot tr ∨ msg.status = .slotConfirmed) := by
        refine propext (isConfirmed_append.trans (or_congr_right ?_))
        rw [isConfirmed_iff_of_received hstep.received]
        constructor
        · rintro ⟨msg', hmsg, -, hconfirmed⟩
          cases hmsg
          exact hconfirmed
        · exact fun hconfirmed => ⟨msg, rfl, hslot, hconfirmed⟩
      have hcommit := hinfo.commit msg (hbank.imp_right And.right)
      rw [hstep.receive] at hcommit
      rw [hsame, hstep.slots, if_neg hnot, SortedMap.get?_insert_self, Option.getD_some]
      exact hcommit
    | _ => cases hstatus

theorem CandidateOf.push (h : CandidateOf slot bankId s tr) (hcontents : s.Contents)
    (hm : input.message.slotOf = slot ∧
      (input.message.bankId = bankId ∨ input.message.isSlot ∧ input.message.bankId = none))
    (hpush : s.push cfg input = .ok (s', out)) : CandidateOf slot bankId s' (tr ++ out) := by
  refine push_rule (P := fun s' out => CandidateOf slot bankId s' (tr ++ out))
    (L := fun st eff ms => CandidateOf slot bankId st.sender (tr ++ eff) ∧
      st.sender.slotFinalized ≤ input.slot ∧ ∀ m ∈ ms, m.Alike input.message)
    (by simpa using h) ?_ ?_ ?_ hpush
  · intro s₁ messages hfloor _ hdedup
    obtain ⟨hslots, hfin, hdrop, -⟩ := dedupMessage_frame hdedup
    have h₁ : CandidateOf slot bankId s₁ (tr ++ []) := by
      unfold CandidateOf floor
      rw [hslots, hfin, hdrop, List.append_nil]
      exact h
    exact ⟨fun _ => h₁, fun _ => ⟨h₁, hfin ▸ (le_max_left _ _).trans hfloor.le,
      (hcontents.dedupMessage hdedup).2⟩⟩
  · rintro st eff m ms st' eff' ⟨hst, hle, hms⟩ hpush'
    have ha := hms m (List.mem_cons_self ..)
    have hslot : input.slot = slot := hm.1
    rw [← List.append_assoc]
    refine ⟨?_, (floor_le_pushMessage hle hpush').2.1, fun m' hm' => hms m' (List.mem_cons_of_mem _ hm')⟩
    rw [hslot] at hle hpush'
    refine hst.pushMessage hle ⟨ha.slot.trans hm.1, ?_⟩ hpush'
    rw [ha.bankId, ha.isSlot]
    exact hm.2
  · rintro st eff ⟨hst, -⟩ hopen index
    have hfin : IsConfirmed slot (tr ++ (eff ++ (st.finish cfg input.slot).2)) =
        IsConfirmed slot (tr ++ eff) := by
      unfold IsConfirmed
      simp
    rw [get?_finish_slots hopen, hfin]
    exact hst (floor_le_finish.trans_lt hopen) index

/-- **The candidate after any run** over messages of the bank. -/
theorem run_candidateOf (hinit : s.Initial) (hms : SingleBank slot bankId (is.map (·.message)))
    (hrun : run (push cfg) s is = .ok (s', tr)) : CandidateOf slot bankId s' tr := by
  have hall : s'.Contents ∧ CandidateOf slot bankId s' tr := by
    refine run_induction (P := fun is s' tr => SingleBank slot bankId (is.map (·.message)) →
      s'.Contents ∧ CandidateOf slot bankId s' tr) ?_ ?_ hrun hms
    · refine fun _ => ⟨hinit.contents, fun _ index => ?_⟩
      rw [hinit.slots]
      refine OneCandidate.new bankId index ?_
      rintro ⟨msg, ⟨x, hx, -⟩, -⟩
      cases hx
    · intro is s tr i s' out _ ih hpush hms
      rw [List.map_append, List.map_singleton] at hms
      obtain ⟨hcontents, h⟩ := ih fun m hm => hms m (List.mem_append_left _ hm)
      exact ⟨(hcontents.push hpush).1, h.push hcontents (hms i.message (by simp)) hpush⟩
  exact hall.2

/-! ### A cleared bank, a slot that is not dropped -/

/-- A cleared bank is empty from then on. -/
theorem bankOf_of_cleared (hinit : s.Initial) (hrun : run (push cfg) s is = .ok (s', tr))
    (hopen : s'.floor < slot) (hcleared : Cleared slot bankId tr) : s'.bankOf slot bankId = .new := by
  obtain ⟨b, rfl⟩ : ∃ b, bankId = some b := by
    obtain ⟨x, -, -, hbank, hne, -⟩ := hcleared
    rw [hbank] at hne
    exact Option.ne_none_iff_exists'.mp hne
  have hall : s'.Contents ∧
      (Cleared slot (some b) tr → Keeps (SlotInfo.IsCleared b True) slot s') := by
    refine run_induction (P := fun _ s' tr => s'.Contents ∧
      (Cleared slot (some b) tr → Keeps (SlotInfo.IsCleared b True) slot s')) ?_ ?_ hrun
    · refine ⟨hinit.contents, ?_⟩
      rintro ⟨x, hx, -⟩
      cases hx
    · rintro is s tr i s' out _ ⟨hcontents, ih⟩ hpush
      refine ⟨(hcontents.push hpush).1, fun hcleared => ?_⟩
      by_cases hbefore : Cleared slot (some b) tr
      · refine push_keeps (SlotInfo.preserves_isCleared b True) ?_ (ih hbefore) hpush
        intro s₁ messages hdedup hslot hfloor hcl m hm hb
        have ha := (hcontents.dedupMessage hdedup).2 m hm
        rw [ha.isEntryUpdateParent]
        exact follows_of_keeps (ih hbefore) hslot hfloor hcl (ha.bankId ▸ hb)
      · obtain ⟨x, hx, hslot, hbank, -, heup⟩ := hcleared
        rw [received_append, List.mem_append] at hx
        rcases hx with hx | hx
        · exact absurd ⟨x, hx, hslot, hbank, by rw [hbank]; simp, heup⟩ hbefore
        · obtain ⟨-, s₁, messages, hdedup, hmem⟩ := received_push hpush x hx
          have ha := (hcontents.dedupMessage hdedup).2 x.message hmem
          obtain ⟨msg, hmsg⟩ : ∃ msg, i.message = .entryUpdateParent msg := by
            rw [ha.isEntryUpdateParent] at heup
            cases hi : i.message with
            | entryUpdateParent msg => exact ⟨msg, rfl⟩
            | _ =>
              rw [hi] at heup
              cases heup
          have hkeeps := keeps_of_clear hcontents hmsg (hmsg ▸ ha.bankId.symm.trans hbank)
            (List.ne_nil_of_mem hx) hpush
          have hslot' : msg.slot = slot := by
            have hi : i.message.slotOf = slot := ha.slot.symm.trans hslot
            rwa [hmsg] at hi
          rw [hslot'] at hkeeps
          rcases hkeeps with hle | ⟨info, hinfo, hQ⟩
          · exact Or.inl hle
          · exact Or.inr ⟨info, hinfo, hQ.marked, hQ.gone, fun _ => trivial⟩
  obtain ⟨info, hinfo, hQ⟩ := (hall.2 hcleared).resolve_left (Nat.not_le_of_lt hopen)
  rw [bankOf_eq hinfo, SlotInfo.bank, hQ.gone]
  rfl

/-- A run over one slot drops no slot. -/
theorem run_slotDropped (hmax : 0 < cfg.maxUnfinalizedSlots) (hinit : s.Initial)
    (his : ∀ i ∈ is, i.slot = slot) (hrun : run (push cfg) s is = .ok (s', tr)) :
    s'.slotDropped = s.slotDropped := by
  have hall : (∀ t ∈ s'.slots.keys, t = slot) ∧ s'.slotDropped = s.slotDropped := by
    refine run_induction (P := fun is s' _ => (∀ i ∈ is, i.slot = slot) →
      (∀ t ∈ s'.slots.keys, t = slot) ∧ s'.slotDropped = s.slotDropped) ?_ ?_ hrun his
    · rw [hinit.slots]
      exact fun _ => ⟨fun t ht => absurd ht List.not_mem_nil, rfl⟩
    · intro is s₁ tr i s' out _ ih hpush his
      have hslot : i.slot = slot := his i (by simp)
      obtain ⟨hkeys, hdropped⟩ := ih fun j hj => his j (List.mem_append_left _ hj)
      refine push_rule (P := fun s' _ => (∀ t ∈ s'.slots.keys, t = slot) ∧
          s'.slotDropped = s.slotDropped)
        (L := fun st _ _ => (∀ t ∈ st.sender.slots.keys, t = slot) ∧
          st.sender.slotDropped = s.slotDropped ∧ st.sender.slotFinalized ≤ i.slot)
        ⟨hkeys, hdropped⟩ ?_ ?_ ?_ hpush
      · intro s₂ messages hfloor _ hdedup
        obtain ⟨hslots, hfin, hdrop, -⟩ := dedupMessage_frame hdedup
        rw [hslots, hdrop]
        exact ⟨fun _ => ⟨hkeys, hdropped⟩,
          fun _ => ⟨hkeys, hdropped, hfin ▸ (le_max_left _ _).trans hfloor.le⟩⟩
      · rintro st eff m ms st' eff' ⟨hkeys, hdrop, hle⟩ hm
        obtain ⟨-, hle', hdrop'⟩ := floor_le_pushMessage hle hm
        refine ⟨fun t ht => ?_, hdrop'.trans hdrop, hle'⟩
        rcases keys_pushMessage (s := st.sender) (fun j hj => Or.inr hj) hm t ht with rfl | ht
        · exact hslot
        · exact hkeys t ht
      · rintro st eff ⟨hkeys, hdrop, -⟩
        have hfin := finishStep cfg i.slot st
        have hcleaned : ∀ t ∈ st.cleaned.slots.keys, t = slot := by
          intro t ht
          rw [SortedMap.mem_keys, get?_cleaned_slots] at ht
          split at ht
          · cases ht
          · exact hkeys t (SortedMap.mem_keys.mpr ht)
        have hnil : st.cleaned.slots.excess cfg.maxUnfinalizedSlots = [] :=
          SortedMap.excess_of_le ((SortedMap.size_le_one hcleaned).trans hmax)
        refine ⟨fun t ht => ?_, ?_⟩
        · rw [hfin.slots, SortedMap.mem_keys, SortedMap.get?_popExcess] at ht
          split at ht
          · cases ht
          · exact hcleaned t (SortedMap.mem_keys.mpr ht)
        · rw [hfin.slotDropped, hnil]
          exact hdrop
  exact hall.2

end Sender

end Richat
