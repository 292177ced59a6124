import Richat.Channel.Candidate
import Richat.Channel.SlotContents

/-!
# A cleared bank

`EntryUpdateParent` replaces the bank `b` of a slot. `SlotInfo.IsCleared` is what it leaves in the
slot info, and what every later message of the slot keeps: `b` is marked, nothing of it is stored,
and it is not confirmed anew. From it, no push puts a message of `b` on a stream, but for further
`EntryUpdateParent` messages of `b` on the processed stream (`cleared_never_leaks`).
-/

namespace Richat

open Lib

namespace SlotInfo

/-- The bank is marked as cleared and has no candidate; it is the confirmed bank only if it
`wasConfirmed`. -/
structure IsCleared (b : BankId) (wasConfirmed : Prop) (info : SlotInfo) : Prop where
  marked : b ∈ info.clearedBanks
  gone : info.banks.get? (some b) = none
  confirmed : info.confirmedBank = some (some b) → wasConfirmed

variable {b : BankId} {wasConfirmed : Prop} {info : SlotInfo}

/-- A status without a bank selects the cleared bank only if it was confirmed before. -/
theorem IsCleared.selectBank (h : info.IsCleared b wasConfirmed) {bankId : Option BankId}
    (hbank : bankId ≠ some b) (hselect : info.selectBank bankId = some b) : wasConfirmed := by
  unfold SlotInfo.selectBank at hselect
  cases bankId with
  | some b' => exact absurd hselect hbank
  | none =>
    cases hconf : info.confirmedBank.join with
    | some b' =>
      rw [hconf] at hselect
      cases hselect
      exact h.confirmed (Option.join_eq_some_iff.mp hconf)
    | none =>
      rw [hconf] at hselect
      have hlast : info.banks.lastKey? = some (some b) := Option.join_eq_some_iff.mp hselect
      have hmem := (SortedMap.lastKey?_eq_some hlast).1
      exact absurd h.gone (fun hnone => SortedMap.get?_eq_none.mp hnone hmem)

theorem IsCleared.getMessages (h : info.IsCleared b wasConfirmed) :
    info.getMessages (some b) = [] := by
  unfold SlotInfo.getMessages
  rw [h.gone]

theorem clear_isCleared (info : SlotInfo) (b : BankId) :
    (info.clear b).IsCleared b (info.confirmedBank = some (some b)) where
  marked := Finset.mem_insert_self _ _
  gone := by simp [clear, SortedMap.get?_erase]
  confirmed := id

/-- Messages that may still follow the clear of `b`. -/
def Follows (b : BankId) (m : Message) : Prop :=
  m.bankId = some b → m.isEntryUpdateParent

theorem preserves_isCleared (b : BankId) (wasConfirmed : Prop) :
    Sender.Preserves (Follows b) (IsCleared b wasConfirmed) where
  commit := by
    intro info msg hM h
    obtain ⟨hbanks, hcleared⟩ := commit_banks info msg.status (Message.slot msg).bankId
    refine ⟨hcleared ▸ h.marked, hbanks ▸ h.gone, ?_⟩
    have hne : (Message.slot msg).bankId ≠ some b := fun e => by simpa using hM e
    unfold commit
    split
    · split
      · intro hselect
        exact h.selectBank hne (Option.some.inj hselect)
      · exact h.confirmed
    · exact h.confirmed
    · exact h.confirmed
  message := by
    intro info info' message arc block _ hM h hget
    refine ⟨?_, ?_, fun hc => h.confirmed ((getBlockMessage_confirmedBank hget).1 ▸ hc)⟩
    all_goals
      rcases getBlockMessage_cases hget with ⟨_, _, rfl⟩ | ⟨heup, bank, _, rfl⟩
    · cases message.bankId with
      | none => exact h.marked
      | some b' => exact Finset.mem_insert_of_mem h.marked
    · exact h.marked
    · cases message.bankId with
      | none => exact h.gone
      | some b' =>
        simp only [Option.map_some, Option.getD_some, clear, SortedMap.get?_erase, h.gone, ite_self]
    · rw [SortedMap.get?_insert_of_ne, h.gone]
      intro heq
      have hfollows := hM heq.symm
      rw [heup] at hfollows
      cases hfollows

end SlotInfo

namespace Sender

variable {cfg : Config} {s s' s₁ s₂ s₃ : Sender} {st st' : PushState} {input : PushInput}
  {out eff : List Effect} {slot : Slot} {b : BankId} {wasConfirmed : Prop}

/-- No message of the bank is on a stream, but for `EntryUpdateParent` on the processed stream. -/
def NoLeak (slot : Slot) (b : BankId) (effects : List Effect) : Prop :=
  ∀ c, ∀ m ∈ stream c effects, m.slot = slot → m.bankId = some b →
    c = .processed ∧ m.message.isEntryUpdateParent

theorem NoLeak.append {l l' : List Effect} (h : NoLeak slot b l) (h' : NoLeak slot b l') :
    NoLeak slot b (l ++ l') := by
  intro c m hm
  rw [stream_append, List.mem_append] at hm
  exact hm.elim (h c m) (h' c m)

/-- A message that passes the door of the sender may follow the clear. -/
theorem follows_of_keeps (hk : Keeps (SlotInfo.IsCleared b wasConfirmed) slot s)
    (hslot : input.slot = slot) (hfloor : s.floor < input.slot)
    (hcleared : s.isCleared input.message = false) : SlotInfo.Follows b input.message := by
  intro hbank
  obtain ⟨info, hinfo, hQ⟩ := hk.resolve_left (Nat.not_le_of_lt (hslot ▸ hfloor))
  have hslot' : input.message.slotOf = slot := hslot
  unfold isCleared at hcleared
  rw [hbank] at hcleared
  dsimp only at hcleared
  rw [hslot', hinfo] at hcleared
  simpa [hQ.marked] using hcleared

/-- One message of a push after the clear that is no status. -/
theorem noLeak_message {sourceName : SourceName} {message : Message} {info : SlotInfo}
    (hcontents : st.sender.Contents) (hinfo : st.sender.slots.get? slot = some info)
    (hQ : info.IsCleared b wasConfirmed) (hslot : message.slotOf = slot)
    (hm : message.isSlot = false) (hfollows : SlotInfo.Follows b message)
    (h : st.pushMessage cfg slot sourceName message = .ok (st', eff)) :
    NoLeak slot b eff ∧
      ∃ info', st'.sender.slots.get? slot = some info' ∧ info'.IsCleared b wasConfirmed := by
  obtain ⟨info', block, kept, hstep⟩ := PushState.pushMessage_message hm h
  have hst : st.slotInfo slot = info := by simp [PushState.slotInfo, hinfo]
  have hblock := ((hcontents.slotInfo slot).getBlockMessage
    (show ParsedMessage.slot ⟨_, message⟩ = slot from hslot) hstep.receive).2
  have hreceive := hstep.receive
  rw [hst] at hreceive
  refine ⟨?_, info', by rw [hstep.slots, SortedMap.get?_insert_self],
    (SlotInfo.preserves_isCleared b wasConfirmed).message _ _ _ _ _ hm hfollows hQ hreceive⟩
  -- what is kept of the bank is an `EntryUpdateParent`, and these complete no block
  have hkept : ∀ m ∈ kept, m.bankId = some b → m.message.isEntryUpdateParent := by
    intro m hmem hbank
    rcases List.mem_cons.mp (hstep.kept_sublist.subset hmem) with rfl | hmem
    · exact hfollows hbank
    · have hb := (hblock m (by simpa using hmem)).2
      have heup := hfollows (hb.symm.trans hbank)
      rcases SlotInfo.getBlockMessage_cases hstep.receive with ⟨_, rfl, _⟩ | ⟨hne, _⟩
      · simp at hmem
      · rw [heup] at hne
        cases hne
  intro c m hmem _ hbank
  cases c with
  | processed => exact ⟨rfl, hkept m (hstep.processed ▸ hmem) hbank⟩
  | confirmed =>
    rw [hstep.confirmed, List.mem_filter] at hmem
    obtain ⟨hmem, hfilter⟩ := hmem
    rw [hkept m hmem hbank] at hfilter
    simp at hfilter
  | finalized =>
    rw [hstep.finalized] at hmem
    cases hmem

/-- A status after the clear. -/
theorem noLeak_status {msg : MessageSlot} (hcontents : s.Contents)
    (hk : Keeps (SlotInfo.IsCleared b wasConfirmed) slot s) (hmsg : input.message = .slot msg)
    (hslot : input.slot = slot) (h : s.push cfg input = .ok (s', out)) : NoLeak slot b out := by
  rcases push_status hmsg h with hnone | ⟨replay, info, selected, hcommit, hproc, hconf, hfin⟩
  · intro c m hm
    rw [hnone c] at hm
    cases hm
  · have hmslot : msg.slot = slot := by simpa [hmsg] using hslot
    -- the push was not stopped at the door
    obtain ⟨hfloor, hcleared⟩ : s.floor < input.slot ∧ s.isCleared input.message = false := by
      rcases push_cases h with ⟨_, _, rfl⟩ | ⟨hfloor, hcleared, _⟩
      · cases hproc
      · exact ⟨hfloor, hcleared⟩
    have hne : (Message.slot msg).bankId ≠ some b := by
      intro hbank
      have hfollows := follows_of_keeps hk hslot hfloor hcleared
      rw [hmsg] at hfollows
      exact absurd (hfollows hbank) (by simp)
    obtain ⟨info₀, hinfo₀, hQ⟩ := hk.resolve_left (Nat.not_le_of_lt (hslot ▸ hfloor))
    have hst : PushState.slotInfo ⟨s, replay, false⟩ msg.slot = info₀ := by
      simp [PushState.slotInfo, hmslot, hinfo₀]
    rw [hst] at hcommit
    have hbanks : info.banks = info₀.banks := by
      rw [← (SlotInfo.commit_banks info₀ msg.status (Message.slot msg).bankId).1, hcommit]
    have hbelongs : info.Belongs slot := by
      unfold SlotInfo.Belongs
      rw [hbanks]
      exact hcontents.slots slot info₀ hinfo₀
    have hselected : ∀ m ∈ (selected.map info.getMessages).getD [], m.bankId ≠ some b := by
      cases selected with
      | none => simp
      | some bankId =>
        intro m hm hbank
        have heq : bankId = some b := (hbelongs.getMessages m hm).2.1.symm.trans hbank
        have hnil : info.getMessages (some b) = [] := by
          unfold SlotInfo.getMessages
          rw [hbanks, hQ.gone]
        simp [heq, hnil] at hm
    have hlist : ∀ (p q : Prop) [Decidable p] [Decidable q] (m : ParsedMessage),
        m ∈ (if p then ⟨s.nextArc, .slot msg⟩ ::
          (if q then (selected.map info.getMessages).getD [] else []) else []) →
        m.bankId ≠ some b := by
      intro p q _ _ m hm
      split at hm
      · rcases List.mem_cons.mp hm with rfl | hm
        · exact hne
        · split at hm
          · exact hselected m hm
          · cases hm
      · cases hm
    intro c m hm _ hbank
    cases c with
    | processed =>
      rw [hproc, List.mem_singleton] at hm
      rw [hm] at hbank
      exact absurd hbank hne
    | confirmed => exact absurd hbank (hlist _ _ m (hconf ▸ hm))
    | finalized => exact absurd hbank (hlist _ _ m (hfin ▸ hm))

/-- **A push after the clear.** -/
theorem noLeak_push (hcontents : s.Contents)
    (hk : Keeps (SlotInfo.IsCleared b wasConfirmed) slot s)
    (h : s.push cfg input = .ok (s', out)) : NoLeak slot b out := by
  by_cases hslot : input.slot = slot
  · cases hm : input.message.isSlot with
    | true =>
      cases hmsg : input.message with
      | slot msg => exact noLeak_status hcontents hk hmsg hslot h
      | _ => simp [hmsg] at hm
    | false =>
      refine push_rule (P := fun _ out => NoLeak slot b out)
        (L := fun st eff ms => st.sender.Contents ∧
          (∃ info, st.sender.slots.get? slot = some info ∧ info.IsCleared b wasConfirmed) ∧
          (∀ m ∈ ms, m.slotOf = slot ∧ m.isSlot = false ∧ SlotInfo.Follows b m) ∧
          NoLeak slot b eff) (fun c m hm => (nomatch hm)) ?_ ?_ ?_ h
      · intro s₁ messages hfloor hcleared hdedup
        refine ⟨fun _ c m hm => (nomatch hm), fun _ => ?_⟩
        obtain ⟨hcontents₁, halike⟩ := hcontents.dedupMessage hdedup
        refine ⟨hcontents₁, ?_, ?_, fun c m hm => (nomatch hm)⟩
        · rw [(dedupMessage_frame hdedup).1]
          exact hk.resolve_left (Nat.not_le_of_lt (hslot ▸ hfloor))
        · intro m hmem
          have ha := halike m hmem
          refine ⟨ha.slot.trans hslot, ha.isSlot.trans hm, fun hbank => ?_⟩
          rw [ha.isEntryUpdateParent]
          exact follows_of_keeps hk hslot hfloor hcleared (ha.bankId ▸ hbank)
      · rintro st eff m ms st' eff' ⟨hst, ⟨info, hinfo, hQ⟩, hms, hleak⟩ hpush
        obtain ⟨hmslot, hmstatus, hfollows⟩ := hms m (List.mem_cons_self ..)
        rw [hslot] at hpush
        obtain ⟨hleak', hnext⟩ := noLeak_message hst hinfo hQ hmslot hmstatus hfollows hpush
        exact ⟨(hst.pushMessage hmslot hpush).1, hnext,
          fun m' hm' => hms m' (List.mem_cons_of_mem _ hm'), hleak.append hleak'⟩
      · rintro st eff ⟨-, -, -, hleak⟩ c m hm
        exact hleak c m (by simpa using hm)
  · intro c m hm hmslot
    exact absurd (((hcontents.push h).2 c m hm).symm.trans hmslot) hslot

/-- One `EntryUpdateParent` of a push. -/
theorem keeps_pushMessage_clear {sourceName : SourceName} {message : Message}
    (heup : message.isEntryUpdateParent) (hbank : message.bankId = some b)
    (h : st.pushMessage cfg slot sourceName message = .ok (st', eff)) :
    ∃ info, st'.sender.slots.get? slot = some info ∧
      info.IsCleared b (st.sender.confirmedBank slot = some (some b)) := by
  have hm : message.isSlot = false := by cases message <;> first | rfl | cases heup
  obtain ⟨info, block, kept, hstep⟩ := PushState.pushMessage_message hm h
  refine ⟨info, by rw [hstep.slots, SortedMap.get?_insert_self], ?_⟩
  rcases SlotInfo.getBlockMessage_cases hstep.receive with ⟨_, _, rfl⟩ | ⟨hne, _⟩
  · have hid : ParsedMessage.bankId ⟨st.sender.nextArc, message⟩ = some b := hbank
    have hconf : (st.slotInfo slot).confirmedBank = some (some b) →
        st.sender.confirmedBank slot = some (some b) := by
      unfold PushState.slotInfo Sender.confirmedBank
      cases st.sender.slots.get? slot with
      | none => exact fun hnew => nomatch hnew
      | some info => exact id
    rw [hid]
    have hcleared := SlotInfo.clear_isCleared (st.slotInfo slot) b
    exact ⟨hcleared.marked, hcleared.gone, fun hc => hconf (hcleared.confirmed hc)⟩
  · rw [heup] at hne
    cases hne

/-- The clear itself, when it is accepted. -/
theorem keeps_of_clear {msg : MessageEntryUpdateParent} (hcontents : s₁.Contents)
    (hmsg : input.message = .entryUpdateParent msg)
    (hbank : (Message.entryUpdateParent msg).bankId = some b)
    (haccepted : received out ≠ []) (h : s₁.push cfg input = .ok (s₂, out)) :
    Keeps (SlotInfo.IsCleared b (s₁.confirmedBank msg.slot = some (some b))) msg.slot s₂ := by
  have hslot : input.slot = msg.slot := by simp [hmsg]
  have heup : input.message.isEntryUpdateParent := by rw [hmsg]; rfl
  refine push_rule
    (P := fun s₂ out => received out ≠ [] →
      Keeps (SlotInfo.IsCleared b (s₁.confirmedBank msg.slot = some (some b))) msg.slot s₂)
    (L := fun st eff ms => (∀ m ∈ ms, m.Alike input.message) ∧
      st.sender.slotFinalized ≤ input.slot ∧
      ((received eff = [] ∧ st.sender.slots = s₁.slots) ∨
        Keeps (SlotInfo.IsCleared b (s₁.confirmedBank msg.slot = some (some b))) msg.slot
          st.sender)) (fun hne => absurd rfl hne) ?_ ?_ ?_ h haccepted
  · intro s₁' messages hfloor _ hdedup
    obtain ⟨hslots, hfin, -⟩ := dedupMessage_frame hdedup
    exact ⟨fun _ hne => absurd rfl hne, fun _ => ⟨(hcontents.dedupMessage hdedup).2,
      hfin ▸ (le_max_left _ _).trans hfloor.le, Or.inl ⟨rfl, hslots⟩⟩⟩
  · rintro st eff m ms st' eff' ⟨hms, hfin, hk⟩ hpush
    have ha := hms m (List.mem_cons_self ..)
    have hm : m.isEntryUpdateParent := ha.isEntryUpdateParent.trans heup
    have hbank' : m.bankId = some b := by rw [ha.bankId, hmsg, hbank]
    refine ⟨fun m' hm' => hms m' (List.mem_cons_of_mem _ hm'),
      (floor_le_pushMessage hfin hpush).2.1, Or.inr ?_⟩
    rcases hk with ⟨_, hslots⟩ | hk
    · rw [hslot] at hpush
      obtain ⟨info, hinfo, hQ⟩ := keeps_pushMessage_clear hm hbank' hpush
      rw [Sender.confirmedBank, hslots, ← Sender.confirmedBank] at hQ
      exact Or.inr ⟨info, hinfo, hQ⟩
    · exact hk.pushMessage (SlotInfo.preserves_isCleared b _) (fun _ _ => hm) hfin hpush
  · rintro st eff ⟨-, -, hk⟩ hne
    rcases hk with ⟨hnil, -⟩ | hk
    · exact absurd (by simpa using hnil) hne
    · exact hk.finish

/-- **A cleared bank does not leak.** After an `EntryUpdateParent` that clears the bank `b` of a slot
was accepted, no later push puts a message of `b` on a stream, but for further `EntryUpdateParent`
on the processed stream; nothing of `b` is stored, and a status without a bank selects `b` only if
`b` was the confirmed bank when it was cleared. -/
theorem cleared_never_leaks (hinit : s.Initial) {is js : List PushInput} {tr₁ tr₃ : List Effect}
    {msg : MessageEntryUpdateParent} (hrun : run (push cfg) s is = .ok (s₁, tr₁))
    (hmsg : input.message = .entryUpdateParent msg)
    (hbank : (Message.entryUpdateParent msg).bankId = some b)
    (hclear : s₁.push cfg input = .ok (s₂, out)) (haccepted : received out ≠ [])
    (hlater : run (push cfg) s₂ js = .ok (s₃, tr₃)) :
    NoLeak msg.slot b tr₃ ∧
      ∀ info, s₃.slots.get? msg.slot = some info → info.getMessages (some b) = [] ∧
        (info.selectBank none = some b → s₁.confirmedBank msg.slot = some (some b)) := by
  have hcontents₁ := run_contents hinit.contents hrun
  have habove := run_aboveFloor ((run_aboveFloor hinit.aboveFloor hrun).push hclear) hlater
  have hk₂ := keeps_of_clear hcontents₁ hmsg hbank haccepted hclear
  have hall : s₃.Contents ∧
      Keeps (SlotInfo.IsCleared b (s₁.confirmedBank msg.slot = some (some b))) msg.slot s₃ ∧
      NoLeak msg.slot b tr₃ := by
    refine run_induction (P := fun _ s₃ tr₃ => s₃.Contents ∧
      Keeps (SlotInfo.IsCleared b (s₁.confirmedBank msg.slot = some (some b))) msg.slot s₃ ∧
      NoLeak msg.slot b tr₃)
      ⟨(hcontents₁.push hclear).1, hk₂, fun c m hm => (nomatch hm)⟩ ?_ hlater
    rintro _ s tr i s' out _ ⟨hcontents, hk, hleak⟩ hpush
    refine ⟨(hcontents.push hpush).1, push_keeps (SlotInfo.preserves_isCleared b _) ?_ hk hpush,
      hleak.append (noLeak_push hcontents hk hpush)⟩
    intro s₁ messages hdedup hslot hfloor hcl m hm hb
    have ha := (hcontents.dedupMessage hdedup).2 m hm
    rw [ha.isEntryUpdateParent]
    exact follows_of_keeps hk hslot hfloor hcl (ha.bankId ▸ hb)
  obtain ⟨-, hk₃, hleak⟩ := hall
  refine ⟨hleak, fun info hinfo => ?_⟩
  obtain ⟨info', hinfo', hQ⟩ := hk₃.resolve_left (Nat.not_le_of_lt (habove _ _ hinfo))
  rw [hinfo] at hinfo'
  cases hinfo'
  exact ⟨hQ.getMessages, hQ.selectBank (by simp)⟩

/-- The clear of bank `7` of slot `5`. -/
def clearOf7 : Message := .entryUpdateParent ⟨5, 7, []⟩

/-- An update of bank `7` and a status without a bank after the clear. -/
theorem cleared_never_leaks_account : ∃ s₂ out s₃ tr, push .memory .new ⟨true, "a", clearOf7⟩ =
      .ok (s₂, out) ∧
    run (push .memory) s₂ [⟨true, "a", accountOf (some 7)⟩,
      ⟨false, "b", statusOf .slotConfirmed⟩] = .ok (s₃, tr) ∧ NoLeak 5 7 tr := by
  obtain ⟨s₂, out, hclear, hout⟩ := exists_of_returns (x := push .memory .new ⟨true, "a", clearOf7⟩)
    (p := fun s₂ out => received out ≠ [] && returns (fun _ _ => true)
      (run (push .memory) s₂ [⟨true, "a", accountOf (some 7)⟩,
        ⟨false, "b", statusOf .slotConfirmed⟩])) (by decide +kernel)
  obtain ⟨haccepted, hlater⟩ := Bool.and_eq_true_iff.mp hout
  obtain ⟨s₃, tr, hlater, -⟩ := exists_of_returns hlater
  have hnew : run (push .memory) .new [] = .ok (.new, []) := rfl
  have hmsg : PushInput.message ⟨true, "a", clearOf7⟩ = .entryUpdateParent ⟨5, 7, []⟩ := rfl
  exact ⟨s₂, out, s₃, tr, hclear, hlater, (cleared_never_leaks initial_new hnew hmsg rfl hclear
    (of_decide_eq_true haccepted) hlater).1⟩

/-- Bank `7` is confirmed and then cleared. Without deduplication a second `EntryUpdateParent` of the
bank is published, and a finalized status without a bank selects the bank. -/
theorem cleared_bank_selected : ∃ s₁ tr₁ s₂ out s₃ tr₃, run (push .memory) .new
      [⟨false, "a", accountOf (some 7)⟩, ⟨false, "a", statusOf .slotConfirmed⟩] = .ok (s₁, tr₁) ∧
    push .memory s₁ ⟨false, "a", clearOf7⟩ = .ok (s₂, out) ∧ received out ≠ [] ∧
    run (push .memory) s₂ [⟨false, "a", clearOf7⟩] = .ok (s₃, tr₃) ∧
    (stream .processed tr₃).map (fun m => (m.slot, m.bankId)) = [(5, some 7)] ∧
    s₃.selectsFinalized 5 = some (some 7) := by
  refine ⟨_, _, _, _, _, _, rfl, rfl, ?_, rfl, ?_, ?_⟩ <;> decide

end Sender

end Richat
