import Richat.Channel.BankRun
import Richat.Channel.SlotContents

/-!
# What the finalized stream gets of a bank

`Gathers` relates a sender to the effects of its run so far: the bank of an open slot is the run of
`BankInfo.step` over the messages of the bank past deduplication, whatever is on the streams of the
bank is among them or a `Block` they completed, and nothing of an open slot is drained yet. The
finalized status drains the bank, so what is not late, superseded or cleared is on the finalized
stream once (`finalized_complete`).
-/

namespace Richat

open Lib

/-- The messages of a bank past deduplication, without statuses and `EntryUpdateParent`. -/
def messagesOf (slot : Slot) (bankId : Option BankId) (effects : List Effect) :
    List ParsedMessage :=
  (received effects).filter fun m => m.slot = slot ∧ m.bankId = bankId ∧
    m.message.isSlot = false ∧ m.message.isEntryUpdateParent = false

/-- An `EntryUpdateParent` of the bank is past deduplication. -/
def Cleared (slot : Slot) (bankId : Option BankId) (effects : List Effect) : Prop :=
  ∃ m ∈ received effects, m.slot = slot ∧ m.bankId = bankId ∧ m.bankId ≠ none ∧
    m.message.isEntryUpdateParent

theorem messagesOf_append (slot : Slot) (bankId : Option BankId) (l l' : List Effect) :
    messagesOf slot bankId (l ++ l') = messagesOf slot bankId l ++ messagesOf slot bankId l' := by
  simp [messagesOf]

theorem messagesOf_eq_nil {slot : Slot} {bankId : Option BankId} {l : List Effect}
    (h : ∀ m ∈ received l, m.slot = slot → m.bankId = bankId →
      m.message.isSlot ∨ m.message.isEntryUpdateParent) : messagesOf slot bankId l = [] := by
  refine List.filter_eq_nil_iff.mpr fun m hm hp => ?_
  simp only [decide_eq_true_eq] at hp
  rcases h m hm hp.1 hp.2.1 with hs | he
  · rw [hp.2.2.1] at hs
    cases hs
  · rw [hp.2.2.2] at he
    cases he

theorem messagesOf_eq_received {slot : Slot} {bankId : Option BankId} {l : List Effect}
    (h : ∀ m ∈ received l, m.slot = slot ∧ m.bankId = bankId ∧ m.message.isSlot = false ∧
      m.message.isEntryUpdateParent = false) : messagesOf slot bankId l = received l :=
  List.filter_eq_self.mpr fun m hm => decide_eq_true (h m hm)

theorem Cleared.append {slot : Slot} {bankId : Option BankId} {l : List Effect}
    (h : Cleared slot bankId l) (l' : List Effect) : Cleared slot bankId (l ++ l') := by
  obtain ⟨m, hm, h⟩ := h
  exact ⟨m, by simp [hm], h⟩

namespace Sender

/-- The bank of a slot, an empty one if there is none. -/
def bankOf (s : Sender) (slot : Slot) (bankId : Option BankId) : BankInfo :=
  ((s.slots.get? slot).map (·.bank bankId)).getD .new

/-- The candidate that a finalized status of an open slot selects. -/
def selects (s : Sender) (msg : MessageSlot) : Option (Option BankId) :=
  (s.slots.get? msg.slot).map (·.selectBank (Message.slot msg).bankId)

/-- What is published of the bank came to it, or is a `Block` it completed. -/
structure Gathered (slot : Slot) (bankId : Option BankId) (s : Sender) (tr : List Effect)
    (blocks : List ParsedMessage) : Prop where
  bank : run BankInfo.step .new (messagesOf slot bankId tr) = .ok (s.bankOf slot bankId, blocks)
  streams : ∀ c, ∀ m ∈ stream c tr, m.slot = slot → m.bankId = bankId →
    m.message.isSlot = false → m.message.isEntryUpdateParent = false →
    m ∈ messagesOf slot bankId tr ∨ m ∈ blocks

/-- The bank of an open slot has what was received of it, and nothing of the slot is drained. -/
structure Gathers (slot : Slot) (bankId : Option BankId) (s : Sender) (tr : List Effect) : Prop where
  arcs : (received tr).Pairwise fun a b => a.arc + 1 < b.arc
  arc_lt : ∀ m ∈ received tr, m.arc + 1 < s.nextArc
  gathered : s.floor < slot → ¬ Cleared slot bankId tr → ∃ blocks, Gathered slot bankId s tr blocks
  finalized : s.floor < slot → ∀ m ∈ stream .finalized tr, m.slot = slot → m.message.isSlot

theorem Initial.gathers {s : Sender} (h : s.Initial) (slot : Slot) (bankId : Option BankId) :
    Gathers slot bankId s [] where
  arcs := by simp
  arc_lt := by simp
  gathered := by
    refine fun _ _ => ⟨[], ?_, by simp⟩
    rw [bankOf, h.slots]
    rfl
  finalized := by simp

variable {cfg : Config} {s s' s₁ s₂ : Sender} {st st' : PushState} {input : PushInput}
  {out eff tr : List Effect} {slot t : Slot} {bankId : Option BankId} {messages : List Message}

/-- The bank in the loop, where a slot may be new. -/
theorem bankOf_slotInfo (st : PushState) (slot : Slot) (bankId : Option BankId) :
    st.sender.bankOf slot bankId = (st.slotInfo slot).bank bankId := by
  unfold bankOf PushState.slotInfo
  cases st.sender.slots.get? slot <;> rfl

theorem bankOf_eq {info : SlotInfo} (h : s.slots.get? slot = some info) :
    s.bankOf slot bankId = info.bank bankId := by
  simp [bankOf, h]

/-! ### One message of a push -/

theorem received_pushMessage {sourceName : SourceName} {m : Message}
    (h : st.pushMessage cfg slot sourceName m = .ok (st', eff)) :
    received eff = [⟨st.sender.nextArc, m⟩] ∧ st'.sender.nextArc = st.sender.nextArc + 2 := by
  cases hm : m.isSlot with
  | false =>
    obtain ⟨info, block, kept, hstep⟩ := PushState.pushMessage_message hm h
    exact ⟨hstep.received, hstep.nextArc⟩
  | true =>
    cases m with
    | slot msg =>
      obtain ⟨info, selected, kept, hstep⟩ := PushState.pushMessage_status h
      exact ⟨hstep.received, hstep.nextArc⟩
    | _ => cases hm

/-- A slot that is not pushed keeps its banks. -/
theorem bankOf_pushMessage_of_ne {sourceName : SourceName} {m : Message} (ht : t ≠ slot)
    (h : st.pushMessage cfg slot sourceName m = .ok (st', eff)) :
    st'.sender.bankOf t bankId = st.sender.bankOf t bankId := by
  unfold bankOf
  cases hm : m.isSlot with
  | false =>
    obtain ⟨info, block, kept, hstep⟩ := PushState.pushMessage_message hm h
    rw [hstep.slots, SortedMap.get?_insert_of_ne _ _ ht]
  | true =>
    cases m with
    | slot msg =>
      obtain ⟨info, selected, kept, hstep⟩ := PushState.pushMessage_status h
      rw [hstep.slots]
      split
      · rw [SortedMap.get?_erase, if_neg ht, SortedMap.get?_insert_of_ne _ _ ht]
      · rw [SortedMap.get?_insert_of_ne _ _ ht]
    | _ => cases hm

/-- The bank runs on over the new messages. -/
theorem Gathered.extend {blocks new newBlocks : List ParsedMessage}
    (h : Gathered slot bankId s tr blocks) (hmessages : messagesOf slot bankId eff = new)
    (hrun : run BankInfo.step (s.bankOf slot bankId) new = .ok (s'.bankOf slot bankId, newBlocks))
    (hstreams : ∀ c, ∀ m ∈ stream c eff, m.slot = slot → m.bankId = bankId →
      m.message.isSlot = false → m.message.isEntryUpdateParent = false →
      m ∈ messagesOf slot bankId tr ∨ m ∈ new ∨ m ∈ blocks ++ newBlocks) :
    Gathered slot bankId s' (tr ++ eff) (blocks ++ newBlocks) where
  bank := by
    rw [messagesOf_append, hmessages]
    exact run_append.mpr ⟨_, _, _, h.bank, hrun, rfl⟩
  streams := by
    intro c m hm hslot hbank hs he
    rw [messagesOf_append, hmessages, List.mem_append]
    rw [stream_append, List.mem_append] at hm
    rcases hm with hm | hm
    · exact (h.streams c m hm hslot hbank hs he).imp Or.inl (List.mem_append_left _)
    · rcases hstreams c m hm hslot hbank hs he with hm | hm | hm
      · exact Or.inl (Or.inl hm)
      · exact Or.inl (Or.inr hm)
      · exact Or.inr hm

/-- Nothing of the bank came, and it stays. -/
theorem Gathered.idle {blocks : List ParsedMessage} (h : Gathered slot bankId s tr blocks)
    (hbank : s'.bankOf slot bankId = s.bankOf slot bankId)
    (hreceived : ∀ m ∈ received eff, m.slot = slot → m.bankId = bankId →
      m.message.isSlot ∨ m.message.isEntryUpdateParent)
    (hstreams : ∀ c, ∀ m ∈ stream c eff, m.slot = slot → m.bankId = bankId →
      m.message.isSlot = false → m.message.isEntryUpdateParent = false →
      m ∈ messagesOf slot bankId tr ∨ m ∈ blocks) :
    Gathered slot bankId s' (tr ++ eff) blocks := by
  have hext := h.extend (messagesOf_eq_nil hreceived) (by rw [hbank, run_nil])
    fun c m hm hslot hb hs he => (hstreams c m hm hslot hb hs he).imp id fun hm =>
      Or.inr (List.mem_append_left [] hm)
  rwa [List.append_nil] at hext

/-- A message that is no status: its bank makes a step. -/
theorem Gathered.pushMessage {sourceName : SourceName} {m : Message} {blocks : List ParsedMessage}
    (h : Gathered slot bankId st.sender tr blocks) (hcontents : st.sender.Contents)
    (hslot : m.slotOf = slot) (hm : m.isSlot = false) (hcleared : ¬ Cleared slot bankId (tr ++ eff))
    (hpush : st.pushMessage cfg slot sourceName m = .ok (st', eff)) :
    ∃ blocks, Gathered slot bankId st'.sender (tr ++ eff) blocks := by
  obtain ⟨info, block, kept, hstep⟩ := PushState.pushMessage_message hm hpush
  have hbank' : st'.sender.bankOf slot bankId = info.bank bankId :=
    bankOf_eq (by rw [hstep.slots, SortedMap.get?_insert_self])
  have hreceived : ∀ x ∈ received eff, x = ⟨st.sender.nextArc, m⟩ := by
    intro x hx
    rwa [hstep.received, List.mem_singleton] at hx
  rcases SlotInfo.getBlockMessage_cases hstep.receive with ⟨heup, rfl, hinfo⟩ | ⟨heup, bank, hbank, hinfo⟩
  · -- an `EntryUpdateParent` of another bank
    refine ⟨blocks, h.idle ?_ (fun x hx _ _ => Or.inr (hreceived x hx ▸ heup)) ?_⟩
    · rw [hbank', hinfo, bankOf_slotInfo]
      cases hb : ParsedMessage.bankId ⟨st.sender.nextArc, m⟩ with
      | none => rfl
      | some b =>
        have hne : bankId ≠ some b := by
          rintro rfl
          exact hcleared ⟨⟨st.sender.nextArc, m⟩, by simp [hstep.received], hslot, hb,
            by simp [hb], heup⟩
        simp [SlotInfo.bank, SlotInfo.clear, SortedMap.get?_erase, hne]
    · intro c x hx _ _ _ hxe
      rcases hstep.mem_stream hx with rfl | hx
      · rw [hxe] at heup
        cases heup
      · cases hx
  · by_cases hb : m.bankId = bankId
    · subst hb
      have hsingle : messagesOf slot m.bankId eff = [⟨st.sender.nextArc, m⟩] := by
        rw [messagesOf_eq_received, hstep.received]
        intro x hx
        rw [hreceived x hx]
        exact ⟨hslot, rfl, hm, heup⟩
      have hrun : BankInfo.step (st.sender.bankOf slot m.bankId) ⟨st.sender.nextArc, m⟩ =
          .ok (st'.sender.bankOf slot m.bankId, block.toList) := by
        have hnew : info.bank m.bankId = bank := by
          rw [hinfo]
          simp [SlotInfo.bank, ParsedMessage.bankId]
        rw [hbank', hnew, bankOf_slotInfo, BankInfo.step_eq_ok]
        exact ⟨block, hbank, rfl⟩
      refine ⟨_, h.extend hsingle (run_singleton.mpr hrun) fun c x hx _ _ _ _ => ?_⟩
      rcases hstep.mem_stream hx with rfl | hx
      · exact Or.inr (Or.inl (List.mem_singleton_self _))
      · exact Or.inr (Or.inr (List.mem_append_right _ (Option.mem_toList.mpr hx)))
    · have hblock := ((hcontents.slotInfo slot).getBlockMessage
        (show ParsedMessage.slot ⟨_, m⟩ = slot from hslot) hstep.receive).2
      refine ⟨blocks, h.idle ?_ ?_ ?_⟩
      · have hb' : bankId ≠ ParsedMessage.bankId ⟨st.sender.nextArc, m⟩ := Ne.symm hb
        rw [hbank', hinfo, bankOf_slotInfo]
        simp [SlotInfo.bank, SortedMap.get?_insert_of_ne _ _ hb']
      · intro x hx _ hxbank
        rw [hreceived x hx] at hxbank
        exact absurd hxbank hb
      · intro c x hx _ hxbank _ _
        refine absurd ?_ hb
        rcases hstep.mem_stream hx with rfl | hx
        · exact hxbank
        · exact (hblock x hx).2.symm.trans hxbank

/-- A status that does not finalize: the selected bank may be promoted. -/
theorem Gathered.pushStatus {sourceName : SourceName} {msg : MessageSlot}
    {blocks : List ParsedMessage} (h : Gathered slot bankId st.sender tr blocks)
    (hcontents : st.sender.Contents) (hfloor : st'.sender.floor < slot)
    (hpush : st.pushMessage cfg slot sourceName (.slot msg) = .ok (st', eff)) :
    Gathered slot bankId st'.sender (tr ++ eff) blocks := by
  obtain ⟨info, selected, kept, hstep⟩ := PushState.pushMessage_status hpush
  have hnot : ¬ (kept ∧ msg.status = .slotFinalized) := by
    intro hfin
    have hle : st'.sender.slotFinalized ≤ st'.sender.floor := le_max_left _ _
    rw [hstep.slotFinalized, if_pos hfin] at hle
    exact absurd hfloor (Nat.not_lt_of_le hle)
  have hbanks := (SlotInfo.commit_banks (st.slotInfo slot) msg.status (Message.slot msg).bankId).1
  rw [hstep.receive] at hbanks
  have hget : st'.sender.slots.get? slot = some info := by
    rw [hstep.slots, if_neg (fun hf => hnot ⟨hf.1, hf.2.1⟩), SortedMap.get?_insert_self]
  refine h.idle ?_ ?_ ?_
  · rw [bankOf_eq hget, bankOf_slotInfo, SlotInfo.bank, SlotInfo.bank]
    rw [show info.banks = (st.slotInfo slot).banks from hbanks]
  · intro x hx _ _
    rw [hstep.received, List.mem_singleton] at hx
    exact Or.inl (hx ▸ rfl)
  · intro c x hx _ hxbank hxs _
    rcases hstep.mem_stream hx with rfl | ⟨b, -, hx⟩
    · cases hxs
    · -- a promoted message is stored in its bank
      have hbelongs := (hcontents.slotInfo slot).commit msg.status (Message.slot msg).bankId
      rw [hstep.receive] at hbelongs
      obtain rfl : b = bankId := (hbelongs.getMessages x hx).2.1.symm.trans hxbank
      refine BankInfo.run_stored_sub h.bank x ?_
      rw [SlotInfo.getMessages_eq_stored] at hx
      rwa [bankOf_slotInfo, SlotInfo.bank, ← show info.banks = (st.slotInfo slot).banks from hbanks]

/-- One message of a push. -/
theorem Gathers.pushMessage {sourceName : SourceName} {m : Message}
    (h : Gathers t bankId st.sender tr) (hcontents : st.sender.Contents) (hslot : m.slotOf = slot)
    (hle : st.sender.slotFinalized ≤ slot)
    (hpush : st.pushMessage cfg slot sourceName m = .ok (st', eff)) :
    Gathers t bankId st'.sender (tr ++ eff) := by
  obtain ⟨hreceived, harc⟩ := received_pushMessage hpush
  have hfloor := (floor_le_pushMessage hle hpush).1
  have hslots := (hcontents.pushMessage hslot hpush).2
  have hnotCleared : ¬ Cleared t bankId (tr ++ eff) → ¬ Cleared t bankId tr :=
    fun hnot hc => hnot (hc.append eff)
  constructor
  · rw [received_append, hreceived, List.pairwise_append]
    refine ⟨h.arcs, List.pairwise_singleton _ _, fun a ha b hb => ?_⟩
    rw [List.mem_singleton.mp hb]
    exact h.arc_lt a ha
  · intro x hx
    rw [harc]
    rw [received_append, hreceived, List.mem_append, List.mem_singleton] at hx
    rcases hx with hx | rfl
    · have := h.arc_lt x hx
      omega
    · dsimp only
      omega
  · intro ht hcleared
    obtain ⟨blocks, hgathered⟩ := h.gathered (hfloor.trans_lt ht) (hnotCleared hcleared)
    by_cases heq : t = slot
    · subst heq
      cases hm : m.isSlot with
      | false => exact hgathered.pushMessage hcontents hslot hm hcleared hpush
      | true =>
        cases m with
        | slot msg => exact ⟨blocks, hgathered.pushStatus hcontents ht hpush⟩
        | _ => cases hm
    · refine ⟨blocks, hgathered.idle (bankOf_pushMessage_of_ne heq hpush) ?_ ?_⟩
      · intro x hx hxslot _
        rw [hreceived, List.mem_singleton] at hx
        subst hx
        exact absurd (hxslot.symm.trans hslot) heq
      · intro c x hx hxslot _ _ _
        exact absurd (hxslot.symm.trans (hslots c x hx)) heq
  · intro ht x hx hxslot
    rw [stream_append, List.mem_append] at hx
    rcases hx with hx | hx
    · exact h.finalized (hfloor.trans_lt ht) x hx hxslot
    · have heq : t = slot := hxslot.symm.trans (hslots .finalized x hx)
      subst heq
      cases hm : m.isSlot with
      | false =>
        obtain ⟨info, block, kept, hstep⟩ := PushState.pushMessage_message hm hpush
        rw [hstep.finalized] at hx
        cases hx
      | true =>
        cases m with
        | slot msg =>
          obtain ⟨info, selected, kept, hstep⟩ := PushState.pushMessage_status hpush
          rw [hstep.finalized] at hx
          split at hx
          · rename_i hkept
            rcases List.mem_cons.mp hx with rfl | hx
            · rfl
            · split at hx
              · rename_i hfin
                -- a drained slot is at the floor
                have hmax : st'.sender.slotFinalized ≤ st'.sender.floor := le_max_left _ _
                rw [hstep.slotFinalized, if_pos ⟨hkept.1, hfin⟩] at hmax
                exact absurd ht (Nat.not_lt_of_le hmax)
              · cases hx
          · cases hx
        | _ => cases hm

/-- The end of a push. -/
theorem Gathers.finish (h : Gathers t bankId st.sender tr) :
    Gathers t bankId (st.finish cfg slot).1 (tr ++ (st.finish cfg slot).2) := by
  have hfin := finishStep cfg slot st
  have hreceived : received (tr ++ (st.finish cfg slot).2) = received tr := by simp
  have hmessages : messagesOf t bankId (tr ++ (st.finish cfg slot).2) = messagesOf t bankId tr := by
    rw [messagesOf, hreceived, messagesOf]
  constructor
  · rw [hreceived]
    exact h.arcs
  · rw [hreceived, hfin.nextArc]
    exact h.arc_lt
  · intro ht hcleared
    unfold Cleared at hcleared
    rw [hreceived] at hcleared
    obtain ⟨blocks, hgathered⟩ := h.gathered (floor_le_finish.trans_lt ht) hcleared
    refine ⟨blocks, ?_, ?_⟩
    · rw [hmessages, bankOf, get?_finish_slots ht]
      exact hgathered.bank
    · intro c m hm
      rw [hmessages]
      rw [stream_append, stream_finish, List.append_nil] at hm
      exact hgathered.streams c m hm
  · intro ht m hm
    rw [stream_append, stream_finish, List.append_nil] at hm
    exact h.finalized (floor_le_finish.trans_lt ht) m hm

theorem Gathers.push (h : Gathers t bankId s tr) (hcontents : s.Contents)
    (hpush : s.push cfg input = .ok (s', out)) : Gathers t bankId s' (tr ++ out) := by
  refine push_rule (P := fun s' out => Gathers t bankId s' (tr ++ out))
    (L := fun st eff ms => Gathers t bankId st.sender (tr ++ eff) ∧ st.sender.Contents ∧
      st.sender.slotFinalized ≤ input.slot ∧ ∀ m ∈ ms, m.slotOf = input.slot)
    (by simpa using h) ?_ ?_ ?_ hpush
  · intro s₁ messages hfloor _ hdedup
    obtain ⟨hslots, hfin, hdrop, harc, -⟩ := dedupMessage_frame hdedup
    obtain ⟨hcontents₁, halike⟩ := hcontents.dedupMessage hdedup
    have h₁ : Gathers t bankId s₁ (tr ++ []) := by
      have hfloor₁ : s₁.floor = s.floor := by rw [floor, floor, hfin, hdrop]
      rw [List.append_nil]
      constructor
      · exact h.arcs
      · exact harc ▸ h.arc_lt
      · intro ht hcleared
        obtain ⟨blocks, hbank, hstreams⟩ := h.gathered (hfloor₁ ▸ ht) hcleared
        refine ⟨blocks, ?_, hstreams⟩
        rw [bankOf, hslots]
        exact hbank
      · exact fun ht => h.finalized (hfloor₁ ▸ ht)
    exact ⟨fun _ => h₁, fun _ => ⟨h₁, hcontents₁, hfin ▸ (le_max_left _ _).trans hfloor.le,
      fun m hm => (halike m hm).slot⟩⟩
  · rintro st eff m ms st' eff' ⟨h, hcontents, hle, hms⟩ hm
    have hslot := hms m (List.mem_cons_self ..)
    rw [← List.append_assoc]
    exact ⟨h.pushMessage hcontents hslot hle hm, (hcontents.pushMessage hslot hm).1,
      (floor_le_pushMessage hle hm).2.1, fun m' hm' => hms m' (List.mem_cons_of_mem _ hm')⟩
  · rintro st eff ⟨h, -⟩
    rw [← List.append_assoc]
    exact h.finish

/-- **What a bank gathers** over a run. -/
theorem run_gathers (hinit : s.Initial) {is : List PushInput}
    (hrun : run (push cfg) s is = .ok (s', tr)) : Gathers slot bankId s' tr := by
  have hall : s'.Contents ∧ Gathers slot bankId s' tr :=
    run_induction (P := fun _ s' tr => s'.Contents ∧ Gathers slot bankId s' tr)
      ⟨hinit.contents, hinit.gathers slot bankId⟩
      (fun _ _ _ _ _ _ _ h hpush => ⟨(h.1.push hpush).1, h.2.push h.1 hpush⟩) hrun
  exact hall.2

/-! ### The finalized status -/

/-- **The finalized stream is complete.** A finalized status that is published drains the bank `k`
that it selects. A message of `k` that was published before is then on the finalized stream once, if
`k` was not cleared, the message did not come after the `Block` of `k`, and no other update of its
account superseded it. -/
theorem finalized_complete (hinit : s.Initial) {is : List PushInput} {tr₁ : List Effect}
    {msg : MessageSlot} {k : Option BankId} {m : ParsedMessage}
    (hrun : run (push cfg) s is = .ok (s₁, tr₁)) (hfinalized : cfg.finalized)
    (hmsg : input.message = .slot msg) (hstatus : msg.status = .slotFinalized)
    (hselects : s₁.selects msg = some k) (hpush : s₁.push cfg input = .ok (s₂, out))
    (haccepted : stream .processed out ≠ []) (hcleared : ¬ Cleared msg.slot k tr₁)
    (hm : m ∈ stream .processed tr₁ ∨ m ∈ stream .confirmed tr₁) (hslot : m.slot = msg.slot)
    (hbank : m.bankId = k) (hkind : m.message.isSlot = false)
    (heup : m.message.isEntryUpdateParent = false)
    (hlate : ¬ BankInfo.Late (messagesOf msg.slot k tr₁) m)
    (hsuperseded : ¬ BankInfo.Superseded (messagesOf msg.slot k tr₁) m) :
    (stream .finalized (tr₁ ++ out)).count m = 1 := by
  have hgathers : Gathers msg.slot k s₁ tr₁ := run_gathers hinit hrun
  have hin : input.slot = msg.slot := by simp [hmsg]
  have hfloor : s₁.floor < msg.slot := by
    rcases push_cases hpush with ⟨_, _, rfl⟩ | ⟨hfloor, _⟩
    · exact absurd rfl haccepted
    · exact hin ▸ hfloor
  obtain ⟨blocks, hrunBank, hstreams⟩ := hgathers.gathered hfloor hcleared
  have hsorted : (messagesOf msg.slot k tr₁).Pairwise fun a b => a.arc + 1 < b.arc :=
    hgathers.arcs.sublist List.filter_sublist
  have hstored : m ∈ (s₁.bankOf msg.slot k).stored := by
    obtain ⟨hkeep, hblocks⟩ := BankInfo.run_mem_stored hrunBank
    have hmem : m ∈ messagesOf msg.slot k tr₁ ∨ m ∈ blocks :=
      hm.elim (fun hm => hstreams _ m hm hslot hbank hkind heup)
        fun hm => hstreams _ m hm hslot hbank hkind heup
    exact hmem.elim (fun hmem => hkeep m hmem hlate hsuperseded) (hblocks m)
  have hnodup := BankInfo.run_stored_nodup hsorted hrunBank
  -- nothing of the slot but statuses was on the stream before
  have hbefore : (stream .finalized tr₁).count m = 0 := by
    rw [List.count_eq_zero]
    intro hmem
    rw [hgathers.finalized hfloor m hmem hslot] at hkind
    cases hkind
  rcases push_status hmsg hpush with hnone | ⟨replay, info, selected, hcommit, -, -, hstream⟩
  · exact absurd (hnone .processed) haccepted
  · rw [if_pos hfinalized, if_pos hstatus] at hstream
    have hdrained : (selected.map info.getMessages).getD [] = (s₁.bankOf msg.slot k).stored := by
      unfold selects at hselects
      obtain ⟨info₁, hinfo₁, hsel⟩ := Option.map_eq_some_iff.mp hselects
      have hst : PushState.slotInfo ⟨s₁, replay, false⟩ msg.slot = info₁ := by
        simp [PushState.slotInfo, hinfo₁]
      rw [hst, hstatus] at hcommit
      cases hcommit
      rw [bankOf_eq hinfo₁, hsel]
      exact info.getMessages_eq_stored k
    rw [hdrained] at hstream
    have hne : ({ arc := s₁.nextArc, message := .slot msg } : ParsedMessage) ≠ m := by
      rintro rfl
      cases hkind
    rw [stream_append, hstream, List.count_append, hbefore, List.count_cons_of_ne hne,
      List.count_eq_one_of_mem hnodup hstored]

/-- A status of bank `7` of slot `5`. -/
def bankStatus (status : SlotStatus) : PushInput := ⟨true, "a", .slot ⟨5, status, some 7, []⟩⟩

/-- The block meta of bank `7` of slot `5`, of a block with as many entries. -/
def emptyBlockMeta (entriesCount : ℕ) : PushInput :=
  ⟨true, "a", .blockMeta ⟨5, 7, 0, entriesCount, ⟨0, 0⟩, []⟩⟩

/-- A block meta on its way from processed to finalized. -/
theorem finalized_complete_blockMeta : ∃ s₁ tr₁ s₂ out, run (push .memory) .new
      [emptyBlockMeta 1, bankStatus .slotConfirmed] = .ok (s₁, tr₁) ∧
    s₁.push .memory (bankStatus .slotFinalized) = .ok (s₂, out) ∧
    (stream .finalized (tr₁ ++ out)).count ⟨0, (emptyBlockMeta 1).message⟩ = 1 := by
  let m : ParsedMessage := ⟨0, (emptyBlockMeta 1).message⟩
  obtain ⟨s₁, tr₁, hrun, h⟩ := exists_of_returns (x := run (push .memory) .new
      [emptyBlockMeta 1, bankStatus .slotConfirmed]) (p := fun s₁ tr₁ =>
    s₁.selects ⟨5, .slotFinalized, some 7, []⟩ = some (some 7) &&
      received tr₁ = [m, ⟨2, (bankStatus .slotConfirmed).message⟩] && m ∈ stream .processed tr₁ &&
      returns (fun _ out => stream .processed out ≠ [])
        (s₁.push .memory (bankStatus .slotFinalized))) (by decide +kernel)
  simp only [Bool.and_eq_true, decide_eq_true_eq] at h
  obtain ⟨⟨⟨hselects, hreceived⟩, hm⟩, hpush⟩ := h
  obtain ⟨s₂, out, hpush, haccepted⟩ := exists_of_returns hpush
  have hcleared : ¬ Cleared 5 (some 7) tr₁ := by
    rintro ⟨x, hx, -, -, -, heup⟩
    rw [hreceived] at hx
    simp only [List.mem_cons, List.not_mem_nil, or_false] at hx
    rcases hx with rfl | rfl <;> cases heup
  have hmessages : messagesOf 5 (some 7) tr₁ = [m] := by
    rw [messagesOf, hreceived]
    decide
  have hlate : ¬ BankInfo.Late (messagesOf 5 (some 7) tr₁) m := by
    rintro ⟨-, l₁, l₂, bank, blocks, hl, hrun, hne⟩
    rw [hmessages] at hl
    cases l₁ with
    | nil =>
      cases hrun
      exact hne rfl
    | cons a l₁ => simp at hl
  have hsuperseded : ¬ BankInfo.Superseded (messagesOf 5 (some 7) tr₁) m := by
    rintro ⟨m', hm', hne, -⟩
    rw [hmessages] at hm'
    exact hne (List.mem_singleton.mp hm')
  exact ⟨s₁, tr₁, s₂, out, hrun, hpush, finalized_complete initial_new hrun rfl rfl rfl hselects hpush
    (of_decide_eq_true haccepted) hcleared (Or.inl hm) rfl rfl rfl rfl hlate hsuperseded⟩

/-- The block meta announces no entries, so the `Block` is complete with it. The entry that comes
after the confirmed status is on processed and on confirmed, and never on finalized. -/
theorem late_entry_not_finalized : ∃ s₁ tr₁ s₂ out, run (push .memory) .new
      [emptyBlockMeta 0, bankStatus .slotConfirmed, ⟨true, "a", .entry ⟨5, 7, 0, []⟩⟩] =
        .ok (s₁, tr₁) ∧
    (s₁.slots.get? 5).map (·.confirmedBank) = some (some (some 7)) ∧
    s₁.selects ⟨5, .slotFinalized, some 7, []⟩ = some (some 7) ∧
    s₁.push .memory (bankStatus .slotFinalized) = .ok (s₂, out) ∧
    ⟨4, .entry ⟨5, 7, 0, []⟩⟩ ∈ stream .processed tr₁ ∧
    ⟨4, .entry ⟨5, 7, 0, []⟩⟩ ∈ stream .confirmed tr₁ ∧
    ⟨4, .entry ⟨5, 7, 0, []⟩⟩ ∉ stream .finalized (tr₁ ++ out) := by
  let m : ParsedMessage := ⟨4, .entry ⟨5, 7, 0, []⟩⟩
  obtain ⟨s₁, tr₁, hrun, h⟩ := exists_of_returns (x := run (push .memory) .new
      [emptyBlockMeta 0, bankStatus .slotConfirmed, ⟨true, "a", .entry ⟨5, 7, 0, []⟩⟩])
    (p := fun s₁ tr₁ => (s₁.slots.get? 5).map (·.confirmedBank) = some (some (some 7)) &&
      s₁.selects ⟨5, .slotFinalized, some 7, []⟩ = some (some 7) &&
      m ∈ stream .processed tr₁ && m ∈ stream .confirmed tr₁ &&
      returns (fun _ out => m ∉ stream .finalized (tr₁ ++ out))
        (s₁.push .memory (bankStatus .slotFinalized))) (by decide +kernel)
  simp only [Bool.and_eq_true, decide_eq_true_eq] at h
  obtain ⟨⟨⟨⟨hconfirmed, hselects⟩, hprocessed⟩, hm⟩, hpush⟩ := h
  obtain ⟨s₂, out, hpush, hnot⟩ := exists_of_returns hpush
  exact ⟨s₁, tr₁, s₂, out, hrun, hconfirmed, hselects, hpush, hprocessed, hm, of_decide_eq_true hnot⟩

end Sender

end Richat
