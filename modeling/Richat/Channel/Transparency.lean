import Richat.Channel.Released

/-!
# Deduplication of a single source

The same messages are pushed with and without deduplication. `Transparent` relates the two senders:
above the common floor their slots look the same (`Sender.view`), the slots and dedup states of the
first are slots of the second, and what is published with deduplication is what `released` leaves
of what is published without it. In particular nothing is lost once every transaction is published
(`dedup_transparent`).
-/

namespace Richat

open Lib

namespace Sender

/-- The sender with deduplication against the sender without it. -/
structure Transparent (sourceName : SourceName) (seen : List (Slot × Option BankId × Event))
    (s₁ : Sender) (tr₁ : List Effect) (s₂ : Sender) (tr₂ : List Effect) : Prop where
  slotFinalized : s₁.slotFinalized = s₂.slotFinalized
  slotDropped : s₁.slotDropped = s₂.slotDropped
  noJournal₁ : s₁.NoJournal
  noJournal₂ : s₂.NoJournal
  contents₁ : s₁.Contents
  contents₂ : s₂.Contents
  slots : ∀ t ∈ s₁.slots.keys, s₂.floor < t → t ∈ s₂.slots.keys
  dedup : ∀ t ∈ s₁.dedup.keys, s₂.floor < t → t ∈ s₂.slots.keys
  view : ∀ t, s₂.floor < t → s₁.view t = s₂.view t
  settled : ∀ t, s₂.floor < t → (s₂.view t).Settled
  follows : ∀ t, s₂.floor < t →
    Follows sourceName t seen (published t tr₂) ((s₁.dedup.get? t).getD .default)
  perm : ∀ t, (published t tr₁).Perm (released (published t tr₂))

variable {cfg : Config} {s s' s₁ s₂ s₁' s₂' : Sender} {st st' st₁ st₂ : PushState}
  {out eff tr₁ tr₂ out₁ out₂ : List Effect} {slot t : Slot} {m : Message} {ms : List Message}
  {sourceName : SourceName} {seen : List (Slot × Option BankId × Event)} {d : DedupInfo}

theorem Transparent.floor_eq (h : Transparent sourceName seen s₁ tr₁ s₂ tr₂) :
    s₁.floor = s₂.floor := by
  rw [floor, floor, h.slotFinalized, h.slotDropped]

theorem Initial.transparent (hinit : s.Initial) (hjournal : s.NoJournal) :
    Transparent sourceName [] s [] s [] where
  slotFinalized := rfl
  slotDropped := rfl
  noJournal₁ := hjournal
  noJournal₂ := hjournal
  contents₁ := hinit.contents
  contents₂ := hinit.contents
  slots := by
    rw [hinit.slots]
    intro t ht
    cases ht
  dedup := by
    rw [hinit.dedup]
    intro t ht
    cases ht
  view := fun _ _ => rfl
  settled := by
    intro t _
    rw [view, hinit.slots]
    exact SlotView.settled_new
  follows := by
    intro t _
    rw [hinit.dedup]
    exact follows_default rfl
  perm := fun _ => List.Perm.refl _

theorem NoJournal.replayInfo (h : s.NoJournal) (slot : Slot) :
    ((s.replay.get? slot).getD (.new s.index)).messages = none := by
  cases hr : s.replay.get? slot with
  | none => rfl
  | some info => exact h slot info hr

theorem NoJournal.finish (h : st.sender.NoJournal) (hnone : st.replay.messages = none) :
    (st.finish cfg slot).1.NoJournal := by
  intro k info hget
  rcases (finishStep cfg slot st).replay k info hget with rfl | hold
  · exact hnone
  · exact h k info hold

theorem published_finish (t : Slot) (l : List Effect) :
    published t (l ++ (st.finish cfg slot).2) = published t l := by
  simp [published]

/-! ### The end of a push -/

/-- The push without deduplication ends. -/
theorem Transparent.finish₂ (h : Transparent sourceName seen s₁ tr₁ st.sender tr₂)
    (hnone : st.replay.messages = none)
    (hdrop : (st.finish cfg slot).1.slotDropped = st.sender.slotDropped) :
    Transparent sourceName seen s₁ tr₁ (st.finish cfg slot).1 (tr₂ ++ (st.finish cfg slot).2) := by
  have hfin := finishStep cfg slot st
  have hfloor : (st.finish cfg slot).1.floor = st.sender.floor := by
    rw [floor, floor, hfin.slotFinalized, hdrop]
  have hkeys : ∀ t, st.sender.floor < t → t ∈ st.sender.slots.keys →
      t ∈ (st.finish cfg slot).1.slots.keys := by
    intro t ht hmem
    rw [SortedMap.mem_keys, get?_finish_slots (hfloor.symm ▸ ht), ← SortedMap.mem_keys]
    exact hmem
  have hview : ∀ t, st.sender.floor < t → (st.finish cfg slot).1.view t = st.sender.view t := by
    intro t ht
    rw [Sender.view, get?_finish_slots (hfloor.symm ▸ ht), Sender.view]
  constructor
  · rw [hfin.slotFinalized]
    exact h.slotFinalized
  · rw [hdrop]
    exact h.slotDropped
  · exact h.noJournal₁
  · exact h.noJournal₂.finish hnone
  · exact h.contents₁
  · exact h.contents₂.finish
  · intro t hmem ht
    rw [hfloor] at ht
    exact hkeys t ht (h.slots t hmem ht)
  · intro t hmem ht
    rw [hfloor] at ht
    exact hkeys t ht (h.dedup t hmem ht)
  · intro t ht
    rw [hfloor] at ht
    rw [hview t ht]
    exact h.view t ht
  · intro t ht
    rw [hfloor] at ht
    rw [hview t ht]
    exact h.settled t ht
  · intro t ht
    rw [hfloor] at ht
    rw [published_finish]
    exact h.follows t ht
  · intro t
    rw [published_finish]
    exact h.perm t

/-- The push with deduplication ends. Its slots and dedup states above the floor are slots of the
other sender, which has room for them: none of them is dropped. -/
theorem Transparent.finish₁ (h : Transparent sourceName seen st.sender tr₁ s₂ tr₂)
    (hnone : st.replay.messages = none) (hsize : s₂.slots.size ≤ cfg.maxUnfinalizedSlots)
    (habove : ∀ t ∈ st.cleaned.slots.keys, s₂.floor < t) :
    Transparent sourceName seen (st.finish cfg slot).1 (tr₁ ++ (st.finish cfg slot).2) s₂ tr₂ := by
  have hfin := finishStep cfg slot st
  have hroom : ∀ {υ : Type} {cleaned : SortedMap Slot υ} {t : Slot},
      (∀ j ∈ cleaned.keys, s₂.floor < j → j ∈ s₂.slots.keys) → s₂.floor < t →
      t ∉ cleaned.excess cfg.maxUnfinalizedSlots := by
    intro υ cleaned t hsub ht hexcess
    have hmem := SortedMap.mem_keys_of_mem_excess hexcess
    have hle : cleaned.above t ≤ s₂.slots.above t :=
      SortedMap.above_le_above fun j hj hlt => hsub j hj (ht.trans hlt)
    have hlt := SortedMap.above_lt_size (hsub t hmem ht)
    have hge := ((SortedMap.mem_excess_iff hmem).mp hexcess).2
    omega
  have hslots : ∀ j ∈ st.cleaned.slots.keys, s₂.floor < j → j ∈ s₂.slots.keys := by
    intro j hj ht
    refine h.slots j ?_ ht
    rw [SortedMap.mem_keys, get?_cleaned_slots] at hj
    split at hj
    · cases hj
    · exact SortedMap.mem_keys.mpr hj
  have hdedup : ∀ j ∈ st.cleaned.dedup.keys, s₂.floor < j → j ∈ s₂.slots.keys := by
    intro j hj ht
    refine h.dedup j ?_ ht
    rw [SortedMap.mem_keys, get?_cleaned_dedup] at hj
    split at hj
    · cases hj
    · exact SortedMap.mem_keys.mpr hj
  have hdrop : (st.finish cfg slot).1.slotDropped = st.sender.slotDropped := by
    have hnil : st.cleaned.slots.excess cfg.maxUnfinalizedSlots = [] := by
      refine List.eq_nil_iff_forall_not_mem.mpr fun k hk => ?_
      exact hroom hslots (habove k (SortedMap.mem_keys_of_mem_excess hk)) hk
    rw [hfin.slotDropped, hnil]
    rfl
  have hfloor₁ : st.sender.floor = s₂.floor := h.floor_eq
  have hfloor : (st.finish cfg slot).1.floor = s₂.floor := by
    rw [floor, hfin.slotFinalized, hdrop, ← floor, hfloor₁]
  have hget : ∀ t, s₂.floor < t →
      (st.finish cfg slot).1.dedup.get? t = st.sender.dedup.get? t := by
    intro t ht
    rw [hfin.dedup, SortedMap.get?_popExcess, if_neg (hroom hdedup ht), get?_cleaned_dedup, if_neg]
    rintro ⟨-, hlt⟩
    have hle : st.sender.slotFinalized ≤ s₂.floor := hfloor₁ ▸ le_max_left _ _
    exact absurd (hlt.trans_le hle) (Nat.not_lt_of_lt ht)
  constructor
  · rw [hfin.slotFinalized]
    exact h.slotFinalized
  · rw [hdrop]
    exact h.slotDropped
  · exact h.noJournal₁.finish hnone
  · exact h.noJournal₂
  · exact h.contents₁.finish
  · exact h.contents₂
  · intro t hmem ht
    rw [SortedMap.mem_keys, get?_finish_slots (hfloor.symm ▸ ht), ← SortedMap.mem_keys] at hmem
    exact h.slots t hmem ht
  · intro t hmem ht
    rw [SortedMap.mem_keys, hget t ht, ← SortedMap.mem_keys] at hmem
    exact h.dedup t hmem ht
  · intro t ht
    rw [Sender.view, get?_finish_slots (hfloor.symm ▸ ht)]
    exact h.view t ht
  · exact h.settled
  · intro t ht
    rw [hget t ht]
    exact h.follows t ht
  · intro t
    rw [published_finish]
    exact h.perm t

/-- The slots that are left at the end of a push are above its floor. -/
theorem above_cleaned {f : ℕ} (hslots : ∀ t ∈ st.sender.slots.keys, f < t)
    (hdropped : st.sender.slotDropped ≤ f)
    (hfin : st.cleanAfterFinalized = false → st.sender.slotFinalized ≤ f) :
    ∀ t ∈ st.cleaned.slots.keys, st.sender.floor < t := by
  intro t hmem
  rw [SortedMap.mem_keys, get?_cleaned_slots] at hmem
  split at hmem
  · cases hmem
  · rename_i hclean
    have hlt := hslots t (SortedMap.mem_keys.mpr hmem)
    refine max_lt ?_ (hdropped.trans_lt hlt)
    cases hc : st.cleanAfterFinalized with
    | false => exact (hfin hc).trans_lt hlt
    | true => exact Nat.lt_of_not_le fun hle => hclean ⟨hc, hle⟩

/-- Both pushes end. -/
theorem Transparent.finish (h : Transparent sourceName seen st₁.sender tr₁ st₂.sender tr₂)
    (hnone₁ : st₁.replay.messages = none) (hnone₂ : st₂.replay.messages = none)
    (hdrop : (st₂.finish cfg slot).1.slotDropped = st₂.sender.slotDropped)
    (habove : ∀ t ∈ st₁.cleaned.slots.keys, st₁.sender.floor < t) :
    Transparent sourceName seen (st₁.finish cfg slot).1 (tr₁ ++ (st₁.finish cfg slot).2)
      (st₂.finish cfg slot).1 (tr₂ ++ (st₂.finish cfg slot).2) := by
  have hend := h.finish₂ hnone₂ hdrop
  refine hend.finish₁ hnone₁ ?_ ?_
  · rw [(finishStep cfg slot st₂).slots, SortedMap.size_popExcess]
    exact Nat.min_le_right _ _
  · rw [← hend.floor_eq]
    exact habove

/-! ### The loop of a push -/

/-- What the push with deduplication does to its slot, and what it publishes of it. -/
structure Moves (slot : Slot) (s : Sender) (d : DedupInfo) (v : SlotView) (ps : List Message)
    (s' : Sender) (out : List Effect) : Prop where
  slotFinalized : s'.slotFinalized = s.slotFinalized
  slotDropped : s'.slotDropped = s.slotDropped
  noJournal : s'.NoJournal
  contents : s'.Contents
  keys : ∀ t ∈ s'.slots.keys, t = slot ∨ t ∈ s.slots.keys
  dedup : s'.dedup = s.dedup.insert slot d
  other : ∀ t, t ≠ slot → s'.view t = s.view t
  view : s'.view slot = v
  published : ∀ t, published t out = if t = slot then ps else []

theorem block_of_take (v : SlotView) (m : Message) : ∀ b ∈ (v.take m).2, ∃ msg, b = .block msg := by
  have hcreate : ∀ bank : BankView, ∀ b ∈ bank.createBlock.2, ∃ msg, b = .block msg := by
    intro bank b hb
    unfold BankView.createBlock at hb
    split at hb
    · cases hb
    · split at hb
      · exact ⟨_, (Option.some.inj hb).symm⟩
      · cases hb
  intro b hb
  unfold SlotView.take at hb
  split at hb
  · split at hb <;> cases hb
  · dsimp only at hb
    unfold BankView.take at hb
    split at hb
    · cases hb
    · split at hb <;> first | exact hcreate _ b hb | cases hb

/-- A message that is no status. -/
theorem Transparent.message (h : Transparent sourceName seen s₁ tr₁ st.sender tr₂)
    (hslot : m.slotOf = slot) (hfloor : st.sender.floor < slot)
    (hp : DedupInfo.Passes sourceName ((s₁.dedup.get? slot).getD .default) m d ms)
    (h₁ : Moves slot s₁ d ((st.sender.view slot).take m).1
      (ms.map Message.erase ++ ((st.sender.view slot).take m).2.toList) s₁' out₁)
    (h₂ : PushState.Loop slot st [m] st' eff) :
    Transparent sourceName (seen ++ [m.key]) s₁' (tr₁ ++ out₁) st'.sender (tr₂ ++ eff) := by
  have hfloor' : st'.sender.floor = st.sender.floor := by
    rw [floor, floor, h₂.slotFinalized, h₂.slotDropped]
  obtain ⟨hview₂, hpublished₂⟩ : st'.sender.view slot = ((st.sender.view slot).take m).1 ∧
      (stream .processed eff).map (·.message.erase) =
        m.erase :: ((st.sender.view slot).take m).2.toList := by
    have hrun := h₂.view
    rw [run_singleton, SlotView.step, Except.ok.injEq, Prod.mk.injEq] at hrun
    exact ⟨hrun.1.symm, hrun.2.symm⟩
  have hout₂ : ∀ t, published t eff =
      if t = slot then m.erase :: ((st.sender.view slot).take m).2.toList else [] := by
    intro t
    split
    · rename_i heq
      rw [heq, published_of_slot h₂.ofSlot, hpublished₂]
    · rename_i hne
      exact published_of_ne hne h₂.ofSlot
  have hblock : ∀ b ∈ ((st.sender.view slot).take m).2, b.releases = none ∧ b.waitsFor = none := by
    intro b hb
    obtain ⟨msg, rfl⟩ := block_of_take _ m b hb
    exact ⟨rfl, rfl⟩
  have hfollows := h.follows slot hfloor
  constructor
  · rw [h₁.slotFinalized, h₂.slotFinalized]
    exact h.slotFinalized
  · rw [h₁.slotDropped, h₂.slotDropped]
    exact h.slotDropped
  · exact h₁.noJournal
  · intro k info hget
    rw [h₂.replay] at hget
    exact h.noJournal₂ k info hget
  · exact h₁.contents
  · exact h₂.contents
  · intro t hmem ht
    rw [h₂.keys]
    rcases h₁.keys t hmem with rfl | hmem
    · exact Or.inl ⟨rfl, by simp⟩
    · exact Or.inr (h.slots t hmem (hfloor' ▸ ht))
  · intro t hmem ht
    rw [h₂.keys]
    rw [h₁.dedup, SortedMap.mem_keys_insert] at hmem
    rcases hmem with rfl | hmem
    · exact Or.inl ⟨rfl, by simp⟩
    · exact Or.inr (h.dedup t hmem (hfloor' ▸ ht))
  · intro t ht
    by_cases heq : t = slot
    · rw [heq, h₁.view, hview₂]
    · rw [h₁.other t heq, h₂.other t heq]
      exact h.view t (hfloor' ▸ ht)
  · intro t ht
    by_cases heq : t = slot
    · exact heq ▸ h₂.settled
    · rw [h₂.other t heq]
      exact h.settled t (hfloor' ▸ ht)
  · intro t ht
    rw [published_append, hout₂, h₁.dedup, SortedMap.get?_insert]
    by_cases heq : t = slot
    · subst heq
      rw [if_pos rfl, if_pos rfl]
      exact hfollows.passes hslot hp hblock
    · rw [if_neg heq, if_neg heq, List.append_nil]
      exact (h.follows t (hfloor' ▸ ht)).mono m.key
  · intro t
    rw [published_append, published_append, hout₂, h₁.published]
    by_cases heq : t = slot
    · subst heq
      rw [if_pos rfl, if_pos rfl]
      exact hfollows.released_perm hp hblock (h.perm t)
    · rw [if_neg heq, if_neg heq, List.append_nil, List.append_nil]
      exact h.perm t

/-- A status leaves the view of a slot above the new floor. -/
theorem view_pushStatus {msg : MessageSlot}
    (hpush : st.pushMessage cfg slot sourceName (.slot msg) = .ok (st', eff))
    (ht : st'.sender.slotFinalized < t) : st'.sender.view t = st.sender.view t := by
  obtain ⟨info, selected, kept, hstep⟩ := PushState.pushMessage_status hpush
  by_cases heq : t = slot
  · subst heq
    have hnot : ¬ (kept ∧ msg.status = .slotFinalized) := by
      intro hfin
      rw [hstep.slotFinalized, if_pos hfin] at ht
      exact absurd ht (Nat.lt_irrefl _)
    obtain ⟨hbanks, hcleared⟩ :=
      SlotInfo.commit_banks (st.slotInfo t) msg.status (Message.slot msg).bankId
    rw [hstep.receive] at hbanks hcleared
    rw [PushState.view_slotInfo st t, Sender.view, hstep.slots, if_neg fun hf => hnot ⟨hf.1, hf.2.1⟩,
      SortedMap.get?_insert_self]
    simp only [Option.map_some, Option.getD_some, SlotInfo.view, SlotInfo.bank]
    rw [show info.banks = (st.slotInfo t).banks from hbanks,
      show info.clearedBanks = (st.slotInfo t).clearedBanks from hcleared]
  · rw [Sender.view, hstep.slots]
    split
    · rw [SortedMap.get?_erase, if_neg heq, SortedMap.get?_insert_of_ne _ _ heq, Sender.view]
    · rw [SortedMap.get?_insert_of_ne _ _ heq, Sender.view]

/-- A status, pushed to both senders. -/
theorem Transparent.status {msg : MessageSlot} {eff₁ eff₂ : List Effect} {st₁' st₂' : PushState}
    (h : Transparent sourceName seen s₁ tr₁ st₂.sender tr₂) (hslot : msg.slot = slot)
    (hfloor : st₂.sender.floor < slot)
    (hp : DedupInfo.Passes sourceName ((s₁.dedup.get? slot).getD .default) (.slot msg) d
      [.slot msg])
    (hst₁ : st₁.sender = { s₁ with dedup := s₁.dedup.insert slot d })
    (hcontents : st₁.sender.Contents)
    (hnone₁ : st₁.replay.messages = none) (hnone₂ : st₂.replay.messages = none)
    (hpush₁ : st₁.pushMessage cfg slot sourceName (.slot msg) = .ok (st₁', eff₁))
    (hpush₂ : st₂.pushMessage cfg slot sourceName (.slot msg) = .ok (st₂', eff₂)) :
    Transparent sourceName (seen ++ [(Message.slot msg).key]) st₁'.sender (tr₁ ++ eff₁) st₂'.sender
      (tr₂ ++ eff₂) := by
  obtain ⟨info₁, selected₁, kept₁, hstep₁⟩ := PushState.pushMessage_status hpush₁
  obtain ⟨info₂, selected₂, kept₂, hstep₂⟩ := PushState.pushMessage_status hpush₂
  obtain ⟨rfl, -⟩ := hstep₁.kept_fresh hnone₁
  obtain ⟨rfl, -⟩ := hstep₂.kept_fresh hnone₂
  have hslots : (Message.slot msg).slotOf = slot := hslot
  have hfin : st₁'.sender.slotFinalized = st₂'.sender.slotFinalized := by
    rw [hstep₁.slotFinalized, hstep₂.slotFinalized, hst₁]
    split
    · rfl
    · exact h.slotFinalized
  have hle : st₂.sender.slotFinalized ≤ slot := (le_max_left _ _).trans hfloor.le
  obtain ⟨hmono, -, hdrop₂⟩ := floor_le_pushMessage hle hpush₂
  have hdrop : st₁'.sender.slotDropped = st₂'.sender.slotDropped := by
    rw [hstep₁.slotDropped, hdrop₂, hst₁]
    exact h.slotDropped
  have hfin_lt : ∀ t, st₂'.sender.floor < t → st₂'.sender.slotFinalized < t :=
    fun t ht => (le_max_left _ _).trans_lt ht
  have hkeep : ∀ t, st₂'.sender.floor < t → t = slot ∨ t ∈ st₂.sender.slots.keys →
      t ∈ st₂'.sender.slots.keys := by
    intro t ht hmem
    rcases mem_keys_pushMessage hpush₂ hmem with hmem | ⟨rfl, heq⟩
    · exact hmem
    · exact absurd (hfin_lt t ht) (heq ▸ Nat.lt_irrefl _)
  have hpublished : ∀ (st : PushState) (eff : List Effect) t,
      stream .processed eff = [⟨st.sender.nextArc, .slot msg⟩] →
      published t eff = if t = slot then [(Message.slot msg).erase] else [] := by
    intro st eff t heff
    have hof : ∀ x ∈ stream .processed eff, x.slot = slot := by
      intro x hx
      rw [heff, List.mem_singleton] at hx
      rw [hx]
      exact hslot
    split
    · rename_i heq
      rw [heq, published_of_slot hof, heff]
      rfl
    · rename_i hne
      exact published_of_ne hne hof
  have hout₁ := fun t => hpublished st₁ eff₁ t (by rw [hstep₁.processed, if_pos rfl])
  have hout₂ := fun t => hpublished st₂ eff₂ t (by rw [hstep₂.processed, if_pos rfl])
  have hview₁ : ∀ t, st₁.sender.view t = s₁.view t := by
    intro t
    rw [hst₁]
    rfl
  have hnoBlock : ∀ b ∈ (none : Option Message), b.releases = none ∧ b.waitsFor = none := by
    intro b hb
    cases hb
  have hfollows := h.follows slot hfloor
  constructor
  · exact hfin
  · exact hdrop
  · intro k info hget
    rw [hstep₁.replay, hst₁] at hget
    exact h.noJournal₁ k info hget
  · intro k info hget
    rw [hstep₂.replay] at hget
    exact h.noJournal₂ k info hget
  · exact (hcontents.pushMessage hslots hpush₁).1
  · exact (h.contents₂.pushMessage hslots hpush₂).1
  · intro t hmem ht
    refine hkeep t ht ((keys_pushMessage (fun j hj => Or.inr hj) hpush₁ t hmem).imp_right fun hj => ?_)
    rw [hst₁] at hj
    exact h.slots t hj (hmono.trans_lt ht)
  · intro t hmem ht
    refine hkeep t ht ?_
    rw [hstep₁.dedup, hst₁, SortedMap.mem_keys_insert] at hmem
    exact hmem.imp_right fun hj => h.dedup t hj (hmono.trans_lt ht)
  · intro t ht
    rw [view_pushStatus hpush₁ (hfin ▸ hfin_lt t ht), view_pushStatus hpush₂ (hfin_lt t ht), hview₁]
    exact h.view t (hmono.trans_lt ht)
  · intro t ht
    rw [view_pushStatus hpush₂ (hfin_lt t ht)]
    exact h.settled t (hmono.trans_lt ht)
  · intro t ht
    rw [published_append, hout₂, hstep₁.dedup, hst₁, SortedMap.get?_insert]
    by_cases heq : t = slot
    · subst heq
      rw [if_pos rfl, if_pos rfl]
      exact hfollows.passes hslots hp hnoBlock
    · rw [if_neg heq, if_neg heq, List.append_nil]
      exact (h.follows t (hmono.trans_lt ht)).mono _
  · intro t
    rw [published_append, published_append, hout₁, hout₂]
    by_cases heq : t = slot
    · subst heq
      rw [if_pos rfl]
      exact hfollows.released_perm hp hnoBlock (h.perm t)
    · rw [if_neg heq, List.append_nil, List.append_nil]
      exact h.perm t

/-! ### A push -/

theorem Transparent.mono (h : Transparent sourceName seen s₁ tr₁ s₂ tr₂)
    (k : Slot × Option BankId × Event) :
    Transparent sourceName (seen ++ [k]) s₁ tr₁ s₂ tr₂ :=
  { h with follows := fun t ht => (h.follows t ht).mono k }

theorem push_nodedup_cases (h : s.push cfg ⟨false, sourceName, m⟩ = .ok (s', out)) :
    ((m.slotOf ≤ s.floor ∨ s.isCleared m) ∧ s' = s ∧ out = []) ∨
    (s.floor < m.slotOf ∧ s.isCleared m = false ∧ ∃ st eff,
      PushState.pushMessage cfg m.slotOf sourceName
        ⟨s, (s.replay.get? m.slotOf).getD (.new s.index), false⟩ m = .ok (st, eff) ∧
      s' = (st.finish cfg m.slotOf).1 ∧ out = eff ++ (st.finish cfg m.slotOf).2) := by
  rcases push_cases h with hdoor | ⟨hfloor, hcleared, s₁, messages, hdedup, hcases⟩
  · exact Or.inl hdoor
  · refine Or.inr ⟨hfloor, hcleared, ?_⟩
    rcases dedupMessage_cases hdedup with ⟨_, rfl, rfl⟩ | ⟨hno, _⟩
    · rcases hcases with ⟨hnil, _⟩ | ⟨_, st, eff, hrun, rfl, rfl⟩
      · cases hnil
      · exact ⟨st, eff, run_singleton.mp hrun, rfl, rfl⟩
    · cases hno

/-- The push of a message that is no status. -/
theorem Transparent.push_message (h : Transparent sourceName seen s₁ tr₁ s₂ tr₂)
    (habove : s₁.AboveFloor) (hm : m.isSlot = false) (hfloor : s₂.floor < m.slotOf)
    (hp : DedupInfo.Passes sourceName ((s₁.dedup.get? m.slotOf).getD .default) m d ms)
    (hdedup : s₁.dedupMessage ⟨true, sourceName, m⟩ =
      .ok ({ s₁ with dedup := s₁.dedup.insert m.slotOf d }, ms))
    (hpush₂ : PushState.pushMessage cfg m.slotOf sourceName
      ⟨s₂, (s₂.replay.get? m.slotOf).getD (.new s₂.index), false⟩ m = .ok (st₂, eff))
    (hdrop : (st₂.finish cfg m.slotOf).1.slotDropped = s₂.slotDropped)
    (hpush₁ : (ms = [] ∧ s₁' = { s₁ with dedup := s₁.dedup.insert m.slotOf d } ∧ out₁ = []) ∨
      (ms ≠ [] ∧ ∃ st₁ eff₁, run (PushState.pushMessage cfg m.slotOf sourceName)
        ⟨{ s₁ with dedup := s₁.dedup.insert m.slotOf d },
          (s₁.replay.get? m.slotOf).getD (.new s₁.index), false⟩ ms = .ok (st₁, eff₁) ∧
        s₁' = (st₁.finish cfg m.slotOf).1 ∧ out₁ = eff₁ ++ (st₁.finish cfg m.slotOf).2)) :
    Transparent sourceName (seen ++ [m.key]) s₁' (tr₁ ++ out₁) (st₂.finish cfg m.slotOf).1
      (tr₂ ++ (eff ++ (st₂.finish cfg m.slotOf).2)) := by
  have hview := h.view m.slotOf hfloor
  have hs := h.settled m.slotOf hfloor
  have hloop₂ := PushState.loop_pushMessage (h.noJournal₂.replayInfo m.slotOf) hm rfl h.contents₂ hs
    hpush₂
  have hrun := hp.run_view hm (s₂.view m.slotOf)
  obtain ⟨hcontents₁, halike⟩ := h.contents₁.dedupMessage hdedup
  have hdrop₂ : (st₂.finish cfg m.slotOf).1.slotDropped = st₂.sender.slotDropped := by
    rw [hdrop, hloop₂.slotDropped]
  rw [← List.append_assoc]
  rcases hpush₁ with ⟨rfl, rfl, rfl⟩ | ⟨hne, st₁, eff₁, hrun₁, rfl, rfl⟩
  · -- the message is parked
    rw [run_nil, Except.ok.injEq, Prod.mk.injEq] at hrun
    have hmoves : Moves m.slotOf s₁ d ((s₂.view m.slotOf).take m).1
        (([] : List Message).map Message.erase ++ ((s₂.view m.slotOf).take m).2.toList)
        { s₁ with dedup := s₁.dedup.insert m.slotOf d } [] := by
      constructor
      · rfl
      · rfl
      · exact h.noJournal₁
      · exact hcontents₁
      · exact fun t ht => Or.inr ht
      · rfl
      · exact fun t _ => rfl
      · exact hview.trans hrun.1
      · intro t
        rw [← hrun.2]
        split <;> rfl
    exact (h.message rfl hfloor hp hmoves hloop₂).finish₂ hloop₂.noJournal hdrop₂
  · have hs₁ : (s₁.view m.slotOf).Settled := hview ▸ hs
    have hloop₁ : PushState.Loop m.slotOf ⟨{ s₁ with dedup := s₁.dedup.insert m.slotOf d },
        (s₁.replay.get? m.slotOf).getD (.new s₁.index), false⟩ ms st₁ eff₁ :=
      PushState.loop_run (h.noJournal₁.replayInfo m.slotOf)
        (fun m' hm' => (halike m' hm').isSlot.trans hm) (fun m' hm' => (halike m' hm').slot)
        hcontents₁ hs₁ hrun₁
    have hrun₁' : run SlotView.step (s₁.view m.slotOf) ms =
        .ok (st₁.sender.view m.slotOf, (stream .processed eff₁).map (·.message.erase)) := hloop₁.view
    rw [hview, hrun, Except.ok.injEq, Prod.mk.injEq] at hrun₁'
    have hmoves : Moves m.slotOf s₁ d ((s₂.view m.slotOf).take m).1
        (ms.map Message.erase ++ ((s₂.view m.slotOf).take m).2.toList) st₁.sender eff₁ := by
      constructor
      · exact hloop₁.slotFinalized
      · exact hloop₁.slotDropped
      · intro k info hget
        rw [hloop₁.replay] at hget
        exact h.noJournal₁ k info hget
      · exact hloop₁.contents
      · exact fun t ht => ((hloop₁.keys t).mp ht).imp And.left id
      · exact hloop₁.dedup
      · exact hloop₁.other
      · exact hrun₁'.1.symm
      · intro t
        rw [hrun₁'.2]
        split
        · rename_i heq
          rw [heq, published_of_slot hloop₁.ofSlot]
        · rename_i hne'
          exact published_of_ne hne' hloop₁.ofSlot
    rw [← List.append_assoc]
    refine (h.message rfl hfloor hp hmoves hloop₂).finish hloop₁.noJournal hloop₂.noJournal hdrop₂
      (above_cleaned (f := s₁.floor) ?_ ?_ ?_)
    · intro t ht
      rcases (hloop₁.keys t).mp ht with ⟨rfl, -⟩ | ht
      · rw [h.floor_eq]
        exact hfloor
      · exact habove.of_mem ht
    · rw [hmoves.slotDropped]
      exact le_max_right _ _
    · intro _
      rw [hmoves.slotFinalized]
      exact le_max_left _ _

/-- The push of a status. -/
theorem Transparent.push_status {msg : MessageSlot} {eff₁ eff₂ : List Effect}
    {st₁' st₂' : PushState} (h : Transparent sourceName seen s₁ tr₁ s₂ tr₂) (habove : s₁.AboveFloor)
    (hfloor : s₂.floor < msg.slot)
    (hp : DedupInfo.Passes sourceName ((s₁.dedup.get? msg.slot).getD .default) (.slot msg) d
      [.slot msg])
    (hdedup : s₁.dedupMessage ⟨true, sourceName, .slot msg⟩ =
      .ok ({ s₁ with dedup := s₁.dedup.insert msg.slot d }, [.slot msg]))
    (hpush₁ : PushState.pushMessage cfg msg.slot sourceName
      ⟨{ s₁ with dedup := s₁.dedup.insert msg.slot d },
        (s₁.replay.get? msg.slot).getD (.new s₁.index), false⟩ (.slot msg) = .ok (st₁', eff₁))
    (hpush₂ : PushState.pushMessage cfg msg.slot sourceName
      ⟨s₂, (s₂.replay.get? msg.slot).getD (.new s₂.index), false⟩ (.slot msg) = .ok (st₂', eff₂))
    (hdrop : (st₂'.finish cfg msg.slot).1.slotDropped = s₂.slotDropped) :
    Transparent sourceName (seen ++ [(Message.slot msg).key]) (st₁'.finish cfg msg.slot).1
      (tr₁ ++ (eff₁ ++ (st₁'.finish cfg msg.slot).2)) (st₂'.finish cfg msg.slot).1
      (tr₂ ++ (eff₂ ++ (st₂'.finish cfg msg.slot).2)) := by
  have hnone₁ := h.noJournal₁.replayInfo msg.slot
  have hnone₂ := h.noJournal₂.replayInfo msg.slot
  obtain ⟨info₁, selected₁, kept₁, hstep₁⟩ := PushState.pushMessage_status hpush₁
  obtain ⟨info₂, selected₂, kept₂, hstep₂⟩ := PushState.pushMessage_status hpush₂
  have hboth := h.status rfl hfloor hp rfl (h.contents₁.dedupMessage hdedup).1 hnone₁ hnone₂ hpush₁
    hpush₂
  have hle : s₁.slotFinalized ≤ msg.slot := by
    rw [h.slotFinalized]
    exact (le_max_left _ _).trans hfloor.le
  rw [← List.append_assoc, ← List.append_assoc]
  refine hboth.finish (hstep₁.kept_fresh hnone₁).2 (hstep₂.kept_fresh hnone₂).2 ?_
    (above_cleaned (f := s₁.floor) ?_ ?_ ?_)
  · rw [hdrop, hstep₂.slotDropped]
  · intro t ht
    rcases keys_pushMessage (s := s₁) (fun j hj => Or.inr hj) hpush₁ t ht with rfl | ht
    · rw [h.floor_eq]
      exact hfloor
    · exact habove.of_mem ht
  · rw [hstep₁.slotDropped]
    exact le_max_right _ _
  · intro hclean
    rcases slotFinalized_pushMessage hpush₁ with ⟨hsame, -⟩ | ⟨-, hset⟩
    · rw [hsame]
      exact le_max_left _ _
    · rw [hset] at hclean
      cases hclean

/-- A new message above the floor goes through deduplication. -/
theorem Transparent.passes (h : Transparent sourceName seen s₁ tr₁ s₂ tr₂) (hnew : m.key ∉ seen)
    (hfloor : s₂.floor < m.slotOf)
    (hd : ((s₁.dedup.get? m.slotOf).getD .default).push sourceName m = .ok (d, ms)) :
    DedupInfo.Passes sourceName ((s₁.dedup.get? m.slotOf).getD .default) m d ms := by
  have hfollows := h.follows m.slotOf hfloor
  exact DedupInfo.push_passes hfollows.source hd fun hh => hnew (hfollows.holds m.bankId m.event hh)

/-- The ways of a message through both senders: refused by both, or accepted by both. -/
theorem Transparent.push_cases (h : Transparent sourceName seen s₁ tr₁ s₂ tr₂) (hnew : m.key ∉ seen)
    (h₁ : s₁.push cfg ⟨true, sourceName, m⟩ = .ok (s₁', out₁))
    (h₂ : s₂.push cfg ⟨false, sourceName, m⟩ = .ok (s₂', out₂)) :
    (s₁' = s₁ ∧ out₁ = [] ∧ s₂' = s₂ ∧ out₂ = []) ∨
    (s₂.floor < m.slotOf ∧ ∃ d ms st₂ eff₂,
      DedupInfo.Passes sourceName ((s₁.dedup.get? m.slotOf).getD .default) m d ms ∧
      s₁.dedupMessage ⟨true, sourceName, m⟩ =
        .ok ({ s₁ with dedup := s₁.dedup.insert m.slotOf d }, ms) ∧
      PushState.pushMessage cfg m.slotOf sourceName
        ⟨s₂, (s₂.replay.get? m.slotOf).getD (.new s₂.index), false⟩ m = .ok (st₂, eff₂) ∧
      s₂' = (st₂.finish cfg m.slotOf).1 ∧ out₂ = eff₂ ++ (st₂.finish cfg m.slotOf).2 ∧
      ((ms = [] ∧ s₁' = { s₁ with dedup := s₁.dedup.insert m.slotOf d } ∧ out₁ = []) ∨
      (ms ≠ [] ∧ ∃ st₁ eff₁, run (PushState.pushMessage cfg m.slotOf sourceName)
        ⟨{ s₁ with dedup := s₁.dedup.insert m.slotOf d },
          (s₁.replay.get? m.slotOf).getD (.new s₁.index), false⟩ ms = .ok (st₁, eff₁) ∧
        s₁' = (st₁.finish cfg m.slotOf).1 ∧ out₁ = eff₁ ++ (st₁.finish cfg m.slotOf).2))) := by
  have hcleared : s₂.floor < m.slotOf → (s₁.isCleared m ↔ s₂.isCleared m) := by
    intro hfloor
    rw [isCleared_iff, isCleared_iff, h.view m.slotOf hfloor]
  rcases push_nodedup_cases h₂ with ⟨hdoor, rfl, rfl⟩ | ⟨hfloor, hnot, st₂, eff₂, hpush₂, rfl, rfl⟩
  · rcases Sender.push_cases h₁ with ⟨-, rfl, rfl⟩ | ⟨hfloor₁, hnot₁, -⟩
    · exact Or.inl ⟨rfl, rfl, rfl, rfl⟩
    · rw [h.floor_eq] at hfloor₁
      rcases hdoor with hle | hdoor
      · exact absurd hfloor₁ (Nat.not_lt_of_le hle)
      · rw [(hcleared hfloor₁).mpr hdoor] at hnot₁
        cases hnot₁
  · rcases Sender.push_cases h₁ with ⟨hdoor, -, -⟩ | ⟨-, -, s, ms, hdedup, hrest⟩
    · rcases hdoor with hle | hdoor
      · rw [h.floor_eq] at hle
        exact absurd hfloor (Nat.not_lt_of_le hle)
      · rw [(hcleared hfloor).mp hdoor] at hnot
        cases hnot
    · rcases dedupMessage_cases hdedup with ⟨hfalse, _⟩ | ⟨-, d, hd, rfl⟩
      · cases hfalse
      · exact Or.inr ⟨hfloor, d, ms, st₂, eff₂, h.passes hnew hfloor hd, hdedup, hpush₂, rfl, rfl,
          hrest⟩

/-- **A push, with and without deduplication.** -/
theorem Transparent.push (h : Transparent sourceName seen s₁ tr₁ s₂ tr₂) (habove : s₁.AboveFloor)
    (hnew : m.key ∉ seen) (h₁ : s₁.push cfg ⟨true, sourceName, m⟩ = .ok (s₁', out₁))
    (h₂ : s₂.push cfg ⟨false, sourceName, m⟩ = .ok (s₂', out₂))
    (hdrop : s₂'.slotDropped = s₂.slotDropped) :
    Transparent sourceName (seen ++ [m.key]) s₁' (tr₁ ++ out₁) s₂' (tr₂ ++ out₂) := by
  rcases h.push_cases hnew h₁ h₂ with ⟨rfl, rfl, rfl, rfl⟩ |
    ⟨hfloor, d, ms, st₂, eff₂, hp, hdedup, hpush₂, rfl, rfl, hrest⟩
  · rw [List.append_nil, List.append_nil]
    exact h.mono m.key
  · cases hm : m.isSlot with
    | false => exact h.push_message habove hm hfloor hp hdedup hpush₂ hdrop hrest
    | true =>
      cases m with
      | slot msg =>
        rcases hp.cases with ⟨-, rfl, -⟩ | ⟨hfalse, -⟩
        · rcases hrest with ⟨hnil, -⟩ | ⟨-, st₁, eff₁, hrun₁, rfl, rfl⟩
          · cases hnil
          · exact h.push_status habove hfloor hp hdedup (run_singleton.mp hrun₁) hpush₂ hdrop
        · cases hfalse
      | _ => cases hm

theorem push_slotDropped_le {input : PushInput} {out : List Effect}
    (h : s.push cfg input = .ok (s', out)) : s.slotDropped ≤ s'.slotDropped := by
  refine push_rule (P := fun s' _ => s.slotDropped ≤ s'.slotDropped)
    (L := fun st _ _ => s.slotDropped ≤ st.sender.slotDropped ∧ st.sender.slotFinalized ≤ input.slot)
    le_rfl ?_ ?_ ?_ h
  · intro s₁ messages hfloor _ hdedup
    obtain ⟨-, hfin, hdrop, -⟩ := dedupMessage_frame hdedup
    exact ⟨fun _ => hdrop.ge, fun _ => ⟨hdrop.ge, hfin ▸ (le_max_left _ _).trans hfloor.le⟩⟩
  · rintro st eff m ms st' eff' ⟨hle, hslot⟩ hpush
    obtain ⟨-, hslot', hdrop⟩ := floor_le_pushMessage hslot hpush
    exact ⟨hdrop ▸ hle, hslot'⟩
  · rintro st eff ⟨hle, -⟩
    rw [(finishStep cfg input.slot st).slotDropped]
    exact le_foldl_max (Or.inl hle)

/-- **The two runs.** -/
theorem run_transparent (hinit : s.Initial) (hjournal : s.NoJournal)
    (h₁ : run (push cfg) s (ms.map fun m => ⟨true, sourceName, m⟩) = .ok (s₁, tr₁))
    (h₂ : run (push cfg) s (ms.map fun m => ⟨false, sourceName, m⟩) = .ok (s₂, tr₂))
    (hnodup : (ms.map Message.key).Nodup) (hdrop : s₂.slotDropped = s.slotDropped) :
    Transparent sourceName (ms.map Message.key) s₁ tr₁ s₂ tr₂ := by
  have hall := run_induction₂ (P := fun ms s₁ tr₁ s₂ tr₂ => s.slotDropped ≤ s₂.slotDropped ∧
    s₁.AboveFloor ∧ ((ms.map Message.key).Nodup → s₂.slotDropped = s.slotDropped →
      Transparent sourceName (ms.map Message.key) s₁ tr₁ s₂ tr₂))
    ⟨le_rfl, hinit.aboveFloor, fun _ _ => hinit.transparent hjournal⟩ ?_ h₁ h₂
  · exact hall.2.2 hnodup hdrop
  · rintro ms s₁ tr₁ s₂ tr₂ m s₁' out₁ s₂' out₂ ⟨hle, habove, h⟩ h₁ h₂
    have hle' := push_slotDropped_le h₂
    refine ⟨hle.trans hle', habove.push h₁, fun hnodup hdrop => ?_⟩
    rw [List.map_append, List.map_singleton] at hnodup ⊢
    have hsame : s₂.slotDropped = s.slotDropped := le_antisymm (hdrop ▸ hle') hle
    have hnew : m.key ∉ ms.map Message.key := fun hmem =>
      (List.disjoint_of_nodup_append hnodup) hmem (List.mem_singleton_self _)
    exact (h hnodup.of_append_left hsame).push habove hnew h₁ h₂ (hdrop.trans hsame.symm)

/-- **Deduplication of a single source changes nothing** but the order and the write versions: a
sequence without repeated events publishes the same messages of a slot, if no slot is dropped and
every transaction that an update waits for is published. -/
theorem dedup_transparent (hinit : s.Initial) (hjournal : s.NoJournal)
    (hnodup : (ms.map Message.key).Nodup)
    (h₁ : run (push cfg) s (ms.map fun m => ⟨true, sourceName, m⟩) = .ok (s₁, tr₁))
    (h₂ : run (push cfg) s (ms.map fun m => ⟨false, sourceName, m⟩) = .ok (s₂, tr₂))
    (hdrop : s₂.slotDropped = s.slotDropped)
    (hdelivered : ∀ m ∈ published slot tr₂, ∀ k ∈ m.waitsFor,
      k ∈ signatures (published slot tr₂)) :
    (published slot tr₁).Perm (published slot tr₂) := by
  have hperm := (run_transparent hinit hjournal h₁ h₂ hnodup hdrop).perm slot
  rwa [released_eq_self hdelivered] at hperm

/-- An account update of bank `7`. -/
def accountUpdate (slot : Slot) (writeVersion : ℕ) (txnSignature : Option Bytes) : Message :=
  .account ⟨slot, some 7, default, default, 0, false, 0, [], writeVersion, txnSignature, false⟩

/-- An update of a transaction. -/
def signedUpdate (slot : Slot) : Message := accountUpdate slot 1 (some (List.replicate 64 0))

/-- The transaction of `signedUpdate`. -/
def transactionOf (slot : Slot) : Message :=
  .transaction ⟨slot, 7, some (List.replicate 64 0), 0, []⟩

/-- The update is parked, and published with its transaction. -/
theorem dedup_transparent_parked : ∃ s₁ tr₁ s₂ tr₂,
    run (push .memory) .new ([signedUpdate 5, transactionOf 5].map fun m => ⟨true, "a", m⟩) = .ok (s₁, tr₁) ∧
    run (push .memory) .new ([signedUpdate 5, transactionOf 5].map fun m => ⟨false, "a", m⟩) = .ok (s₂, tr₂) ∧
    (published 5 tr₁).Perm (published 5 tr₂) := by
  obtain ⟨s₁, tr₁, h₁, -⟩ := exists_of_returns (p := fun _ _ => true) (x := run (push .memory) .new
    ([signedUpdate 5, transactionOf 5].map fun m => ⟨true, "a", m⟩)) (by decide +kernel)
  obtain ⟨s₂, tr₂, h₂, hrest⟩ := exists_of_returns (x := run (push .memory) .new
    ([signedUpdate 5, transactionOf 5].map fun m => ⟨false, "a", m⟩)) (p := fun s₂ tr₂ => s₂.slotDropped = 0 &&
      decide (∀ m ∈ published 5 tr₂, ∀ k ∈ m.waitsFor, k ∈ signatures (published 5 tr₂)))
    (by decide +kernel)
  simp only [Bool.and_eq_true, decide_eq_true_eq] at hrest
  exact ⟨s₁, tr₁, s₂, tr₂, h₁, h₂, dedup_transparent initial_new noJournal_new (by decide) h₁ h₂
    hrest.1 hrest.2⟩

/-- Two updates of an account without a signature: with deduplication the second is a duplicate,
whatever its write version. -/
theorem dedup_drops_unsigned : ∃ s₁ tr₁ s₂ tr₂,
    run (push .memory) .new ([accountUpdate 5 1 none, accountUpdate 5 2 none].map fun m =>
      ⟨true, "a", m⟩) = .ok (s₁, tr₁) ∧
    run (push .memory) .new ([accountUpdate 5 1 none, accountUpdate 5 2 none].map fun m =>
      ⟨false, "a", m⟩) = .ok (s₂, tr₂) ∧
    ¬ (published 5 tr₁).Perm (published 5 tr₂) := by
  obtain ⟨s₁, tr₁, h₁, hlen₁⟩ := exists_of_returns (x := run (push .memory) .new
    ([accountUpdate 5 1 none, accountUpdate 5 2 none].map fun m => ⟨true, "a", m⟩))
    (p := fun _ tr => (published 5 tr).length = 1) (by decide +kernel)
  obtain ⟨s₂, tr₂, h₂, hlen₂⟩ := exists_of_returns (x := run (push .memory) .new
    ([accountUpdate 5 1 none, accountUpdate 5 2 none].map fun m => ⟨false, "a", m⟩))
    (p := fun _ tr => (published 5 tr).length = 2) (by decide +kernel)
  refine ⟨s₁, tr₁, s₂, tr₂, h₁, h₂, fun hperm => ?_⟩
  have hlen := hperm.length_eq
  rw [of_decide_eq_true hlen₁, of_decide_eq_true hlen₂] at hlen
  cases hlen

/-- Two statuses of slot `10`, and between them an update of slot `11` that comes before its
transaction. -/
def twoSlots : List Message :=
  [.slot ⟨10, .slotProcessed, none, []⟩, signedUpdate 11, .slot ⟨10, .slotCompleted, none, []⟩,
    transactionOf 11]

/-- With room for one slot: the parked update opens no slot `11`, so that slot `10` gets its second
status. Without deduplication slot `10` is dropped by then. -/
theorem dedup_keeps_slot : ∃ s₁ tr₁ s₂ tr₂,
    run (push { Config.memory with maxUnfinalizedSlots := 1 }) .new
      (twoSlots.map fun m => ⟨true, "a", m⟩) = .ok (s₁, tr₁) ∧
    run (push { Config.memory with maxUnfinalizedSlots := 1 }) .new
      (twoSlots.map fun m => ⟨false, "a", m⟩) = .ok (s₂, tr₂) ∧
    ¬ (published 10 tr₁).Perm (published 10 tr₂) := by
  obtain ⟨s₁, tr₁, h₁, hlen₁⟩ := exists_of_returns (x := run
    (push { Config.memory with maxUnfinalizedSlots := 1 }) .new
      (twoSlots.map fun m => ⟨true, "a", m⟩))
    (p := fun _ tr => (published 10 tr).length = 2) (by decide +kernel)
  obtain ⟨s₂, tr₂, h₂, hlen₂⟩ := exists_of_returns (x := run
    (push { Config.memory with maxUnfinalizedSlots := 1 }) .new
      (twoSlots.map fun m => ⟨false, "a", m⟩))
    (p := fun _ tr => (published 10 tr).length = 1) (by decide +kernel)
  refine ⟨s₁, tr₁, s₂, tr₂, h₁, h₂, fun hperm => ?_⟩
  have hlen := hperm.length_eq
  rw [of_decide_eq_true hlen₁, of_decide_eq_true hlen₂] at hlen
  cases hlen

end Sender

end Richat
