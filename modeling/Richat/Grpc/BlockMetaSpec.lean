import Mathlib.Data.List.TakeWhile
import Richat.Lib.Machine
import Richat.Grpc.BlockMeta

/-!
# Block meta answers

An answer shows the block meta of the bank that the statuses of its slot select. The entry of a slot is
created by whatever comes first: a status that finds no entry creates an empty one, and the flag that tells
that no block meta was received is not looked at (`confirmed_before_meta`). `Settles` says which messages
keep every entry an answer.

`Valid` is the invariant: the content of an entry, and of each candidate, is a received block meta of the
slot that was not cleared, and the bank of an entry is the selected one.
-/

namespace Richat.BlockMetaStorage

open Lib

/-! ### What a slot was told -/

/-- The bank that a status of the slot names. -/
def statusBank (slot : Slot) (status : SlotStatus) : Message → Option BankId
  | .slot msg => if msg.slot = slot ∧ msg.status = status then msg.bankId else none
  | _ => none

def isConfirmed (slot : Slot) : Message → Bool
  | .slot msg => msg.slot = slot ∧ msg.status = .slotConfirmed
  | _ => false

/-- The bank selected by the confirmed status of the slot, else by its finalized status. A finalized status
selects a bank only if the slot was not confirmed before. -/
def selectedBank (slot : Slot) (log : List Message) : Option BankId :=
  (log.filterMap (statusBank slot .slotConfirmed)).head?.or
    ((log.takeWhile (!isConfirmed slot ·)).filterMap (statusBank slot .slotFinalized)).head?

/-- The bank of the slot was cleared. -/
def Cleared (log : List Message) (slot : Slot) (bankId : Option BankId) : Prop :=
  ∃ msg, Message.entryUpdateParent msg ∈ log ∧ msg.slot = slot ∧ bankId = some msg.clearedBankId

/-- `block` has the content of a block meta of the slot that was received. -/
def Received (fields : BlockMetaFields) (log : List Message) (slot : Slot) (block : BlockMeta) : Prop :=
  ∃ msg, Message.blockMeta msg ∈ log ∧ msg.slot = slot ∧ block.blockhash = fields.blockhash msg ∧
    block.blockHeight = fields.blockHeight msg ∧ block.bankId = nonzeroBankId msg.bankId

/-- The bank of the status is shown already, or can be shown. -/
def Selects (log : List Message) (st : State) (slot : Slot) (entry : BlockMeta) (bankId : Option BankId) :
    Prop :=
  ∀ b, bankId = some b → (∀ selected, selectedBank slot log = some selected → selected = b) ∧
    (entry.bankId = some b ∨ ∃ c ∈ (st.candidates slot).getD [], c.bankId = some b)

/-- The messages that leave every answer right: a status comes after the block meta that it selects, a
block meta is of a bank that is not cleared and does not replace the selected one, and the bank that is
cleared was not selected. -/
def Settles (fields : BlockMetaFields) (log : List Message) : Message → Prop
  | .slot msg =>
    match msg.status with
    | .slotConfirmed => ∃ entry : BlockMeta, (State.handled fields log).blocks msg.slot = some entry ∧
        Selects log (State.handled fields log) msg.slot entry msg.bankId
    | .slotFinalized => ∃ entry : BlockMeta, (State.handled fields log).blocks msg.slot = some entry ∧
        (entry.confirmed = false → Selects log (State.handled fields log) msg.slot entry msg.bankId)
    | _ => True
  | .blockMeta msg =>
    ¬ Cleared log msg.slot (nonzeroBankId msg.bankId) ∧
      ∀ selected, selectedBank msg.slot log = some selected → nonzeroBankId msg.bankId = some selected ∨
        ((nonzeroBankId msg.bankId).isSome ∧ ∃ entry : BlockMeta,
          (State.handled fields log).blocks msg.slot = some entry ∧ entry.selectedBankId = some selected)
  | .entryUpdateParent msg =>
    ∀ entry : BlockMeta, (State.handled fields log).blocks msg.slot = some entry →
      entry.bankId = some msg.clearedBankId →
      entry.confirmed = false ∧ entry.finalized = false ∧ selectedBank msg.slot log = none
  | _ => True

/-! ### One more message -/

theorem filterMap_snoc_head? {α β : Type} (f : α → Option β) (as : List α) (a : α) :
    ((as ++ [a]).filterMap f).head? = (as.filterMap f).head?.or (f a) := by
  rw [List.filterMap_append, List.head?_append]
  cases h : f a <;> simp [h]

theorem takeWhile_snoc {α : Type} (p : α → Bool) (as : List α) (a : α) :
    (as ++ [a]).takeWhile p = if as.all p then as ++ [a].takeWhile p else as.takeWhile p := by
  induction as with
  | nil => simp
  | cons x as ih =>
    simp only [List.cons_append, List.takeWhile_cons, List.all_cons] at ih ⊢
    rw [ih]
    cases p x with
    | false => simp
    | true => by_cases hall : as.all p = true <;> simp [hall]

/-- The banks of the finalized statuses that select one. -/
theorem finalizedBank_snoc (slot : Slot) (log : List Message) (m : Message) :
    (((log ++ [m]).takeWhile (!isConfirmed slot ·)).filterMap (statusBank slot .slotFinalized)).head? =
      ((log.takeWhile (!isConfirmed slot ·)).filterMap (statusBank slot .slotFinalized)).head?.or
        (if (log ++ [m]).all (!isConfirmed slot ·) then statusBank slot .slotFinalized m else none) := by
  rw [takeWhile_snoc, List.all_append]
  by_cases hall : log.all (!isConfirmed slot ·) = true
  · have htake : log.takeWhile (!isConfirmed slot ·) = log := by
      rw [List.takeWhile_eq_self_iff]
      exact fun a ha => List.all_eq_true.mp hall a ha
    rw [if_pos hall, hall, htake]
    cases hm : isConfirmed slot m with
    | false => simp [hm]
    | true => simp [hm]
  · simp [hall]

theorem selectedBank_snoc_none {slot : Slot} {log : List Message} {m : Message}
    (hc : statusBank slot .slotConfirmed m = none) (hf : statusBank slot .slotFinalized m = none) :
    selectedBank slot (log ++ [m]) = selectedBank slot log := by
  rw [selectedBank, filterMap_snoc_head?, finalizedBank_snoc, hc, hf, ite_self, Option.or_none,
    Option.or_none, selectedBank]

/-- A bank that is selected now was selected before, or the last message names it. -/
theorem selectedBank_snoc {slot : Slot} {log : List Message} {m : Message} {b : BankId}
    (h : selectedBank slot (log ++ [m]) = some b) :
    selectedBank slot log = some b ∨ statusBank slot .slotConfirmed m = some b ∨
      (statusBank slot .slotFinalized m = some b ∧ ∀ a ∈ log, isConfirmed slot a = false) := by
  rw [selectedBank, filterMap_snoc_head?, finalizedBank_snoc] at h
  rw [selectedBank]
  rcases hc : (log.filterMap (statusBank slot .slotConfirmed)).head? with _ | b'
  · rcases hm : statusBank slot .slotConfirmed m with _ | b'
    · rw [hc, hm, Option.none_or, Option.none_or] at h
      rcases Option.or_eq_some_iff.mp h with h | ⟨-, h⟩
      · exact .inl h
      · split at h
        · rename_i hall
          refine .inr (.inr ⟨h, fun a ha => ?_⟩)
          have := List.all_eq_true.mp hall a (List.mem_append_left _ ha)
          simpa using this
        · cases h
    · rw [hc, hm] at h
      exact .inr (.inl (by simpa using h))
  · rw [hc] at h
    exact .inl (by simpa using h)

/-! ### The content of an entry -/

/-- The content of a block meta of the slot that was received and not cleared. -/
def Content (fields : BlockMetaFields) (log : List Message) (slot : Slot) (block : BlockMeta) : Prop :=
  block.slot = slot ∧ Received fields log slot block ∧ ¬ Cleared log slot block.bankId

theorem Content.snoc {fields : BlockMetaFields} {log : List Message} {m : Message} {slot : Slot}
    {block : BlockMeta} (h : Content fields log slot block)
    (hm : ∀ msg, m = .entryUpdateParent msg → msg.slot = slot → block.bankId ≠ some msg.clearedBankId) :
    Content fields (log ++ [m]) slot block := by
  obtain ⟨hslot, ⟨msg, hmem, hrest⟩, hcleared⟩ := h
  refine ⟨hslot, ⟨msg, List.mem_append_left _ hmem, hrest⟩, ?_⟩
  rintro ⟨msg', hmem', hs, hb⟩
  rcases List.mem_append.mp hmem' with hmem' | hmem'
  · exact hcleared ⟨msg', hmem', hs, hb⟩
  · exact hm msg' (List.mem_singleton.mp hmem').symm hs hb

theorem content_setCandidate {fields : BlockMetaFields} {log : List Message} {slot : Slot}
    {entry candidate : BlockMeta} :
    Content fields log slot (entry.setCandidate candidate) ↔ Content fields log slot candidate :=
  Iff.rfl

/-- What `selectCandidate` does to the content: it stays, or a candidate of the bank replaces it. -/
theorem selectCandidate_content {fields : BlockMetaFields} {log : List Message} {slot : Slot}
    {entry : BlockMeta} {candidates : Option (List BlockMeta)} (bankId : Option BankId)
    (he : Content fields log slot entry) (hc : ∀ c ∈ candidates.getD [], Content fields log slot c) :
    Content fields log slot (entry.selectCandidate candidates bankId) := by
  unfold BlockMeta.selectCandidate
  cases bankId with
  | none => exact he
  | some b =>
    dsimp only
    split
    · exact he
    · split
      · rename_i c hfind
        obtain ⟨list, rfl, hfind⟩ := Option.bind_eq_some_iff.mp hfind
        exact content_setCandidate.mpr (hc c (List.mem_of_find?_eq_some hfind))
      · exact he

theorem selectCandidate_bankId {entry : BlockMeta} {candidates : Option (List BlockMeta)} {b : BankId}
    (h : entry.bankId = some b ∨ ∃ c ∈ candidates.getD [], c.bankId = some b) :
    (entry.selectCandidate candidates (some b)).bankId = some b := by
  unfold BlockMeta.selectCandidate
  dsimp only
  split
  · assumption
  · rename_i hne
    obtain ⟨c, hmem, hb⟩ := h.resolve_left hne
    cases candidates with
    | none => cases hmem
    | some list =>
      split
      · rename_i c' hfind
        have hbank : c'.bankId = some b := by simpa using List.find?_some hfind
        exact hbank
      · rename_i hfind
        have := List.find?_eq_none.mp hfind c hmem
        simp [hb] at this

theorem selectCandidate_confirmed {entry : BlockMeta} {candidates : Option (List BlockMeta)}
    {bankId : Option BankId} :
    (entry.selectCandidate candidates bankId).confirmed = entry.confirmed := by
  unfold BlockMeta.selectCandidate
  cases bankId with
  | none => rfl
  | some b =>
    dsimp only
    split
    · rfl
    · split <;> rfl

/-! ### The invariant -/

structure Valid (fields : BlockMetaFields) (log : List Message) (st : State) : Prop where
  blocks : ∀ slot entry, st.blocks slot = some entry → Content fields log slot entry
  selected : ∀ slot entry, st.blocks slot = some entry →
    ∀ b, selectedBank slot log = some b → entry.bankId = some b
  confirmed : ∀ slot entry, st.blocks slot = some entry → entry.confirmed = true →
    ∃ a ∈ log, isConfirmed slot a = true
  candidates : ∀ slot, ∀ c ∈ (st.candidates slot).getD [], Content fields log slot c

theorem valid_default (fields : BlockMetaFields) : Valid fields [] State.default where
  blocks := by
    intro slot entry h
    cases h
  selected := by
    intro slot entry h
    cases h
  confirmed := by
    intro slot entry h
    cases h
  candidates := by
    intro slot c h
    cases h

/-- A message that selects no bank and clears none. -/
theorem Valid.snoc_other {fields : BlockMetaFields} {log : List Message} {st : State} {m : Message}
    (h : Valid fields log st) (hparent : m.isEntryUpdateParent = false)
    (hconfirmed : ∀ slot, statusBank slot .slotConfirmed m = none)
    (hfinalized : ∀ slot, statusBank slot .slotFinalized m = none) : Valid fields (log ++ [m]) st := by
  have hm : ∀ slot (block : BlockMeta) msg, m = .entryUpdateParent msg → msg.slot = slot →
      block.bankId ≠ some msg.clearedBankId := by
    rintro slot block msg rfl
    cases hparent
  constructor
  · intro slot entry hentry
    exact (h.blocks slot entry hentry).snoc (hm slot entry)
  · intro slot entry hentry b hb
    rw [selectedBank_snoc_none (hconfirmed _) (hfinalized _)] at hb
    exact h.selected slot entry hentry b hb
  · intro slot entry hentry hflag
    obtain ⟨a, ha, hconf⟩ := h.confirmed slot entry hentry hflag
    exact ⟨a, List.mem_append_left _ ha, hconf⟩
  · intro slot c hc
    exact (h.candidates slot c hc).snoc (hm slot c)

theorem statusBank_slot {slot : Slot} {status : SlotStatus} {msg : MessageSlot} {b : BankId}
    (h : statusBank slot status (.slot msg) = some b) :
    msg.slot = slot ∧ msg.status = status ∧ msg.bankId = some b := by
  rw [statusBank] at h
  split at h
  · rename_i heq
    exact ⟨heq.1, heq.2, h⟩
  · cases h

/-- A status of a slot puts `entry` in place of the entry of the slot. -/
theorem Valid.snoc_status {fields : BlockMetaFields} {log : List Message} {st st' : State}
    {msg : MessageSlot} (entry : BlockMeta) (h : Valid fields log st)
    (hblocks : ∀ slot e, st'.blocks slot = some e →
      slot = msg.slot ∧ e = entry ∨ slot ≠ msg.slot ∧ st.blocks slot = some e)
    (hcandidates : ∀ slot, ∀ c ∈ (st'.candidates slot).getD [], c ∈ (st.candidates slot).getD [])
    (hcontent : Content fields log msg.slot entry)
    (hselected : ∀ b, selectedBank msg.slot (log ++ [.slot msg]) = some b → entry.bankId = some b)
    (hconfirmed : entry.confirmed = true → ∃ a ∈ log ++ [.slot msg], isConfirmed msg.slot a = true) :
    Valid fields (log ++ [.slot msg]) st' := by
  have hm : ∀ slot (block : BlockMeta) msg', Message.slot msg = .entryUpdateParent msg' →
      msg'.slot = slot → block.bankId ≠ some msg'.clearedBankId := by
    intro slot block msg' heq
    cases heq
  constructor
  · intro slot e he
    rcases hblocks slot e he with ⟨rfl, rfl⟩ | ⟨-, he⟩
    · exact hcontent.snoc (hm _ _)
    · exact (h.blocks slot e he).snoc (hm _ _)
  · intro slot e he b hb
    rcases hblocks slot e he with ⟨rfl, rfl⟩ | ⟨hne, he⟩
    · exact hselected b hb
    · have hnone : ∀ status, statusBank slot status (.slot msg) = none := by
        intro status
        exact if_neg fun heq => hne heq.1.symm
      rw [selectedBank_snoc_none (hnone _) (hnone _)] at hb
      exact h.selected slot e he b hb
  · intro slot e he hflag
    rcases hblocks slot e he with ⟨rfl, rfl⟩ | ⟨-, he⟩
    · exact hconfirmed hflag
    · obtain ⟨a, ha, hconf⟩ := h.confirmed slot e he hflag
      exact ⟨a, List.mem_append_left _ ha, hconf⟩
  · intro slot c hc
    exact (h.candidates slot c (hcandidates slot c hc)).snoc (hm _ _)

theorem Selects.bankId {log : List Message} {st : State} {slot : Slot} {entry : BlockMeta}
    {bankId : Option BankId} {b : BankId} (h : Selects log st slot entry bankId)
    (he : ∀ b, selectedBank slot log = some b → entry.bankId = some b)
    (hb : selectedBank slot log = some b ∨ bankId = some b) :
    (entry.selectCandidate (st.candidates slot) bankId).bankId = some b := by
  cases bankId with
  | none => exact he b (hb.resolve_right (by simp))
  | some b' =>
    obtain ⟨hsame, hshown⟩ := h b' rfl
    have hb : b' = b := by
      rcases hb with hb | hb
      · exact (hsame b hb).symm
      · exact Option.some.inj hb
    rw [hb] at hshown ⊢
    exact selectCandidate_bankId hshown

theorem Valid.confirm {fields : BlockMetaFields} {log : List Message} {st : State} {msg : MessageSlot}
    {entry : BlockMeta} (h : Valid fields log st) (hstatus : msg.status = .slotConfirmed)
    (he : st.blocks msg.slot = some entry) (hsel : Selects log st msg.slot entry msg.bankId) :
    Valid fields (log ++ [.slot msg]) (st.confirm msg.slot msg.bankId) := by
  have hentry : st.entry msg.slot = entry := by rw [State.entry, he, Option.getD_some]
  refine Valid.snoc_status
    { entry.selectCandidate (st.candidates msg.slot) msg.bankId with confirmed := true } h
    ?_ (fun slot c hc => hc) ?_ ?_ ?_
  · intro slot e hb
    rw [State.confirm, hentry] at hb
    by_cases hs : slot = msg.slot
    · subst hs
      simp only [Function.update_self, Option.some.injEq] at hb
      exact .inl ⟨rfl, hb.symm⟩
    · simp only [Function.update_of_ne hs] at hb
      exact .inr ⟨hs, hb⟩
  · exact selectCandidate_content msg.bankId (h.blocks _ _ he) (h.candidates _)
  · intro b hb
    refine hsel.bankId (h.selected _ _ he) ?_
    rcases selectedBank_snoc hb with hb | hb | ⟨hb, -⟩
    · exact .inl hb
    · exact .inr (statusBank_slot hb).2.2
    · exact .inr (statusBank_slot hb).2.2
  · intro
    exact ⟨.slot msg, List.mem_append_right _ (List.mem_singleton.mpr rfl), by simp [isConfirmed, hstatus]⟩

theorem Valid.finalize {fields : BlockMetaFields} {log : List Message} {st : State} {msg : MessageSlot}
    {entry : BlockMeta} (h : Valid fields log st) (hstatus : msg.status = .slotFinalized)
    (he : st.blocks msg.slot = some entry)
    (hsel : entry.confirmed = false → Selects log st msg.slot entry msg.bankId) :
    Valid fields (log ++ [.slot msg]) (st.finalize msg.slot msg.bankId) := by
  have hentry : st.entry msg.slot = entry := by rw [State.entry, he, Option.getD_some]
  refine Valid.snoc_status
    { if entry.confirmed then entry
      else entry.selectCandidate (st.candidates msg.slot) msg.bankId with finalized := true } h
    ?_ ?_ ?_ ?_ ?_
  · intro slot e hb
    rw [State.finalize, hentry] at hb
    dsimp only at hb
    split at hb
    · by_cases hs : slot = msg.slot
      · subst hs
        simp only [Function.update_self, Option.some.injEq] at hb
        exact .inl ⟨rfl, hb.symm⟩
      · simp only [Function.update_of_ne hs] at hb
        exact .inr ⟨hs, hb⟩
    · cases hb
  · intro slot c hc
    rw [State.finalize] at hc
    dsimp only at hc
    split at hc
    · exact hc
    · cases hc
  · cases hflag : entry.confirmed with
    | false => exact selectCandidate_content msg.bankId (h.blocks _ _ he) (h.candidates _)
    | true =>
      have hcontent := h.blocks msg.slot entry he
      exact hcontent
  · intro b hb
    rcases selectedBank_snoc hb with hb | hb | ⟨hb, hnone⟩
    · cases hflag : entry.confirmed with
      | false => exact (hsel hflag).bankId (h.selected _ _ he) (.inl hb)
      | true => exact h.selected _ _ he b hb
    · have := (statusBank_slot hb).2.1
      rw [hstatus] at this
      cases this
    · cases hflag : entry.confirmed with
      | false => exact (hsel hflag).bankId (h.selected _ _ he) (.inr (statusBank_slot hb).2.2)
      | true =>
        obtain ⟨a, ha, hconf⟩ := h.confirmed _ _ he hflag
        rw [hnone a ha] at hconf
        cases hconf
  · intro hflag
    cases hold : entry.confirmed with
    | true =>
      obtain ⟨a, ha, hconf⟩ := h.confirmed _ _ he hold
      exact ⟨a, List.mem_append_left _ ha, hconf⟩
    | false =>
      rw [hold] at hflag
      have hflag : (entry.selectCandidate (st.candidates msg.slot) msg.bankId).confirmed = true := hflag
      rw [selectCandidate_confirmed, hold] at hflag
      cases hflag

theorem Valid.receiveMeta {fields : BlockMetaFields} {log : List Message} {st : State}
    {msg : MessageBlockMeta} (h : Valid fields log st)
    (hcleared : ¬ Cleared log msg.slot (nonzeroBankId msg.bankId))
    (hsel : ∀ selected, selectedBank msg.slot log = some selected →
      nonzeroBankId msg.bankId = some selected ∨
        ((nonzeroBankId msg.bankId).isSome ∧ ∃ entry : BlockMeta,
          st.blocks msg.slot = some entry ∧ entry.selectedBankId = some selected)) :
    Valid fields (log ++ [.blockMeta msg]) (st.receiveMeta fields msg) := by
  have hnew : Content fields (log ++ [.blockMeta msg]) msg.slot (State.candidateOf fields msg) := by
    refine ⟨rfl, ⟨msg, List.mem_append_right _ (List.mem_singleton.mpr rfl), rfl, rfl, rfl, rfl⟩, ?_⟩
    rintro ⟨msg', hmem, hrest⟩
    rcases List.mem_append.mp hmem with hmem | hmem
    · exact hcleared ⟨msg', hmem, hrest⟩
    · cases List.mem_singleton.mp hmem
  have hold := h.snoc_other (m := .blockMeta msg) rfl (fun _ => rfl) fun _ => rfl
  have hlog : ∀ slot, selectedBank slot (log ++ [.blockMeta msg]) = selectedBank slot log :=
    fun _ => selectedBank_snoc_none rfl rfl
  -- an entry that does not accept the candidate is not a new one
  have hkept : ((st.entry msg.slot).accepts (State.candidateOf fields msg) = true) ∨
      ∃ entry : BlockMeta, st.blocks msg.slot = some entry ∧ st.entry msg.slot = entry := by
    rcases he : st.blocks msg.slot with _ | entry
    · left
      rw [State.entry, he]
      rfl
    · exact .inr ⟨entry, rfl, by rw [State.entry, he, Option.getD_some]⟩
  constructor
  · intro slot e he
    rw [State.receiveMeta] at he
    by_cases hs : slot = msg.slot
    · subst hs
      simp only [Function.update_self, Option.some.injEq] at he
      subst he
      split
      · exact hnew
      · rename_i hacc
        obtain ⟨entry, he, hentry⟩ := hkept.resolve_left hacc
        rw [hentry]
        have hcontent := hold.blocks _ _ he
        exact hcontent
    · simp only [Function.update_of_ne hs] at he
      exact hold.blocks slot e he
  · intro slot e he b hb
    rw [hlog] at hb
    rw [State.receiveMeta] at he
    by_cases hs : slot = msg.slot
    · subst hs
      simp only [Function.update_self, Option.some.injEq] at he
      subst he
      split
      · rename_i hacc
        rcases hsel b hb with hbank | ⟨hsome, entry, he, hsel⟩
        · exact hbank
        · obtain ⟨b', hb'⟩ := Option.isSome_iff_exists.mp hsome
          have hcand : (State.candidateOf fields msg).bankId = some b' := hb'
          rw [State.entry, he, Option.getD_some, BlockMeta.accepts, hsel, hcand] at hacc
          rw [of_decide_eq_true hacc]
          exact hb'
      · rename_i hacc
        obtain ⟨entry, he, hentry⟩ := hkept.resolve_left hacc
        rw [hentry]
        have hbank := h.selected _ _ he b hb
        exact hbank
    · simp only [Function.update_of_ne hs] at he
      exact h.selected slot e he b hb
  · intro slot e he hflag
    rw [State.receiveMeta] at he
    by_cases hs : slot = msg.slot
    · subst hs
      simp only [Function.update_self, Option.some.injEq] at he
      have hflag : (st.entry msg.slot).confirmed = true := by
        rw [← he] at hflag
        split at hflag
        · exact hflag
        · exact hflag
      rcases he : st.blocks msg.slot with _ | entry
      · rw [State.entry, he] at hflag
        cases hflag
      · rw [State.entry, he, Option.getD_some] at hflag
        exact hold.confirmed _ _ he hflag
    · simp only [Function.update_of_ne hs] at he
      exact hold.confirmed slot e he hflag
  · intro slot c hc
    rw [State.receiveMeta] at hc
    dsimp only at hc
    split at hc
    · by_cases hs : slot = msg.slot
      · subst hs
        rw [Function.update_self, Option.getD_some] at hc
        rcases List.mem_append.mp hc with hc | hc
        · exact hold.candidates _ c hc
        · rw [List.mem_singleton.mp hc]
          exact hnew
      · rw [Function.update_of_ne hs] at hc
        exact hold.candidates slot c hc
    · exact hold.candidates slot c hc

theorem candidates_clearBank (st : State) (slot : Slot) (b : BankId) :
    (st.clearBank slot b).candidates = Function.update st.candidates slot
      ((st.candidates slot).map (·.filter (·.bankId ≠ some b))) := rfl

theorem clearBank_candidates {st : State} {slot cslot : Slot} {b : BankId} {c : BlockMeta}
    (h : c ∈ ((st.clearBank slot b).candidates cslot).getD []) :
    c ∈ (st.candidates cslot).getD [] ∧ (cslot = slot → c.bankId ≠ some b) := by
  rw [candidates_clearBank] at h
  by_cases hs : cslot = slot
  · subst hs
    rw [Function.update_self] at h
    rcases hlist : st.candidates cslot with _ | list
    · rw [hlist] at h
      cases h
    · rw [hlist, Option.map_some, Option.getD_some, List.mem_filter] at h
      exact ⟨h.1, fun _ => by simpa using h.2⟩
  · rw [Function.update_of_ne hs] at h
    exact ⟨h, fun heq => absurd heq hs⟩

/-- An entry that is left when a bank is cleared: it was there, of another bank or with a status, or
another candidate took its place. -/
theorem clearBank_blocks {st : State} {slot bslot : Slot} {b : BankId} {e : BlockMeta}
    (h : (st.clearBank slot b).blocks bslot = some e) :
    (st.blocks bslot = some e ∧
      (bslot = slot → e.bankId = some b → ¬ (e.confirmed = false ∧ e.finalized = false))) ∨
    (bslot = slot ∧ ∃ entry candidate : BlockMeta, st.blocks slot = some entry ∧ entry.bankId = some b ∧
      entry.confirmed = false ∧ candidate ∈ ((st.clearBank slot b).candidates slot).getD [] ∧
      e = entry.setCandidate candidate) := by
  have hcandidates : (st.clearBank slot b).candidates slot =
      (st.candidates slot).map (·.filter (·.bankId ≠ some b)) := by
    rw [candidates_clearBank, Function.update_self]
  rw [State.clearBank] at h
  dsimp only at h
  split at h
  · rename_i hnone
    refine .inl ⟨h, ?_⟩
    rintro rfl
    rw [hnone] at h
    cases h
  · rename_i entry he
    split at h
    · rename_i hcond
      by_cases hs : bslot = slot
      · rw [hs, Function.update_self] at h
        obtain ⟨candidate, hlast, rfl⟩ := Option.map_eq_some_iff.mp h
        obtain ⟨list, hlist, hlast⟩ := Option.bind_eq_some_iff.mp hlast
        refine .inr ⟨hs, entry, candidate, he, hcond.1, by simpa using hcond.2.1, ?_, rfl⟩
        rw [hcandidates, hlist, Option.getD_some]
        exact List.mem_of_getLast? hlast
      · rw [Function.update_of_ne hs] at h
        exact .inl ⟨h, fun heq => absurd heq hs⟩
    · rename_i hcond
      refine .inl ⟨h, ?_⟩
      rintro rfl hbank ⟨hc, hf⟩
      rw [he] at h
      obtain rfl := Option.some.inj h
      exact hcond ⟨hbank, by simp [hc], by simp [hf]⟩

theorem Valid.clearBank {fields : BlockMetaFields} {log : List Message} {st : State}
    {msg : MessageEntryUpdateParent} (h : Valid fields log st)
    (hsel : ∀ entry : BlockMeta, st.blocks msg.slot = some entry →
      entry.bankId = some msg.clearedBankId →
      entry.confirmed = false ∧ entry.finalized = false ∧ selectedBank msg.slot log = none) :
    Valid fields (log ++ [.entryUpdateParent msg]) (st.clearBank msg.slot msg.clearedBankId) := by
  have hlog : ∀ slot, selectedBank slot (log ++ [.entryUpdateParent msg]) = selectedBank slot log :=
    fun _ => selectedBank_snoc_none rfl rfl
  -- content of another bank or of another slot
  have hother : ∀ slot block, Content fields log slot block →
      (slot = msg.slot → block.bankId ≠ some msg.clearedBankId) →
      Content fields (log ++ [.entryUpdateParent msg]) slot block := by
    intro slot block hcontent hne
    refine hcontent.snoc fun msg' heq hs => ?_
    obtain rfl := Message.entryUpdateParent.inj heq
    exact hne hs.symm
  have hcandidates : ∀ slot, ∀ c ∈ ((st.clearBank msg.slot msg.clearedBankId).candidates slot).getD [],
      Content fields (log ++ [.entryUpdateParent msg]) slot c := by
    intro slot c hc
    obtain ⟨hc, hne⟩ := clearBank_candidates hc
    exact hother slot c (h.candidates slot c hc) hne
  constructor
  · intro slot e he
    rcases clearBank_blocks he with ⟨he, hkept⟩ | ⟨rfl, entry, candidate, -, -, -, hmem, rfl⟩
    · refine hother slot e (h.blocks slot e he) ?_
      rintro rfl hbank
      obtain ⟨hc, hf, -⟩ := hsel e he hbank
      exact hkept rfl hbank ⟨hc, hf⟩
    · exact content_setCandidate.mpr (hcandidates _ candidate hmem)
  · intro slot e he b hb
    rw [hlog] at hb
    rcases clearBank_blocks he with ⟨he, -⟩ | ⟨rfl, entry, candidate, hold, hbank, -, -, rfl⟩
    · exact h.selected slot e he b hb
    · rw [(hsel entry hold hbank).2.2] at hb
      cases hb
  · intro slot e he hflag
    rcases clearBank_blocks he with ⟨he, -⟩ | ⟨rfl, entry, candidate, -, -, hc, -, rfl⟩
    · obtain ⟨a, ha, hconf⟩ := h.confirmed slot e he hflag
      exact ⟨a, List.mem_append_left _ ha, hconf⟩
    · have hflag : entry.confirmed = true := hflag
      rw [hc] at hflag
      cases hflag
  · exact hcandidates

theorem Valid.handleMessage {fields : BlockMetaFields} {log : List Message} {m : Message}
    (h : Valid fields log (State.handled fields log)) (hm : Settles fields log m) :
    Valid fields (log ++ [m]) ((State.handled fields log).handleMessage fields m) := by
  cases m with
  | slot msg =>
    rw [State.handleMessage]
    rw [Settles] at hm
    rcases hs : msg.status with _ | _ | _ | _ | _ | _ | _
    case slotConfirmed =>
      rw [hs] at hm
      obtain ⟨entry, he, hsel⟩ := hm
      exact h.confirm hs he hsel
    case slotFinalized =>
      rw [hs] at hm
      obtain ⟨entry, he, hsel⟩ := hm
      exact h.finalize hs he hsel
    all_goals
      refine h.snoc_other rfl (fun _ => if_neg ?_) fun _ => if_neg ?_
      · rintro ⟨-, hs'⟩
        cases hs.symm.trans hs'
      · rintro ⟨-, hs'⟩
        cases hs.symm.trans hs'
  | blockMeta msg => exact h.receiveMeta hm.1 hm.2
  | entryUpdateParent msg => exact h.clearBank hm
  | account msg => exact h.snoc_other rfl (fun _ => rfl) fun _ => rfl
  | transaction msg => exact h.snoc_other rfl (fun _ => rfl) fun _ => rfl
  | entry msg => exact h.snoc_other rfl (fun _ => rfl) fun _ => rfl
  | block msg => exact h.snoc_other rfl (fun _ => rfl) fun _ => rfl
  | blockFooter msg => exact h.snoc_other rfl (fun _ => rfl) fun _ => rfl

theorem handled_valid {fields : BlockMetaFields} {log : List Message}
    (h : AtEach (Settles fields) log) : Valid fields log (State.handled fields log) := by
  induction log using List.reverseRecOn with
  | nil => exact valid_default fields
  | append_singleton log m ih =>
    obtain ⟨hlog, hm⟩ := atEach_append.mp h
    have hm := atEach_singleton.mp hm
    rw [List.append_nil] at hm
    rw [State.handled_snoc]
    exact (ih hlog).handleMessage hm

/-- Every answer of a run of messages that settle is of the slot of the commitment and shows a received,
not cleared block meta of it, of the selected bank if there is one. -/
theorem answer_settled {fields : BlockMetaFields} {log : List Message} {commitment : CommitmentLevel}
    {block : BlockMeta} (h : AtEach (Settles fields) log)
    (hget : (State.handled fields log).getBlock commitment = some block) :
    block.slot = (State.handled fields log).commitmentSlot commitment ∧
      Received fields log block.slot block ∧ ¬ Cleared log block.slot block.bankId ∧
      ∀ b, selectedBank block.slot log = some b → block.bankId = some b := by
  have hvalid := handled_valid h
  obtain ⟨hslot, hreceived, hcleared⟩ := hvalid.blocks _ _ hget
  rw [hslot]
  exact ⟨rfl, hreceived, hcleared, hvalid.selected _ _ hget⟩

/-- A block with the height `7`, for the bank `1` of the slot `5`. -/
def sampleFields : BlockMetaFields := ⟨fun _ => "hash", fun _ => 7⟩

def sampleMeta : MessageBlockMeta := ⟨5, 1, 0, 0, ⟨0, 0⟩, []⟩

theorem answer_settled_sample :
    let log := [.blockMeta sampleMeta, .slot ⟨5, .slotConfirmed, some 1, []⟩]
    AtEach (Settles sampleFields) log ∧
      ∃ block : BlockMeta, (State.handled sampleFields log).getBlock .confirmed = some block ∧
        block.slot = 5 ∧ Received sampleFields log block.slot block ∧
        ¬ Cleared log block.slot block.bankId ∧ block.bankId = some 1 := by
  have hlog : AtEach (Settles sampleFields)
      ([.blockMeta sampleMeta] ++ [.slot ⟨5, .slotConfirmed, some 1, []⟩]) := by
    rw [atEach_append, atEach_singleton, atEach_singleton, List.append_nil]
    refine ⟨⟨?_, ?_⟩, _, rfl, ?_⟩
    · rintro ⟨msg, hmem, -⟩
      cases hmem
    · intro selected hsel
      cases hsel
    · intro b hb
      refine ⟨?_, .inl hb⟩
      intro selected hsel
      cases hsel
  refine ⟨hlog, _, rfl, ?_⟩
  obtain ⟨hslot, hreceived, hcleared, hbank⟩ := @answer_settled sampleFields _ .confirmed _ hlog rfl
  exact ⟨hslot, hreceived, hcleared, hbank 1 rfl⟩

/-- A confirmed status before the block meta of its slot: the answer is an empty block of the slot `0`. -/
theorem confirmed_before_meta :
    let st := State.handled sampleFields [.slot ⟨5, .slotConfirmed, none, []⟩]
    ∃ block : BlockMeta, st.getBlock .confirmed = some block ∧ block.processed = false ∧ block.slot = 0 ∧
      st.commitmentSlot .confirmed = 5 :=
  ⟨_, rfl, rfl, rfl, rfl⟩

end Richat.BlockMetaStorage
