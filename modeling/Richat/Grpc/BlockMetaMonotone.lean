import Richat.Lib.Machine
import Richat.Grpc.BlockMeta

/-!
# The slots of the commitments

The processed slot is a maximum, the confirmed and the finalized one are whatever came last, and finalization
removes the entries of lower slots without a look at the slots that still point to them. `Keeps` says, for
each message, when no slot goes back and no answer goes away (`keeps_iff`): it is a condition on the state
before the message.
-/

namespace Richat.BlockMetaStorage

open Lib

/-- The bank of the entry is cleared, and there is no other candidate. -/
def Removes (st : State) (msg : MessageEntryUpdateParent) : Prop :=
  ∃ entry : BlockMeta, st.blocks msg.slot = some entry ∧ entry.bankId = some msg.clearedBankId ∧
    entry.confirmed = false ∧ entry.finalized = false ∧
    ∀ c ∈ (st.candidates msg.slot).getD [], c.bankId = some msg.clearedBankId

/-- The messages that take back neither a slot nor an answer. -/
def Keeps (st : State) : Message → Prop
  | .slot msg =>
    match msg.status with
    | .slotConfirmed => st.confirmed ≤ msg.slot
    | .slotFinalized => st.finalized ≤ msg.slot ∧
        ((st.getBlock .processed).isSome → msg.slot ≤ st.processed) ∧
        ((st.getBlock .confirmed).isSome → msg.slot ≤ st.confirmed)
    | _ => True
  | .entryUpdateParent msg => Removes st msg → ∀ c, st.commitmentSlot c ≠ msg.slot
  | _ => True

/-- The step from `st` to `st'` takes back neither a slot nor an answer. -/
def Grows (st st' : State) : Prop :=
  (∀ c, st.commitmentSlot c ≤ st'.commitmentSlot c) ∧
    ∀ c, (st.getBlock c).isSome → (st'.getBlock c).isSome

theorem Grows.refl (st : State) : Grows st st := ⟨fun _ => le_rfl, fun _ => id⟩

theorem Grows.trans {a b c : State} (hab : Grows a b) (hbc : Grows b c) : Grows a c :=
  ⟨fun k => le_trans (hab.1 k) (hbc.1 k), fun k h => hbc.2 k (hab.2 k h)⟩

/-- The slots stay, or go to an entry that there is; all entries stay. -/
theorem grows_of_blocks {st st' : State}
    (hslot : ∀ c, st.commitmentSlot c ≤ st'.commitmentSlot c)
    (hblocks : ∀ slot, (st.blocks slot).isSome → (st'.blocks slot).isSome)
    (hnew : ∀ c, st'.commitmentSlot c = st.commitmentSlot c ∨
      (st'.blocks (st'.commitmentSlot c)).isSome) : Grows st st' := by
  refine ⟨hslot, fun c h => ?_⟩
  rcases hnew c with heq | hsome
  · rw [State.getBlock, heq]
    exact hblocks _ h
  · exact hsome

theorem update_isSome {α : Type} {f : Slot → Option α} {slot : Slot} {a : α} {bslot : Slot}
    (h : (f bslot).isSome) : (Function.update f slot (some a) bslot).isSome := by
  by_cases hs : bslot = slot
  · rw [hs, Function.update_self]
    rfl
  · rw [Function.update_of_ne hs]
    exact h

theorem update_self_isSome {α : Type} {f : Slot → Option α} {slot : Slot} {a : α} :
    (Function.update f slot (some a) slot).isSome := by
  rw [Function.update_self]
  rfl

theorem grows_confirm {st : State} {slot : Slot} {bankId : Option BankId} :
    Grows st (st.confirm slot bankId) ↔ st.confirmed ≤ slot := by
  constructor
  · intro h
    exact h.1 .confirmed
  · intro h
    refine grows_of_blocks ?_ (fun _ => update_isSome) ?_
    · rintro (_ | _ | _)
      · exact le_rfl
      · exact h
      · exact le_rfl
    · rintro (_ | _ | _)
      · exact .inl rfl
      · exact .inr update_self_isSome
      · exact .inl rfl

theorem finalize_blocks {st : State} {slot : Slot} {bankId : Option BankId} {bslot : Slot} :
    ((st.finalize slot bankId).blocks bslot).isSome ↔
      slot ≤ bslot ∧ (bslot = slot ∨ (st.blocks bslot).isSome) := by
  rw [State.finalize]
  dsimp only
  split
  · rename_i hle
    by_cases hs : bslot = slot
    · simp [hs]
    · simp [hs, hle]
  · rename_i hlt
    simp [hlt]

theorem grows_finalize {st : State} {slot : Slot} {bankId : Option BankId} :
    Grows st (st.finalize slot bankId) ↔ st.finalized ≤ slot ∧
      ((st.getBlock .processed).isSome → slot ≤ st.processed) ∧
      ((st.getBlock .confirmed).isSome → slot ≤ st.confirmed) := by
  constructor
  · rintro ⟨hslot, hget⟩
    exact ⟨hslot .finalized, fun h => (finalize_blocks.mp (hget .processed h)).1,
      fun h => (finalize_blocks.mp (hget .confirmed h)).1⟩
  · rintro ⟨hfinalized, hprocessed, hconfirmed⟩
    constructor
    · rintro (_ | _ | _)
      · exact le_rfl
      · exact le_rfl
      · exact hfinalized
    · rintro (_ | _ | _) h
      · exact finalize_blocks.mpr ⟨hprocessed h, .inr h⟩
      · exact finalize_blocks.mpr ⟨hconfirmed h, .inr h⟩
      · exact finalize_blocks.mpr ⟨le_rfl, .inl rfl⟩

theorem grows_receiveMeta (fields : BlockMetaFields) (st : State) (msg : MessageBlockMeta) :
    Grows st (st.receiveMeta fields msg) := by
  refine grows_of_blocks ?_ (fun _ => update_isSome) ?_
  · rintro (_ | _ | _)
    · exact le_max_left _ _
    · exact le_rfl
    · exact le_rfl
  · rintro (_ | _ | _)
    · rcases le_total msg.slot st.processed with hle | hle
      · exact .inl (max_eq_left hle)
      · have hslot : (st.receiveMeta fields msg).commitmentSlot .processed = msg.slot := max_eq_right hle
        right
        rw [hslot]
        exact update_self_isSome
    · exact .inl rfl
    · exact .inl rfl

/-- A candidate of another bank is left. -/
theorem otherCandidate_isSome {list : Option (List BlockMeta)} {b : BankId} :
    ((list.map (·.filter (·.bankId ≠ some b))).bind (·.getLast?)).isSome ↔
      ∃ c ∈ list.getD [], c.bankId ≠ some b := by
  cases list with
  | none => simp
  | some list =>
    rw [Option.map_some, Option.bind_some, Option.getD_some, List.getLast?_isSome]
    simp [List.filter_eq_nil_iff]

theorem clearBank_isSome {st : State} {msg : MessageEntryUpdateParent} {bslot : Slot} :
    ((st.clearBank msg.slot msg.clearedBankId).blocks bslot).isSome ↔
      (st.blocks bslot).isSome ∧ ¬ (bslot = msg.slot ∧ Removes st msg) := by
  rw [State.clearBank]
  dsimp only
  split
  · rename_i hnone
    refine ⟨fun h => ⟨h, ?_⟩, fun h => h.1⟩
    rintro ⟨rfl, -⟩
    rw [hnone] at h
    cases h
  · rename_i entry he
    split
    · rename_i hcond
      by_cases hs : bslot = msg.slot
      · subst hs
        rw [Function.update_self, Option.isSome_map, otherCandidate_isSome, he]
        constructor
        · rintro ⟨c, hmem, hne⟩
          refine ⟨rfl, ?_⟩
          rintro ⟨-, -, -, -, -, -, hall⟩
          exact hne (hall c hmem)
        · rintro ⟨-, hkept⟩
          by_contra hall
          push Not at hall
          exact hkept ⟨rfl, entry, he, hcond.1, by simpa using hcond.2.1, by simpa using hcond.2.2, hall⟩
      · simp [hs]
    · rename_i hcond
      refine ⟨fun h => ⟨h, ?_⟩, fun h => h.1⟩
      rintro ⟨rfl, entry', he', hbank, hc, hf, -⟩
      obtain rfl := Option.some.inj (he.symm.trans he')
      exact hcond ⟨hbank, by simp [hc], by simp [hf]⟩

theorem grows_clearBank {st : State} {msg : MessageEntryUpdateParent} :
    Grows st (st.clearBank msg.slot msg.clearedBankId) ↔
      (Removes st msg → ∀ c, st.commitmentSlot c ≠ msg.slot) := by
  constructor
  · rintro ⟨-, hget⟩ hremoves c heq
    have hsome : (st.getBlock c).isSome := by
      obtain ⟨entry, he, -⟩ := hremoves
      rw [State.getBlock, heq, he]
      rfl
    exact (clearBank_isSome.mp (hget c hsome)).2 ⟨heq, hremoves⟩
  · intro h
    refine ⟨fun c => ?_, fun c hsome => clearBank_isSome.mpr ⟨hsome, ?_⟩⟩
    · cases c <;> exact le_rfl
    · rintro ⟨heq, hremoves⟩
      exact h hremoves c heq

theorem keeps_iff {fields : BlockMetaFields} {st : State} {m : Message} :
    Keeps st m ↔ Grows st (st.handleMessage fields m) := by
  cases m with
  | slot msg =>
    rw [Keeps, State.handleMessage]
    rcases msg.status with _ | _ | _ | _ | _ | _ | _
    case slotConfirmed => exact grows_confirm.symm
    case slotFinalized => exact grows_finalize.symm
    all_goals exact ⟨fun _ => Grows.refl st, fun _ => trivial⟩
  | blockMeta msg => exact ⟨fun _ => grows_receiveMeta fields st msg, fun _ => trivial⟩
  | entryUpdateParent msg => exact grows_clearBank.symm
  | account msg => exact ⟨fun _ => Grows.refl st, fun _ => trivial⟩
  | transaction msg => exact ⟨fun _ => Grows.refl st, fun _ => trivial⟩
  | entry msg => exact ⟨fun _ => Grows.refl st, fun _ => trivial⟩
  | block msg => exact ⟨fun _ => Grows.refl st, fun _ => trivial⟩
  | blockFooter msg => exact ⟨fun _ => Grows.refl st, fun _ => trivial⟩

/-! ### Runs -/

/-- The block meta, the confirmed and the finalized status of a slot came in this order. -/
def Ordered (log : List Message) : Prop :=
  AtEach (fun pre m => ∀ msg, m = .slot msg →
    (msg.status = .slotConfirmed → ∃ blockMeta, Message.blockMeta blockMeta ∈ pre ∧
      blockMeta.slot = msg.slot) ∧
    (msg.status = .slotFinalized → ∃ confirmed, Message.slot confirmed ∈ pre ∧
      confirmed.slot = msg.slot ∧ confirmed.status = .slotConfirmed)) log

/-- What the slots of the commitments have to do with the messages, as long as none goes back. -/
structure Told (log : List Message) (st : State) : Prop where
  processed : ∀ msg, Message.blockMeta msg ∈ log → msg.slot ≤ st.processed
  confirmed : ∀ msg, Message.slot msg ∈ log → msg.status = .slotConfirmed → msg.slot ≤ st.confirmed
  confirmed_mem : st.confirmed = 0 ∨
    ∃ msg, Message.slot msg ∈ log ∧ msg.status = .slotConfirmed ∧ msg.slot = st.confirmed
  finalized_mem : st.finalized = 0 ∨
    ∃ msg, Message.slot msg ∈ log ∧ msg.status = .slotFinalized ∧ msg.slot = st.finalized

theorem told_default : Told [] State.default where
  processed := by
    intro msg h
    cases h
  confirmed := by
    intro msg h
    cases h
  confirmed_mem := .inl rfl
  finalized_mem := .inl rfl

/-- The slots after a message: each is the slot before or the slot of the message. -/
theorem commitmentSlot_handleMessage (fields : BlockMetaFields) (st : State) (m : Message) :
    let st' := st.handleMessage fields m
    (∀ msg, m = .blockMeta msg → msg.slot ≤ st'.processed) ∧
    (∀ msg, m = .slot msg → msg.status = .slotConfirmed → st'.confirmed = msg.slot) ∧
    (st'.confirmed = st.confirmed ∨
      ∃ msg, m = .slot msg ∧ msg.status = .slotConfirmed ∧ msg.slot = st'.confirmed) ∧
    (st'.finalized = st.finalized ∨
      ∃ msg, m = .slot msg ∧ msg.status = .slotFinalized ∧ msg.slot = st'.finalized) := by
  cases m with
  | slot msg =>
    rw [State.handleMessage]
    dsimp only
    rcases hs : msg.status with _ | _ | _ | _ | _ | _ | _
    case slotConfirmed =>
      refine ⟨by simp, ?_, .inr ⟨msg, rfl, hs, rfl⟩, .inl rfl⟩
      rintro msg' heq -
      obtain rfl := Message.slot.inj heq
      rfl
    case slotFinalized =>
      refine ⟨by simp, ?_, .inl rfl, .inr ⟨msg, rfl, hs, rfl⟩⟩
      rintro msg' heq hs'
      obtain rfl := Message.slot.inj heq
      cases hs.symm.trans hs'
    all_goals
      refine ⟨by simp, ?_, .inl rfl, .inl rfl⟩
      rintro msg' heq hs'
      obtain rfl := Message.slot.inj heq
      cases hs.symm.trans hs'
  | blockMeta msg =>
    refine ⟨?_, by simp, .inl rfl, .inl rfl⟩
    intro msg' heq
    obtain rfl := Message.blockMeta.inj heq
    exact le_max_right _ _
  | entryUpdateParent msg => exact ⟨by simp, by simp, .inl rfl, .inl rfl⟩
  | account msg => exact ⟨by simp, by simp, .inl rfl, .inl rfl⟩
  | transaction msg => exact ⟨by simp, by simp, .inl rfl, .inl rfl⟩
  | entry msg => exact ⟨by simp, by simp, .inl rfl, .inl rfl⟩
  | block msg => exact ⟨by simp, by simp, .inl rfl, .inl rfl⟩
  | blockFooter msg => exact ⟨by simp, by simp, .inl rfl, .inl rfl⟩

theorem Told.snoc {fields : BlockMetaFields} {log : List Message} {st : State} {m : Message}
    (h : Told log st) (hgrows : Grows st (st.handleMessage fields m)) :
    Told (log ++ [m]) (st.handleMessage fields m) := by
  obtain ⟨hprocessed, hconfirmed, hcmem, hfmem⟩ := commitmentSlot_handleMessage fields st m
  have hlast : m ∈ log ++ [m] := List.mem_append_right _ (List.mem_singleton.mpr rfl)
  constructor
  · intro msg hmem
    rcases List.mem_append.mp hmem with hmem | hmem
    · exact le_trans (h.processed msg hmem) (hgrows.1 .processed)
    · exact hprocessed msg (List.mem_singleton.mp hmem).symm
  · intro msg hmem hs
    rcases List.mem_append.mp hmem with hmem | hmem
    · exact le_trans (h.confirmed msg hmem hs) (hgrows.1 .confirmed)
    · exact le_of_eq (hconfirmed msg (List.mem_singleton.mp hmem).symm hs).symm
  · rcases hcmem with heq | ⟨msg, rfl, hs, hslot⟩
    · rw [heq]
      refine h.confirmed_mem.imp id ?_
      rintro ⟨msg, hmem, hrest⟩
      exact ⟨msg, List.mem_append_left _ hmem, hrest⟩
    · exact .inr ⟨msg, hlast, hs, hslot⟩
  · rcases hfmem with heq | ⟨msg, rfl, hs, hslot⟩
    · rw [heq]
      refine h.finalized_mem.imp id ?_
      rintro ⟨msg, hmem, hrest⟩
      exact ⟨msg, List.mem_append_left _ hmem, hrest⟩
    · exact .inr ⟨msg, hlast, hs, hslot⟩

/-- In order, the slots of the commitments are in order. -/
theorem Told.ordered {log : List Message} {st : State} (h : Told log st) (hlog : Ordered log) :
    st.finalized ≤ st.confirmed ∧ st.confirmed ≤ st.processed := by
  constructor
  · rcases h.finalized_mem with hzero | ⟨msg, hmem, hs, hslot⟩
    · rw [hzero]
      exact Nat.zero_le _
    · obtain ⟨pre, post, rfl⟩ := List.append_of_mem hmem
      obtain ⟨conf, hconf, hcslot, hcs⟩ := (hlog pre _ post rfl msg rfl).2 hs
      rw [← hslot, ← hcslot]
      exact h.confirmed conf (List.mem_append_left _ hconf) hcs
  · rcases h.confirmed_mem with hzero | ⟨msg, hmem, hs, hslot⟩
    · rw [hzero]
      exact Nat.zero_le _
    · obtain ⟨pre, post, rfl⟩ := List.append_of_mem hmem
      obtain ⟨bmeta, hbmeta, hmslot⟩ := (hlog pre _ post rfl msg rfl).1 hs
      rw [← hslot, ← hmslot]
      exact h.processed bmeta (List.mem_append_left _ hbmeta)

theorem handled_grows {fields : BlockMetaFields} {log : List Message}
    (h : AtEach (fun pre m => Keeps (State.handled fields pre) m) log) {pre : List Message}
    (hpre : pre <+: log) : Grows (State.handled fields pre) (State.handled fields log) := by
  induction log using List.reverseRecOn with
  | nil =>
    rw [List.prefix_nil.mp hpre]
    exact Grows.refl _
  | append_singleton log m ih =>
    rcases List.prefix_concat_iff.mp hpre with rfl | hpre
    · exact Grows.refl _
    · have hlog := (atEach_append.mp h).1
      have hm := h log m [] rfl
      refine (ih hlog hpre).trans ?_
      rw [State.handled_snoc]
      exact keeps_iff.mp hm

theorem handled_told {fields : BlockMetaFields} {log : List Message}
    (h : AtEach (fun pre m => Keeps (State.handled fields pre) m) log) :
    Told log (State.handled fields log) := by
  induction log using List.reverseRecOn with
  | nil => exact told_default
  | append_singleton log m ih =>
    have hm := h log m [] rfl
    rw [State.handled_snoc]
    exact (ih (atEach_append.mp h).1).snoc (keeps_iff.mp hm)

/-- The slots of the commitments never go back, are in order whenever the messages of each slot came in
order, and an answer never goes away: exactly in the runs whose messages all keep the slots and answers of
the state before. -/
theorem keeps_run_iff {fields : BlockMetaFields} {log : List Message} :
    AtEach (fun pre m => Keeps (State.handled fields pre) m) log ↔
      (∀ pre post, pre <+: post → post <+: log → ∀ c,
        (State.handled fields pre).commitmentSlot c ≤ (State.handled fields post).commitmentSlot c) ∧
      (∀ pre, pre <+: log → Ordered pre →
        (State.handled fields pre).finalized ≤ (State.handled fields pre).confirmed ∧
        (State.handled fields pre).confirmed ≤ (State.handled fields pre).processed) ∧
      ∀ pre post, pre <+: post → post <+: log → ∀ c,
        ((State.handled fields pre).getBlock c).isSome →
          ((State.handled fields post).getBlock c).isSome := by
  constructor
  · intro h
    refine ⟨fun pre post hpre hpost => ?_, fun pre hpre hlog => ?_, fun pre post hpre hpost => ?_⟩
    · exact (handled_grows (h.of_prefix hpost) hpre).1
    · exact (handled_told (h.of_prefix hpre)).ordered hlog
    · exact (handled_grows (h.of_prefix hpost) hpre).2
  · rintro ⟨hslot, -, hget⟩ pre m post rfl
    have hpost : pre ++ [m] <+: pre ++ m :: post := ⟨post, by simp⟩
    refine keeps_iff.mpr (?_ : Grows _ (State.handleMessage fields _ m))
    rw [← State.handled_snoc]
    exact ⟨hslot pre _ (List.prefix_append _ _) hpost, hget pre _ (List.prefix_append _ _) hpost⟩

/-- The confirmed status of the slot `4` after the one of the slot `5`: the confirmed slot goes back. -/
theorem confirmed_goes_back :
    let fields : BlockMetaFields := ⟨fun _ => "hash", fun _ => 7⟩
    let log := [.blockMeta ⟨4, 0, 0, 0, ⟨0, 0⟩, []⟩, .blockMeta ⟨5, 0, 0, 0, ⟨0, 0⟩, []⟩,
      .slot ⟨5, .slotConfirmed, none, []⟩]
    (State.handled fields log).commitmentSlot .confirmed = 5 ∧
      (State.handled fields (log ++ [.slot ⟨4, .slotConfirmed, none, []⟩])).commitmentSlot .confirmed = 4 :=
  ⟨rfl, rfl⟩

end Richat.BlockMetaStorage
