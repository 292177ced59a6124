import Richat.Channel.Journal
import Richat.Channel.SlotState

/-!
# The replay map

`SenderView` says that the replay map of the sender and its journal agree: the map has the slots since
the last live epoch (`floor`) that were not trimmed, each with the index of its first record. A push
keeps it, and the writer accepts what it sends: the records of its messages, and then the trims of the
slots that are too far behind the newest one.

`Covered` says that the map accounts for a record: its slot is in the map from this record or an
earlier one on, or the slot is below the map for good.
-/

namespace Richat

open Lib

/-- The slot is too far behind the newest one, and the map begins later. -/
def Sender.IsBehind (cfg : Config) (s : Sender) (slot : Slot) : Prop :=
  slot < s.firstRetained cfg ∧ ∀ t ∈ s.replay.keys, s.firstRetained cfg ≤ t

/-- The sender and its journal agree. -/
structure SenderView (cfg : Config) (floor : ℕ) (j : Journal) (s : Sender) : Prop where
  next : j.next = s.index
  floor_le : floor ≤ s.index
  heads_lt : ∀ t h, j.heads.get? t = some h → h < j.next
  replay : ∀ t h, (∃ info, s.replay.get? t = some info ∧ info.head = h) ↔
    j.heads.get? t = some h ∧ floor ≤ h
  slots : ∀ t info, s.slots.get? t = some info →
    info.index < s.index ∧ (t ∈ s.replay.keys ∨ s.IsBehind cfg t)

/-- The replay map accounts for the record of the slot at the index. -/
def Covered (cfg : Config) (s : Sender) (slot : Slot) (index : ℕ) : Prop :=
  (∃ info, s.replay.get? slot = some info ∧ info.head ≤ index) ∨
    (slot < s.firstRetained cfg ∧ ∀ t ∈ s.replay.keys, slot < t)

section Newest

variable {cfg : Config} {s : Sender}

/-- The first slot that is retained depends on the newest slot only. -/
theorem firstRetained_eq {last : Slot} (h : s.replay.lastKey? = some last) :
    s.firstRetained cfg = last - (cfg.storageMaxSlots - 1) := by
  unfold Sender.firstRetained
  rw [h]

/-- A slot that is too far behind is behind the newest one. -/
theorem exists_newest {t : Slot} (h : t < s.firstRetained cfg) :
    ∃ last info, s.replay.get? last = some info ∧ t < last - (cfg.storageMaxSlots - 1) := by
  cases hlast : s.replay.lastKey? with
  | none =>
    unfold Sender.firstRetained at h
    rw [hlast] at h
    exact absurd h (Nat.not_lt_zero _)
  | some last =>
    rw [firstRetained_eq hlast] at h
    obtain ⟨info, hinfo⟩ :=
      Option.isSome_iff_exists.mp (SortedMap.mem_keys.mp (SortedMap.lastKey?_eq_some hlast).1)
    exact ⟨last, info, hinfo, h⟩

theorem exists_lastKey {t : Slot} (h : t ∈ s.replay.keys) :
    ∃ last, s.replay.lastKey? = some last ∧ last ∈ s.replay.keys ∧ t ≤ last := by
  cases hlast : s.replay.lastKey? with
  | none =>
    rw [SortedMap.lastKey?_eq_none.mp hlast] at h
    cases h
  | some last =>
    obtain ⟨hmem, hle⟩ := SortedMap.lastKey?_eq_some hlast
    refine ⟨last, rfl, hmem, ?_⟩
    rcases hle t h with rfl | hlt
    · exact le_rfl
    · exact hlt.le

end Newest

/-! ### The trims of a push -/

section Trims

variable {maxSlots first floor : ℕ}

variable (maxSlots) in
/-- The trims of the slots below `first`, in a map that has all slots of the journal and a slot far
enough above `first`. -/
theorem accepts_trimMessages : ∀ {l : List (Σ _ : Slot, ReplayInfo)} {j : Journal},
    l.Pairwise (fun a b => a.1 < b.1) →
    (∀ t h, j.heads.get? t = some h → floor ≤ h → ∃ e ∈ l, e.1 = t ∧ e.2.head = h) →
    (∃ e ∈ l, first ≤ e.1 - (maxSlots - 1) ∧ j.heads.get? e.1 = some e.2.head ∧ floor ≤ e.2.head) →
    j.AcceptsAll maxSlots floor (commands (Sender.trimMessages first l)) ∧
      (j.after (commands (Sender.trimMessages first l))).next = j.next ∧
      (∀ t h, (j.after (commands (Sender.trimMessages first l))).heads.get? t = some h →
        j.heads.get? t = some h ∧ (floor ≤ h → first ≤ t)) ∧
      ∀ t, first ≤ t →
        (j.after (commands (Sender.trimMessages first l))).heads.get? t = j.heads.get? t
  | [], j, _, _, hlast => by
    obtain ⟨e, he, -⟩ := hlast
    cases he
  | e :: l, j, hsorted, hall, hlast => by
    obtain ⟨habove, hsorted'⟩ := List.pairwise_cons.mp hsorted
    unfold Sender.trimMessages
    split
    · rename_i hlt
      let j₁ : Journal := { j with heads := j.heads.erase e.1 }
      have herase : ∀ t h, j₁.heads.get? t = some h → t ≠ e.1 ∧ j.heads.get? t = some h := by
        intro t h hget
        rw [SortedMap.get?_erase] at hget
        split at hget
        · cases hget
        · rename_i hne
          exact ⟨hne, hget⟩
      have hall₁ : ∀ t h, j₁.heads.get? t = some h → floor ≤ h → ∃ e ∈ l, e.1 = t ∧ e.2.head = h := by
        intro t h hget hfloor
        obtain ⟨hne, hget⟩ := herase t h hget
        obtain ⟨e', he', rfl, hhead⟩ := hall t h hget hfloor
        rcases List.mem_cons.mp he' with rfl | he'
        · exact absurd rfl hne
        · exact ⟨e', he', rfl, hhead⟩
      obtain ⟨last, hmem, hle, hlast, hfloor⟩ := hlast
      have hfirst : first ≤ last.1 := hle.trans (Nat.sub_le _ _)
      have hmem' : last ∈ l := by
        rcases List.mem_cons.mp hmem with rfl | hmem
        · exact absurd hlt (not_lt.mpr hfirst)
        · exact hmem
      have hlast₁ : j₁.heads.get? last.1 = some last.2.head := by
        rw [SortedMap.get?_erase, if_neg (habove last hmem').ne', hlast]
      obtain ⟨haccepts, hnext, hsome, hkeep⟩ :=
        accepts_trimMessages hsorted' hall₁ ⟨last, hmem', hle, hlast₁, hfloor⟩
      -- the lowest head of the slots that are left
      have hheads : l.map (·.2.head) ≠ [] := by
        intro hnil
        rw [List.map_eq_nil_iff.mp hnil] at hmem'
        cases hmem'
      obtain ⟨n, hn⟩ := Option.isSome_iff_exists.mp (List.isSome_min?_of_ne_nil hheads)
      have hmin : ∀ e ∈ l, n ≤ e.2.head := fun e he =>
        (List.min?_eq_some_iff.mp hn).2 _ (List.mem_map_of_mem he)
      refine ⟨⟨⟨n, hn, ?_, last.1, last.2.head, hlast₁, hmin last hmem', fun _ =>
        ⟨hfloor, hlt.trans_le hle⟩⟩, haccepts⟩, hnext, ?_, ?_⟩
      · intro t h hget hfloor
        obtain ⟨e', he', rfl, rfl⟩ := hall₁ t h hget hfloor
        exact ⟨hmin e' he', habove e' he'⟩
      · intro t h hget
        obtain ⟨hget, hfirst⟩ := hsome t h hget
        exact ⟨(herase t h hget).2, hfirst⟩
      · intro t hfirst
        refine (hkeep t hfirst).trans ?_
        rw [SortedMap.get?_erase, if_neg (hlt.trans_le hfirst).ne']
    · rename_i hge
      refine ⟨trivial, rfl, ?_, fun t _ => rfl⟩
      intro t h hget
      refine ⟨hget, fun hfloor => ?_⟩
      obtain ⟨e', he', rfl, -⟩ := hall t h hget hfloor
      rcases List.mem_cons.mp he' with rfl | he'
      · exact not_lt.mp hge
      · exact (not_lt.mp hge).trans (habove e' he').le

end Trims

/-! ### The loop of a push -/

/-- The sender in the loop of a push, after at least one of its messages. -/
structure PushView (cfg : Config) (floor slot : ℕ) (j : Journal) (s : Sender) (st : PushState)
    (eff : List Effect) (j' : Journal) : Prop where
  accepts : j.AcceptsAll cfg.storageMaxSlots floor (commands eff)
  after : j.after (commands eff) = j'
  next : j'.next = st.sender.index
  floor_le : floor ≤ j'.next
  le : j.next ≤ j'.next
  head : st.replay.head = ((s.replay.get? slot).getD (.new s.index)).head
  head_lt : st.replay.head < j'.next
  placed : j'.Placed cfg.storageMaxSlots floor slot
  replay : st.sender.replay = s.replay
  slots : ∀ t info, st.sender.slots.get? t = some info →
    info.index < j'.next ∧ (t = slot ∨ t ∈ s.replay.keys ∨ t < s.firstRetained cfg)
  heads : (j'.heads = j.heads ∧ (slot ∈ s.replay.keys ∨ slot < s.firstRetained cfg)) ∨
    (slot ∉ s.replay.keys ∧ j'.heads = j.heads.insert slot st.replay.head)

section Loop

variable {cfg : Config} {floor slot : ℕ} {j : Journal} {s : Sender} {st st' : PushState}
  {eff eff' : List Effect} {sourceName : SourceName} {message : Message}

/-- The index of the slot in the journal, for a slot with an entry in the map. -/
theorem SenderView.head_lt (h : SenderView cfg floor j s) {t : Slot} {info : ReplayInfo}
    (hinfo : s.replay.get? t = some info) : info.head < s.index := by
  rw [← h.next]
  exact h.heads_lt t _ ((h.replay t _).mp ⟨info, hinfo, rfl⟩).1

theorem SenderView.placed (h : SenderView cfg floor j s)
    (hslot : slot ∈ s.replay.keys ∨ s.IsBehind cfg slot) :
    j.Placed cfg.storageMaxSlots floor slot := by
  rcases hslot with hmem | ⟨hlt, habove⟩
  · obtain ⟨info, hinfo⟩ := Option.isSome_iff_exists.mp (SortedMap.mem_keys.mp hmem)
    obtain ⟨hget, hle⟩ := (h.replay slot _).mp ⟨info, hinfo, rfl⟩
    exact Or.inl ⟨info.head, hget, hle, (h.heads_lt slot _ hget).le⟩
  · refine Or.inr ⟨fun t n hget hle => ?_, ?_⟩
    · obtain ⟨info, hinfo, -⟩ := (h.replay t n).mpr ⟨hget, hle⟩
      exact hlt.trans_le (habove t (SortedMap.mem_keys_of_get? hinfo))
    · obtain ⟨last, info, hinfo, hless⟩ := exists_newest hlt
      obtain ⟨hget, hle⟩ := (h.replay last _).mp ⟨info, hinfo, rfl⟩
      exact ⟨last, info.head, hget, hle, hless⟩

/-- The first message of a push. -/
theorem SenderView.firstMessage (hstorage : cfg.storage.isSome) (h : SenderView cfg floor j s)
    (hst : st.replay = (s.replay.get? slot).getD (.new s.index)) (hslots : st.sender.slots = s.slots)
    (hreplay : st.sender.replay = s.replay) (hindex : st.sender.index = s.index)
    (hstep : st.pushMessage cfg slot sourceName message = .ok (st', eff)) :
    ∃ j', PushView cfg floor slot j s st' eff j' := by
  have hnext : j.next = st.sender.index := h.next.trans hindex.symm
  have hfloor : floor ≤ j.next := by
    rw [h.next]
    exact h.floor_le
  -- the first index of the slot, and what is known of the slot
  have hhead : st.replay.head = j.next ∧ st.replay.messages = none ∧ slot ∉ s.replay.keys ∨
      st.replay.head < j.next ∧ slot ∈ s.replay.keys := by
    rw [hst, h.next]
    cases hget : s.replay.get? slot with
    | none => exact Or.inl ⟨rfl, rfl, SortedMap.get?_eq_none.mp hget⟩
    | some info => exact Or.inr ⟨h.head_lt hget, SortedMap.mem_keys_of_get? hget⟩
  have hfirst : (st.slotInfo slot).index < j.next ∧ (slot ∈ s.replay.keys ∨ s.IsBehind cfg slot) ∨
      (st.slotInfo slot).index = st.replay.head := by
    unfold PushState.slotInfo
    rw [hslots, h.next]
    cases hget : s.slots.get? slot with
    | none => exact Or.inr rfl
    | some info => exact Or.inl (h.slots slot info hget)
  have hready : j.Ready cfg.storageMaxSlots floor slot (st.slotInfo slot).index := by
    refine ⟨hfloor, ?_⟩
    rcases hfirst with ⟨hlt, hknown⟩ | heq
    · exact Or.inr ⟨hlt, h.placed hknown⟩
    · rcases hhead with ⟨heq', -, hnew⟩ | ⟨hlt, hmem⟩
      · refine Or.inl ⟨heq.trans heq', fun n hget => not_le.mp fun hle => ?_⟩
        obtain ⟨info, hinfo, -⟩ := (h.replay slot n).mpr ⟨hget, hle⟩
        exact hnew (SortedMap.mem_keys_of_get? hinfo)
      · rw [heq]
        exact Or.inr ⟨hlt, h.placed (Or.inl hmem)⟩
  obtain ⟨j', hrecords, hnext', hready', hlt, hsame, -, hreplay', hslots'⟩ :=
    PushState.records_pushMessage cfg.storageMaxSlots floor hnext hready hstep
  have hhead_lt : st.replay.head < j'.next := by
    rcases hhead with ⟨heq, hnone, -⟩ | ⟨hless, -⟩
    · rw [heq]
      exact hlt hstorage hnone
    · exact hless.trans_le hrecords.le
  have hindex_lt : (st.slotInfo slot).index < j'.next := by
    rcases hfirst with ⟨hless, -⟩ | heq
    · exact hless.trans_le hrecords.le
    · rw [heq]
      exact hhead_lt
  have hplaced : j'.Placed cfg.storageMaxSlots floor slot := by
    rcases hready'.2 with ⟨heq, -⟩ | ⟨-, hplaced⟩
    · exact absurd heq hindex_lt.ne
    · exact hplaced
  refine ⟨j', hrecords.accepts, hrecords.after, hnext', hfloor.trans hrecords.le, hrecords.le,
    by rw [hsame, hst], by rw [hsame]; exact hhead_lt, hplaced, hreplay'.trans hreplay, ?_, ?_⟩
  · intro t info hget
    rcases hslots' t info hget with ⟨rfl, heq⟩ | hget
    · rw [heq]
      exact ⟨hindex_lt, Or.inl rfl⟩
    · rw [hslots] at hget
      obtain ⟨hless, hknown⟩ := h.slots t info hget
      rw [← h.next] at hless
      exact ⟨hless.trans_le hrecords.le, Or.inr (hknown.imp_right And.left)⟩
  · rw [hsame]
    rcases hfirst with ⟨hless, hknown⟩ | heq
    · exact Or.inl ⟨hrecords.heads.trans (if_neg fun h => absurd h.1 hless.ne),
        hknown.imp_right And.left⟩
    · rcases hhead with ⟨heq', hnone, hnew⟩ | ⟨hless, hknown⟩
      · refine Or.inr ⟨hnew, hrecords.heads.trans ?_⟩
        rw [heq, if_pos ⟨heq', hlt hstorage hnone⟩]
      · rw [← heq] at hless
        exact Or.inl ⟨hrecords.heads.trans (if_neg fun h => absurd h.1 hless.ne), Or.inl hknown⟩

/-- Any other message of a push. -/
theorem PushView.nextMessage {j' : Journal} (h : PushView cfg floor slot j s st eff j')
    (hstep : st.pushMessage cfg slot sourceName message = .ok (st', eff')) :
    ∃ j'', PushView cfg floor slot j s st' (eff ++ eff') j'' := by
  have hfirst : (st.slotInfo slot).index < j'.next := by
    unfold PushState.slotInfo
    cases hget : st.sender.slots.get? slot with
    | none => exact h.head_lt
    | some info => exact (h.slots slot info hget).1
  obtain ⟨j'', hrecords, hnext, hready, -, hsame, -, hreplay, hslots⟩ :=
    PushState.records_pushMessage cfg.storageMaxSlots floor h.next
      ⟨h.floor_le, Or.inr ⟨hfirst, h.placed⟩⟩ hstep
  have hheads : j''.heads = j'.heads :=
    hrecords.heads.trans (if_neg fun h => absurd h.1 hfirst.ne)
  have hplaced : j''.Placed cfg.storageMaxSlots floor slot := by
    rcases hready.2 with ⟨heq, -⟩ | ⟨-, hplaced⟩
    · exact absurd heq (hfirst.trans_le hrecords.le).ne
    · exact hplaced
  refine ⟨j'', ?_, ?_, hnext, h.floor_le.trans hrecords.le, h.le.trans hrecords.le,
    by rw [hsame, h.head], ?_, hplaced, hreplay.trans h.replay, ?_, ?_⟩
  · rw [commands_append]
    exact Journal.acceptsAll_append.mpr ⟨h.accepts, by rw [h.after]; exact hrecords.accepts⟩
  · rw [commands_append, Journal.after_append, h.after, hrecords.after]
  · rw [hsame]
    exact h.head_lt.trans_le hrecords.le
  · intro t info hget
    rcases hslots t info hget with ⟨rfl, heq⟩ | hget
    · refine ⟨?_, Or.inl rfl⟩
      rw [heq]
      exact hfirst.trans_le hrecords.le
    · obtain ⟨hless, hknown⟩ := h.slots t info hget
      exact ⟨hless.trans_le hrecords.le, hknown⟩
  · rw [hheads, hsame]
    exact h.heads

end Loop

/-! ### A push -/

section Push

variable {cfg : Config} {floor : ℕ} {j : Journal} {s s' : Sender} {input : PushInput}
  {out : List Effect}

/-- The sender with the slot of the push in its map, before the retention. -/
def PushState.entered (st : PushState) (slot : Slot) : Sender :=
  { st.sender with replay := st.sender.replay.insert slot st.replay }

theorem finish_storage (hstorage : cfg.storage.isSome) (slot : Slot) (st : PushState) :
    (st.finish cfg slot).1.index = st.sender.index ∧
      (st.finish cfg slot).1.replay =
        (st.entered slot).replay.popWhile (· < (st.entered slot).firstRetained cfg) ∧
      (st.finish cfg slot).2 =
        Sender.trimMessages ((st.entered slot).firstRetained cfg) (st.entered slot).replay.entries := by
  unfold PushState.finish Sender.retain
  dsimp only
  rw [if_pos hstorage]
  cases st.cleanAfterFinalized <;> exact ⟨rfl, rfl, rfl⟩

/-- No slot info is new at the end of a push. -/
theorem finish_slots {slot : Slot} {st : PushState} {t : Slot} {info : SlotInfo}
    (h : (st.finish cfg slot).1.slots.get? t = some info) : st.sender.slots.get? t = some info := by
  rw [(finishStep cfg slot st).slots, SortedMap.get?_popExcess] at h
  split at h
  · cases h
  · rw [Sender.get?_cleaned_slots] at h
    split at h
    · cases h
    · exact h

/-- More slots in the map, later retention. -/
theorem firstRetained_mono {s₁ s₂ : Sender} (h : ∀ t ∈ s₁.replay.keys, t ∈ s₂.replay.keys) :
    s₁.firstRetained cfg ≤ s₂.firstRetained cfg := by
  cases hlast : s₁.replay.lastKey? with
  | none =>
    unfold Sender.firstRetained
    rw [hlast]
    exact Nat.zero_le _
  | some last =>
    obtain ⟨last', hlast', -, hle⟩ :=
      exists_lastKey (h last (SortedMap.lastKey?_eq_some hlast).1)
    rw [firstRetained_eq hlast, firstRetained_eq hlast']
    exact Nat.sub_le_sub_right hle _

/-- The map after the retention. -/
structure Retained (cfg : Config) (s s' : Sender) : Prop where
  firstRetained : s'.firstRetained cfg = s.firstRetained cfg
  replay : ∀ t, s'.replay.get? t = if t < s.firstRetained cfg then none else s.replay.get? t
  last : s.replay.keys ≠ [] → ∃ last info, s.replay.get? last = some info ∧
    s.firstRetained cfg ≤ last ∧ s'.replay.lastKey? = some last ∧ s.replay.lastKey? = some last

theorem retained_of_popWhile
    (h : s'.replay = s.replay.popWhile (· < s.firstRetained cfg)) : Retained cfg s s' := by
  have hget : ∀ t, s'.replay.get? t = if t < s.firstRetained cfg then none else s.replay.get? t := by
    intro t
    rw [h, SortedMap.get?_popWhile _ (fun a b hab hb => by simp at hb ⊢; order)]
    simp
  have hmem : ∀ t, t ∈ s'.replay.keys ↔ s.firstRetained cfg ≤ t ∧ t ∈ s.replay.keys := by
    intro t
    rw [SortedMap.mem_keys, SortedMap.mem_keys, hget]
    by_cases hlt : t < s.firstRetained cfg
    · simp [hlt]
    · simp [hlt, not_lt.mp hlt]
  have hlast : s.replay.keys ≠ [] → ∃ last, s.firstRetained cfg ≤ last ∧
      s.replay.lastKey? = some last ∧ s'.replay.lastKey? = some last := by
    intro hne
    obtain ⟨t, ht⟩ := List.exists_mem_of_ne_nil _ hne
    obtain ⟨last, hlast, hin, -⟩ := exists_lastKey ht
    have hfirst : s.firstRetained cfg ≤ last := by
      rw [firstRetained_eq hlast]
      exact Nat.sub_le _ _
    obtain ⟨last', hlast', hin', hle⟩ := exists_lastKey ((hmem last).mpr ⟨hfirst, hin⟩)
    refine ⟨last, hfirst, hlast, ?_⟩
    rw [hlast']
    rcases (SortedMap.lastKey?_eq_some hlast).2 last' ((hmem last').mp hin').2 with heq | hlt
    · rw [heq]
    · exact absurd hlt (not_lt.mpr hle)
  refine ⟨?_, hget, ?_⟩
  · by_cases hne : s.replay.keys = []
    · have hne' : s'.replay.keys = [] := by
        rw [List.eq_nil_iff_forall_not_mem]
        intro t ht
        have := ((hmem t).mp ht).2
        rw [hne] at this
        cases this
      unfold Sender.firstRetained
      rw [SortedMap.lastKey?_eq_none.mpr hne, SortedMap.lastKey?_eq_none.mpr hne']
    · obtain ⟨last, -, hlast, hlast'⟩ := hlast hne
      rw [firstRetained_eq hlast, firstRetained_eq hlast']
  · intro hne
    obtain ⟨last, hfirst, hlast, hlast'⟩ := hlast hne
    obtain ⟨info, hinfo⟩ :=
      Option.isSome_iff_exists.mp (SortedMap.mem_keys.mp (SortedMap.lastKey?_eq_some hlast).1)
    exact ⟨last, info, hinfo, hfirst, hlast', hlast⟩

section Finish

variable {slot : Slot} {st : PushState} {eff : List Effect} {j' : Journal}

/-- The slot of the push is in the map, or was. -/
theorem PushView.firstRetained_le (hp : PushView cfg floor slot j s st eff j') :
    s.firstRetained cfg ≤ (st.entered slot).firstRetained cfg := by
  refine firstRetained_mono fun t ht => ?_
  show t ∈ (st.sender.replay.insert slot st.replay).keys
  rw [hp.replay]
  exact SortedMap.mem_keys_insert.mpr (Or.inr ht)

/-- The map with the slot of the push in it has all slots of the journal. -/
theorem PushView.known (h : SenderView cfg floor j s) (hp : PushView cfg floor slot j s st eff j')
    {t n : ℕ} (hget : j'.heads.get? t = some n) (hle : floor ≤ n) :
    ∃ info, (st.entered slot).replay.get? t = some info ∧ info.head = n := by
  unfold PushState.entered
  dsimp only
  rw [hp.replay, SortedMap.get?_insert]
  have hold : j.heads.get? t = some n → t = slot → st.replay.head = n := by
    rintro hget rfl
    obtain ⟨info, hinfo, rfl⟩ := (h.replay t n).mpr ⟨hget, hle⟩
    rw [hp.head, hinfo]
    rfl
  rcases hp.heads with ⟨heq, -⟩ | ⟨-, heq⟩
  · rw [heq] at hget
    split
    · rename_i ht
      exact ⟨st.replay, rfl, hold hget ht⟩
    · exact (h.replay t n).mpr ⟨hget, hle⟩
  · rw [heq, SortedMap.get?_insert] at hget
    split
    · rename_i ht
      rw [if_pos ht] at hget
      exact ⟨st.replay, rfl, Option.some.inj hget⟩
    · rename_i ht
      rw [if_neg ht] at hget
      exact (h.replay t n).mpr ⟨hget, hle⟩

/-- A slot of the map that is retained has its head in the journal. -/
theorem PushView.entry (h : SenderView cfg floor j s) (hp : PushView cfg floor slot j s st eff j')
    {t : Slot} {info : ReplayInfo} (hinfo : (st.entered slot).replay.get? t = some info)
    (hfirst : s.firstRetained cfg ≤ t) : j'.heads.get? t = some info.head ∧ floor ≤ info.head := by
  unfold PushState.entered at hinfo
  dsimp only at hinfo
  rw [hp.replay, SortedMap.get?_insert] at hinfo
  have hold : ∀ info, s.replay.get? t = some info →
      j.heads.get? t = some info.head ∧ floor ≤ info.head :=
    fun info hinfo => (h.replay t _).mp ⟨info, hinfo, rfl⟩
  split at hinfo
  · rename_i ht
    obtain rfl := Option.some.inj hinfo
    rcases hp.heads with ⟨heq, hknown⟩ | ⟨hnew, heq⟩
    · rcases hknown with hmem | hlt
      · obtain ⟨info, hinfo⟩ := Option.isSome_iff_exists.mp (SortedMap.mem_keys.mp hmem)
        rw [heq, hp.head, hinfo]
        exact hold info (ht ▸ hinfo)
      · rw [← ht] at hlt
        exact absurd hlt (not_lt.mpr hfirst)
    · rw [heq, SortedMap.get?_insert, if_pos ht, hp.head, SortedMap.get?_eq_none.mpr hnew]
      exact ⟨rfl, h.floor_le⟩
  · rename_i ht
    obtain ⟨hget, hle⟩ := hold info hinfo
    refine ⟨?_, hle⟩
    rcases hp.heads with ⟨heq, -⟩ | ⟨-, heq⟩
    · rw [heq, hget]
    · rw [heq, SortedMap.get?_insert, if_neg ht, hget]

/-- The trims of the push. -/
theorem PushView.trims (h : SenderView cfg floor j s) (hp : PushView cfg floor slot j s st eff j') :
    let trims := commands (Sender.trimMessages ((st.entered slot).firstRetained cfg)
      (st.entered slot).replay.entries)
    j'.AcceptsAll cfg.storageMaxSlots floor trims ∧ (j'.after trims).next = j'.next ∧
      (∀ t n, (j'.after trims).heads.get? t = some n →
        j'.heads.get? t = some n ∧ (floor ≤ n → (st.entered slot).firstRetained cfg ≤ t)) ∧
      ∀ t, (st.entered slot).firstRetained cfg ≤ t →
        (j'.after trims).heads.get? t = j'.heads.get? t := by
  refine accepts_trimMessages cfg.storageMaxSlots (st.entered slot).replay.sorted ?_ ?_
  · intro t n hget hle
    obtain ⟨info, hinfo, hhead⟩ := hp.known h hget hle
    exact ⟨⟨t, info⟩, SortedMap.get?_eq_some.mp hinfo, rfl, hhead⟩
  · have hmem : slot ∈ (st.entered slot).replay.keys :=
      SortedMap.mem_keys_insert.mpr (Or.inl rfl)
    obtain ⟨last, hlast, hin, -⟩ := exists_lastKey hmem
    obtain ⟨info, hinfo⟩ := Option.isSome_iff_exists.mp (SortedMap.mem_keys.mp hin)
    have hfirst : (st.entered slot).firstRetained cfg = last - (cfg.storageMaxSlots - 1) :=
      firstRetained_eq hlast
    have hle : s.firstRetained cfg ≤ last :=
      hp.firstRetained_le.trans (hfirst.le.trans (Nat.sub_le _ _))
    exact ⟨⟨last, info⟩, SortedMap.get?_eq_some.mp hinfo, hfirst.le, hp.entry h hinfo hle⟩

/-- What a push does to the map and to the journal. -/
structure Pushed (cfg : Config) (floor slot : ℕ) (j : Journal) (s s' : Sender)
    (out : List Effect) : Prop where
  accepts : j.AcceptsAll cfg.storageMaxSlots floor (commands out)
  view : SenderView cfg floor (j.after (commands out)) s'
  covered : ∀ t i, Covered cfg s t i → Covered cfg s' t i
  recorded : out = [] ∨ ∀ i, s.index ≤ i → Covered cfg s' slot i

/-- The retention of the map with the slot of the push in it. -/
theorem PushView.finish (hstorage : cfg.storage.isSome) (h : SenderView cfg floor j s)
    (hp : PushView cfg floor slot j s st eff j') :
    Pushed cfg floor slot j s (st.finish cfg slot).1 (eff ++ (st.finish cfg slot).2) := by
  obtain ⟨hindex, hreplay, htrims⟩ := finish_storage hstorage slot st
  obtain ⟨haccepts, hnext, hsome, hkeep⟩ := hp.trims h
  have hret : Retained cfg (st.entered slot) (st.finish cfg slot).1 := retained_of_popWhile hreplay
  have hafter : j.after (commands (eff ++ (st.finish cfg slot).2)) =
      j'.after (commands (Sender.trimMessages ((st.entered slot).firstRetained cfg)
        (st.entered slot).replay.entries)) := by
    rw [commands_append, Journal.after_append, hp.after, htrims]
  have habove : ∀ t ∈ (st.finish cfg slot).1.replay.keys,
      (st.entered slot).firstRetained cfg ≤ t := by
    intro t ht
    by_contra hlt
    obtain ⟨info, hinfo⟩ := Option.isSome_iff_exists.mp (SortedMap.mem_keys.mp ht)
    rw [hret.replay, if_pos (not_le.mp hlt)] at hinfo
    cases hinfo
  -- an entry of the map stays, or its slot is behind
  have hentry : ∀ t i, (∃ info, (st.entered slot).replay.get? t = some info ∧ info.head ≤ i) ∨
      t < (st.entered slot).firstRetained cfg → Covered cfg (st.finish cfg slot).1 t i := by
    intro t i hcov
    by_cases hlt : t < (st.entered slot).firstRetained cfg
    · exact Or.inr ⟨hret.firstRetained.symm ▸ hlt, fun k hk => hlt.trans_le (habove k hk)⟩
    · obtain ⟨info, hinfo, hle⟩ := hcov.resolve_right hlt
      exact Or.inl ⟨info, by rw [hret.replay, if_neg hlt, hinfo], hle⟩
  have hself : (st.entered slot).replay.get? slot = some st.replay := SortedMap.get?_insert_self ..
  refine ⟨?_, ⟨?_, ?_, ?_, ?_, ?_⟩, ?_, Or.inr ?_⟩
  · rw [commands_append, htrims]
    exact Journal.acceptsAll_append.mpr ⟨hp.accepts, by rw [hp.after]; exact haccepts⟩
  · rw [hafter, hnext, hp.next, hindex]
  · rw [hindex, ← hp.next]
    exact hp.floor_le
  · intro t n hget
    rw [hafter] at hget ⊢
    rw [hnext]
    have hget := (hsome t n hget).1
    rcases hp.heads with ⟨heq, -⟩ | ⟨-, heq⟩
    · rw [heq] at hget
      exact (h.heads_lt t n hget).trans_le hp.le
    · rw [heq, SortedMap.get?_insert] at hget
      split at hget
      · obtain rfl := Option.some.inj hget
        exact hp.head_lt
      · exact (h.heads_lt t n hget).trans_le hp.le
  · intro t n
    rw [hafter]
    constructor
    · rintro ⟨info, hinfo, rfl⟩
      have hfirst := habove t (SortedMap.mem_keys_of_get? hinfo)
      rw [hret.replay, if_neg (not_lt.mpr hfirst)] at hinfo
      rw [hkeep t hfirst]
      exact hp.entry h hinfo (hp.firstRetained_le.trans hfirst)
    · rintro ⟨hget, hle⟩
      obtain ⟨hget, hfirst⟩ := hsome t n hget
      rw [hret.replay, if_neg (not_lt.mpr (hfirst hle))]
      exact hp.known h hget hle
  · intro t info hinfo
    obtain ⟨hlt, hknown⟩ := hp.slots t info (finish_slots hinfo)
    refine ⟨by rw [hindex, ← hp.next]; exact hlt, ?_⟩
    by_cases hless : t < (st.entered slot).firstRetained cfg
    · refine Or.inr ⟨hret.firstRetained.symm ▸ hless, fun k hk => ?_⟩
      rw [hret.firstRetained]
      exact habove k hk
    · refine Or.inl ?_
      rw [SortedMap.mem_keys, hret.replay, if_neg hless, ← SortedMap.mem_keys]
      refine SortedMap.mem_keys_insert.mpr ?_
      rw [hp.replay]
      rcases hknown with rfl | hmem | hbehind
      · exact Or.inl rfl
      · exact Or.inr hmem
      · exact absurd (hbehind.trans_le hp.firstRetained_le) hless
  · rintro t i (⟨info, hinfo, hle⟩ | ⟨hbehind, -⟩)
    · refine hentry t i (Or.inl ?_)
      unfold PushState.entered
      dsimp only
      rw [hp.replay, SortedMap.get?_insert]
      split
      · rename_i ht
        subst ht
        refine ⟨st.replay, rfl, ?_⟩
        rw [hp.head, hinfo]
        exact hle
      · exact ⟨info, hinfo, hle⟩
    · exact hentry t i (Or.inr (hbehind.trans_le hp.firstRetained_le))
  · intro i hle
    refine hentry slot i (Or.inl ⟨st.replay, hself, ?_⟩)
    rw [hp.head]
    cases hinfo : s.replay.get? slot with
    | none => exact hle
    | some info => exact (h.head_lt hinfo).le.trans hle

end Finish

/-- **A push and the journal.** -/
theorem SenderView.push (hstorage : cfg.storage.isSome) (h : SenderView cfg floor j s)
    (hpush : s.push cfg input = .ok (s', out)) : Pushed cfg floor input.slot j s s' out := by
  refine Sender.push_rule (P := fun s' out => Pushed cfg floor input.slot j s s' out)
    (L := fun st eff ms => (st.replay = (s.replay.get? input.slot).getD (.new s.index) ∧
        st.sender.slots = s.slots ∧ st.sender.replay = s.replay ∧ st.sender.index = s.index ∧
        eff = [] ∧ ms ≠ []) ∨
      ∃ j', PushView cfg floor input.slot j s st eff j') ?_ ?_ ?_ ?_ hpush
  · exact ⟨trivial, h, fun t i => id, Or.inl rfl⟩
  · intro s₁ messages hfloor hcleared hdedup
    have hframe : s₁.slots = s.slots ∧ s₁.replay = s.replay ∧ s₁.index = s.index := by
      rcases Sender.dedupMessage_cases hdedup with ⟨-, rfl, -⟩ | ⟨-, dedup, -, rfl⟩ <;>
        exact ⟨rfl, rfl, rfl⟩
    obtain ⟨hslots, hreplay, hindex⟩ := hframe
    have hfirst : s₁.firstRetained cfg = s.firstRetained cfg := by
      unfold Sender.firstRetained
      rw [hreplay]
    refine ⟨fun _ => ⟨trivial, ⟨?_, ?_, h.heads_lt, ?_, ?_⟩, ?_, Or.inl rfl⟩, fun hne => Or.inl ?_⟩
    · exact h.next.trans hindex.symm
    · exact hindex.symm ▸ h.floor_le
    · rw [hreplay]
      exact h.replay
    · unfold Sender.IsBehind
      rw [hslots, hreplay, hindex, hfirst]
      exact h.slots
    · unfold Covered
      rw [hreplay, hfirst]
      exact fun t i => id
    · exact ⟨by rw [hreplay, hindex], hslots, hreplay, hindex, rfl, hne⟩
  · rintro st eff m ms st' eff' (⟨hst, hslots, hreplay, hindex, rfl, -⟩ | ⟨j', hp⟩) hstep
    · exact Or.inr (h.firstMessage hstorage hst hslots hreplay hindex hstep)
    · exact Or.inr (hp.nextMessage hstep)
  · rintro st eff (⟨-, -, -, -, -, hno⟩ | ⟨j', hp⟩)
    · exact absurd rfl hno
    · exact hp.finish hstorage h

end Push

end Richat
