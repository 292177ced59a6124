import Richat.Plugin.ChannelReceiver

/-!
# The slots of the plugin channel

A subscription from a slot starts at the head of the slot, the position of the first message of the slot since
the slot is known. What comes before it is not looked at: messages of later slots, and those of the slot itself
that are gone when the slot comes back. `Ascends` says which messages keep the heads in the order of the slots,
and `Chan.subscribe_complete` that a subscription then has everything from its slot on.

`SlotsInv` speaks of the state in the middle of a push as well, with the highest slot that has lost a message
and is not removed yet.
-/

namespace Richat.Plugin

open Lib

variable {E C : Type}

/-! ### The slots after the parts of a push -/

theorem State.trackSlot_get? (state : State) (message : ProtobufMessage E C) (t : Slot) :
    (state.trackSlot message).get? t =
      if message.getSlot = some t then
        some (((state.slots.get? t).getD ⟨state.tail, none, false, false⟩).update message)
      else state.slots.get? t := by
  rw [trackSlot]
  split
  · rename_i slot hslot
    rw [hslot, SortedMap.get?_insert]
    by_cases ht : t = slot
    · rw [if_pos ht, if_pos (by rw [ht]), ht]
    · rw [if_neg ht, if_neg fun heq => ht (Option.some.inj heq).symm]
  · rename_i hnone
    rw [hnone, if_neg (by simp)]

@[simp] theorem SlotInfo.update_head (entry : SlotInfo) (message : ProtobufMessage E C) :
    (entry.update message).head = entry.head := by
  cases message <;> rfl

theorem Shared.removeSlots_get? (s : Shared) (removed : Option Slot) (t : Slot) :
    (s.removeSlots removed).state.slots.get? t =
      if ∃ r, removed = some r ∧ t ≤ r then none else s.state.slots.get? t := by
  cases removed with
  | none => simp [removeSlots]
  | some upto =>
    show (s.state.slots.popWhile (· ≤ upto)).get? t = _
    rw [SortedMap.get?_popWhile]
    · simp
    · intro a b hab hb
      simp only [decide_eq_true_eq] at hb ⊢
      exact hab.le.trans hb

/-! ### Which messages keep the heads in order -/

/-- A message of a known slot, or of one above all slots so far. The slot `0` does not come after a first message
that has no slot, which is attached to it. -/
def Ascends (log : List (Pushed E C)) (s : Shared) (message : ProtobufMessage E C) : Prop :=
  ∀ slot, message.getSlot = some slot →
    (s.state.slots.contains slot = true ∨ ∀ p ∈ log, ∀ u, p.message.getSlot = some u → u < slot) ∧
    (slot = 0 → ∀ p, log.head? = some p → p.message.getSlot ≠ none)

/-- The message that is stored next ascends. -/
def Chan.Ascends (s : Chan E C) (events : List (ChanEvent E C)) : ChanAction E C → Prop
  | .store => ∀ push message messages, s.pushing = some push → push.messages = message :: messages →
      Plugin.Ascends (pushedItems events) s.shared message
  | _ => True

/-- A message of a slot not below `slot` was evicted. -/
def Evicted (log : List (Pushed E C)) (s : Shared) (slot : Slot) : Prop :=
  ∃ p ∈ log, p.pos < s.state.head ∧ ∃ u, p.message.getSlot = some u ∧ slot ≤ u

/-- The slots after the messages `log`; those up to `removed` have lost a message. -/
structure SlotsInv (k : ℕ) (log : List (Pushed E C)) (s : Shared) (removed : Option Slot) : Prop where
  ring : RingInv k log s
  attached : ∀ p ∈ log, p.message.getSlot = some p.slot ∨
    p.message.getSlot = none ∧
      ((∃ q ∈ log, q.pos < p.pos ∧ q.message.getSlot = some p.slot) ∨ p.slot = 0)
  lost : ∀ r, removed = some r → ∃ p ∈ log, p.pos < s.state.head ∧ p.slot = r
  head : ∀ t info, s.state.slots.get? t = some info →
    (∃ p ∈ log, p.pos = info.head ∧ p.message.getSlot = some t) ∧
      (s.state.head ≤ info.head ∨ ∃ r, removed = some r ∧ t ≤ r)
  first : ∀ t info, s.state.slots.get? t = some info →
    ∀ p ∈ log, ∀ u, p.message.getSlot = some u → t ≤ u → info.head ≤ p.pos
  gone : ∀ t, s.state.slots.get? t = none → ∀ p ∈ log, p.message.getSlot = some t → Evicted log s t
  zero : ∀ p, log.head? = some p → p.message.getSlot = none → ∀ q ∈ log, q.message.getSlot ≠ some 0

namespace RingInv

variable {k : ℕ} {log : List (Pushed E C)} {s : Shared} {p : Pushed E C}

theorem pos_mem (h : RingInv k log s) (hp : p ∈ log) :
    2 ^ k + 1 ≤ p.pos ∧ p.pos ≤ s.state.tail := by
  obtain ⟨i, hi⟩ := List.mem_iff_getElem?.mp hp
  have hlt := (List.getElem?_eq_some_iff.mp hi).1
  have hpos := h.pos i p hi
  have htail := h.tail_eq
  omega

theorem pos_head (h : RingInv k log s) (hlog : log.head? = some p) : p.pos = 2 ^ k + 1 := by
  rw [List.head?_eq_getElem?] at hlog
  exact h.pos 0 p hlog

/-- A message is known by its position. -/
theorem eq_of_pos (h : RingInv k log s) (hp : p ∈ log) {q : Pushed E C} (hq : q ∈ log)
    (heq : p.pos = q.pos) : p = q := by
  obtain ⟨i, hi⟩ := List.mem_iff_getElem?.mp hp
  obtain ⟨j, hj⟩ := List.mem_iff_getElem?.mp hq
  have hpi := h.pos i p hi
  have hqj := h.pos j q hj
  obtain rfl : i = j := by omega
  exact Option.some.inj (hi.symm.trans hj)

/-- The oldest message of the window. -/
theorem oldest (h : RingInv k log s) (hget : log[s.state.head - (2 ^ k + 1)]? = some p) :
    p ∈ log ∧ p.pos = s.state.head := by
  have hfirst := h.keeps.first_le
  have hpos := h.pos _ _ hget
  exact ⟨List.mem_of_getElem? hget, by omega⟩

end RingInv

theorem Evicted.mono {log log' : List (Pushed E C)} {s s' : Shared} {t : Slot} (h : Evicted log s t)
    (hlog : ∀ p ∈ log, p ∈ log') (hhead : s.state.head ≤ s'.state.head) : Evicted log' s' t := by
  obtain ⟨p, hp, hlt, hslot⟩ := h
  exact ⟨p, hlog p hp, hlt.trans_le hhead, hslot⟩

namespace SlotsInv

variable {k : ℕ} {log : List (Pushed E C)} {s s' : Shared} {message : ProtobufMessage E C} {data : Bytes}
  {removed removed' : Option Slot}

theorem new {config : ConfigChannel} (hk : nextPowerOfTwo config.maxMessages = 2 ^ k) :
    SlotsInv (E := E) (C := C) k [] (.new config) none where
  ring := .new hk
  attached := by simp
  lost := by simp
  head := by
    intro t info h
    cases h
  first := by
    intro t info h
    cases h
  gone := by simp
  zero := by simp

/-- Some message of a slot not below the slot of an evicted message was evicted. -/
theorem evicted (h : SlotsInv k log s removed) {p : Pushed E C} (hp : p ∈ log)
    (hlt : p.pos < s.state.head) {t : Slot} (ht : t ≤ p.slot) (hknown : ∃ q ∈ log, q.message.getSlot = some t) :
    Evicted log s t := by
  rcases h.attached p hp with hslot | ⟨-, ⟨q, hq, hqlt, hslot⟩ | hzero⟩
  · exact ⟨p, hp, hlt, p.slot, hslot, ht⟩
  · exact ⟨q, hq, hqlt.trans hlt, p.slot, hslot, ht⟩
  · -- the slot is `0`: the first message of the log was evicted, and it has a slot
    obtain rfl : t = 0 := Nat.le_zero.mp (hzero ▸ ht)
    obtain ⟨q, hq, hslot⟩ := hknown
    obtain ⟨x, l, rfl⟩ := List.exists_cons_of_ne_nil (List.ne_nil_of_mem hq)
    have hfirst := h.ring.pos_head rfl
    have hpos := (h.ring.pos_mem hp).1
    rcases hx : x.message.getSlot with _ | u
    · exact absurd hslot (h.zero x rfl hx q hq)
    · exact ⟨x, List.mem_cons_self, by omega, u, hx, Nat.zero_le _⟩

/-- A message is stored. -/
theorem store (h : SlotsInv k log s none) (hasc : Ascends log s message) :
    SlotsInv k (log ++ [s.pushed message data]) (s.store message data).1 (s.store message data).2 := by
  obtain ⟨hring, hhead⟩ := @RingInv.store E C k log s message data h.ring
  obtain ⟨htail, -, hslots, -⟩ := s.store_fields message data
  have hle : s.state.head ≤ (s.store message data).1.state.head := by
    rcases hhead with ⟨heq, -⟩ | ⟨old, -, heq, -⟩ <;> omega
  have hget : ∀ t, (s.store message data).1.state.slots.get? t = if message.getSlot = some t then
      some (((s.state.slots.get? t).getD ⟨s.state.tail + 1, none, false, false⟩).update message)
      else s.state.slots.get? t := by
    intro t
    rw [hslots]
    exact State.trackSlot_get? _ message t
  have hold : ∀ p ∈ log, p ∈ log ++ [s.pushed message data] := fun p => List.mem_append_left _
  have hnew : s.pushed message data ∈ log ++ [s.pushed message data] :=
    List.mem_append_right _ (List.mem_singleton_self _)
  -- the head of a slot after the message
  have hhead' : ∀ t info, s.state.slots.get? t = some info → info.head ≤ s.state.tail ∧
      ((s.store message data).1.state.head ≤ info.head ∨
        ∃ r, (s.store message data).2 = some r ∧ t ≤ r) := by
    intro t info hinfo
    obtain ⟨⟨p, hp, hpos, hslot⟩, hkept⟩ := h.head t info hinfo
    have hkept : s.state.head ≤ info.head := hkept.resolve_right (by simp)
    refine ⟨hpos ▸ (h.ring.pos_mem hp).2, ?_⟩
    rcases hhead with ⟨heq, -⟩ | ⟨old, hget, heq, hremoved⟩
    · exact .inl (heq ▸ hkept)
    · obtain ⟨hmem, hoff⟩ := h.ring.oldest hget
      rcases Nat.lt_or_ge s.state.head info.head with hlt | hge
      · exact .inl (by omega)
      · obtain rfl := h.ring.eq_of_pos hp hmem (by omega)
        right
        rcases h.attached p hmem with hatt | ⟨hnone, -⟩
        · exact ⟨p.slot, hremoved, (Option.some.inj (hslot.symm.trans hatt)).le⟩
        · rw [hslot] at hnone
          cases hnone
  constructor
  · exact hring
  · intro p hp
    rcases List.mem_append.mp hp with hp | hp
    · refine (h.attached p hp).imp_right fun ⟨hnone, hatt⟩ => ⟨hnone, hatt.imp_left ?_⟩
      rintro ⟨q, hq, hlt, hslot⟩
      exact ⟨q, hold q hq, hlt, hslot⟩
    · obtain rfl := List.mem_singleton.mp hp
      show message.getSlot = some (s.state.messageSlot message) ∨ _
      rw [State.messageSlot]
      rcases hslot : message.getSlot with _ | slot
      · right
        refine ⟨hslot, ?_⟩
        show (∃ q ∈ log ++ [s.pushed message data], q.pos < s.state.tail + 1 ∧
          q.message.getSlot = some (s.state.messageSlot message)) ∨ s.state.messageSlot message = 0
        rw [State.messageSlot, hslot]
        rcases hlast : s.state.slots.lastKey? with _ | t
        · exact .inr rfl
        · obtain ⟨info, hinfo⟩ := Option.isSome_iff_exists.mp
            (SortedMap.mem_keys.mp (SortedMap.lastKey?_eq_some hlast).1)
          obtain ⟨⟨q, hq, hpos, hq'⟩, -⟩ := h.head t info hinfo
          exact .inl ⟨q, hold q hq, Nat.lt_succ_of_le (h.ring.pos_mem hq).2, hq'⟩
      · exact .inl rfl
  · intro r hr
    rcases hhead with ⟨-, hnone⟩ | ⟨old, hget, heq, hremoved⟩
    · rw [hnone] at hr
      cases hr
    · obtain ⟨hmem, hoff⟩ := h.ring.oldest hget
      exact ⟨old, hold old hmem, by omega, Option.some.inj (hremoved.symm.trans hr)⟩
  · intro t info hinfo
    rw [hget] at hinfo
    split at hinfo
    · rename_i hslot
      obtain rfl := Option.some.inj hinfo
      rw [SlotInfo.update_head]
      rcases hentry : s.state.slots.get? t with _ | entry
      · refine ⟨⟨_, hnew, rfl, hslot⟩, .inl ?_⟩
        show (s.store message data).1.state.head ≤ s.state.tail + 1
        rcases hhead with ⟨heq, -⟩ | ⟨old, hget, heq, -⟩
        · rw [heq]
          exact h.ring.keeps.head_le
        · obtain ⟨hmem, hoff⟩ := h.ring.oldest hget
          have := (h.ring.pos_mem hmem).2
          omega
      · obtain ⟨⟨p, hp, hpos, hp'⟩, -⟩ := h.head t entry hentry
        exact ⟨⟨p, hold p hp, hpos, hp'⟩, (hhead' t entry hentry).2⟩
    · obtain ⟨⟨p, hp, hpos, hp'⟩, -⟩ := h.head t info hinfo
      exact ⟨⟨p, hold p hp, hpos, hp'⟩, (hhead' t info hinfo).2⟩
  · intro t info hinfo p hp u hu htu
    rw [hget] at hinfo
    split at hinfo
    · rename_i hslot
      obtain rfl := Option.some.inj hinfo
      rw [SlotInfo.update_head]
      rcases hentry : s.state.slots.get? t with _ | entry
      · -- a new slot is above all slots so far
        rcases List.mem_append.mp hp with hp | hp
        · have habove := (hasc t hslot).1.resolve_left (by simp [SortedMap.contains, hentry])
          exact absurd (habove p hp u hu) (not_lt.mpr htu)
        · obtain rfl := List.mem_singleton.mp hp
          exact le_rfl
      · rcases List.mem_append.mp hp with hp | hp
        · exact h.first t entry hentry p hp u hu htu
        · obtain rfl := List.mem_singleton.mp hp
          exact Nat.le_succ_of_le (hhead' t entry hentry).1
    · rcases List.mem_append.mp hp with hp | hp
      · exact h.first t info hinfo p hp u hu htu
      · obtain rfl := List.mem_singleton.mp hp
        exact Nat.le_succ_of_le (hhead' t info hinfo).1
  · intro t hnone p hp hslot
    rw [hget] at hnone
    split at hnone
    · cases hnone
    · rename_i hne
      rcases List.mem_append.mp hp with hp | hp
      · exact (h.gone t hnone p hp hslot).mono hold hle
      · obtain rfl := List.mem_singleton.mp hp
        exact absurd hslot hne
  · intro p hp hnone q hq hzero
    rcases log with _ | ⟨x, l⟩
    · obtain rfl := Option.some.inj hp
      rw [List.mem_singleton.mp hq, hnone] at hzero
      cases hzero
    · rcases List.mem_append.mp hq with hq | hq
      · exact h.zero p hp hnone q hq hzero
      · obtain rfl := List.mem_singleton.mp hq
        exact (hasc 0 hzero).2 rfl p hp hnone

/-- A message is dropped because of the bytes. -/
theorem dropHead (h : SlotsInv k log s removed) (hlt : s.state.head < s.state.tail)
    (hdrop : s.dropHead removed = some (s', removed')) : SlotsInv k log s' removed' := by
  obtain ⟨hring, hslots, htail, hhead, -, old, hget, hremoved⟩ := h.ring.dropHead hlt hdrop
  obtain ⟨hmem, hoff⟩ := h.ring.oldest hget
  have hle : ∀ r, removed = some r → ∃ r', removed' = some r' ∧ r ≤ r' := by
    rintro r rfl
    exact ⟨_, hremoved, le_max_right _ _⟩
  have hold : ∃ r', removed' = some r' ∧ old.slot ≤ r' := by
    cases removed with
    | none => exact ⟨_, hremoved, le_rfl⟩
    | some r => exact ⟨_, hremoved, le_max_left _ _⟩
  constructor
  · exact hring
  · exact h.attached
  · intro r hr
    rw [hremoved] at hr
    obtain rfl := Option.some.inj hr
    cases removed with
    | none => exact ⟨old, hmem, by omega, rfl⟩
    | some r =>
      obtain ⟨p, hp, hlt, hslot⟩ := h.lost r rfl
      rcases max_choice old.slot r with heq | heq
      · exact ⟨old, hmem, by omega, heq.symm⟩
      · exact ⟨p, hp, by omega, hslot.trans heq.symm⟩
  · intro t info hinfo
    rw [hslots] at hinfo
    obtain ⟨⟨p, hp, hpos, hslot⟩, hkept⟩ := h.head t info hinfo
    refine ⟨⟨p, hp, hpos, hslot⟩, ?_⟩
    rcases hkept with hkept | ⟨r, hr, htr⟩
    · rcases Nat.lt_or_ge s.state.head info.head with hlt | hge
      · exact .inl (by omega)
      · obtain rfl := h.ring.eq_of_pos hp hmem (by omega)
        obtain ⟨r', hr', hle'⟩ := hold
        rcases h.attached p hp with hatt | ⟨hnone, -⟩
        · exact .inr ⟨r', hr', (Option.some.inj (hslot.symm.trans hatt)).le.trans hle'⟩
        · rw [hslot] at hnone
          cases hnone
    · obtain ⟨r', hr', hrr⟩ := hle r hr
      exact .inr ⟨r', hr', htr.trans hrr⟩
  · intro t info hinfo
    rw [hslots] at hinfo
    exact h.first t info hinfo
  · intro t hnone p hp hslot
    rw [hslots] at hnone
    exact (h.gone t hnone p hp hslot).mono (fun _ => id) (by omega)
  · exact h.zero

/-- The slots that have lost a message are removed. -/
theorem removeSlots (h : SlotsInv k log s removed) : SlotsInv k log (s.removeSlots removed) none := by
  obtain ⟨hhead, -, -, -⟩ := s.removeSlots_fields removed
  have hkept : ∀ t info, (s.removeSlots removed).state.slots.get? t = some info →
      s.state.slots.get? t = some info ∧ ¬ ∃ r, removed = some r ∧ t ≤ r := by
    intro t info hinfo
    rw [Shared.removeSlots_get?] at hinfo
    split at hinfo
    · cases hinfo
    · rename_i hno
      exact ⟨hinfo, hno⟩
  constructor
  · exact h.ring.removeSlots
  · exact h.attached
  · intro r hr
    cases hr
  · intro t info hinfo
    obtain ⟨hinfo, hno⟩ := hkept t info hinfo
    obtain ⟨hfirst, hcell⟩ := h.head t info hinfo
    exact ⟨hfirst, .inl (hhead ▸ hcell.resolve_right hno)⟩
  · intro t info hinfo
    exact h.first t info (hkept t info hinfo).1
  · intro t hnone p hp hslot
    rw [Shared.removeSlots_get?] at hnone
    split at hnone
    · rename_i hr
      obtain ⟨r, hr, htr⟩ := hr
      obtain ⟨q, hq, hlt, hqslot⟩ := h.lost r hr
      exact (h.evicted hq hlt (htr.trans hqslot.ge) ⟨p, hp, hslot⟩).mono (fun _ => id) hhead.ge
    · exact (h.gone t hnone p hp hslot).mono (fun _ => id) hhead.ge
  · exact h.zero

/-- Only the cells, the positions and the slots count. -/
theorem congr (h : SlotsInv k log s removed) (hring : RingInv k log s')
    (hhead : s'.state.head = s.state.head) (hslots : s'.state.slots = s.state.slots) :
    SlotsInv k log s' removed := by
  refine ⟨hring, h.attached, ?_, ?_, ?_, ?_, h.zero⟩
  · rw [hhead]
    exact h.lost
  · rw [hhead, hslots]
    exact h.head
  · rw [hslots]
    exact h.first
  · intro t hnone p hp hslot
    exact (h.gone t (hslots ▸ hnone) p hp hslot).mono (fun _ => id) hhead.ge

end SlotsInv

/-! ### Runs -/

/-- The highest slot that has lost a message in the push in progress and is not removed yet. -/
def Chan.removed (s : Chan E C) : Option Slot := s.pushing.bind (·.removed.join)

theorem SlotsInv.step {k : ℕ} {s s' : Chan E C} {a : ChanAction E C}
    {events out : List (ChanEvent E C)} (h : SlotsInv k (pushedItems events) s.shared s.removed)
    (hasc : s.Ascends events a) (hstep : Chan.step s a = .ok (s', out)) :
    SlotsInv k (pushedItems (events ++ out)) s'.shared s'.removed := by
  rw [pushedItems_append]
  cases ha : a.isTask with
  | true =>
    rcases Chan.step_task ha hstep with ⟨rfl, i, rfl⟩ | ⟨i, task, task', hget, htask, hs'⟩
    · simpa [pushedItems, ChanEvent.pushed?] using h
    · have hout : pushedItems out = [] := by cases htask <;> rfl
      rw [hout, List.append_nil]
      rcases hs' with ⟨rfl, -⟩ | ⟨-, -, rfl⟩
      · exact h
      · exact h.congr (h.ring.congr rfl rfl rfl rfl) rfl rfl
  | false =>
    cases a with
    | push input =>
      simp only [Chan.step] at hstep
      split at hstep
      · rename_i messages hpushing hmessages
        cases hstep
        rw [pushedItems_nil, List.append_nil]
        rw [Chan.removed, hpushing] at h
        exact h
      · cases hstep
    | store =>
      simp only [Chan.step] at hstep
      split at hstep
      · rename_i encode message messages hpushing
        cases hstep
        rw [Chan.removed, hpushing] at h
        exact h.store (hasc _ message messages hpushing rfl)
      · cases hstep
    | dropHead =>
      simp only [Chan.step] at hstep
      split at hstep
      · rename_i encode messages removed hpushing
        split at hstep
        · rename_i hextra
          split at hstep
          · cases hstep
          · rename_i r hdrop
            cases hstep
            rw [pushedItems_nil, List.append_nil]
            rw [Chan.removed, hpushing] at h
            exact h.dropHead (of_decide_eq_true hextra).2 hdrop
        · cases hstep
      · cases hstep
    | removeSlots =>
      simp only [Chan.step] at hstep
      split at hstep
      · rename_i encode messages removed hpushing
        split at hstep
        · cases hstep
        · cases hstep
          rw [pushedItems_nil, List.append_nil]
          rw [Chan.removed, hpushing] at h
          exact h.removeSlots
      · cases hstep
    | unlock =>
      simp only [Chan.step] at hstep
      split at hstep
      · rename_i encode hpushing
        cases hstep
        rw [pushedItems_nil, List.append_nil]
        rw [Chan.removed, hpushing] at h
        exact h.congr (h.ring.congr rfl rfl rfl rfl) rfl rfl
      · cases hstep
    | wake j =>
      simp only [Chan.step] at hstep
      split at hstep
      · cases hstep
        rw [pushedItems_nil, List.append_nil]
        exact h
      · cases hstep
    | close =>
      simp only [Chan.step] at hstep
      cases hstep
      rw [pushedItems_nil, List.append_nil]
      exact h
    | closeCell j =>
      simp only [Chan.step] at hstep
      split at hstep
      · split at hstep
        · cases hstep
          rw [pushedItems_nil, List.append_nil]
          exact h.congr h.ring.closeCell rfl rfl
        · cases hstep
      · cases hstep
    | closeWake j =>
      simp only [Chan.step] at hstep
      split at hstep
      · split at hstep
        · cases hstep
        · cases hstep
          rw [pushedItems_nil, List.append_nil]
          exact h.congr (h.ring.congr rfl rfl rfl rfl) rfl rfl
      · cases hstep
    | subscribe replayFromSlot filter =>
      simp only [Chan.step] at hstep
      split at hstep
      · cases hstep
        rw [pushedItems_nil, List.append_nil]
        exact h
      · cases hstep
        simpa [pushedItems, ChanEvent.pushed?] using h
      · cases hstep
    | _ => cases ha

/-- **Subscriptions from a slot**, in every state of a run whose messages ascend: if the slot is known, every
message of a slot not below it is in the ring from the start of the receiver on, and the receiver delivers; if it
is refused, a message of a slot not below it was evicted, or none of the slot was pushed. -/
theorem Chan.subscribe_complete {config : ConfigChannel} {acts : List (ChanAction E C)}
    {s s' : Chan E C} {events out : List (ChanEvent E C)} {slot : Slot} {filter : Option RichatFilter}
    (h : run Chan.step (.new config) acts = .ok (s, events))
    (hasc : AllAlong Chan.step Chan.Ascends (.new config) acts)
    (hsub : Chan.step s (.subscribe (some slot) filter) = .ok (s', out)) :
    (∃ r, s.shared.subscribe (some slot) filter = .ok r ∧ s'.tasks = s.tasks ++ [⟨r, .idle⟩] ∧
      (∀ p ∈ pushedItems events, ∀ u, p.message.getSlot = some u → slot ≤ u →
        r.next ≤ p.pos ∧ s.shared.state.head ≤ p.pos) ∧
      Delivers (nextPowerOfTwo config.maxMessages + 1) (pushedItems events) s' s.tasks.length r) ∨
    (∃ e, s.shared.subscribe (some slot) filter = .error e ∧ out = [.refused e] ∧
      (Evicted (pushedItems events) s.shared slot ∨
        ∀ p ∈ pushedItems events, p.message.getSlot ≠ some slot)) := by
  obtain ⟨k, hk⟩ := exists_nextPowerOfTwo config.maxMessages
  have hchan := ChanInv.run_inv hk h
  have hslots : SlotsInv k (pushedItems events) s.shared s.removed := by
    refine run_induction_along (P := fun _ s events => SlotsInv k (pushedItems events) s.shared s.removed)
      ?_ ?_ hasc h
    · exact SlotsInv.new hk
    · exact fun _ _ _ _ _ _ _ hinv hok hstep => hinv.step hok hstep
  have hchan' := hchan.step hsub
  simp only [step] at hsub
  split at hsub
  · rename_i r hpushing hr
    cases hsub
    left
    rw [pushedItems_nil, List.append_nil] at hchan'
    rw [removed, hpushing] at hslots
    obtain ⟨info, hinfo, hnext, hfinished⟩ : ∃ info, s.shared.state.slots.get? slot = some info ∧
        r.next = info.head ∧ r.finished = false := by
      rw [Shared.subscribe, Shared.subscribeNext] at hr
      rcases hinfo : s.shared.state.slots.get? slot with _ | info
      · rw [hinfo] at hr
        dsimp only at hr
        split at hr
        · cases hr
        · rename_i heq
          split at heq <;> cases heq
      · rw [hinfo] at hr
        cases hr
        exact ⟨info, rfl, rfl, rfl⟩
    obtain ⟨⟨q, hq, hpos, -⟩, hkept⟩ := hslots.head slot info hinfo
    have hkept : s.shared.state.head ≤ info.head := hkept.resolve_right (by simp)
    obtain ⟨hge, hle⟩ := hslots.ring.pos_mem hq
    refine ⟨r, hr, rfl, fun p hp u hu hle => ?_, ?_⟩
    · have hfirst := hslots.first slot info hinfo p hp u hu hle
      exact ⟨hnext ▸ hfirst, hkept.trans hfirst⟩
    · rw [hk]
      refine hchan'.delivers (by simp) hfinished ?_ ?_
      · omega
      · show r.next ≤ s.shared.state.tail + 1
        omega
  · rename_i e hpushing he
    cases hsub
    right
    refine ⟨e, he, rfl, ?_⟩
    by_cases hknown : ∃ p ∈ pushedItems events, p.message.getSlot = some slot
    · left
      obtain ⟨p, hp, hslot⟩ := hknown
      refine hslots.gone slot ?_ p hp hslot
      by_contra hsome
      obtain ⟨info, hinfo⟩ := Option.ne_none_iff_exists'.mp hsome
      rw [Shared.subscribe, Shared.subscribeNext, hinfo] at he
      cases he
    · right
      intro p hp hslot
      exact hknown ⟨p, hp, hslot⟩
  · cases hsub

/-- The first status of a slot, and a subscription from the slot. -/
theorem Chan.subscribe_complete_slot :
    ∃ (s s' : Chan Unit Unit) (events : List (ChanEvent Unit Unit)) (r : Receiver),
      run Chan.step (.new ⟨2, 100⟩) [.push (sampleSlot 1 none .processed), .store, .removeSlots, .unlock] =
        .ok (s, events) ∧
      s.shared.subscribe (some 1) none = .ok r ∧
      (∀ p ∈ pushedItems events, ∀ u, p.message.getSlot = some u → 1 ≤ u →
        r.next ≤ p.pos ∧ s.shared.state.head ≤ p.pos) ∧
      Delivers 3 (pushedItems events) s' s.tasks.length r := by
  obtain ⟨s, events, hrun, hcheck⟩ := exists_of_returns
    (x := run Chan.step (.new ⟨2, 100⟩)
      [.push (sampleSlot 1 none .processed), .store, .removeSlots, .unlock])
    (p := fun (s : Chan Unit Unit) _ => returns (fun _ out => out.isEmpty)
      (Chan.step s (.subscribe (some 1) none))) (by decide +kernel)
  obtain ⟨s', out, hsub, hout⟩ := exists_of_returns hcheck
  rw [List.isEmpty_iff.mp hout] at hsub
  -- the one message that is stored is the first one of the log
  have hasc : AllAlong Chan.step Chan.Ascends (.new ⟨2, 100⟩)
      [.push (sampleSlot 1 none .processed), .store, .removeSlots, .unlock] := by
    refine allAlong_of_checkAlong (p := fun s events a => match a with
      | .store => (pushedItems events).isEmpty && s.pushing.all fun push => push.messages.all fun m =>
        m.getSlot.all (· ≠ 0)
      | _ => true) ?_ (by decide +kernel)
    intro s events a hcheck
    cases a with
    | store =>
      obtain ⟨hlog, hslot⟩ := Bool.and_eq_true_iff.mp hcheck
      intro push message messages hpushing hmessages slot hmessage
      rw [hpushing, Option.all_some, hmessages, List.all_cons, hmessage, Option.all_some] at hslot
      refine ⟨.inr ?_, fun hzero => ?_⟩
      · rw [List.isEmpty_iff.mp hlog]
        intro p hp
        cases hp
      · rw [hzero] at hslot
        cases hslot
    | _ => trivial
  rcases Chan.subscribe_complete hrun hasc hsub with ⟨r, hr, -, hcomplete, hdelivers⟩ | ⟨e, -, hno, -⟩
  · exact ⟨s, s', events, r, hrun, hr, hcomplete, hdelivers⟩
  · cases hno

/-- A status of the slot `5` comes before the first one of the slot `4`: a subscription from the slot `4`
starts after it. -/
theorem Chan.subscribe_skips_later_slot :
    ∃ (s : Chan Unit Unit) (events : List (ChanEvent Unit Unit)) (r : Receiver) (p : Pushed Unit Unit),
      run Chan.step (.new ⟨4, 100⟩) [.push (sampleSlot 5 none .processed), .store, .removeSlots, .unlock,
        .push (sampleSlot 4 none .processed), .store, .removeSlots, .unlock] = .ok (s, events) ∧
      s.pushing.isNone ∧ s.shared.subscribe (some 4) none = .ok r ∧
      p ∈ pushedItems events ∧ p.message.getSlot = some 5 ∧ p.pos < r.next := by
  obtain ⟨s, events, hrun, hcheck⟩ := exists_of_returns
    (x := run Chan.step (.new ⟨4, 100⟩) [.push (sampleSlot 5 none .processed), .store, .removeSlots, .unlock,
        .push (sampleSlot 4 none .processed), .store, .removeSlots, .unlock])
    (p := fun (s : Chan Unit Unit) events => s.pushing.isNone &&
      (s.shared.subscribe (some 4) none).toOption.any fun r => (pushedItems events).any fun p =>
        p.message.getSlot = some 5 ∧ p.pos < r.next) (by decide +kernel)
  obtain ⟨hpushing, hany⟩ := Bool.and_eq_true_iff.mp hcheck
  rcases hr : (s.shared.subscribe (some 4) none).toOption with _ | r
  · rw [hr] at hany
    cases hany
  · rw [hr, Option.any_some] at hany
    obtain ⟨p, hp, hlate⟩ := List.any_eq_true.mp hany
    obtain ⟨hslot, hlt⟩ := of_decide_eq_true hlate
    exact ⟨s, events, r, p, hrun, hpushing, ok_of_toOption hr, hp, hslot, hlt⟩

end Richat.Plugin
