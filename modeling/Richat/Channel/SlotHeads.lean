import Richat.Channel.RingSpec

/-!
# The slots that are complete in memory

A stream keeps the first position of every slot of which it has all messages since the last live
epoch began. `SlotHeads` says what the map of these positions is: a slot that lost a message is not
in it and does not come back (`SenderShared.incompleteThrough`), any other slot is, from its first
message on. `ChannelInv` joins it to the cells, and `run_channelInv` holds it after every run of the
actions of a sender, in whatever order its pushes and live epochs come.
-/

namespace Richat

open Lib

/-- A slot that is known to have lost messages, also by the push under way. -/
def LostSlot (incompleteThrough removed : Option Slot) (slot : Slot) : Prop :=
  (∃ upTo, incompleteThrough = some upTo ∧ slot ≤ upTo) ∨ ∃ upTo, removed = some upTo ∧ slot ≤ upTo

/-- The heads of the slots, for a log whose first position is `first`, of which the part from `epoch`
on is since the last live epoch, the part before the position `head` has left the ring, and the part
up to the position `tail` is published. -/
structure SlotHeads (first epoch : ℕ) (log : List Item) (head tail : ℕ) (slots : SortedMap Slot ℕ)
    (incompleteThrough removed : Option Slot) : Prop where
  lost : ∀ i item, log[i]? = some item → first + i < head →
    LostSlot incompleteThrough removed item.slot
  above : ∀ t ∈ slots.keys, ∀ upTo, incompleteThrough = some upTo → upTo < t
  head : ∀ t p, slots.get? t = some p → p ≤ tail ∧
    ∃ i item, p = first + i ∧ epoch ≤ i ∧ log[i]? = some item ∧ item.slot = t
  least : ∀ t p, slots.get? t = some p → ∀ i item, epoch ≤ i → log[i]? = some item →
    item.slot = t → p ≤ first + i
  present : ∀ i item, epoch ≤ i → first + i ≤ tail → log[i]? = some item →
    (∀ upTo, incompleteThrough = some upTo → upTo < item.slot) → item.slot ∈ slots.keys

namespace SlotHeads

variable {first epoch head head' tail : ℕ} {log : List Item} {slots : SortedMap Slot ℕ}
  {incompleteThrough removed removed' : Option Slot} {item : Item}

theorem new : SlotHeads first epoch [] head tail .empty incompleteThrough removed where
  lost := by
    intro i item h
    cases h
  above := by
    intro t ht
    cases ht
  head := by
    intro t p h
    cases h
  least := by
    intro t p h
    cases h
  present := by
    intro i item _ _ h
    cases h

/-- All messages so far are from before the epoch. -/
theorem beginLiveEpoch (h : SlotHeads first epoch log head tail slots incompleteThrough removed)
    {epoch' : ℕ} (hepoch : log.length ≤ epoch') :
    SlotHeads first epoch' log head tail .empty incompleteThrough removed where
  lost := h.lost
  above := by
    intro t ht
    cases ht
  head := by
    intro t p h
    cases h
  least := by
    intro t p h
    cases h
  present := by
    intro i item hi _ hget
    have := (List.getElem?_eq_some_iff.mp hget).1
    omega

/-- A message that is not published yet. -/
theorem append (h : SlotHeads first epoch log head tail slots incompleteThrough removed) (item : Item)
    (htail : tail < first + log.length) (hhead : head ≤ first + log.length) :
    SlotHeads first epoch (log ++ [item]) head tail slots incompleteThrough removed := by
  have hold : ∀ {i : ℕ} {x : Item}, (log ++ [item])[i]? = some x → i < log.length →
      log[i]? = some x := by
    intro i x hx hi
    rwa [List.getElem?_append_left hi] at hx
  constructor
  · intro i x hx hi
    exact h.lost i x (hold hx (by omega)) hi
  · exact h.above
  · intro t p hp
    obtain ⟨hle, i, x, hpos, hepoch, hx, hslot⟩ := h.head t p hp
    refine ⟨hle, i, x, hpos, hepoch, ?_, hslot⟩
    rw [List.getElem?_append_left (by omega), hx]
  · intro t p hp i x hi hx hslot
    rcases Nat.lt_or_ge i log.length with hlt | hge
    · exact h.least t p hp i x hi (hold hx hlt) hslot
    · have := (h.head t p hp).1
      omega
  · intro i x hi htail hx habove
    exact h.present i x hi htail (hold hx (by omega)) habove

/-- A message has left the ring, and its slot is noted. -/
theorem drop (h : SlotHeads first epoch log head tail slots incompleteThrough removed)
    (hfirst : first ≤ head) (hitem : log[head - first]? = some item)
    (hremoved : removed' = some (removed.elim item.slot (max item.slot))) :
    SlotHeads first epoch log (head + 1) tail slots incompleteThrough removed' := by
  refine { h with lost := ?_ }
  intro i x hx hi
  subst hremoved
  rcases Nat.lt_or_ge (first + i) head with hlt | hge
  · refine (h.lost i x hx hlt).imp_right ?_
    rintro ⟨upTo, rfl, hle⟩
    exact ⟨_, rfl, hle.trans (le_max_right _ _)⟩
  · obtain rfl : i = head - first := by omega
    rw [hitem] at hx
    cases hx
    refine Or.inr ⟨_, rfl, ?_⟩
    cases removed with
    | none => exact le_rfl
    | some r => exact le_max_left _ _

/-- The slots after the entry of the pushed message. -/
theorem insertHead (h : SlotHeads first epoch log head tail slots incompleteThrough removed)
    (hlast : log[tail + 1 - first]? = some item)
    (hfirst : first ≤ tail + 1) (hepoch : epoch ≤ tail + 1 - first) {slots' : SortedMap Slot ℕ}
    (hslots : slots' = if incompleteThrough.all (· < item.slot) ∧ ¬ slots.contains item.slot then
      slots.insert item.slot (tail + 1) else slots) :
    SlotHeads first epoch log head (tail + 1) slots' incompleteThrough removed := by
  have hmono : ∀ t ∈ slots.keys, t ∈ slots'.keys := by
    intro t ht
    rw [hslots]
    split
    · exact SortedMap.mem_keys_insert.mpr (Or.inr ht)
    · exact ht
  have hpresent : ∀ i x, epoch ≤ i → first + i ≤ tail + 1 → log[i]? = some x →
      (∀ upTo, incompleteThrough = some upTo → upTo < x.slot) → x.slot ∈ slots'.keys := by
    intro i x hi htail hx habove
    rcases Nat.lt_or_ge (first + i) (tail + 1) with hlt | hge
    · exact hmono _ (h.present i x hi (by omega) hx habove)
    · obtain rfl : i = tail + 1 - first := by omega
      rw [hlast] at hx
      cases hx
      by_cases hin : item.slot ∈ slots.keys
      · exact hmono _ hin
      · rw [hslots, if_pos, SortedMap.mem_keys_insert]
        · exact Or.inl rfl
        · refine ⟨?_, ?_⟩
          · cases hinc : incompleteThrough with
            | none => rfl
            | some upTo => simpa using habove upTo hinc
          · rwa [SortedMap.mem_keys] at hin
  rw [hslots] at hpresent ⊢
  split at hpresent
  · rename_i hnew
    obtain ⟨habove, hnot⟩ := hnew
    have hupTo : ∀ upTo, incompleteThrough = some upTo → upTo < item.slot := by
      intro upTo hinc
      rw [hinc] at habove
      simpa using habove
    rw [if_pos ⟨habove, hnot⟩]
    constructor
    · exact h.lost
    · intro t ht upTo hinc
      rcases SortedMap.mem_keys_insert.mp ht with rfl | ht
      · exact hupTo upTo hinc
      · exact h.above t ht upTo hinc
    · intro t p hp
      rw [SortedMap.get?_insert] at hp
      split at hp
      · rename_i heq
        cases hp
        exact ⟨le_rfl, tail + 1 - first, item, by omega, hepoch, hlast, heq.symm⟩
      · obtain ⟨hle, hrest⟩ := h.head t p hp
        exact ⟨by omega, hrest⟩
    · intro t p hp i x hi hx hslot
      rw [SortedMap.get?_insert] at hp
      split at hp
      · rename_i heq
        cases hp
        by_contra hlt
        -- an earlier message of the slot would have its entry
        have hin := h.present i x hi (by omega) hx (by rw [hslot, heq]; exact hupTo)
        rw [hslot, heq, SortedMap.mem_keys] at hin
        exact hnot hin
      · exact h.least t p hp i x hi hx hslot
    · exact hpresent
  · rename_i hnew
    rw [if_neg hnew]
    constructor
    · exact h.lost
    · exact h.above
    · intro t p hp
      obtain ⟨hle, hrest⟩ := h.head t p hp
      exact ⟨by omega, hrest⟩
    · exact h.least
    · exact hpresent

/-- The slots that the push removes. -/
theorem removeLost {upTo : Slot}
    (h : SlotHeads first epoch log head tail slots incompleteThrough (some upTo)) {removeUpto : Slot}
    (hremove : removeUpto = max (incompleteThrough.getD 0) upTo) :
    SlotHeads first epoch log head tail (slots.popWhile (· ≤ removeUpto)) (some removeUpto) none := by
  have hget : ∀ t, (slots.popWhile (· ≤ removeUpto)).get? t =
      if t ≤ removeUpto then none else slots.get? t := by
    intro t
    rw [SortedMap.get?_popWhile]
    · simp
    · intro a b hab hb
      simp only [decide_eq_true_eq] at hb ⊢
      exact hab.le.trans hb
  have hsome : ∀ {t p}, (slots.popWhile (· ≤ removeUpto)).get? t = some p →
      removeUpto < t ∧ slots.get? t = some p := by
    intro t p hp
    rw [hget] at hp
    split at hp
    · cases hp
    · rename_i hlt
      exact ⟨not_le.mp hlt, hp⟩
  have hinc : ∀ x, incompleteThrough = some x → x ≤ removeUpto := by
    rintro x rfl
    rw [hremove]
    exact le_max_left _ _
  constructor
  · intro i item hi hlt
    refine Or.inl ⟨removeUpto, rfl, ?_⟩
    rcases h.lost i item hi hlt with ⟨x, hx, hle⟩ | ⟨x, hx, hle⟩
    · exact hle.trans (hinc x hx)
    · cases hx
      rw [hremove]
      exact hle.trans (le_max_right _ _)
  · intro t ht x hx
    obtain ⟨p, hp⟩ := Option.isSome_iff_exists.mp (SortedMap.mem_keys.mp ht)
    cases hx
    exact (hsome hp).1
  · intro t p hp
    exact h.head t p (hsome hp).2
  · intro t p hp
    exact h.least t p (hsome hp).2
  · intro i item hi htail hx habove
    have hlt := habove removeUpto rfl
    have hin := h.present i item hi htail hx fun x hx => (hinc x hx).trans_lt hlt
    rw [SortedMap.mem_keys] at hin ⊢
    rwa [hget, if_neg (not_le.mpr hlt)]

/-- **What `publish` does to the slots.** -/
theorem publish (h : SlotHeads first epoch log head tail slots incompleteThrough removed)
    (hlast : log[tail + 1 - first]? = some item)
    (hfirst : first ≤ tail + 1) (hepoch : epoch ≤ tail + 1 - first) {s : SenderShared}
    (hslots : s.shared.slots = slots) (hinc : s.incompleteThrough = incompleteThrough)
    (htail : s.tail = tail + 1) :
    SlotHeads first epoch log head (tail + 1) (s.publish item.slot removed).shared.slots
      (s.publish item.slot removed).incompleteThrough none := by
  subst hslots hinc
  have h' := h.insertHead hlast hfirst hepoch rfl
  unfold SenderShared.publish
  cases removed with
  | none =>
    rw [htail]
    exact h'
  | some upTo =>
    rw [htail]
    exact h'.removeLost rfl

end SlotHeads

/-! ### The invariant of a stream -/

/-- The stream after the events. -/
structure ChannelInv (size : ParsedMessage → ℕ) (k : ℕ) (events : List ChannelEvent) (c : Channel) :
    Prop where
  ring : RingInv size k (storedItems events) c.sender
  slots : SlotHeads (2 ^ k + 1) (beforeEpoch events).length (storedItems events) c.sender.head
    c.sender.shared.tail c.sender.shared.slots c.sender.incompleteThrough (c.pushing.bind (·.2))
  idle : c.pushing = none → c.sender.shared.tail = c.sender.tail
  pushing : ∀ slot removed, c.pushing = some (slot, removed) →
    c.sender.shared.tail + 1 = c.sender.tail ∧ 2 ^ k ≤ c.sender.shared.tail ∧
      (beforeEpoch events).length ≤ c.sender.shared.tail + 1 - (2 ^ k + 1) ∧
      ∃ item, (storedItems events)[c.sender.shared.tail + 1 - (2 ^ k + 1)]? = some item ∧
        item.slot = slot

@[simp] theorem storedItems_append (l l' : List ChannelEvent) :
    storedItems (l ++ l') = storedItems l ++ storedItems l' := List.filterMap_append

@[simp] theorem storedItems_singleton (item : Item) : storedItems [.stored item] = [item] := rfl

@[simp] theorem storedItems_epoch : storedItems [.epoch] = [] := rfl

@[simp] theorem beforeEpoch_stored (events : List ChannelEvent) (item : Item) :
    beforeEpoch (events ++ [.stored item]) = beforeEpoch events := by
  unfold beforeEpoch
  rw [List.rdropWhile_concat_pos _ _ _ rfl]

@[simp] theorem beforeEpoch_epoch (events : List ChannelEvent) :
    beforeEpoch (events ++ [.epoch]) = storedItems events := by
  unfold beforeEpoch
  rw [List.rdropWhile_concat_neg _ _ _ (by decide), storedItems_append]
  simp

theorem beforeEpoch_append_sinceEpoch (events : List ChannelEvent) :
    beforeEpoch events ++ sinceEpoch events = storedItems events := by
  unfold beforeEpoch sinceEpoch
  rw [← storedItems_append, List.rdropWhile_append_rtakeWhile]

theorem beforeEpoch_length_le (events : List ChannelEvent) :
    (beforeEpoch events).length ≤ (storedItems events).length := by
  rw [← beforeEpoch_append_sinceEpoch, List.length_append]
  exact Nat.le_add_right _ _

namespace Channel

variable {size : ParsedMessage → ℕ} {c c' : Channel} {a : ChannelAction} {out : List ChannelEvent}

/-- What one action is. -/
theorem step_cases (h : step size c a = .ok (c', out)) :
    (∃ slot message replayIndex s' removed, c.pushing = none ∧
      a = .store slot message replayIndex ∧
      c.sender.store size slot message replayIndex = (s', removed) ∧
      c' = ⟨s', some (slot, removed)⟩ ∧ out = [.stored (s'.shared.item s'.tail)]) ∨
    (∃ slot removed s' removed', c.pushing = some (slot, removed) ∧ a = .dropHead ∧
      c.sender.hasExtra ∧ c.sender.dropHead size removed = some (s', removed') ∧
      c' = ⟨s', some (slot, removed')⟩ ∧ out = []) ∨
    (∃ slot removed, c.pushing = some (slot, removed) ∧ a = .publish ∧ c.sender.hasExtra = false ∧
      c' = ⟨c.sender.publish slot removed, none⟩ ∧ out = []) ∨
    (∃ index, c.pushing = none ∧ a = .beginLiveEpoch index ∧
      c' = ⟨c.sender.beginLiveEpoch index, none⟩ ∧ out = [.epoch]) := by
  obtain ⟨s, pushing⟩ := c
  unfold step at h
  split at h
  · rename_i s slot message replayIndex heq
    cases heq
    obtain ⟨rfl, rfl⟩ := Prod.ext_iff.mp (Except.ok.inj h)
    exact Or.inl ⟨slot, message, replayIndex, _, _, rfl, rfl, rfl, rfl, rfl⟩
  · rename_i s slot removed heq
    cases heq
    split at h
    · rename_i hextra
      split at h
      · cases h
      · rename_i s' removed' hdrop
        obtain ⟨rfl, rfl⟩ := Prod.ext_iff.mp (Except.ok.inj h)
        exact Or.inr (Or.inl ⟨slot, removed, s', removed', rfl, rfl, hextra, hdrop, rfl, rfl⟩)
    · cases h
  · rename_i s slot removed heq
    cases heq
    split at h
    · cases h
    · rename_i hextra
      obtain ⟨rfl, rfl⟩ := Prod.ext_iff.mp (Except.ok.inj h)
      exact Or.inr (Or.inr (Or.inl ⟨slot, removed, rfl, rfl, by simpa using hextra, rfl, rfl⟩))
  · rename_i s index heq
    cases heq
    obtain ⟨rfl, rfl⟩ := Prod.ext_iff.mp (Except.ok.inj h)
    exact Or.inr (Or.inr (Or.inr ⟨index, rfl, rfl, rfl, rfl⟩))
  · cases h

end Channel

theorem exists_nextPowerOfTwo (n : ℕ) : ∃ k, nextPowerOfTwo n = 2 ^ k := by
  unfold nextPowerOfTwo
  split
  · exact ⟨0, rfl⟩
  · exact ⟨_, rfl⟩

namespace ChannelInv

variable {size : ParsedMessage → ℕ} {k : ℕ} {events : List ChannelEvent} {c c' : Channel}
  {a : ChannelAction} {out : List ChannelEvent} {cfg : ConfigChannelInner}

theorem new (hk : nextPowerOfTwo cfg.maxMessages = 2 ^ k) :
    ChannelInv size k [] (.new cfg) := by
  unfold Channel.new
  rw [hk]
  refine ⟨RingInv.new, SlotHeads.new, fun _ => rfl, ?_⟩
  intro slot removed h
  cases h

/-- The number of the item at a position. -/
theorem log_length (h : ChannelInv size k events c) :
    c.sender.tail + 1 = 2 ^ k + 1 + (storedItems events).length :=
  h.ring.keeps.tail_eq

theorem store (h : ChannelInv size k events c) {slot : Slot} {message : ParsedMessage}
    {replayIndex : Option ℕ} {s' : SenderShared} {removed : Option Slot} (hidle : c.pushing = none)
    (hstore : c.sender.store size slot message replayIndex = (s', removed)) :
    ChannelInv size k (events ++ [.stored (c.sender.newItem slot message replayIndex)])
      ⟨s', some (slot, removed)⟩ := by
  obtain ⟨hring, hsame, htail, hhead⟩ := h.ring.store hstore
  have hlen := h.log_length
  have hidle' := h.idle hidle
  have hfirst := h.ring.keeps.first_le
  have hle := h.ring.keeps.head_le
  have hepoch := beforeEpoch_length_le events
  have hslots := h.slots
  rw [hidle, ← hsame.slots, ← hsame.tail, ← hsame.incompleteThrough] at hslots
  have hslots' := hslots.append (c.sender.newItem slot message replayIndex)
    (by rw [hsame.tail]; omega) (by omega)
  refine ⟨?_, ?_, ?_, ?_⟩
  · rw [storedItems_append]
    exact hring
  · rw [storedItems_append, beforeEpoch_stored]
    rcases hhead with ⟨hhead, rfl⟩ | ⟨old, hold, hhead, rfl⟩
    · rw [hhead]
      exact hslots'
    · have hold' : (storedItems events ++ [c.sender.newItem slot message replayIndex])[
          c.sender.head - (2 ^ k + 1)]? = some old := by
        rw [List.getElem?_append_left, hold]
        exact (List.getElem?_eq_some_iff.mp hold).1
      rw [hhead]
      exact hslots'.drop hfirst hold' rfl
  · intro h
    cases h
  · intro slot' removed' heq
    cases heq
    refine ⟨by rw [hsame.tail, htail, hidle'], ?_, ?_, c.sender.newItem slot message replayIndex, ?_,
      rfl⟩
    · rw [hsame.tail]
      omega
    · rw [beforeEpoch_stored, hsame.tail]
      omega
    · rw [storedItems_append, storedItems_singleton, hsame.tail, List.getElem?_append_right]
      · rw [show c.sender.shared.tail + 1 - (2 ^ k + 1) - (storedItems events).length = 0 by omega]
        rfl
      · omega

theorem dropHead (h : ChannelInv size k events c) {slot : Slot} {s' : SenderShared}
    {removed removed' : Option Slot} (hpushing : c.pushing = some (slot, removed))
    (hextra : c.sender.hasExtra) (hdrop : c.sender.dropHead size removed = some (s', removed')) :
    ChannelInv size k events ⟨s', some (slot, removed')⟩ := by
  have hlt : c.sender.head < c.sender.tail := by
    simp only [SenderShared.hasExtra, decide_eq_true_eq] at hextra
    exact hextra.2
  obtain ⟨hring, hsame, htail, hhead, old, hold, hremoved⟩ := h.ring.dropHead hlt hdrop
  obtain ⟨htail', hrest⟩ := h.pushing slot removed hpushing
  have hslots := h.slots
  rw [hpushing] at hslots
  refine ⟨hring, ?_, ?_, ?_⟩
  · rw [hsame.slots, hsame.tail, hsame.incompleteThrough, hhead]
    exact hslots.drop h.ring.keeps.first_le hold hremoved
  · intro h
    cases h
  · intro slot' removed'' heq
    cases heq
    rw [hsame.tail, htail]
    exact ⟨htail', hrest⟩

theorem publish (h : ChannelInv size k events c) {slot : Slot} {removed : Option Slot}
    (hpushing : c.pushing = some (slot, removed)) :
    ChannelInv size k events ⟨c.sender.publish slot removed, none⟩ := by
  obtain ⟨htail, hfirst, hepoch, item, hitem, rfl⟩ := h.pushing slot removed hpushing
  obtain ⟨hhead', htail', hshared⟩ := c.sender.publish_fields item.slot removed
  have hslots := h.slots
  rw [hpushing] at hslots
  have hslots' := hslots.publish hitem (by omega) hepoch rfl rfl htail.symm
  refine ⟨h.ring.publish, ?_, ?_, ?_⟩
  · rw [hhead', hshared, ← htail]
    exact hslots'
  · intro _
    rw [hshared, htail']
  · intro slot removed h
    cases h

theorem beginLiveEpoch (h : ChannelInv size k events c) {index : ℕ} (hidle : c.pushing = none) :
    ChannelInv size k (events ++ [.epoch]) ⟨c.sender.beginLiveEpoch index, none⟩ := by
  have hslots := h.slots
  rw [hidle] at hslots
  refine ⟨?_, ?_, ?_, ?_⟩
  · rw [storedItems_append, storedItems_epoch, List.append_nil]
    exact h.ring.beginLiveEpoch
  · rw [storedItems_append, storedItems_epoch, List.append_nil, beforeEpoch_epoch]
    exact hslots.beginLiveEpoch le_rfl
  · intro _
    exact h.idle hidle
  · intro slot removed h
    cases h

/-- Every action keeps the invariant. -/
theorem step (h : ChannelInv size k events c) (hstep : Channel.step size c a = .ok (c', out)) :
    ChannelInv size k (events ++ out) c' := by
  rcases Channel.step_cases hstep with
    ⟨slot, message, replayIndex, s', removed, hidle, -, hstore, rfl, rfl⟩ |
    ⟨slot, removed, s', removed', hpushing, -, hextra, hdrop, rfl, rfl⟩ |
    ⟨slot, removed, hpushing, -, -, rfl, rfl⟩ | ⟨index, hidle, -, rfl, rfl⟩
  · rw [SenderShared.item_store hstore]
    exact h.store hidle hstore
  · rw [List.append_nil]
    exact h.dropHead hpushing hextra hdrop
  · rw [List.append_nil]
    exact h.publish hpushing
  · exact h.beginLiveEpoch hidle

/-- The byte loop of a push never runs out of messages. -/
theorem no_panic (h : ChannelInv size k events c) : Channel.step size c a ≠ .error .panic := by
  obtain ⟨s, pushing⟩ := c
  intro hpanic
  unfold Channel.step at hpanic
  split at hpanic
  · cases hpanic
  · rename_i s slot removed heq
    cases heq
    split at hpanic
    · rename_i hextra
      simp only [SenderShared.hasExtra, decide_eq_true_eq] at hextra
      split at hpanic
      · rename_i hnone
        exact h.ring.dropHead_ne_none hextra.2 hnone
      · cases hpanic
    · cases hpanic
  · split at hpanic <;> cases hpanic
  · cases hpanic
  · cases hpanic

end ChannelInv

/-- **The invariant of a stream**, after any actions. -/
theorem Channel.run_channelInv {size : ParsedMessage → ℕ} {cfg : ConfigChannelInner} {k : ℕ}
    {acts : List ChannelAction} {c : Channel} {events : List ChannelEvent}
    (hk : nextPowerOfTwo cfg.maxMessages = 2 ^ k)
    (h : run (Channel.step size) (.new cfg) acts = .ok (c, events)) :
    ChannelInv size k events c :=
  run_induction (P := fun _ c events => ChannelInv size k events c) (.new hk)
    (fun _ _ _ _ _ _ _ hinv hstep => hinv.step hstep) h

/-! ### Whole pushes -/

namespace SenderShared

variable {size : ParsedMessage → ℕ} {s s' : SenderShared} {slot : Slot} {message : ParsedMessage}
  {replayIndex : Option ℕ}

theorem dropHead_fields {removed removed' : Option Slot}
    (h : s.dropHead size removed = some (s', removed')) :
    s'.head = s.head + 1 ∧ s'.tail = s.tail := by
  unfold dropHead at h
  simp only at h
  split at h
  · cases h
  · simp only [Option.some.injEq, Prod.mk.injEq] at h
    obtain ⟨rfl, -⟩ := h
    exact ⟨rfl, rfl⟩

/-- The byte loop one turn at a time; it has turns enough to end. -/
theorem dropExtra_run (slot : Slot) : ∀ (n : ℕ) {s : SenderShared} {removed removed' : Option Slot},
    s.tail ≤ s.head + n → s.dropExtra size n removed = some (s', removed') →
      s'.hasExtra = false ∧ ∃ acts, run (Channel.step size) ⟨s, some (slot, removed)⟩ acts =
        .ok (⟨s', some (slot, removed')⟩, [])
  | 0, s, removed, removed', hn, h => by
    cases h
    refine ⟨?_, [], rfl⟩
    simp only [hasExtra, decide_eq_false_iff_not]
    omega
  | n + 1, s, removed, removed', hn, h => by
    unfold dropExtra at h
    split at h
    · rename_i hextra
      split at h
      · cases h
      · rename_i s₁ removed₁ hdrop
        obtain ⟨hhead, htail⟩ := dropHead_fields hdrop
        obtain ⟨hend, acts, hrun⟩ := dropExtra_run slot n (by omega) h
        refine ⟨hend, .dropHead :: acts, run_cons_ok.mpr ⟨_, [], [], ?_, hrun, rfl⟩⟩
        unfold Channel.step
        simp only [hextra, hdrop, if_pos]
    · rename_i hextra
      cases h
      exact ⟨by simpa using hextra, [], rfl⟩

/-- A push is its actions one after the other. -/
theorem push_run (h : s.push size slot message replayIndex = some s') :
    ∃ acts, run (Channel.step size) ⟨s, none⟩ acts =
      .ok (⟨s', none⟩, [.stored (s.newItem slot message replayIndex)]) := by
  unfold push at h
  simp only at h
  split at h
  · cases h
  · rename_i s₁ removed₁ hdrop
    cases h
    obtain ⟨hend, acts, hrun⟩ := dropExtra_run slot _ (by omega) hdrop
    refine ⟨.store slot message replayIndex :: (acts ++ [.publish]), run_cons_ok.mpr
      ⟨_, _, [], rfl, run_snoc.mpr ⟨_, [], [], hrun, ?_, rfl⟩, ?_⟩⟩
    · unfold Channel.step
      simp only [hend, Bool.false_eq_true, if_false]
    · rw [List.append_nil]
      show _ = [ChannelEvent.stored _]
      rw [item_store (rfl : s.store size slot message replayIndex = (_, _))]

end SenderShared

end Richat
