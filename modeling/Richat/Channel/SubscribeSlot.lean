import Richat.Channel.Receiver

/-!
# Subscriptions from a slot

`subscribe(Some(slot))` looks up the head of exactly this slot. The replay window is what
`get_current_tail_with_replay` answers from: every slot from the first complete one on can be asked
for, with the lowest head of the slots from it on. `FollowsReplayWindow` is what a subscription has to
do to agree with the window, and `subscribe_slot` says in which states it does.
-/

namespace Richat

open Lib

/-- **The subscription from the slot agrees with the replay window.** It succeeds when the slot is not
below the first complete one and a message of a slot from it on is in the ring; the receiver then
starts before all these messages; and a refusal names a slot that comes later. -/
structure FollowsReplayWindow (size : ParsedMessage → ℕ) (first : ℕ) (log : List Item) (c : Channel)
    (slot : Slot) (filter : Option RichatFilter) : Prop where
  succeeds : (∃ r, c.sender.shared.subscribe (some slot) filter = .ok r) ↔
    (∃ firstSlot, c.sender.shared.slots.firstKey? = some firstSlot ∧ firstSlot ≤ slot) ∧
      ∃ p item, c.sender.head ≤ p ∧ log[p - first]? = some item ∧ slot ≤ item.slot
  receives : ∀ r, c.sender.shared.subscribe (some slot) filter = .ok r →
    Delivers size first log ⟨c, r, none⟩ ∧ ∀ p item, c.sender.head ≤ p →
      log[p - first]? = some item → slot ≤ item.slot → r.head ≤ p
  refuses : ∀ firstAvailable,
    c.sender.shared.subscribe (some slot) filter = .error (.slotNotAvailable firstAvailable) →
      slot < firstAvailable

/-- The slot has a head that comes before the heads of all later slots, and the ring has no message of
a slot from it on that is older than the last live epoch (`old`). -/
def HeadsLaterSlots (first : ℕ) (old : List Item) (c : Channel) (slot : Slot) : Prop :=
  ∃ head, c.sender.shared.slots.get? slot = some head ∧
    (∀ later head', slot < later → c.sender.shared.slots.get? later = some head' → head < head') ∧
    ∀ p item, c.sender.head ≤ p → old[p - first]? = some item → item.slot < slot

section Lookup

variable {shared : SharedChannel} {slot : Slot} (filter : Option RichatFilter)

theorem SharedChannel.subscribe_some {head : ℕ} (h : shared.slots.get? slot = some head) :
    ∃ r, shared.subscribe (some slot) filter = .ok r ∧ r.head = head := by
  unfold subscribe subscribeHead
  simp only [h]
  exact ⟨_, rfl, rfl⟩

theorem SharedChannel.subscribe_none (h : shared.slots.get? slot = none) :
    shared.subscribe (some slot) filter = .error
      (shared.slots.firstKey?.elim .notInitialized .slotNotAvailable) := by
  unfold subscribe subscribeHead
  simp only [h]
  cases shared.slots.firstKey? <;> rfl

end Lookup

namespace ChannelInv

variable {size : ParsedMessage → ℕ} {k : ℕ} {events : List ChannelEvent} {c : Channel} {slot : Slot}
  {filter : Option RichatFilter} {head p : ℕ} {item : Item}

/-- Without a push under way, the items of the lost slots are those that are not known to be
complete. -/
theorem lost_le (h : ChannelInv size k events c) (hidle : c.pushing = none) {i : ℕ}
    (hitem : (storedItems events)[i]? = some item) (hlt : 2 ^ k + 1 + i < c.sender.head) :
    ∃ upTo, c.sender.incompleteThrough = some upTo ∧ item.slot ≤ upTo := by
  rcases h.slots.lost i item hitem hlt with hlost | ⟨upTo, hno, _⟩
  · exact hlost
  · rw [hidle] at hno
    cases hno

/-- The head of a slot is in the ring. -/
theorem head_kept (h : ChannelInv size k events c) (hidle : c.pushing = none)
    (hhead : c.sender.shared.slots.get? slot = some head) :
    c.sender.head ≤ head ∧ 2 ^ k + 1 ≤ head ∧ (beforeEpoch events).length ≤ head - (2 ^ k + 1) ∧
      ∃ item, (storedItems events)[head - (2 ^ k + 1)]? = some item ∧ item.slot = slot := by
  obtain ⟨-, i, item, rfl, hepoch, hitem, hslot⟩ := h.slots.head slot head hhead
  refine ⟨?_, Nat.le_add_right _ _, by omega, item, ?_, hslot⟩
  · by_contra hlt
    obtain ⟨upTo, hupTo, hle⟩ := h.lost_le hidle hitem (not_le.mp hlt)
    have := h.slots.above slot (SortedMap.mem_keys_of_get? hhead) upTo hupTo
    rw [hslot] at hle
    exact absurd hle (not_le.mpr this)
  · rwa [show 2 ^ k + 1 + i - (2 ^ k + 1) = i by omega]

/-- A message since the last epoch of a slot that is not below a complete one has a head at or before
it. -/
theorem exists_head (h : ChannelInv size k events c) (hidle : c.pushing = none)
    (hslot : slot ∈ c.sender.shared.slots.keys) (hp : 2 ^ k + 1 ≤ p)
    (hepoch : (beforeEpoch events).length ≤ p - (2 ^ k + 1))
    (hitem : (storedItems events)[p - (2 ^ k + 1)]? = some item) (hle : slot ≤ item.slot) :
    ∃ head, c.sender.shared.slots.get? item.slot = some head ∧ head ≤ p := by
  have hlen := h.log_length
  have htail := h.idle hidle
  have hlt := (List.getElem?_eq_some_iff.mp hitem).1
  have hin := h.slots.present _ item hepoch (by omega) hitem
    fun upTo hupTo => (h.slots.above slot hslot upTo hupTo).trans_le hle
  obtain ⟨head, hhead⟩ := Option.isSome_iff_exists.mp (SortedMap.mem_keys.mp hin)
  have := h.slots.least _ _ hhead _ item hepoch hitem rfl
  exact ⟨head, hhead, by omega⟩

/-- The subscription from a slot that heads the later ones. -/
theorem followsReplayWindow_of_heads (h : ChannelInv size k events c) (hidle : c.pushing = none)
    (hheads : HeadsLaterSlots (2 ^ k + 1) (beforeEpoch events) c slot) :
    FollowsReplayWindow size (2 ^ k + 1) (storedItems events) c slot filter := by
  obtain ⟨head, hhead, hlater, hold⟩ := hheads
  obtain ⟨hkept, hfirst, hepoch, item, hitem, hslot⟩ := h.head_kept hidle hhead
  have hkey := SortedMap.mem_keys_of_get? hhead
  obtain ⟨r, hr, rfl⟩ := SharedChannel.subscribe_some filter hhead
  constructor
  · refine ⟨fun _ => ⟨?_, r.head, item, hkept, hitem, hslot.ge⟩, fun _ => ⟨r, hr⟩⟩
    cases hkeys : c.sender.shared.slots.firstKey? with
    | none =>
      rw [SortedMap.firstKey?_eq_none.mp hkeys] at hkey
      cases hkey
    | some firstSlot =>
      refine ⟨firstSlot, rfl, ?_⟩
      rcases (SortedMap.firstKey?_eq_some hkeys).2 slot hkey with rfl | hlt
      · exact le_rfl
      · exact hlt.le
  · intro r' hr'
    rw [hr] at hr'
    cases hr'
    refine ⟨h.delivers hfirst ((h.slots.head slot _ hhead).1.trans (Nat.le_succ _)), ?_⟩
    intro p item' hp hitem' hle
    have hpfirst := h.ring.keeps.first_le.trans hp
    rcases Nat.lt_or_ge (p - (2 ^ k + 1)) (beforeEpoch events).length with hlt | hge
    · rw [← beforeEpoch_append_sinceEpoch, List.getElem?_append_left hlt] at hitem'
      exact absurd (hold p item' hp hitem') (not_lt.mpr hle)
    · obtain ⟨head', hhead', hle'⟩ := h.exists_head hidle hkey hpfirst hge hitem' hle
      rcases Nat.lt_or_ge slot item'.slot with hlt | hge'
      · exact (hlater _ _ hlt hhead').le.trans hle'
      · obtain rfl : slot = item'.slot := le_antisymm hle hge'
        rw [hhead] at hhead'
        cases hhead'
        exact hle'
  · intro firstAvailable hno
    rw [hr] at hno
    cases hno

/-- The subscription from a slot below the complete ones. -/
theorem followsReplayWindow_of_below
    (hbelow : ∀ firstSlot, c.sender.shared.slots.firstKey? = some firstSlot → slot < firstSlot) :
    FollowsReplayWindow size (2 ^ k + 1) (storedItems events) c slot filter := by
  have hnone : c.sender.shared.slots.get? slot = none := by
    rw [SortedMap.get?_eq_none]
    intro hkey
    cases hkeys : c.sender.shared.slots.firstKey? with
    | none =>
      rw [SortedMap.firstKey?_eq_none.mp hkeys] at hkey
      cases hkey
    | some firstSlot =>
      have hlt := hbelow firstSlot hkeys
      rcases (SortedMap.firstKey?_eq_some hkeys).2 slot hkey with rfl | hlt'
      · exact Nat.lt_irrefl _ hlt
      · exact Nat.lt_asymm hlt hlt'
  have herror := SharedChannel.subscribe_none filter hnone
  constructor
  · constructor
    · rintro ⟨r, hr⟩
      rw [herror] at hr
      cases hr
    · rintro ⟨⟨firstSlot, hkeys, hle⟩, -⟩
      exact absurd hle (not_le.mpr (hbelow firstSlot hkeys))
  · intro r hr
    rw [herror] at hr
    cases hr
  · intro firstAvailable hno
    rw [herror] at hno
    cases hkeys : c.sender.shared.slots.firstKey? with
    | none =>
      rw [hkeys] at hno
      cases hno
    | some firstSlot =>
      rw [hkeys] at hno
      cases hno
      exact hbelow _ hkeys

/-- A subscription that agrees with the window is one of these two. -/
theorem heads_or_below (h : ChannelInv size k events c) (hidle : c.pushing = none)
    (hw : FollowsReplayWindow size (2 ^ k + 1) (storedItems events) c slot filter) :
    (∀ firstSlot, c.sender.shared.slots.firstKey? = some firstSlot → slot < firstSlot) ∨
      HeadsLaterSlots (2 ^ k + 1) (beforeEpoch events) c slot := by
  cases hhead : c.sender.shared.slots.get? slot with
  | none =>
    left
    intro firstSlot hkeys
    have herror := SharedChannel.subscribe_none filter hhead
    rw [hkeys] at herror
    exact hw.refuses firstSlot herror
  | some head =>
    right
    obtain ⟨r, hr, rfl⟩ := SharedChannel.subscribe_some filter hhead
    obtain ⟨-, hbefore⟩ := hw.receives r hr
    obtain ⟨-, hfirst, hepoch, item, hitem, hslot⟩ := h.head_kept hidle hhead
    refine ⟨r.head, hhead, ?_, ?_⟩
    · intro later head' hlt hhead'
      obtain ⟨hkept', hfirst', -, item', hitem', hslot'⟩ := h.head_kept hidle hhead'
      refine lt_of_le_of_ne (hbefore head' item' hkept' hitem' (hslot'.symm ▸ hlt.le)) ?_
      rintro heq
      rw [← heq, hitem] at hitem'
      cases hitem'
      exact hlt.ne (hslot.symm.trans hslot')
    · intro p item' hp hitem'
      by_contra hle
      have hlt := (List.getElem?_eq_some_iff.mp hitem').1
      have hget : (storedItems events)[p - (2 ^ k + 1)]? = some item' := by
        rw [← beforeEpoch_append_sinceEpoch, List.getElem?_append_left hlt, hitem']
      have := hbefore p item' hp hget (not_lt.mp hle)
      have := h.ring.keeps.first_le
      omega

end ChannelInv

/-- **Subscriptions from a slot**, in every state that the actions of a sender reach and in which its
lock is free. -/
theorem Channel.subscribe_slot {size : ParsedMessage → ℕ} {cfg : ConfigChannelInner}
    {acts : List ChannelAction} {c : Channel} {events : List ChannelEvent}
    (h : run (Channel.step size) (.new cfg) acts = .ok (c, events)) (hidle : c.pushing = none)
    (slot : Slot) (filter : Option RichatFilter) :
    FollowsReplayWindow size (nextPowerOfTwo cfg.maxMessages + 1) (storedItems events) c slot filter ↔
      (∀ firstSlot, c.sender.shared.slots.firstKey? = some firstSlot → slot < firstSlot) ∨
        HeadsLaterSlots (nextPowerOfTwo cfg.maxMessages + 1) (beforeEpoch events) c slot := by
  obtain ⟨k, hk⟩ := exists_nextPowerOfTwo cfg.maxMessages
  have hinv := run_channelInv hk h
  rw [hk]
  constructor
  · exact hinv.heads_or_below hidle
  · rintro (hbelow | hheads)
    · exact ChannelInv.followsReplayWindow_of_below hbelow
    · exact hinv.followsReplayWindow_of_heads hidle hheads

/-- Slot 5, then slot 7: a subscription from slot 5 starts at the message of slot 5. -/
theorem Channel.subscribe_slot_first :
    ∃ c events, run (Channel.step fun _ => 1) (.new ⟨4, 100⟩)
        [.store 5 ⟨0, .slot ⟨5, .slotProcessed, none, []⟩⟩ none, .publish,
          .store 7 ⟨1, .slot ⟨7, .slotProcessed, none, []⟩⟩ none, .publish] = .ok (c, events) ∧
      FollowsReplayWindow (fun _ => 1) 5 (storedItems events) c 5 none := by
  obtain ⟨c, events, hrun, h⟩ := exists_of_returns
    (x := run (Channel.step fun _ => 1) (.new ⟨4, 100⟩)
      [.store 5 ⟨0, .slot ⟨5, .slotProcessed, none, []⟩⟩ none, .publish,
        .store 7 ⟨1, .slot ⟨7, .slotProcessed, none, []⟩⟩ none, .publish])
    (p := fun c events => c.pushing.isNone ∧ c.sender.shared.slots.get? 5 = some 5 ∧
      c.sender.shared.slots.entries.map (fun e => (e.1, e.2)) = [(5, 5), (7, 6)] ∧
        (beforeEpoch events).length = 0)
    (by decide +kernel)
  simp only [decide_eq_true_eq] at h
  obtain ⟨hidle, hhead, hheads, hold⟩ := h
  refine ⟨c, events, hrun, (subscribe_slot hrun (Option.isNone_iff_eq_none.mp hidle) 5 none).mpr ?_⟩
  refine Or.inr ⟨5, hhead, ?_, ?_⟩
  · intro later head' hlt hhead'
    have hmem : (later, head') ∈ c.sender.shared.slots.entries.map (fun e => (e.1, e.2)) :=
      List.mem_map.mpr ⟨_, SortedMap.get?_eq_some.mp hhead', rfl⟩
    rw [hheads, List.mem_cons, List.mem_singleton] at hmem
    rcases hmem with heq | heq
    · cases heq
      exact absurd hlt (lt_irrefl 5)
    · cases heq
      exact Nat.lt_succ_self 5
  · intro p item _ hitem
    rw [List.eq_nil_of_length_eq_zero hold] at hitem
    cases hitem

/-- Slot 5, then slot 7: slot 6 was skipped, and a subscription from it is refused although slot 7 is
in memory. -/
theorem Channel.skipped_slot_refused :
    ∃ c events, run (Channel.step fun _ => 1) (.new ⟨4, 100⟩)
        [.store 5 ⟨0, .slot ⟨5, .slotProcessed, none, []⟩⟩ none, .publish,
          .store 7 ⟨1, .slot ⟨7, .slotProcessed, none, []⟩⟩ none, .publish] = .ok (c, events) ∧
      c.pushing = none ∧
      ¬ FollowsReplayWindow (fun _ => 1) 5 (storedItems events) c 6 none := by
  obtain ⟨c, events, hrun, h⟩ := exists_of_returns
    (x := run (Channel.step fun _ => 1) (.new ⟨4, 100⟩)
      [.store 5 ⟨0, .slot ⟨5, .slotProcessed, none, []⟩⟩ none, .publish,
        .store 7 ⟨1, .slot ⟨7, .slotProcessed, none, []⟩⟩ none, .publish])
    (p := fun c _ => c.pushing.isNone ∧
      c.sender.shared.subscribeHead (some 6) = .error (.slotNotAvailable 5))
    (by decide +kernel)
  simp only [decide_eq_true_eq] at h
  refine ⟨c, events, hrun, Option.isNone_iff_eq_none.mp h.1, fun hw => ?_⟩
  have hrefuses := hw.refuses 5 (by unfold SharedChannel.subscribe; rw [h.2])
  exact absurd hrefuses (by decide)

end Richat
