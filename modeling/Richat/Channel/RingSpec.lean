import Richat.Channel.SharedChannel
import Richat.Lib.Ring

/-!
# What the cells of a stream hold

`RingInv` is the invariant of a stream between any two actions, also in the middle of a push: the
cells keep a window of the items pushed so far, the byte count is exact, and the published tail is
the last position, or the one before it while a push is under way. Every action keeps it, and the
panic of the byte loop cannot be reached.
-/

namespace Richat

open Lib

/-- The item is a message. -/
def Item.Live (item : Item) : Prop := item.data.isSome

instance Item.decidableLive (item : Item) : Decidable item.Live := by
  unfold Item.Live
  infer_instance

/-- Bytes of the items. -/
def bytes (size : ParsedMessage → ℕ) (items : List Item) : ℕ :=
  ((items.filterMap (·.data)).map size).sum

/-- The ring of `2 ^ k` cells after the items `log` were pushed. -/
structure RingInv (size : ParsedMessage → ℕ) (k : ℕ) (log : List Item) (s : SenderShared) : Prop where
  mask : s.shared.mask = 2 ^ k - 1
  keeps : Ring.Keeps Item.Live (2 ^ k) (2 ^ k + 1) log s.shared.buffer s.head s.tail
  pos : ∀ i item, log[i]? = some item → item.pos = 2 ^ k + 1 + i
  stale : ∀ i, i < 2 ^ k → (s.shared.buffer i).pos ≠ 2 ^ k
  last : log ≠ [] → s.head ≤ s.tail
  bytesTotal : s.bytesTotal = bytes size (log.drop (s.head - (2 ^ k + 1)))

namespace SharedChannel

theorem getIdx_eq {shared : SharedChannel} {k : ℕ} (h : shared.mask = 2 ^ k - 1) (pos : ℕ) :
    shared.getIdx pos = pos % 2 ^ k := by
  unfold getIdx
  rw [h, Nat.and_two_pow_sub_one_eq_mod]

theorem item_eq {shared : SharedChannel} {k : ℕ} (h : shared.mask = 2 ^ k - 1) (pos : ℕ) :
    shared.item pos = shared.buffer (pos % 2 ^ k) := by
  unfold item
  rw [getIdx_eq h]

@[simp] theorem mask_setItem (shared : SharedChannel) (pos : ℕ) (item : Item) :
    (shared.setItem pos item).mask = shared.mask := rfl

@[simp] theorem tail_setItem (shared : SharedChannel) (pos : ℕ) (item : Item) :
    (shared.setItem pos item).tail = shared.tail := rfl

@[simp] theorem slots_setItem (shared : SharedChannel) (pos : ℕ) (item : Item) :
    (shared.setItem pos item).slots = shared.slots := rfl

theorem buffer_setItem {shared : SharedChannel} {k : ℕ} (h : shared.mask = 2 ^ k - 1) (pos : ℕ)
    (item : Item) :
    (shared.setItem pos item).buffer = Function.update shared.buffer (pos % 2 ^ k) item := by
  unfold setItem
  rw [getIdx_eq h]

@[simp] theorem raiseFloor_fields (shared : SharedChannel) (item : Item) :
    (shared.raiseFloor item).mask = shared.mask ∧ (shared.raiseFloor item).tail = shared.tail ∧
      (shared.raiseFloor item).head = shared.head ∧
      (shared.raiseFloor item).buffer = shared.buffer ∧
      (shared.raiseFloor item).slots = shared.slots ∧
      (shared.raiseFloor item).recoveryEpoch = shared.recoveryEpoch := by
  unfold raiseFloor
  split <;> exact ⟨rfl, rfl, rfl, rfl, rfl, rfl⟩

end SharedChannel

/-! ### The actions of the sender -/

/-- The item of a pushed message. -/
def SenderShared.newItem (s : SenderShared) (slot : Slot) (message : ParsedMessage)
    (replayIndex : Option ℕ) : Item :=
  ⟨replayIndex.getD noReplayIndex, s.tail + 1, slot, some message⟩

/-- What `store` and `dropHead` leave alone. -/
structure SenderShared.SameSlots (s s' : SenderShared) : Prop where
  slots : s'.shared.slots = s.shared.slots
  tail : s'.shared.tail = s.shared.tail
  recoveryEpoch : s'.shared.recoveryEpoch = s.shared.recoveryEpoch
  incompleteThrough : s'.incompleteThrough = s.incompleteThrough
  bytesMax : s'.bytesMax = s.bytesMax

section Bytes

variable {size : ParsedMessage → ℕ} {item : Item} {message : ParsedMessage} {log : List Item}

theorem bytes_append (l l' : List Item) : bytes size (l ++ l') = bytes size l + bytes size l' := by
  simp [bytes]

theorem bytes_singleton (h : item.data = some message) : bytes size [item] = size message := by
  simp [bytes, h]

/-- The oldest item of the window counts with its own bytes. -/
theorem bytes_drop {i : ℕ} (hi : log[i]? = some item) (h : item.data = some message) :
    bytes size (log.drop i) = size message + bytes size (log.drop (i + 1)) := by
  obtain ⟨hlt, rfl⟩ := List.getElem?_eq_some_iff.mp hi
  rw [List.drop_eq_getElem_cons hlt, ← List.singleton_append, bytes_append, bytes_singleton h]

end Bytes

namespace RingInv

variable {size : ParsedMessage → ℕ} {k : ℕ} {log : List Item} {s s' : SenderShared}
  {slot : Slot} {message : ParsedMessage} {replayIndex : Option ℕ} {removed removed' : Option Slot}

theorem new {maxBytes : ℕ} : RingInv size k [] (.new (.new (2 ^ k)) (2 ^ k) maxBytes) where
  mask := rfl
  keeps := by
    refine Ring.keeps_nil (Nat.two_pow_pos k) ?_
    intro i _ h
    cases h
  pos := by
    intro i item h
    cases h
  stale := by
    intro i hi
    exact hi.ne
  last := by
    intro h
    exact absurd rfl h
  bytesTotal := by
    rw [List.drop_nil]
    rfl

variable (h : RingInv size k log s)

include h

theorem getElem?_newItem {i : ℕ} {item : Item}
    (hi : (log ++ [s.newItem slot message replayIndex])[i]? = some item) :
    item.pos = 2 ^ k + 1 + i := by
  rcases Nat.lt_or_ge i log.length with hlt | hge
  · rw [List.getElem?_append_left hlt] at hi
    exact h.pos i item hi
  · rw [List.getElem?_append_right hge] at hi
    obtain ⟨hlt, rfl⟩ := List.getElem?_eq_some_iff.mp hi
    have := h.keeps.tail_eq
    simp only [List.length_singleton] at hlt
    simp only [List.getElem_singleton, SenderShared.newItem]
    omega

/-- The invariant after the cell of the next position is written. -/
theorem write (hmask : s'.shared.mask = s.shared.mask) (htail : s'.tail = s.tail + 1)
    (hbuffer : s'.shared.buffer = Function.update s.shared.buffer ((s.tail + 1) % 2 ^ k)
      (s.newItem slot message replayIndex))
    (hhead : s'.head = if s.tail + 1 = s.head + 2 ^ k then s.head + 1 else s.head)
    (hbytes : s'.bytesTotal =
      bytes size (log.drop (s'.head - (2 ^ k + 1))) + size message) :
    RingInv size k (log ++ [s.newItem slot message replayIndex]) s' := by
  have hpos := Nat.two_pow_pos k
  have hkeeps := h.keeps.store (x := s.newItem slot message replayIndex) rfl hhead
  have hlen := h.keeps.tail_eq
  have hle := h.keeps.head_le
  constructor
  · exact hmask.trans h.mask
  · rw [hbuffer, htail]
    exact hkeeps
  · intro i item hi
    exact h.getElem?_newItem hi
  · intro i hi
    rw [hbuffer]
    by_cases heq : i = (s.tail + 1) % 2 ^ k
    · rw [heq, Function.update_self]
      show s.tail + 1 ≠ 2 ^ k
      omega
    · rw [Function.update_of_ne heq]
      exact h.stale i hi
  · intro _
    rw [htail, hhead]
    split <;> omega
  · rw [hbytes, List.drop_append_of_le_length, bytes_append, bytes_singleton rfl]
    rw [hhead]
    split <;> omega

/-- Pushing a message: the item is the last one, and the message that was in its cell leaves. -/
theorem store (hstore : s.store size slot message replayIndex = (s', removed)) :
    RingInv size k (log ++ [s.newItem slot message replayIndex]) s' ∧ s.SameSlots s' ∧
      s'.tail = s.tail + 1 ∧
      ((s'.head = s.head ∧ removed = none) ∨
        ∃ old, log[s.head - (2 ^ k + 1)]? = some old ∧ s'.head = s.head + 1 ∧
          removed = some old.slot) := by
  have hfirst := h.keeps.first_le
  have hitem := SharedChannel.item_eq h.mask (s.tail + 1)
  have hnext := h.keeps.live_next
  unfold SenderShared.store at hstore
  simp only at hstore
  split at hstore
  · rename_i message' hdata
    have hfull : s.tail + 1 = s.head + 2 ^ k := by
      rw [← hnext, ← hitem]
      unfold Item.Live
      rw [hdata]
      rfl
    have hold : log[s.head - (2 ^ k + 1)]? = some (s.shared.item (s.tail + 1)) := by
      have := Nat.two_pow_pos k
      rw [h.keeps.kept s.head le_rfl (by omega), hitem, hfull, Nat.add_mod_right]
    obtain ⟨rfl, rfl⟩ := Prod.ext_iff.mp hstore
    obtain ⟨hm, ht, hh, hb, hs, he⟩ :=
      s.shared.raiseFloor_fields (s.shared.item (s.tail + 1))
    have hmask := hm.trans h.mask
    refine ⟨h.write hm rfl ?_ (if_pos hfull).symm ?_, ⟨hs, ht, he, rfl, rfl⟩, rfl,
      Or.inr ⟨_, hold, rfl, rfl⟩⟩
    · show (SharedChannel.setItem (s.shared.raiseFloor _) _ _).buffer = _
      rw [SharedChannel.buffer_setItem hmask, hb]
      rfl
    · show s.bytesTotal + size message - size message' = _
      rw [h.bytesTotal, bytes_drop hold hdata]
      show _ = bytes size (log.drop (s.head + 1 - (2 ^ k + 1))) + _
      rw [show s.head + 1 - (2 ^ k + 1) = s.head - (2 ^ k + 1) + 1 by omega]
      omega
  · rename_i hdata
    have hfull : s.tail + 1 ≠ s.head + 2 ^ k := by
      rw [Ne, ← hnext, ← hitem]
      unfold Item.Live
      rw [hdata]
      exact Bool.false_ne_true
    obtain ⟨rfl, rfl⟩ := Prod.ext_iff.mp hstore
    refine ⟨h.write rfl rfl ?_ (if_neg hfull).symm ?_, ⟨rfl, rfl, rfl, rfl, rfl⟩, rfl,
      Or.inl ⟨rfl, rfl⟩⟩
    · show (SharedChannel.setItem s.shared _ _).buffer = _
      rw [SharedChannel.buffer_setItem h.mask]
      rfl
    · show s.bytesTotal + size message = _
      rw [h.bytesTotal]

/-- The byte loop always finds a message to remove. -/
theorem dropHead_ne_none (hlt : s.head < s.tail) : s.dropHead size removed ≠ none := by
  have hlive := h.keeps.live_kept s.head le_rfl hlt.le
  rw [← SharedChannel.item_eq h.mask] at hlive
  obtain ⟨message, hdata⟩ := Option.isSome_iff_exists.mp hlive
  intro hnone
  unfold SenderShared.dropHead at hnone
  simp only [hdata] at hnone
  cases hnone

/-- One turn of the byte loop: the oldest message leaves. -/
theorem dropHead (hlt : s.head < s.tail) (hdrop : s.dropHead size removed = some (s', removed')) :
    RingInv size k log s' ∧ s.SameSlots s' ∧ s'.tail = s.tail ∧ s'.head = s.head + 1 ∧
      ∃ old, log[s.head - (2 ^ k + 1)]? = some old ∧
        removed' = some (removed.elim old.slot (max old.slot)) := by
  have hfirst := h.keeps.first_le
  have hold := h.keeps.kept s.head le_rfl hlt.le
  rw [← SharedChannel.item_eq h.mask] at hold
  unfold SenderShared.dropHead at hdrop
  simp only at hdrop
  split at hdrop
  · cases hdrop
  · rename_i message hdata
    simp only [Option.some.injEq, Prod.mk.injEq] at hdrop
    obtain ⟨rfl, rfl⟩ := hdrop
    obtain ⟨hm, ht, hh, hb, hs, he⟩ :=
      (s.shared.setItem s.head { s.shared.item s.head with data := none }).raiseFloor_fields
        (s.shared.item s.head)
    have hbuffer := hb.trans (SharedChannel.buffer_setItem h.mask _ _)
    refine ⟨⟨hm.trans h.mask, ?_, h.pos, ?_, ?_, ?_⟩, ⟨hs, ht, he, rfl, rfl⟩, rfl, rfl, _, hold,
      rfl⟩
    · show Ring.Keeps _ _ _ _ (SharedChannel.raiseFloor _ _).buffer _ _
      rw [hbuffer]
      exact h.keeps.drop hlt.le Bool.false_ne_true
    · intro i hi
      show ((SharedChannel.raiseFloor _ _).buffer i).pos ≠ _
      rw [hbuffer]
      by_cases heq : i = s.head % 2 ^ k
      · rw [heq, Function.update_self, SharedChannel.item_eq h.mask, ← heq]
        exact h.stale i hi
      · rw [Function.update_of_ne heq]
        exact h.stale i hi
    · intro _
      exact hlt
    · show s.bytesTotal - size message = _
      rw [h.bytesTotal, bytes_drop hold hdata]
      show _ = bytes size (log.drop (s.head + 1 - (2 ^ k + 1)))
      rw [show s.head + 1 - (2 ^ k + 1) = s.head - (2 ^ k + 1) + 1 by omega]
      omega

/-- The cells and the positions of the sender are all that counts. -/
theorem congr (hmask : s'.shared.mask = s.shared.mask) (hbuffer : s'.shared.buffer = s.shared.buffer)
    (hhead : s'.head = s.head) (htail : s'.tail = s.tail)
    (hbytes : s'.bytesTotal = s.bytesTotal) : RingInv size k log s' := by
  constructor
  · exact hmask.trans h.mask
  · rw [hbuffer, hhead, htail]
    exact h.keeps
  · exact h.pos
  · rw [hbuffer]
    exact h.stale
  · rw [hhead, htail]
    exact h.last
  · rw [hbytes, hhead]
    exact h.bytesTotal

theorem publish : RingInv size k log (s.publish slot removed) := by
  cases removed <;> exact h.congr rfl rfl rfl rfl rfl

theorem beginLiveEpoch {index : ℕ} : RingInv size k log (s.beginLiveEpoch index) :=
  h.congr rfl rfl rfl rfl rfl

end RingInv

theorem SenderShared.publish_fields (s : SenderShared) (slot : Slot) (removed : Option Slot) :
    (s.publish slot removed).head = s.head ∧ (s.publish slot removed).tail = s.tail ∧
      (s.publish slot removed).shared.tail = s.tail := by
  cases removed <;> exact ⟨rfl, rfl, rfl⟩

/-- The cell of the new tail holds the pushed message. -/
theorem SenderShared.item_store {size : ParsedMessage → ℕ} {s s' : SenderShared} {slot : Slot}
    {message : ParsedMessage} {replayIndex : Option ℕ} {removed : Option Slot}
    (h : s.store size slot message replayIndex = (s', removed)) :
    s'.shared.item s'.tail = s.newItem slot message replayIndex := by
  have hself : ∀ (shared : SharedChannel) pos item, (shared.setItem pos item).item pos = item :=
    fun shared pos item => Function.update_self ..
  unfold SenderShared.store at h
  simp only at h
  split at h
  · obtain ⟨rfl, -⟩ := Prod.ext_iff.mp h
    exact hself _ _ _
  · obtain ⟨rfl, -⟩ := Prod.ext_iff.mp h
    exact hself _ _ _

end Richat
