import Richat.Channel.NoPanic
import Richat.Channel.SlotHeads
import Richat.Grpc.MessagesCache

/-!
# The ring of a stream after its pushes

`Represents` says what a stream is when no push is under way: a window of the messages pushed so far,
each in the cell of its position, with the bytes of the window counted. `RingState` is the invariant
it comes from, kept by every push and every live epoch, and `tryRecv_of_represents` is what a reader
gets at each position.
-/

namespace Richat

open Lib

/-- What `Sender` does to one of its streams. -/
inductive SenderOp where
  | push (slot : Slot) (message : ParsedMessage) (replayIndex : Option ℕ)
  | beginLiveEpoch (index : ℕ)

namespace SenderOp

def message? : SenderOp → Option ParsedMessage
  | push _ message _ => some message
  | beginLiveEpoch _ => none

/-- The next state of the stream, `none` is a panic. -/
def apply (size : ParsedMessage → ℕ) (s : SenderShared) : SenderOp → Option SenderShared
  | push slot message replayIndex => s.push size slot message replayIndex
  | beginLiveEpoch index => some (s.beginLiveEpoch index)

end SenderOp

/-- A stream of the settings after a sequence of calls. -/
def SenderShared.ofOps (size : ParsedMessage → ℕ) (cfg : ConfigChannelInner) (ops : List SenderOp) :
    Option SenderShared :=
  ops.foldlM (SenderOp.apply size) (Channel.new cfg).sender

/-- The stream holds the last of the messages that were pushed. -/
structure Represents (size : ParsedMessage → ℕ) (cfg : ConfigChannelInner)
    (messages : List ParsedMessage) (s : SenderShared) : Prop where
  tail : s.tail = nextPowerOfTwo cfg.maxMessages + messages.length
  published : s.shared.head = s.head ∧ s.shared.tail = s.tail
  first_le : nextPowerOfTwo cfg.maxMessages < s.head
  head_le : s.head ≤ s.tail + 1
  last : messages ≠ [] → s.head ≤ s.tail
  cell : ∀ pos, s.head ≤ pos → pos ≤ s.tail → ∃ message,
    messages[pos - (nextPowerOfTwo cfg.maxMessages + 1)]? = some message ∧
      (s.shared.item pos).pos = pos ∧ (s.shared.item pos).data = some message
  cell_only : ∀ i, i < nextPowerOfTwo cfg.maxMessages → (s.shared.buffer i).data ≠ none →
    ∃ pos, s.head ≤ pos ∧ pos ≤ s.tail ∧ s.shared.getIdx pos = i
  bytesTotal : s.bytesTotal =
    ((messages.drop (s.head - (nextPowerOfTwo cfg.maxMessages + 1))).map size).sum
  capacity : s.tail + 1 - s.head ≤ nextPowerOfTwo cfg.maxMessages
  limit : s.bytesTotal < cfg.maxBytes ∨ s.head = s.tail ∨ messages = [] ∧ cfg.maxBytes = 0

/-! ### The invariant -/

/-- The cells of the ring, the positions that receivers see, and the limit of bytes. -/
structure RingState (size : ParsedMessage → ℕ) (k : ℕ) (log : List Item) (s : SenderShared) :
    Prop where
  ring : RingInv size k log s
  published : s.shared.head = s.head ∧ s.shared.tail = s.tail
  limit : log ≠ [] → s.hasExtra = false
  fresh : log = [] → s.bytesTotal = 0

namespace SenderShared

variable {size : ParsedMessage → ℕ} {s s' : SenderShared} {removed removed' : Option Slot}

theorem bytesMax_dropExtra : ∀ {n : ℕ} {s : SenderShared} {removed : Option Slot},
    s.dropExtra size n removed = some (s', removed') → s'.bytesMax = s.bytesMax
  | 0, s, removed, h => by
    cases h
    rfl
  | n + 1, s, removed, h => by
    unfold dropExtra at h
    split at h
    · split at h
      · cases h
      · rename_i s₁ removed₁ hdrop
        have hmax : s₁.bytesMax = s.bytesMax := by
          unfold dropHead at hdrop
          simp only at hdrop
          split at hdrop
          · cases hdrop
          · cases hdrop
            rfl
        rw [bytesMax_dropExtra h, hmax]
    · cases h
      rfl

theorem publish_head (s : SenderShared) (slot : Slot) (removed : Option Slot) :
    (s.publish slot removed).shared.head = s.head ∧
      (s.publish slot removed).bytesTotal = s.bytesTotal ∧
      (s.publish slot removed).bytesMax = s.bytesMax := by
  cases removed <;> exact ⟨rfl, rfl, rfl⟩

theorem hasExtra_publish (s : SenderShared) (slot : Slot) (removed : Option Slot) :
    (s.publish slot removed).hasExtra = s.hasExtra := by
  cases removed <;> rfl

end SenderShared

namespace RingState

variable {size : ParsedMessage → ℕ} {k : ℕ} {log : List Item} {s s' : SenderShared}

theorem new {maxBytes : ℕ} : RingState size k [] (.new (.new (2 ^ k)) (2 ^ k) maxBytes) where
  ring := .new
  published := ⟨rfl, rfl⟩
  limit h := absurd rfl h
  fresh _ := rfl

/-- A push does not panic: it adds its item to the log. -/
theorem push (h : RingState size k log s) (slot : Slot) (message : ParsedMessage)
    (replayIndex : Option ℕ) : ∃ s', s.push size slot message replayIndex = some s' ∧
      s'.bytesMax = s.bytesMax ∧
      RingState size k (log ++ [s.newItem slot message replayIndex]) s' := by
  cases hstore : s.store size slot message replayIndex with
  | mk s₁ removed =>
    obtain ⟨h₁, hsame, -, -⟩ := h.ring.store hstore
    obtain ⟨⟨s₂, removed₂⟩, hdrop, h₂⟩ :
      ∃ r, s₁.dropExtra size (s₁.tail - s₁.head) removed = some r ∧ RingInv size k _ r.1 :=
        h₁.dropExtra
    obtain ⟨hextra, -⟩ := SenderShared.dropExtra_run slot _ (by omega) hdrop
    obtain ⟨hhead, htail, hshared⟩ := s₂.publish_fields slot removed₂
    obtain ⟨hshared', hbytes, hmax⟩ := s₂.publish_head slot removed₂
    refine ⟨s₂.publish slot removed₂, ?_, ?_, h₂.publish, ⟨?_, ?_⟩, ?_, ?_⟩
    · unfold SenderShared.push
      rw [hstore]
      dsimp only
      rw [hdrop]
    · rw [hmax, SenderShared.bytesMax_dropExtra hdrop, hsame.bytesMax]
    · rw [hshared', hhead]
    · rw [hshared, htail]
    · intro _
      rw [SenderShared.hasExtra_publish, hextra]
    · simp

theorem beginLiveEpoch (h : RingState size k log s) (index : ℕ) :
    RingState size k log (s.beginLiveEpoch index) where
  ring := h.ring.beginLiveEpoch
  published := h.published
  limit := h.limit
  fresh := h.fresh

/-- The messages of the log, in the cells of the window. -/
theorem represents {cfg : ConfigChannelInner} {messages : List ParsedMessage}
    (h : RingState size k log s) (hk : nextPowerOfTwo cfg.maxMessages = 2 ^ k)
    (hmax : s.bytesMax = cfg.maxBytes) (hlog : log.map (·.data) = messages.map some) :
    Represents size cfg messages s := by
  have hlen : log.length = messages.length := by simpa using congrArg List.length hlog
  have htail := h.ring.keeps.tail_eq
  have hfirst := h.ring.keeps.first_le
  have hnil : messages = [] ↔ log = [] := by
    rw [← List.length_eq_zero_iff, ← List.length_eq_zero_iff, hlen]
  constructor
  · omega
  · exact h.published
  · omega
  · exact h.ring.keeps.head_le
  · intro hne
    exact h.ring.last (mt hnil.mpr hne)
  · intro pos hle hge
    have hitem := h.ring.keeps.kept pos hle hge
    rw [← SharedChannel.item_eq h.ring.mask] at hitem
    have hpos := h.ring.pos _ _ hitem
    have hdata : (log.map (·.data))[pos - (2 ^ k + 1)]? = some (s.shared.item pos).data := by
      rw [List.getElem?_map, hitem]
      rfl
    rw [hlog, List.getElem?_map, Option.map_eq_some_iff] at hdata
    obtain ⟨message, hmessage, heq⟩ := hdata
    exact ⟨message, by rw [hk, hmessage], by omega, heq.symm⟩
  · intro i hi hdata
    obtain ⟨pos, hle, hge, hcell⟩ :=
      h.ring.keeps.live_only i (by omega) (Option.isSome_iff_ne_none.mpr hdata)
    exact ⟨pos, hle, hge, by rw [SharedChannel.getIdx_eq h.ring.mask, hcell]⟩
  · have hdrop : (log.drop (s.head - (2 ^ k + 1))).filterMap (·.data) =
        messages.drop (s.head - (2 ^ k + 1)) := by
      have hmap : ∀ (l : List Item), l.filterMap (·.data) = (l.map (·.data)).filterMap id := by
        intro l
        rw [List.filterMap_map]
        rfl
      rw [hmap, List.map_drop, hlog, ← List.map_drop, List.filterMap_map]
      simp
    rw [h.ring.bytesTotal, bytes, hdrop, hk]
  · have := h.ring.keeps.width
    omega
  · by_cases hempty : messages = []
    · have hzero := h.fresh (hnil.mp hempty)
      rcases Nat.eq_zero_or_pos cfg.maxBytes with h0 | h0
      · exact Or.inr (Or.inr ⟨hempty, h0⟩)
      · left
        omega
    · have hextra := h.limit (mt hnil.mpr hempty)
      have hlast := h.ring.last (mt hnil.mpr hempty)
      simp only [SenderShared.hasExtra, decide_eq_false_iff_not] at hextra
      omega

end RingState

/-! ### Readers -/

/-- What `try_recv` returns at a position: its message, nothing yet, or that it is gone. -/
structure ReadsBack (cap : ℕ) (messages : List ParsedMessage) (s : SenderShared) : Prop where
  received : ∀ head, s.head ≤ head → head ≤ s.tail → ∃ message,
    messages[head - (cap + 1)]? = some message ∧
      ReceiverSync.tryRecv (some s.shared) head = .ok (some message)
  none_iff : ∀ head, ReceiverSync.tryRecv (some s.shared) head = .ok none ↔ s.tail < head
  lagged_iff : ∀ head,
    ReceiverSync.tryRecv (some s.shared) head = .error .lagged ↔ head < s.head

section

variable {size : ParsedMessage → ℕ} {k head : ℕ} {log : List Item} {s : SenderShared}

/-- A position before the window has the cell of another position, or an empty one. -/
theorem RingInv.data_of_lt (h : RingInv size k log s) (hlt : head < s.head)
    (hpos : (s.shared.item head).pos = head) : (s.shared.item head).data = none := by
  by_contra hdata
  rw [SharedChannel.item_eq h.mask] at hpos hdata
  obtain ⟨q, hle, hge, hlog, -⟩ := h.keeps.read_live (Option.isSome_iff_ne_none.mpr hdata)
  have hq := h.pos _ _ hlog
  have hfirst := h.keeps.first_le
  omega

namespace ReceiverSync

variable {shared : SharedChannel} {message : ParsedMessage}

theorem tryRecv_of_lt (h : shared.tail < head) : tryRecv (some shared) head = .ok none := by
  unfold tryRecv
  simp only [if_neg (Nat.not_le.mpr h)]

theorem tryRecv_message (h : head ≤ shared.tail) (hpos : (shared.item head).pos = head)
    (hdata : (shared.item head).data = some message) :
    tryRecv (some shared) head = .ok (some message) := by
  unfold tryRecv
  simp only [if_pos h, hpos, hdata, ne_eq, not_true_eq_false, if_false]

theorem tryRecv_lagged (h : head ≤ shared.tail)
    (hgone : (shared.item head).pos = head → (shared.item head).data = none) :
    tryRecv (some shared) head = .error .lagged := by
  unfold tryRecv
  simp only [if_pos h]
  split
  · rfl
  · rename_i hpos
    rw [hgone (not_not.mp hpos)]

end ReceiverSync

theorem readsBack {cfg : ConfigChannelInner} {messages : List ParsedMessage}
    (h : RingInv size k log s) (hs : Represents size cfg messages s) :
    ReadsBack (nextPowerOfTwo cfg.maxMessages) messages s := by
  obtain ⟨-, htail⟩ := hs.published
  have hle := hs.head_le
  -- the three cases exclude each other, so each is also the only one
  have hreceived : ∀ head, s.head ≤ head → head ≤ s.tail → ∃ message,
      messages[head - (nextPowerOfTwo cfg.maxMessages + 1)]? = some message ∧
        ReceiverSync.tryRecv (some s.shared) head = .ok (some message) := by
    intro head h₁ h₂
    obtain ⟨message, hmessage, hpos, hdata⟩ := hs.cell head h₁ h₂
    exact ⟨message, hmessage, ReceiverSync.tryRecv_message (by omega) hpos hdata⟩
  have hnone : ∀ head, s.tail < head → ReceiverSync.tryRecv (some s.shared) head = .ok none := by
    intro head hlt
    exact ReceiverSync.tryRecv_of_lt (by omega)
  have hlagged : ∀ head, head < s.head →
      ReceiverSync.tryRecv (some s.shared) head = .error .lagged := by
    intro head hlt
    exact ReceiverSync.tryRecv_lagged (by omega) (h.data_of_lt hlt)
  refine ⟨hreceived, ?_, ?_⟩
  · intro head
    refine ⟨?_, hnone head⟩
    intro hrecv
    by_contra hge
    rcases Nat.lt_or_ge head s.head with hlt | hhead
    · rw [hlagged head hlt] at hrecv
      cases hrecv
    · obtain ⟨message, -, hmessage⟩ := hreceived head hhead (by omega)
      rw [hmessage] at hrecv
      cases hrecv
  · intro head
    refine ⟨?_, hlagged head⟩
    intro hrecv
    by_contra hge
    rcases Nat.lt_or_ge s.tail head with hlt | htail
    · rw [hnone head hlt] at hrecv
      cases hrecv
    · obtain ⟨message, -, hmessage⟩ := hreceived head (by omega) htail
      rw [hmessage] at hrecv
      cases hrecv

end

/-! ### Every sequence of calls -/

namespace SenderShared

variable {size : ParsedMessage → ℕ} {k : ℕ} {log : List Item} {messages : List ParsedMessage}

/-- One call keeps the invariant, and its message is the next one of the log. -/
theorem ringState_apply {s : SenderShared} (h : RingState size k log s)
    (hlog : log.map (·.data) = messages.map some) (op : SenderOp) :
    ∃ s' log', SenderOp.apply size s op = some s' ∧ s'.bytesMax = s.bytesMax ∧
      RingState size k log' s' ∧
      log'.map (·.data) = (messages ++ op.message?.toList).map some := by
  cases op with
  | push slot message replayIndex =>
    obtain ⟨s', hpush, hmax, h'⟩ := h.push slot message replayIndex
    refine ⟨s', _, hpush, hmax, h', ?_⟩
    rw [List.map_append, hlog, List.map_append]
    rfl
  | beginLiveEpoch index =>
    refine ⟨_, log, rfl, rfl, h.beginLiveEpoch index, ?_⟩
    rw [hlog]
    simp [SenderOp.message?]

theorem ringState_ofOps (ops : List SenderOp) : ∀ {s : SenderShared} {log : List Item}
    {messages : List ParsedMessage}, RingState size k log s →
    log.map (·.data) = messages.map some →
    ∃ s' log', ops.foldlM (SenderOp.apply size) s = some s' ∧ s'.bytesMax = s.bytesMax ∧
      RingState size k log' s' ∧
      log'.map (·.data) = (messages ++ ops.filterMap (·.message?)).map some := by
  induction ops with
  | nil =>
    intro s log messages h hlog
    exact ⟨s, log, rfl, rfl, h, by simpa using hlog⟩
  | cons op ops ih =>
    intro s log messages h hlog
    obtain ⟨s₁, log₁, happly, hmax₁, h₁, hlog₁⟩ := ringState_apply h hlog op
    obtain ⟨s₂, log₂, hrest, hmax₂, h₂, hlog₂⟩ := ih h₁ hlog₁
    refine ⟨s₂, log₂, ?_, hmax₂.trans hmax₁, h₂, ?_⟩
    · rw [List.foldlM_cons, happly]
      exact hrest
    · rw [hlog₂, List.append_assoc]
      cases hop : op.message? <;> simp [hop]

/-- The calls never panic. The stream then represents the messages pushed, and a receiver reads back
what was pushed at the position it asks for. -/
theorem ofOps_represents (size : ParsedMessage → ℕ) (cfg : ConfigChannelInner)
    (ops : List SenderOp) : ∃ s, ofOps size cfg ops = some s ∧
      Represents size cfg (ops.filterMap (·.message?)) s ∧
      ReadsBack (nextPowerOfTwo cfg.maxMessages) (ops.filterMap (·.message?)) s := by
  obtain ⟨k, hk⟩ := exists_nextPowerOfTwo cfg.maxMessages
  have hnew : RingState size k [] (Channel.new cfg).sender := by
    unfold Channel.new
    rw [hk]
    exact .new
  have hnil : ([] : List Item).map (·.data) = ([] : List ParsedMessage).map some := rfl
  obtain ⟨s, log, hops, hmax, h, hlog⟩ := ringState_ofOps ops hnew hnil
  have hs := h.represents hk hmax hlog
  exact ⟨s, hops, hs, readsBack h.ring hs⟩

/-- A new stream whose limit is zero is not below its limit, and holds no message. -/
theorem limit_of_zero : ¬ ∀ (size : ParsedMessage → ℕ) (cfg : ConfigChannelInner)
    (ops : List SenderOp) (s : SenderShared), ofOps size cfg ops = some s →
      s.bytesTotal < s.bytesMax ∨ s.head = s.tail := by
  intro h
  have hzero := h (fun _ => 0) ⟨1, 0⟩ [] _ rfl
  revert hzero
  decide

end SenderShared

end Richat
