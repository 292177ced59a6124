import Richat.Channel.SlotHeads

/-!
# Receivers of a stream

A receiver has a position of its own and reads the cell of that position until it has passed the
published tail. It holds no lock over two cells, so a poll is cut into `load`, which reads the tail,
and one `read` for every cell; `Live.step` lets them happen between any two actions of the sender.

`Delivers` says what a receiver owes from its start on, and `delivers_of_kept` that it does so when
the message at its start is in the ring. The receiver of `subscribe(None)` starts at the published
tail, and `live_subscription` says when that is enough.
-/

namespace Richat

open Lib

/-- The filter of a richat subscription, `RichatFilter::default` is `⟨false, false, ..⟩`. -/
structure RichatFilter where
  disableAccounts : Bool
  disableTransactions : Bool
  disableEntries : Bool
  enableBlockFooters : Bool
  enableEntryUpdateParents : Bool

def RichatFilter.default : RichatFilter := ⟨false, false, false, false, false⟩

structure ReceiverAsync where
  head : ℕ
  finished : Bool
  enableNotificationsAccounts : Bool
  enableNotificationsTransactions : Bool
  enableNotificationsEntries : Bool
  enableNotificationsBlockFooters : Bool
  enableNotificationsEntryUpdateParents : Bool

inductive SubscribeError where
  | notInitialized
  | slotNotAvailable (firstAvailable : Slot)
  deriving DecidableEq

/-- The first position of a receiver from the slot. -/
def SharedChannel.subscribeHead (shared : SharedChannel) : Option Slot → Except SubscribeError ℕ
  | some replayFromSlot =>
    match shared.slots.get? replayFromSlot with
    | some head => .ok head
    | none =>
      match shared.slots.firstKey? with
      | some firstAvailable => .error (.slotNotAvailable firstAvailable)
      | none => .error .notInitialized
  | none => .ok shared.tail

/-- `<Messages as Subscribe>::subscribe`. -/
def SharedChannel.subscribe (shared : SharedChannel) (replayFromSlot : Option Slot)
    (filter : Option RichatFilter) : Except SubscribeError ReceiverAsync :=
  match shared.subscribeHead replayFromSlot with
  | .error e => .error e
  | .ok head =>
    let filter := filter.getD .default
    .ok
      { head
        finished := false
        enableNotificationsAccounts := !filter.disableAccounts
        enableNotificationsTransactions := !filter.disableTransactions
        enableNotificationsEntries := !filter.disableEntries
        enableNotificationsBlockFooters := filter.enableBlockFooters
        enableNotificationsEntryUpdateParents := filter.enableEntryUpdateParents }

/-- What `recv_ref` finds in one cell. -/
inductive ReadResult where
  | lagged
  | skip
  | item (message : ParsedMessage)

namespace ReceiverAsync

/-- Whether the message passes the filter. -/
def passes (r : ReceiverAsync) (message : ParsedMessage) : Bool :=
  match message.message with
  | .account _ => r.enableNotificationsAccounts
  | .transaction _ => r.enableNotificationsTransactions
  | .entry _ => r.enableNotificationsEntries
  | .blockFooter _ => r.enableNotificationsBlockFooters
  | .entryUpdateParent _ => r.enableNotificationsEntryUpdateParents
  | .block _ => false
  | .slot _ | .blockMeta _ => true

/-- One turn of the loop of `recv_ref`. -/
def read (r : ReceiverAsync) (item : Item) : ReceiverAsync × ReadResult :=
  if item.pos ≠ r.head then (r, .lagged)
  else
    let r := { r with head := r.head + 1 }
    match item.data with
    | none => (r, .lagged)
    | some message => (r, if r.passes message then .item message else .skip)

end ReceiverAsync

/-- A stream and one of its receivers, with the tail that the poll under way has loaded. -/
structure Live where
  channel : Channel
  receiver : ReceiverAsync
  polling : Option ℕ

inductive LiveAction where
  | channel (action : ChannelAction)
  | load
  | read

inductive LiveEvent where
  | channel (event : ChannelEvent)
  /-- `Poll::Ready(Some(Ok(..)))` -/
  | item (message : ParsedMessage)
  /-- `Poll::Ready(Some(Err(RecvError::Lagged)))` -/
  | lagged
  /-- `Poll::Pending` -/
  | pending
  /-- `Poll::Ready(None)` -/
  | closed

namespace LiveEvent

def channel? : LiveEvent → Option ChannelEvent
  | channel event => some event
  | _ => none

def item? : LiveEvent → Option ParsedMessage
  | item message => some message
  | _ => none

end LiveEvent

/-- One action of the sender or of the receiver's `poll_next`. -/
def Live.step (size : ParsedMessage → ℕ) : Step Live LiveAction LiveEvent Stuck
  | ⟨c, r, polling⟩, .channel action =>
    match Channel.step size c action with
    | .error e => .error e
    | .ok (c, events) => .ok (⟨c, r, polling⟩, events.map .channel)
  | ⟨c, r, none⟩, .load =>
    if r.finished then .ok (⟨c, r, none⟩, [.closed])
    else .ok (⟨c, r, some c.sender.shared.tail⟩, [])
  | ⟨c, r, some tail⟩, .read =>
    if r.head ≤ tail then
      match r.read (c.sender.shared.item r.head) with
      | (r, .lagged) => .ok (⟨c, { r with finished := true }, none⟩, [.lagged])
      | (r, .item message) => .ok (⟨c, r, none⟩, [.item message])
      | (r, .skip) => .ok (⟨c, r, some tail⟩, [])
    else .ok (⟨c, r, none⟩, [.pending])
  | _, _ => .error .order

/-- The items pushed during a run. -/
def pushed (tr : List LiveEvent) : List Item := storedItems (tr.filterMap (·.channel?))

/-- The messages that the receiver has yielded. -/
def yielded (tr : List LiveEvent) : List ParsedMessage := tr.filterMap (·.item?)

/-- The messages of the items that pass the filter. -/
def ReceiverAsync.passed (r : ReceiverAsync) (items : List Item) : List ParsedMessage :=
  (items.filterMap (·.data)).filter r.passes

/-- **What a receiver owes.** The items of a stream are numbered from the position `first` on, and
`log` are those that were pushed before. The receiver yields what passes its filter of the items from
its position on, in order and without a hole; it has yielded all of these that were published when a
poll began that finds nothing; and it lags only when an item from its position on has left the
ring. -/
structure Delivers (size : ParsedMessage → ℕ) (first : ℕ) (log : List Item) (s : Live) : Prop where
  inOrder : ∀ acts s' tr, run (Live.step size) s acts = .ok (s', tr) →
    ∃ n, yielded tr = s.receiver.passed (((log ++ pushed tr).drop (s.receiver.head - first)).take n)
  complete : ∀ acts s' tr a s'' tail, run (Live.step size) s acts = .ok (s', tr) →
    s'.polling = some tail → Live.step size s' a = .ok (s'', [.pending]) →
    yielded tr = s.receiver.passed (((log ++ pushed tr).drop (s.receiver.head - first)).take
      (tail + 1 - s.receiver.head))
  lagged : ∀ acts s' tr a s'', run (Live.step size) s acts = .ok (s', tr) →
    Live.step size s' a = .ok (s'', [.lagged]) →
    ∃ p, s'.receiver.head ≤ p ∧ first ≤ p ∧ p < s'.channel.sender.head

/-! ### A receiver from a position in the ring -/

theorem ReceiverAsync.passed_append (r : ReceiverAsync) (l l' : List Item) :
    r.passed (l ++ l') = r.passed l ++ r.passed l' := by
  unfold passed
  rw [List.filterMap_append, List.filter_append]

@[simp] theorem pushed_append (tr tr' : List LiveEvent) :
    pushed (tr ++ tr') = pushed tr ++ pushed tr' := by
  unfold pushed
  rw [List.filterMap_append, storedItems_append]

@[simp] theorem yielded_append (tr tr' : List LiveEvent) :
    yielded (tr ++ tr') = yielded tr ++ yielded tr' := List.filterMap_append

theorem channel_events (events : List ChannelEvent) :
    (events.map LiveEvent.channel).filterMap (·.channel?) = events := by
  induction events with
  | nil => rfl
  | cons e l ih =>
    rw [List.map_cons, List.filterMap_cons, ih]
    rfl

theorem yielded_channel (events : List ChannelEvent) :
    yielded (events.map LiveEvent.channel) = [] := by
  induction events with
  | nil => rfl
  | cons e l ih => exact ih

/-- What one action is. -/
theorem Live.step_cases {size : ParsedMessage → ℕ} {s s' : Live} {a : LiveAction}
    {out : List LiveEvent} (h : Live.step size s a = .ok (s', out)) :
    (∃ action c' events, a = .channel action ∧ Channel.step size s.channel action = .ok (c', events) ∧
      s' = { s with channel := c' } ∧ out = events.map .channel) ∨
    (s.polling = none ∧ s.receiver.finished ∧ s' = s ∧ out = [.closed]) ∨
    (s.polling = none ∧ s.receiver.finished = false ∧
      s' = { s with polling := some s.channel.sender.shared.tail } ∧ out = []) ∨
    (∃ tail, s.polling = some tail ∧ s.receiver.head ≤ tail ∧
      ∃ r result, s.receiver.read (s.channel.sender.shared.item s.receiver.head) = (r, result) ∧
      ((result = .lagged ∧ s' = ⟨s.channel, { r with finished := true }, none⟩ ∧ out = [.lagged]) ∨
        (∃ message, result = .item message ∧ s' = ⟨s.channel, r, none⟩ ∧ out = [.item message]) ∨
        (result = .skip ∧ s' = ⟨s.channel, r, some tail⟩ ∧ out = []))) ∨
    (∃ tail, s.polling = some tail ∧ tail < s.receiver.head ∧ s' = { s with polling := none } ∧
      out = [.pending]) := by
  obtain ⟨c, r, polling⟩ := s
  unfold Live.step at h
  split at h
  · rename_i c r polling action heq
    cases heq
    split at h
    · cases h
    · rename_i c' events hstep
      cases h
      exact Or.inl ⟨action, c', events, rfl, hstep, rfl, rfl⟩
  · rename_i c r heq
    cases heq
    split at h
    · rename_i hfinished
      cases h
      exact Or.inr (Or.inl ⟨rfl, hfinished, rfl, rfl⟩)
    · rename_i hfinished
      cases h
      exact Or.inr (Or.inr (Or.inl ⟨rfl, by simpa using hfinished, rfl, rfl⟩))
  · rename_i c r tail heq
    cases heq
    split at h
    · rename_i hle
      refine Or.inr (Or.inr (Or.inr (Or.inl ⟨tail, rfl, hle, ?_⟩)))
      split at h
      · rename_i r' hread
        cases h
        exact ⟨r', _, hread, Or.inl ⟨rfl, rfl, rfl⟩⟩
      · rename_i r' message hread
        cases h
        exact ⟨r', _, hread, Or.inr (Or.inl ⟨message, rfl, rfl, rfl⟩)⟩
      · rename_i r' hread
        cases h
        exact ⟨r', _, hread, Or.inr (Or.inr ⟨rfl, rfl, rfl⟩)⟩
    · rename_i hlt
      cases h
      exact Or.inr (Or.inr (Or.inr (Or.inr ⟨tail, rfl, not_le.mp hlt, rfl, rfl⟩)))
  · cases h

theorem ReceiverAsync.read_cases {r r' : ReceiverAsync} {item : Item} {result : ReadResult}
    (h : r.read item = (r', result)) :
    (result = .lagged ∧ (item.pos ≠ r.head ∨ item.data = none)) ∨
    (∃ message, item.pos = r.head ∧ item.data = some message ∧ r' = { r with head := r.head + 1 } ∧
      result = if r.passes message then .item message else .skip) := by
  unfold read at h
  split at h
  · rename_i hpos
    cases h
    exact Or.inl ⟨rfl, Or.inl hpos⟩
  · rename_i hpos
    simp only at h
    split at h
    · rename_i hdata
      cases h
      exact Or.inl ⟨rfl, Or.inr hdata⟩
    · rename_i message hdata
      cases h
      exact Or.inr ⟨message, not_not.mp hpos, hdata, rfl, rfl⟩

namespace ChannelInv

variable {size : ParsedMessage → ℕ} {k : ℕ} {events : List ChannelEvent} {c c' : Channel} {p : ℕ}
  {message : ParsedMessage}

/-- The published tail does not move back. -/
theorem tail_le (h : ChannelInv size k events c) {a : ChannelAction} {out : List ChannelEvent}
    (hstep : Channel.step size c a = .ok (c', out)) :
    c.sender.shared.tail ≤ c'.sender.shared.tail := by
  rcases Channel.step_cases hstep with
    ⟨slot, message, replayIndex, s', removed, hidle, -, hstore, rfl, rfl⟩ |
    ⟨slot, removed, s', removed', hpushing, -, hextra, hdrop, rfl, rfl⟩ |
    ⟨slot, removed, hpushing, -, -, rfl, rfl⟩ | ⟨index, hidle, -, rfl, rfl⟩
  · exact (h.ring.store hstore).2.1.tail.ge
  · simp only [SenderShared.hasExtra, decide_eq_true_eq] at hextra
    exact (h.ring.dropHead hextra.2 hdrop).2.1.tail.ge
  · rw [(c.sender.publish_fields slot removed).2.2, ← (h.pushing slot removed hpushing).1]
    exact Nat.le_succ _
  · exact le_rfl

theorem shared_tail_le (h : ChannelInv size k events c) :
    c.sender.shared.tail ≤ c.sender.tail := by
  cases hpushing : c.pushing with
  | none => exact (h.idle hpushing).le
  | some x => exact (Nat.le_succ _).trans (h.pushing x.1 x.2 hpushing).1.le

/-- A position of the window is read as it was pushed. -/
theorem item_of_kept (h : ChannelInv size k events c) (hp : c.sender.head ≤ p)
    (hp' : p ≤ c.sender.tail) :
    (storedItems events)[p - (2 ^ k + 1)]? = some (c.sender.shared.item p) ∧
      (c.sender.shared.item p).pos = p ∧ (c.sender.shared.item p).data.isSome := by
  have hfirst := h.ring.keeps.first_le
  have hget := h.ring.keeps.kept p hp hp'
  rw [← SharedChannel.item_eq h.ring.mask] at hget
  refine ⟨hget, ?_, ?_⟩
  · rw [h.ring.pos _ _ hget]
    omega
  · rw [SharedChannel.item_eq h.ring.mask]
    exact h.ring.keeps.live_kept p hp hp'

/-- A read that finds its own position finds the item that was pushed there. -/
theorem item_of_read (h : ChannelInv size k events c) (hpos : (c.sender.shared.item p).pos = p)
    (hdata : (c.sender.shared.item p).data = some message) :
    (storedItems events)[p - (2 ^ k + 1)]? = some (c.sender.shared.item p) := by
  have hlive : (c.sender.shared.buffer (p % 2 ^ k)).Live := by
    rw [← SharedChannel.item_eq h.ring.mask]
    unfold Item.Live
    rw [hdata]
    rfl
  obtain ⟨q, hhead, -, hget, -⟩ := h.ring.keeps.read_live hlive
  rw [← SharedChannel.item_eq h.ring.mask] at hget
  have hq := h.ring.pos _ _ hget
  have hfirst := h.ring.keeps.first_le
  obtain rfl : q = p := by omega
  exact hget

end ChannelInv

/-- The invariant of a receiver that started as `r₀` after `events₀`: what it has yielded, up to its
position. -/
structure LiveInv (size : ParsedMessage → ℕ) (k : ℕ) (events₀ : List ChannelEvent)
    (r₀ : ReceiverAsync) (s : Live) (tr : List LiveEvent) : Prop where
  channel : ChannelInv size k (events₀ ++ tr.filterMap (·.channel?)) s.channel
  polling : ∀ tail, s.polling = some tail → tail ≤ s.channel.sender.shared.tail ∧
    s.receiver.finished = false ∧ s.receiver.head ≤ tail + 1
  receiver : s.receiver.finished = false → s.receiver = { r₀ with head := s.receiver.head }
  head : s.receiver.finished = false → r₀.head ≤ s.receiver.head ∧
    s.receiver.head ≤ s.channel.sender.shared.tail + 1 ∧
    yielded tr = r₀.passed (((storedItems events₀ ++ pushed tr).drop (r₀.head - (2 ^ k + 1))).take
      (s.receiver.head - r₀.head))
  inOrder : ∃ n, yielded tr =
    r₀.passed (((storedItems events₀ ++ pushed tr).drop (r₀.head - (2 ^ k + 1))).take n)

namespace LiveInv

variable {size : ParsedMessage → ℕ} {k : ℕ} {events₀ : List ChannelEvent} {r₀ : ReceiverAsync}
  {s s' : Live} {tr out : List LiveEvent} {a : LiveAction}

theorem log_eq (tr : List LiveEvent) :
    storedItems (events₀ ++ tr.filterMap (·.channel?)) = storedItems events₀ ++ pushed tr := by
  rw [storedItems_append]
  rfl

/-- A longer log starts with the same items. -/
theorem take_drop_append {β : Type*} (l l' : List β) (d n : ℕ) :
    ∃ n', ((l ++ l').drop d).take n' = (l.drop d).take n ∧ (n ≤ l.length - d → n' = n) := by
  refine ⟨min n (l.length - d), ?_, ?_⟩
  · rw [List.drop_append, List.take_append_of_le_length (by simp)]
    rw [← List.take_take, List.take_of_length_le (l := l.drop d) (by simp)]
  · intro hle
    exact min_eq_left hle

theorem action (h : LiveInv size k events₀ r₀ s tr) (hstart : 2 ^ k + 1 ≤ r₀.head)
    {action : ChannelAction} {c' : Channel} {events : List ChannelEvent}
    (hstep : Channel.step size s.channel action = .ok (c', events)) :
    LiveInv size k events₀ r₀ { s with channel := c' } (tr ++ events.map .channel) := by
  have hlen := h.channel.log_length
  have htail := h.channel.shared_tail_le
  have hmono := h.channel.tail_le hstep
  rw [log_eq] at hlen
  refine ⟨?_, ?_, h.receiver, ?_, ?_⟩
  · rw [List.filterMap_append, channel_events, ← List.append_assoc]
    exact h.channel.step hstep
  · intro tail hpolling
    obtain ⟨hle, hrest⟩ := h.polling tail hpolling
    exact ⟨hle.trans hmono, hrest⟩
  · intro hfinished
    obtain ⟨hle, hle', hyielded⟩ := h.head hfinished
    refine ⟨hle, hle'.trans (Nat.succ_le_succ hmono), ?_⟩
    obtain ⟨n, hn, heq⟩ := take_drop_append (storedItems events₀ ++ pushed tr)
      (pushed (events.map .channel)) (r₀.head - (2 ^ k + 1)) (s.receiver.head - r₀.head)
    rw [heq (by omega)] at hn
    rw [yielded_append, yielded_channel, List.append_nil, pushed_append, ← List.append_assoc, hn]
    exact hyielded
  · obtain ⟨n, hyielded⟩ := h.inOrder
    obtain ⟨n', hn, -⟩ := take_drop_append (storedItems events₀ ++ pushed tr)
      (pushed (events.map .channel)) (r₀.head - (2 ^ k + 1)) n
    refine ⟨n', ?_⟩
    rw [yielded_append, yielded_channel, List.append_nil, pushed_append, ← List.append_assoc, hn]
    exact hyielded

/-- An action of the receiver that yields nothing. -/
theorem quiet (h : LiveInv size k events₀ r₀ s tr) {polling : Option ℕ} {finished : Bool}
    (hout : out = [] ∨ out = [.closed] ∨ out = [.pending] ∨ out = [.lagged])
    {r : ReceiverAsync} (hpolling : ∀ tail, polling = some tail →
      tail ≤ s.channel.sender.shared.tail ∧ finished = false ∧ r.head ≤ tail + 1)
    (hfinished : finished = false → s.receiver.finished = false)
    (hr : finished = false → r = s.receiver) :
    LiveInv size k events₀ r₀ ⟨s.channel, { r with finished }, polling⟩ (tr ++ out) := by
  have hchannel : out.filterMap (·.channel?) = [] := by
    rcases hout with rfl | rfl | rfl | rfl <;> rfl
  have hitem : yielded out = [] := by
    rcases hout with rfl | rfl | rfl | rfl <;> rfl
  have hpushed : pushed (tr ++ out) = pushed tr := by
    unfold pushed
    rw [List.filterMap_append, hchannel, List.append_nil]
  have hyielded : yielded (tr ++ out) = yielded tr := by
    rw [yielded_append, hitem, List.append_nil]
  refine ⟨?_, hpolling, ?_, ?_, ?_⟩
  · rw [List.filterMap_append, hchannel, List.append_nil]
    exact h.channel
  · intro hf
    have hf' := hfinished hf
    have hr' := h.receiver hf'
    obtain rfl := hr hf
    show { s.receiver with finished } = { r₀ with head := s.receiver.head }
    rw [← hr', show finished = s.receiver.finished from hf.trans hf'.symm]
  · intro hf
    obtain rfl := hr hf
    rw [hpushed, hyielded]
    exact h.head (hfinished hf)
  · rw [hpushed, hyielded]
    exact h.inOrder

/-- The items up to the one at the receiver's position. -/
theorem take_succ {β : Type*} {l : List β} {first start p : ℕ} {x : β} (hfirst : first ≤ start)
    (hle : start ≤ p) (hx : l[p - first]? = some x) :
    (l.drop (start - first)).take (p + 1 - start) =
      (l.drop (start - first)).take (p - start) ++ [x] := by
  rw [show p + 1 - start = p - start + 1 by omega, List.take_add_one, List.getElem?_drop,
    show start - first + (p - start) = p - first by omega, hx]
  rfl

/-- A cell with the next message. -/
theorem readItem (h : LiveInv size k events₀ r₀ s tr) (hstart : 2 ^ k + 1 ≤ r₀.head) {tail : ℕ}
    {message : ParsedMessage} {polling : Option ℕ} (hpolling : s.polling = some tail)
    (hle : s.receiver.head ≤ tail)
    (hpos : (s.channel.sender.shared.item s.receiver.head).pos = s.receiver.head)
    (hdata : (s.channel.sender.shared.item s.receiver.head).data = some message)
    (hpolling' : polling = none ∨ polling = some tail)
    (hout : out = if r₀.passes message then [.item message] else []) :
    LiveInv size k events₀ r₀ ⟨s.channel, { s.receiver with head := s.receiver.head + 1 }, polling⟩
      (tr ++ out) := by
  obtain ⟨hle', hfinished, -⟩ := h.polling tail hpolling
  obtain ⟨hstart', hhead, hyielded⟩ := h.head hfinished
  have hget := h.channel.item_of_read hpos hdata
  rw [log_eq] at hget
  have hchannel : out.filterMap (·.channel?) = [] := by
    rw [hout]
    split <;> rfl
  have hitem : yielded out = r₀.passed [s.channel.sender.shared.item s.receiver.head] := by
    unfold ReceiverAsync.passed
    rw [hout, List.filterMap_cons, hdata, List.filterMap_nil, List.filter_singleton]
    split
    · rename_i hpass
      rw [hpass]
      rfl
    · rename_i hpass
      rw [Bool.not_eq_true] at hpass
      rw [hpass]
      rfl
  have hpushed : pushed (tr ++ out) = pushed tr := by
    unfold pushed
    rw [List.filterMap_append, hchannel, List.append_nil]
  have hyielded' : yielded (tr ++ out) = r₀.passed
      (((storedItems events₀ ++ pushed (tr ++ out)).drop (r₀.head - (2 ^ k + 1))).take
        (s.receiver.head + 1 - r₀.head)) := by
    rw [hpushed, take_succ hstart hstart' hget, ReceiverAsync.passed_append, ← hitem, ← hyielded,
      yielded_append]
  refine ⟨?_, ?_, ?_, ?_, ⟨_, hyielded'⟩⟩
  · rw [List.filterMap_append, hchannel, List.append_nil]
    exact h.channel
  · intro t ht
    rcases hpolling' with rfl | rfl
    · cases ht
    · cases ht
      exact ⟨hle', hfinished, Nat.succ_le_succ hle⟩
  · intro _
    show { s.receiver with head := s.receiver.head + 1 } = { r₀ with head := s.receiver.head + 1 }
    rw [h.receiver hfinished]
  · intro _
    exact ⟨Nat.le_succ_of_le hstart', Nat.succ_le_succ (hle.trans hle'), hyielded'⟩

/-- Every action keeps the invariant. -/
theorem step (h : LiveInv size k events₀ r₀ s tr) (hstart : 2 ^ k + 1 ≤ r₀.head)
    (hstep : Live.step size s a = .ok (s', out)) : LiveInv size k events₀ r₀ s' (tr ++ out) := by
  rcases Live.step_cases hstep with ⟨action, c', events, -, hchannel, rfl, rfl⟩ |
    ⟨hpolling, hfinished, rfl, rfl⟩ | ⟨hpolling, hfinished, rfl, rfl⟩ |
    ⟨tail, hpolling, hle, r, result, hread, hcases⟩ | ⟨tail, hpolling, hlt, rfl, rfl⟩
  · exact h.action hstart hchannel
  · exact h.quiet (r := s'.receiver) (Or.inr (Or.inl rfl)) h.polling id fun _ => rfl
  · refine h.quiet (r := s.receiver) (Or.inl rfl) ?_ id fun _ => rfl
    intro tail htail
    cases htail
    exact ⟨le_rfl, hfinished, (h.head hfinished).2.1⟩
  · rcases ReceiverAsync.read_cases hread with ⟨rfl, -⟩ | ⟨message, hpos, hdata, rfl, hresult⟩
    · rcases hcases with ⟨-, rfl, rfl⟩ | ⟨_, hno, _⟩ | ⟨hno, _⟩
      · have hquiet : LiveInv size k events₀ r₀ ⟨s.channel, { r with finished := true }, none⟩
            (tr ++ [.lagged]) := by
          refine h.quiet (Or.inr (Or.inr (Or.inr rfl))) ?_ ?_ ?_
          · intro t ht
            cases ht
          · intro hf
            cases hf
          · intro hf
            cases hf
        exact hquiet
      · cases hno
      · cases hno
    · have hpass : s.receiver.passes message = r₀.passes message := by
        rw [h.receiver (h.polling tail hpolling).2.1]
        rfl
      rw [hpass] at hresult
      rcases hcases with ⟨rfl, _⟩ | ⟨message', rfl, rfl, rfl⟩ | ⟨rfl, rfl, rfl⟩
      · split at hresult <;> cases hresult
      · refine h.readItem hstart hpolling hle hpos hdata (Or.inl rfl) ?_
        split at hresult
        · rename_i hpass
          cases hresult
          rw [if_pos hpass]
        · cases hresult
      · refine h.readItem hstart hpolling hle hpos hdata (Or.inr rfl) ?_
        split at hresult
        · cases hresult
        · rename_i hpass
          rw [if_neg hpass]
  · refine h.quiet (r := s.receiver) (Or.inr (Or.inr (Or.inl rfl))) ?_ id fun _ => rfl
    intro t ht
    cases ht

end LiveInv

theorem ne_channel_events {e : LiveEvent} (he : e.channel? = none) (events : List ChannelEvent) :
    [e] ≠ events.map .channel := by
  intro heq
  have := congrArg (List.filterMap (·.channel?)) heq
  rw [channel_events, List.filterMap_cons, he] at this
  cases events with
  | nil => cases heq
  | cons x l => cases this

/-- **A receiver that starts at a position which is not before the first one and not after the next
one.** -/
theorem ChannelInv.delivers {size : ParsedMessage → ℕ} {k : ℕ} {events : List ChannelEvent}
    {c : Channel} {r : ReceiverAsync} (h : ChannelInv size k events c) (hstart : 2 ^ k + 1 ≤ r.head)
    (hle : r.head ≤ c.sender.shared.tail + 1) :
    Delivers size (2 ^ k + 1) (storedItems events) ⟨c, r, none⟩ := by
  have hinit : LiveInv size k events r ⟨c, r, none⟩ [] := by
    refine ⟨by rwa [List.filterMap_nil, List.append_nil], ?_, fun _ => rfl, fun _ => ?_, 0, ?_⟩
    · intro tail htail
      cases htail
    · refine ⟨le_rfl, hle, ?_⟩
      show [] = r.passed (((storedItems events ++ pushed []).drop _).take (r.head - r.head))
      rw [Nat.sub_self]
      rfl
    · rfl
  have hinv : ∀ {acts s' tr}, run (Live.step size) ⟨c, r, none⟩ acts = .ok (s', tr) →
      LiveInv size k events r s' tr := by
    intro acts s' tr hrun
    exact run_induction (P := fun _ s tr => LiveInv size k events r s tr) hinit
      (fun _ _ _ _ _ _ _ hinv hstep => hinv.step hstart hstep) hrun
  constructor
  · intro acts s' tr hrun
    exact (hinv hrun).inOrder
  · intro acts s' tr a s'' tail hrun hpolling hstep
    obtain ⟨-, hf, hle'⟩ := (hinv hrun).polling tail hpolling
    obtain ⟨-, -, hyielded⟩ := (hinv hrun).head hf
    rcases Live.step_cases hstep with ⟨_, _, events', -, -, -, hout⟩ | ⟨-, -, -, hout⟩ |
      ⟨-, -, -, hout⟩ | ⟨_, _, _, _, _, _, hcases⟩ | ⟨tail', hpolling', hlt, -, -⟩
    · exact absurd hout (ne_channel_events rfl events')
    · cases hout
    · cases hout
    · rcases hcases with ⟨-, -, hout⟩ | ⟨_, -, -, hout⟩ | ⟨-, -, hout⟩ <;> cases hout
    · rw [hpolling] at hpolling'
      cases hpolling'
      rw [hyielded, show s'.receiver.head = tail + 1 by omega]
  · intro acts s' tr a s'' hrun hstep
    have h' := hinv hrun
    rcases Live.step_cases hstep with ⟨_, _, events', -, -, -, hout⟩ | ⟨-, -, -, hout⟩ |
      ⟨-, -, -, hout⟩ | ⟨tail, hpolling, hle', r', result, hread, hcases⟩ | ⟨_, _, _, -, hout⟩
    · exact absurd hout (ne_channel_events rfl events')
    · cases hout
    · cases hout
    · obtain ⟨htail, hf, -⟩ := h'.polling tail hpolling
      obtain ⟨hge, -, -⟩ := h'.head hf
      have hsender := h'.channel.shared_tail_le
      refine ⟨s'.receiver.head, le_rfl, hstart.trans hge, ?_⟩
      by_contra hkept
      -- a position that is still in the ring is not refused
      obtain ⟨-, hpos, hdata⟩ := h'.channel.item_of_kept (not_lt.mp hkept) (by omega)
      rcases ReceiverAsync.read_cases hread with ⟨-, hno | hno⟩ | ⟨message, -, -, -, hresult⟩
      · exact hno hpos
      · rw [hno] at hdata
        cases hdata
      · rcases hcases with ⟨rfl, -, -⟩ | ⟨_, -, -, hout⟩ | ⟨-, -, hout⟩
        · split at hresult <;> cases hresult
        · cases hout
        · cases hout
    · cases hout

/-! ### Live subscriptions -/

/-- Before the first message is published, a live receiver starts at a position that no item ever
has. -/
theorem ChannelInv.not_delivers {size : ParsedMessage → ℕ} {k : ℕ} {events : List ChannelEvent}
    {c : Channel} {r : ReceiverAsync} (h : ChannelInv size k events c)
    (hfinished : r.finished = false) (hstart : r.head = 2 ^ k) (htail : c.sender.shared.tail = 2 ^ k) :
    ¬ Delivers size (2 ^ k + 1) (storedItems events) ⟨c, r, none⟩ := by
  intro hd
  have hpos : (c.sender.shared.item r.head).pos ≠ r.head := by
    rw [SharedChannel.item_eq h.ring.mask, hstart]
    exact h.ring.stale _ (Nat.mod_lt _ (Nat.two_pow_pos k))
  have hload : Live.step size ⟨c, r, none⟩ .load = .ok (⟨c, r, some c.sender.shared.tail⟩, []) := by
    unfold Live.step
    simp only [hfinished, Bool.false_eq_true, if_false]
  have hread : Live.step size ⟨c, r, some c.sender.shared.tail⟩ .read =
      .ok (⟨c, { r with finished := true }, none⟩, [.lagged]) := by
    unfold Live.step
    simp only [ReceiverAsync.read, if_pos hpos, if_pos (show r.head ≤ c.sender.shared.tail by omega)]
  obtain ⟨p, -, hfirst, hlt⟩ := hd.lagged [.load] _ [] .read _ (run_singleton.mpr hload) hread
  have hlen := h.ring.keeps.tail_eq
  have hhead : c.sender.head ≤ 2 ^ k + 1 := by
    have hle := h.ring.keeps.head_le
    cases hpushing : c.pushing with
    | none =>
      have := h.idle hpushing
      omega
    | some x =>
      have := (h.pushing x.1 x.2 hpushing).1
      have := h.ring.last (by
        intro hnil
        rw [hnil, List.length_nil] at hlen
        omega)
      omega
  simp only at hlt
  omega

/-- The stream has published a message. -/
def Channel.Published (cfg : ConfigChannelInner) (c : Channel) : Prop :=
  (SharedChannel.new (nextPowerOfTwo cfg.maxMessages)).tail < c.sender.shared.tail

theorem ChannelInv.tail_ge {size : ParsedMessage → ℕ} {k : ℕ} {events : List ChannelEvent}
    {c : Channel} (h : ChannelInv size k events c) : 2 ^ k ≤ c.sender.shared.tail := by
  have hlen := h.ring.keeps.tail_eq
  cases hpushing : c.pushing with
  | none =>
    have := h.idle hpushing
    omega
  | some x => exact (h.pushing x.1 x.2 hpushing).2.1

/-- **Live subscription**, in every state that the actions of a sender reach, in the middle of a push
as well: the receiver of `subscribe(None)` delivers what is pushed from the last published message on
if and only if there is such a message. -/
theorem Channel.live_subscription {size : ParsedMessage → ℕ} {cfg : ConfigChannelInner}
    {acts : List ChannelAction} {c : Channel} {events : List ChannelEvent}
    (h : run (Channel.step size) (.new cfg) acts = .ok (c, events)) (filter : Option RichatFilter)
    (r : ReceiverAsync) (hr : c.sender.shared.subscribe none filter = .ok r) :
    Delivers size (nextPowerOfTwo cfg.maxMessages + 1) (storedItems events) ⟨c, r, none⟩ ↔
      c.Published cfg := by
  obtain ⟨k, hk⟩ := exists_nextPowerOfTwo cfg.maxMessages
  have hinv := run_channelInv hk h
  cases hr
  unfold Published
  rw [hk]
  constructor
  · intro hd
    by_contra hno
    refine hinv.not_delivers rfl ?_ ?_ hd
    · exact le_antisymm (not_lt.mp hno) hinv.tail_ge
    · exact le_antisymm (not_lt.mp hno) hinv.tail_ge
  · intro hpublished
    exact hinv.delivers hpublished (Nat.le_succ _)

/-- One status is pushed before the receiver is made, and another one after it. -/
theorem Channel.live_subscription_slot :
    ∃ c events r, run (Channel.step fun _ => 1) (.new ⟨2, 100⟩)
        [.store 5 ⟨0, .slot ⟨5, .slotProcessed, none, []⟩⟩ none, .publish] = .ok (c, events) ∧
      c.sender.shared.subscribe none none = .ok r ∧
      Delivers (fun _ => 1) 3 (storedItems events) ⟨c, r, none⟩ := by
  obtain ⟨c, events, hrun, htail⟩ := exists_of_returns
    (x := run (Channel.step fun _ => 1) (.new ⟨2, 100⟩)
      [.store 5 ⟨0, .slot ⟨5, .slotProcessed, none, []⟩⟩ none, .publish])
    (p := fun c _ => c.sender.shared.tail = 3) (by decide +kernel)
  rw [decide_eq_true_eq] at htail
  refine ⟨c, events, _, hrun, rfl, (live_subscription hrun none _ rfl).mpr ?_⟩
  show 2 < c.sender.shared.tail
  omega

/-- A receiver that is made before the first push lags at its first poll. -/
theorem Channel.lagged_before_push :
    ∃ r s, (Channel.new ⟨16, 1000⟩).sender.shared.subscribe none none = .ok r ∧
      run (Live.step fun _ => 1) ⟨.new ⟨16, 1000⟩, r, none⟩ [.load, .read] = .ok (s, [.lagged]) ∧
      s.channel.sender.head = 17 ∧ ¬ Delivers (fun _ => 1) 17 [] ⟨.new ⟨16, 1000⟩, r, none⟩ :=
  ⟨_, _, rfl, rfl, rfl, (ChannelInv.new (k := 4) rfl).not_delivers rfl rfl rfl⟩

end Richat
