import Richat.Channel.Receiver

/-!
# Wakeups

A receiver that has read the ring to the tail of its poll registers its waker and is pending; the sender
drains the wakers at the end of `Sender::push`. The registration does not look at the tail again.

`WakeChannel.step` interleaves the sender with any number of receivers of the processed stream. A
receiver reads and registers as in `Live.step`. `NoLostWakeup` is what a pending receiver relies on, and
`no_lost_wakeup` says in which runs it always holds: in those where no registration is `Late`.
-/

namespace Richat

open Lib

inductive PollState where
  /-- the poll is ready, or its waker was woken -/
  | idle
  /-- the tail that the poll has loaded -/
  | polling (tail : ℕ)
  /-- registered, and not woken since -/
  | pending
  deriving DecidableEq

structure WakeReceiver where
  receiver : ReceiverAsync
  poll : PollState

def WakeReceiver.wake (r : WakeReceiver) : WakeReceiver :=
  match r.poll with
  | .pending => { r with poll := .idle }
  | _ => r

/-- The processed stream with its receivers. -/
structure WakeChannel where
  channel : Channel
  /-- a `Sender::push` that pushes messages is in progress -/
  sending : Bool
  receivers : List WakeReceiver
  /-- the receivers whose wakers are registered -/
  wakers : List ℕ
  /-- what was stored so far; no code reads it -/
  log : List Item

inductive WakeAction where
  | beginPush
  | channel (action : ChannelAction)
  /-- the wakers are drained, and `Sender::push` returns -/
  | wake
  | subscribe (replayFromSlot : Option Slot) (filter : Option RichatFilter)
  | load (i : ℕ)
  | read (i : ℕ)

inductive WakeEvent where
  | channel (event : ChannelEvent)
  | receiver (i : ℕ) (event : LiveEvent)
  | refused (error : SubscribeError)

def ChannelAction.isBeginLiveEpoch : ChannelAction → Bool
  | .beginLiveEpoch _ => true
  | .store .. | .dropHead | .publish => false

namespace WakeChannel

def new (cfg : ConfigChannelInner) : WakeChannel := ⟨.new cfg, false, [], [], []⟩

def setReceiver (s : WakeChannel) (i : ℕ) (r : WakeReceiver) : WakeChannel :=
  { s with receivers := s.receivers.set i r }

def step (size : ParsedMessage → ℕ) : Step WakeChannel WakeAction WakeEvent Stuck
  | s, .beginPush => if s.sending then .error .order else .ok ({ s with sending := true }, [])
  | s, .channel action =>
    -- a live epoch begins between two pushes
    if action.isBeginLiveEpoch = s.sending then .error .order
    else
      match s.channel.step size action with
      | .error e => .error e
      | .ok (channel, events) =>
        .ok ({ s with channel, log := s.log ++ storedItems events }, events.map .channel)
  | s, .wake =>
    if s.sending ∧ s.channel.pushing.isNone then
      .ok ({ s with
          sending := false
          receivers := s.receivers.mapIdx fun i r => if i ∈ s.wakers then r.wake else r
          wakers := [] }, [])
    else .error .order
  | s, .subscribe replayFromSlot filter =>
    -- a push to the ring has the lock of the slots
    if replayFromSlot.isSome ∧ s.channel.pushing.isSome then .error .order
    else
      match s.channel.sender.shared.subscribe replayFromSlot filter with
      | .error e => .ok (s, [.refused e])
      | .ok receiver => .ok ({ s with receivers := s.receivers ++ [⟨receiver, .idle⟩] }, [])
  | s, .load i =>
    match s.receivers[i]? with
    | none | some ⟨_, .polling _⟩ => .error .order
    | some ⟨r, _⟩ =>
      if r.finished then .ok (s, [.receiver i .closed])
      else .ok (s.setReceiver i ⟨r, .polling s.channel.sender.shared.tail⟩, [])
  | s, .read i =>
    match s.receivers[i]? with
    | some ⟨r, .polling tail⟩ =>
      if r.head ≤ tail then
        match r.read (s.channel.sender.shared.item r.head) with
        | (r, .lagged) =>
          .ok (s.setReceiver i ⟨{ r with finished := true }, .idle⟩, [.receiver i .lagged])
        | (r, .item message) => .ok (s.setReceiver i ⟨r, .idle⟩, [.receiver i (.item message)])
        | (r, .skip) => .ok (s.setReceiver i ⟨r, .polling tail⟩, [])
      else
        .ok ({ s.setReceiver i ⟨r, .pending⟩ with wakers := s.wakers ++ [i] },
          [.receiver i .pending])
    | _ => .error .order

/-- The items that the receivers can see. -/
def published (s : WakeChannel) : List Item :=
  s.log.filter (·.pos ≤ s.channel.sender.shared.tail)

/-- **No lost wakeup.** Between two pushes, a receiver that is pending and was not woken since it
registered has nothing to read. -/
def NoLostWakeup (s : WakeChannel) : Prop :=
  s.sending = false → ∀ r ∈ s.receivers, r.poll = .pending → ∀ item ∈ s.published,
    r.receiver.head ≤ item.pos → ∀ message, item.data = some message →
      r.receiver.passes message = false

/-- The step registers a receiver after a message that passes its filter was published and the wakers
were drained, all since its poll has loaded the tail. -/
def Late (s : WakeChannel) : WakeAction → Prop
  | .read i => s.sending = false ∧ ∃ r tail, s.receivers[i]? = some ⟨r, .polling tail⟩ ∧ tail < r.head ∧
      ∃ item ∈ s.published, tail < item.pos ∧ ∃ message, item.data = some message ∧ r.passes message
  | _ => False

end WakeChannel

namespace WakeEvent

def channel? : WakeEvent → Option ChannelEvent
  | channel event => some event
  | _ => none

end WakeEvent

/-! ### Steps -/

section Steps

variable {size : ParsedMessage → ℕ} {k : ℕ} {cfg : ConfigChannelInner} {s s' : WakeChannel}
  {a : WakeAction} {actions : List WakeAction} {out events : List WakeEvent}

/-- A receiver that has loaded the tail, or read a cell. -/
inductive WakeReceiver.Advances (tail : ℕ) (r r' : WakeReceiver) : Prop where
  | load : r'.receiver = r.receiver → r'.poll = .polling tail → Advances tail r r'
  | read (loaded : ℕ) : r.poll = .polling loaded → r'.receiver.head ≤ loaded + 1 →
      r'.poll = .idle ∨ r'.poll = .polling loaded → Advances tail r r'

theorem ReceiverAsync.read_head {r r' : ReceiverAsync} {item : Item} {result : ReadResult}
    (h : r.read item = (r', result)) : r'.head ≤ r.head + 1 := by
  unfold read at h
  split at h
  · cases h
    exact Nat.le_succ _
  · dsimp only at h
    split at h <;> cases h <;> exact le_rfl

/-- What one step is. -/
theorem WakeChannel.step_cases (h : WakeChannel.step size s a = .ok (s', out)) :
    (a = .beginPush ∧ s' = { s with sending := true } ∧ out = []) ∨
    (∃ action channel events, a = .channel action ∧
      s.channel.step size action = .ok (channel, events) ∧
      (s.sending = false → ∃ index, action = .beginLiveEpoch index) ∧
      s' = { s with channel, log := s.log ++ storedItems events } ∧ out = events.map .channel) ∨
    (a = .wake ∧ s.channel.pushing = none ∧ s' = { s with
      sending := false
      receivers := s.receivers.mapIdx fun i r => if i ∈ s.wakers then r.wake else r
      wakers := [] } ∧ out = []) ∨
    (∃ replayFromSlot filter receiver, a = .subscribe replayFromSlot filter ∧
      s.channel.sender.shared.subscribe replayFromSlot filter = .ok receiver ∧
      s' = { s with receivers := s.receivers ++ [⟨receiver, .idle⟩] } ∧ out = []) ∨
    (s' = s ∧ (∀ i, a ≠ .read i) ∧ out.filterMap (·.channel?) = []) ∨
    (∃ i r r', s.receivers[i]? = some r ∧ r.Advances s.channel.sender.shared.tail r' ∧
      (∀ tail, r.poll = .polling tail → a = .read i ∧ r.receiver.head ≤ tail) ∧
      s' = s.setReceiver i r' ∧ out.filterMap (·.channel?) = []) ∨
    (∃ i r tail, a = .read i ∧ s.receivers[i]? = some ⟨r, .polling tail⟩ ∧ tail < r.head ∧
      s' = { s.setReceiver i ⟨r, .pending⟩ with wakers := s.wakers ++ [i] } ∧
      out = [.receiver i .pending]) := by
  cases a with
  | beginPush =>
    simp only [step] at h
    split at h
    · cases h
    · cases h
      exact Or.inl ⟨rfl, rfl, rfl⟩
  | channel action =>
    simp only [step] at h
    split at h
    · cases h
    · rename_i hguard
      split at h
      · cases h
      · rename_i channel events hstep
        cases h
        refine Or.inr (Or.inl ⟨action, channel, events, rfl, hstep, fun hidle => ?_, rfl, rfl⟩)
        rw [hidle] at hguard
        cases action with
        | beginLiveEpoch index => exact ⟨index, rfl⟩
        | _ => exact absurd rfl hguard
  | wake =>
    simp only [step] at h
    split at h
    · rename_i hguard
      cases h
      exact Or.inr (Or.inr (Or.inl ⟨rfl, Option.isNone_iff_eq_none.mp hguard.2, rfl, rfl⟩))
    · cases h
  | subscribe replayFromSlot filter =>
    simp only [step] at h
    split at h
    · cases h
    · split at h
      · cases h
        exact Or.inr (Or.inr (Or.inr (Or.inr (Or.inl ⟨rfl, (fun i hi => by cases hi), rfl⟩))))
      · rename_i receiver hreceiver
        cases h
        exact Or.inr (Or.inr (Or.inr (Or.inl
          ⟨replayFromSlot, filter, receiver, rfl, hreceiver, rfl, rfl⟩)))
  | load i =>
    simp only [step] at h
    split at h
    · cases h
    · cases h
    · rename_i r poll hpoll hget
      split at h
      · cases h
        exact Or.inr (Or.inr (Or.inr (Or.inr (Or.inl ⟨rfl, (fun i hi => by cases hi), rfl⟩))))
      · cases h
        refine Or.inr (Or.inr (Or.inr (Or.inr (Or.inr (Or.inl
          ⟨i, ⟨r, poll⟩, ⟨r, .polling _⟩, hget, .load rfl rfl, fun tail htail => ?_, rfl, rfl⟩)))))
        exact (hpoll tail htail).elim
  | read i =>
    simp only [step] at h
    split at h
    · rename_i r tail hget
      have hadvance : ∀ (r' : ReceiverAsync) {poll} {events : List WakeEvent}, r.head ≤ tail → r'.head ≤ tail + 1 →
          poll = .idle ∨ poll = .polling tail → events.filterMap (·.channel?) = [] →
          s' = s.setReceiver i ⟨r', poll⟩ → out = events →
          (∃ i' r r', s.receivers[i']? = some r ∧ r.Advances s.channel.sender.shared.tail r' ∧
            (∀ tail, r.poll = .polling tail → WakeAction.read i = .read i' ∧ r.receiver.head ≤ tail) ∧
            s' = s.setReceiver i' r' ∧ out.filterMap (·.channel?) = []) := by
        rintro r' poll events hle hhead hpoll hevents rfl rfl
        refine ⟨i, _, ⟨r', poll⟩, hget, .read tail rfl hhead hpoll, fun tail' htail' => ?_, rfl, hevents⟩
        cases htail'
        exact ⟨rfl, hle⟩
      split at h
      · rename_i hle
        refine Or.inr (Or.inr (Or.inr (Or.inr (Or.inr (Or.inl ?_)))))
        split at h
        · rename_i r' hread
          cases h
          have hhead := (ReceiverAsync.read_head hread).trans (Nat.succ_le_succ hle)
          exact hadvance { r' with finished := true } hle hhead (Or.inl rfl) rfl rfl rfl
        · rename_i r' message hread
          cases h
          exact hadvance r' hle ((ReceiverAsync.read_head hread).trans (Nat.succ_le_succ hle))
            (Or.inl rfl) rfl rfl rfl
        · rename_i r' hread
          cases h
          exact hadvance r' hle ((ReceiverAsync.read_head hread).trans (Nat.succ_le_succ hle))
            (Or.inr rfl) rfl rfl rfl
      · rename_i hlt
        cases h
        exact Or.inr (Or.inr (Or.inr (Or.inr (Or.inr (Or.inr
          ⟨i, r, tail, rfl, hget, not_le.mp hlt, rfl, rfl⟩)))))
    · cases h

/-- The receivers of a stream after the events. -/
structure WakeInv (size : ParsedMessage → ℕ) (k : ℕ) (events : List WakeEvent) (s : WakeChannel) :
    Prop where
  channel : ChannelInv size k (events.filterMap (·.channel?)) s.channel
  log : s.log = storedItems (events.filterMap (·.channel?))
  head : ∀ r ∈ s.receivers, r.receiver.head ≤ s.channel.sender.shared.tail + 1
  polling : ∀ r ∈ s.receivers, ∀ tail, r.poll = .polling tail →
    tail ≤ s.channel.sender.shared.tail ∧ r.receiver.head ≤ tail + 1
  registered : ∀ i r, s.receivers[i]? = some r → r.poll = .pending → i ∈ s.wakers

namespace WakeInv

theorem new (hk : nextPowerOfTwo cfg.maxMessages = 2 ^ k) : WakeInv size k [] (.new cfg) where
  channel := .new hk
  log := rfl
  head := by simp [WakeChannel.new]
  polling := by simp [WakeChannel.new]
  registered := by simp [WakeChannel.new]

theorem filterMap_channel (events : List ChannelEvent) :
    (events.map WakeEvent.channel).filterMap (·.channel?) = events := by
  induction events with
  | nil => rfl
  | cons e l ih =>
    rw [List.map_cons, List.filterMap_cons, ih]
    rfl

/-- The position of a receiver is not after the tail. -/
theorem subscribe_head {channelEvents : List ChannelEvent} {c : Channel}
    (h : ChannelInv size k channelEvents c) {replayFromSlot : Option Slot}
    {filter : Option RichatFilter} {r : ReceiverAsync}
    (hr : c.sender.shared.subscribe replayFromSlot filter = .ok r) :
    r.head ≤ c.sender.shared.tail := by
  unfold SharedChannel.subscribe at hr
  split at hr
  · cases hr
  · rename_i head hhead
    cases hr
    cases replayFromSlot with
    | none =>
      cases hhead
      exact le_rfl
    | some slot =>
      simp only [SharedChannel.subscribeHead] at hhead
      split at hhead
      · rename_i p hget
        cases hhead
        exact (h.slots.head slot _ hget).1
      · split at hhead <;> cases hhead

/-- A receiver changes. -/
theorem setReceiver (h : WakeInv size k events s) {i : ℕ} {r : WakeReceiver} {wakers : List ℕ}
    (hout : out.filterMap (·.channel?) = [])
    (hhead : r.receiver.head ≤ s.channel.sender.shared.tail + 1)
    (hpolling : ∀ tail, r.poll = .polling tail →
      tail ≤ s.channel.sender.shared.tail ∧ r.receiver.head ≤ tail + 1)
    (hwakers : ∀ j ∈ s.wakers, j ∈ wakers) (hpending : r.poll = .pending → i ∈ wakers) :
    WakeInv size k (events ++ out) { s.setReceiver i r with wakers } := by
  have hevents : (events ++ out).filterMap (·.channel?) = events.filterMap (·.channel?) := by
    rw [List.filterMap_append, hout, List.append_nil]
  refine ⟨by rw [hevents]; exact h.channel, by rw [hevents]; exact h.log, ?_, ?_, ?_⟩
  · intro r' hr'
    rcases List.mem_or_eq_of_mem_set hr' with hr' | rfl
    · exact h.head r' hr'
    · exact hhead
  · intro r' hr'
    rcases List.mem_or_eq_of_mem_set hr' with hr' | rfl
    · exact h.polling r' hr'
    · exact hpolling
  · intro j r' hr' hpoll
    simp only [WakeChannel.setReceiver, List.getElem?_set] at hr'
    split at hr'
    · rename_i hij
      split at hr'
      · cases hr'
        exact hij ▸ hpending hpoll
      · cases hr'
    · exact hwakers j (h.registered j r' hr' hpoll)

theorem wake_poll {r : WakeReceiver} : r.wake.receiver = r.receiver ∧ r.wake.poll ≠ .pending ∧
    ∀ tail, r.wake.poll = .polling tail → r.poll = .polling tail := by
  obtain ⟨r, poll⟩ := r
  cases poll <;> simp [WakeReceiver.wake]

/-- Every step keeps the invariant. -/
theorem step (h : WakeInv size k events s) (hstep : WakeChannel.step size s a = .ok (s', out)) :
    WakeInv size k (events ++ out) s' := by
  rcases WakeChannel.step_cases hstep with ⟨-, rfl, rfl⟩ |
    ⟨action, channel, channelEvents, -, hchannel, -, rfl, rfl⟩ | ⟨-, -, rfl, rfl⟩ |
    ⟨replayFromSlot, filter, receiver, -, hreceiver, rfl, rfl⟩ | ⟨rfl, -, hout⟩ |
    ⟨i, r, r', hget, hadvance, -, rfl, hout⟩ | ⟨i, r, tail, -, hget, hlt, rfl, rfl⟩
  · rw [List.append_nil]
    exact ⟨h.channel, h.log, h.head, h.polling, h.registered⟩
  · have hmono := h.channel.tail_le hchannel
    have hevents : (events ++ channelEvents.map WakeEvent.channel).filterMap (·.channel?) =
        events.filterMap (·.channel?) ++ channelEvents := by
      rw [List.filterMap_append, filterMap_channel]
    refine ⟨?_, ?_, fun r hr => ?_, fun r hr tail htail => ?_, h.registered⟩
    · rw [hevents]
      exact h.channel.step hchannel
    · rw [hevents, storedItems_append, ← h.log]
    · exact (h.head r hr).trans (Nat.succ_le_succ hmono)
    · obtain ⟨hle, hhead⟩ := h.polling r hr tail htail
      exact ⟨hle.trans hmono, hhead⟩
  · rw [List.append_nil]
    refine ⟨h.channel, h.log, ?_, ?_, ?_⟩
    · intro r hr
      obtain ⟨i, hi⟩ := List.mem_iff_getElem?.mp hr
      rw [List.getElem?_mapIdx, Option.map_eq_some_iff] at hi
      obtain ⟨r', hr', rfl⟩ := hi
      have hhead := h.head r' (List.mem_of_getElem? hr')
      split
      · rw [wake_poll.1]
        exact hhead
      · exact hhead
    · intro r hr
      obtain ⟨i, hi⟩ := List.mem_iff_getElem?.mp hr
      rw [List.getElem?_mapIdx, Option.map_eq_some_iff] at hi
      obtain ⟨r', hr', rfl⟩ := hi
      have hpolling := h.polling r' (List.mem_of_getElem? hr')
      split
      · intro tail htail
        rw [wake_poll.1]
        exact hpolling tail (wake_poll.2.2 tail htail)
      · exact hpolling
    · intro i r hr hpoll
      simp only [List.getElem?_mapIdx, Option.map_eq_some_iff] at hr
      obtain ⟨r', hr', rfl⟩ := hr
      split at hpoll
      · exact absurd hpoll wake_poll.2.1
      · rename_i hno
        exact absurd (h.registered i r' hr' hpoll) hno
  · rw [List.append_nil]
    refine ⟨h.channel, h.log, fun r hr => ?_, fun r hr => ?_, fun i r hr hpoll => ?_⟩
    · rcases List.mem_append.mp hr with hr | hr
      · exact h.head r hr
      · rw [List.mem_singleton.mp hr]
        exact (subscribe_head h.channel hreceiver).trans (Nat.le_succ _)
    · rcases List.mem_append.mp hr with hr | hr
      · exact h.polling r hr
      · rw [List.mem_singleton.mp hr]
        intro tail htail
        cases htail
    · simp only [List.getElem?_append, List.getElem?_singleton] at hr
      split at hr
      · exact h.registered i r hr hpoll
      · split at hr
        · cases hr
          cases hpoll
        · cases hr
  · have hevents : (events ++ out).filterMap (·.channel?) = events.filterMap (·.channel?) := by
      rw [List.filterMap_append, hout, List.append_nil]
    exact ⟨by rw [hevents]; exact h.channel, by rw [hevents]; exact h.log, h.head, h.polling,
      h.registered⟩
  · have hr := List.mem_of_getElem? hget
    cases hadvance with
    | load hreceiver hpoll =>
      refine h.setReceiver hout (hreceiver ▸ h.head r hr) (fun tail htail => ?_) (fun _ hj => hj) ?_
      · rw [hpoll] at htail
        cases htail
        exact ⟨le_rfl, hreceiver ▸ h.head r hr⟩
      · intro hpending
        rw [hpoll] at hpending
        cases hpending
    | read loaded hloaded hhead hpoll =>
      obtain ⟨hle, -⟩ := h.polling r hr loaded hloaded
      refine h.setReceiver hout (hhead.trans (Nat.succ_le_succ hle)) (fun tail htail => ?_)
        (fun _ hj => hj) ?_
      · rcases hpoll with hpoll | hpoll
        · rw [hpoll] at htail
          cases htail
        · rw [hpoll] at htail
          cases htail
          exact ⟨hle, hhead⟩
      · intro hpending
        rcases hpoll with hpoll | hpoll <;> (rw [hpoll] at hpending; cases hpending)
  · have hhead := h.head ⟨r, .polling tail⟩ (List.mem_of_getElem? hget)
    refine h.setReceiver rfl hhead (fun tail' htail' => ?_)
      (fun j hj => List.mem_append_left _ hj) (fun _ => List.mem_append_right _ (List.mem_singleton_self i))
    cases htail'

/-- A step that is not late loses no wakeup. -/
theorem noLostWakeup (h : WakeInv size k events s) (hno : s.NoLostWakeup) (hlate : ¬ s.Late a)
    (hstep : WakeChannel.step size s a = .ok (s', out)) : s'.NoLostWakeup := by
  rcases WakeChannel.step_cases hstep with ⟨-, rfl, rfl⟩ |
    ⟨action, channel, channelEvents, -, hchannel, hepoch, rfl, rfl⟩ | ⟨-, -, rfl, rfl⟩ |
    ⟨replayFromSlot, filter, receiver, -, hreceiver, rfl, rfl⟩ | ⟨rfl, -, hout⟩ |
    ⟨i, r, r', hget, hadvance, -, rfl, hout⟩ | ⟨i, r, tail, rfl, hget, hlt, rfl, rfl⟩
  · intro hsending
    cases hsending
  · intro hsending
    -- between two pushes only a live epoch begins
    obtain ⟨index, rfl⟩ := hepoch hsending
    rcases Channel.step_cases hchannel with ⟨_, _, _, _, _, -, ha, -⟩ | ⟨_, _, _, _, -, ha, -⟩ |
      ⟨_, _, -, ha, -⟩ | ⟨index', hidle, -, rfl, rfl⟩
    · cases ha
    · cases ha
    · cases ha
    · intro r hr hpoll item hitem
      refine hno hsending r hr hpoll item ?_
      simp only [storedItems_epoch, List.append_nil] at hitem
      exact hitem
  · intro _ r hr hpoll
    obtain ⟨i, hi⟩ := List.mem_iff_getElem?.mp hr
    rw [List.getElem?_mapIdx, Option.map_eq_some_iff] at hi
    obtain ⟨r', hr', rfl⟩ := hi
    split at hpoll
    · exact absurd hpoll wake_poll.2.1
    · rename_i hunregistered
      exact absurd (h.registered i r' hr' hpoll) hunregistered
  · intro hsending r hr hpoll
    rcases List.mem_append.mp hr with hr | hr
    · exact hno hsending r hr hpoll
    · rw [List.mem_singleton.mp hr] at hpoll
      cases hpoll
  · exact hno
  · intro hsending r₁ hr₁ hpoll
    rcases List.mem_or_eq_of_mem_set hr₁ with hr₁ | rfl
    · exact hno hsending r₁ hr₁ hpoll
    · cases hadvance with
      | load _ hpoll' =>
        rw [hpoll'] at hpoll
        cases hpoll
      | read _ _ _ hpoll' =>
        rcases hpoll' with hpoll' | hpoll' <;> (rw [hpoll'] at hpoll; cases hpoll)
  · intro hsending r₁ hr₁ hpoll item hitem hhead message hdata
    rcases List.mem_or_eq_of_mem_set hr₁ with hr₁ | rfl
    · exact hno hsending r₁ hr₁ hpoll item hitem hhead message hdata
    · by_contra hpasses
      rw [Bool.not_eq_false] at hpasses
      exact hlate ⟨hsending, r, tail, hget, hlt, item, hitem, hlt.trans_le hhead, message, hdata,
        hpasses⟩

/-- A step that is late loses one. -/
theorem lostWakeup (h : WakeInv size k events s) (hlate : s.Late a)
    (hstep : WakeChannel.step size s a = .ok (s', out)) : ¬ s'.NoLostWakeup := by
  cases a with
  | read i =>
    obtain ⟨hsending, r, tail, hget, hlt, item, hitem, hpos, message, hdata, hpasses⟩ := hlate
    have hhead := (h.polling _ (List.mem_of_getElem? hget) tail rfl).2
    simp only [WakeChannel.step, hget] at hstep
    rw [if_neg (not_le.mpr hlt)] at hstep
    cases hstep
    intro hno
    have hmem : ⟨r, .pending⟩ ∈ (s.setReceiver i ⟨r, .pending⟩).receivers := by
      refine List.mem_of_getElem? (i := i) ?_
      rw [WakeChannel.setReceiver, List.getElem?_set_self (List.getElem?_eq_some_iff.mp hget).1]
    have hfalse := hno hsending _ hmem rfl item hitem (hhead.trans hpos) message hdata
    rw [hpasses] at hfalse
    cases hfalse
  | _ => exact hlate.elim

end WakeInv

/-- **Wakeups.** In a run no wakeup is lost in any state if and only if no step registers a receiver
late. -/
theorem WakeChannel.no_lost_wakeup
    (h : run (WakeChannel.step size) (.new cfg) actions = .ok (s, events)) :
    (∀ acts s' events', acts <+: actions →
      run (WakeChannel.step size) (.new cfg) acts = .ok (s', events') → s'.NoLostWakeup) ↔
    AllSteps (WakeChannel.step size) (fun s a => ¬ s.Late a) (.new cfg) actions := by
  obtain ⟨k, hk⟩ := exists_nextPowerOfTwo cfg.maxMessages
  have hinv : ∀ {acts s' events'}, run (WakeChannel.step size) (.new cfg) acts = .ok (s', events') →
      WakeInv size k events' s' := fun hrun =>
    run_induction (P := fun _ s events => WakeInv size k events s) (.new hk)
      (fun _ _ _ _ _ _ _ hinv hstep => hinv.step hstep) hrun
  constructor
  · intro hno
    refine allSteps_of_forall fun acts a rest s₁ events₁ heq hrun hlate => ?_
    obtain ⟨s₂, o₁, o₂, h₁, h₂, -⟩ := run_append.mp (heq ▸ h)
    rw [hrun] at h₁
    cases h₁
    obtain ⟨s₃, o₃, o₄, h₃, -, -⟩ := run_cons_ok.mp h₂
    refine (hinv hrun).lostWakeup hlate h₃ (hno (acts ++ [a]) s₃ _ ?_ (run_snoc.mpr ⟨_, _, _, hrun, h₃, rfl⟩))
    exact ⟨rest, by rw [heq, List.append_assoc, List.singleton_append]⟩
  · rintro hall acts s' events' ⟨rest, rfl⟩ hrun
    refine run_induction_of (P := fun _ s _ => s.NoLostWakeup) ?_ ?_ (allSteps_append hall).1 hrun
    · intro _ r hr
      cases hr
    · exact fun _ _ _ _ _ _ hrun hno hok hstep => (hinv hrun).noLostWakeup hno hok hstep

end Steps

/-- A receiver reads the last status, is pending, and is woken by the next one. -/
theorem WakeChannel.no_lost_wakeup_slot : ∃ s events,
    run (WakeChannel.step fun _ => 1) (.new ⟨2, 100⟩)
      [.beginPush, .channel (.store 5 ⟨0, .slot ⟨5, .slotProcessed, none, []⟩⟩ none), .channel .publish,
        .wake, .subscribe none none, .load 0, .read 0, .load 0, .read 0, .beginPush,
        .channel (.store 5 ⟨1, .slot ⟨5, .slotConfirmed, none, []⟩⟩ none), .channel .publish,
        .wake] = .ok (s, events) ∧ s.NoLostWakeup := by
  obtain ⟨s, events, hrun, -⟩ := exists_of_returns
    (p := fun (_ : WakeChannel) (_ : List WakeEvent) => true)
    (x := run (WakeChannel.step fun _ => 1) (.new ⟨2, 100⟩)
      [.beginPush, .channel (.store 5 ⟨0, .slot ⟨5, .slotProcessed, none, []⟩⟩ none), .channel .publish,
        .wake, .subscribe none none, .load 0, .read 0, .load 0, .read 0, .beginPush,
        .channel (.store 5 ⟨1, .slot ⟨5, .slotConfirmed, none, []⟩⟩ none), .channel .publish,
        .wake]) (by decide +kernel)
  refine ⟨s, events, hrun, (no_lost_wakeup hrun).mpr ?_ _ s events List.prefix_rfl hrun⟩
  refine allSteps_of_checkSteps (p := fun s a => match a with
    | .read i => match s.receivers[i]? with
      | some ⟨_, .polling tail⟩ => s.log.all (·.pos ≤ tail)
      | _ => true
    | _ => true) ?_ (by decide +kernel)
  intro s a hcheck hlate
  cases a with
  | read i =>
    obtain ⟨-, r, tail, hget, -, item, hitem, hpos, -⟩ := hlate
    simp only [hget] at hcheck
    have hle := List.all_eq_true.mp hcheck item (List.mem_filter.mp hitem).1
    exact absurd (of_decide_eq_true hle) (not_le.mpr hpos)
  | _ => exact hlate

/-- A receiver has loaded the tail; a status is pushed, and the wakers are drained; the receiver
registers. It is pending with the status in the ring, and no push is in progress. -/
theorem WakeChannel.lost_wakeup : ∃ s events,
    run (WakeChannel.step fun _ => 1) (.new ⟨2, 100⟩)
      [.beginPush, .channel (.store 5 ⟨0, .slot ⟨5, .slotProcessed, none, []⟩⟩ none), .channel .publish,
        .wake, .subscribe none none, .load 0, .read 0, .load 0, .beginPush,
        .channel (.store 5 ⟨1, .slot ⟨5, .slotConfirmed, none, []⟩⟩ none), .channel .publish, .wake,
        .read 0] = .ok (s, events) ∧ ¬ s.NoLostWakeup := by
  obtain ⟨s, events, hrun, h⟩ := exists_of_returns
    (p := fun (s : WakeChannel) _ => !s.sending && s.receivers.any fun r => decide (r.poll = .pending) &&
      s.published.any fun item => decide (r.receiver.head ≤ item.pos) &&
        item.data.any r.receiver.passes)
    (x := run (WakeChannel.step fun _ => 1) (.new ⟨2, 100⟩)
      [.beginPush, .channel (.store 5 ⟨0, .slot ⟨5, .slotProcessed, none, []⟩⟩ none), .channel .publish,
        .wake, .subscribe none none, .load 0, .read 0, .load 0, .beginPush,
        .channel (.store 5 ⟨1, .slot ⟨5, .slotConfirmed, none, []⟩⟩ none), .channel .publish, .wake,
        .read 0]) (by decide +kernel)
  refine ⟨s, events, hrun, fun hno => ?_⟩
  obtain ⟨hsending, hreceivers⟩ := Bool.and_eq_true_iff.mp h
  obtain ⟨r, hr, hpoll⟩ := List.any_eq_true.mp hreceivers
  obtain ⟨hpoll, hitems⟩ := Bool.and_eq_true_iff.mp hpoll
  obtain ⟨item, hitem, hpos⟩ := List.any_eq_true.mp hitems
  obtain ⟨hpos, hdata⟩ := Bool.and_eq_true_iff.mp hpos
  have hfalse := hno (by simpa using hsending) r hr (of_decide_eq_true hpoll) item hitem
    (of_decide_eq_true hpos)
  cases hmessage : item.data with
  | none =>
    rw [hmessage] at hdata
    cases hdata
  | some message =>
    rw [hmessage, Option.any_some, hfalse message hmessage] at hdata
    cases hdata

end Richat
