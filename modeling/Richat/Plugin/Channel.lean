import Mathlib.Logic.Function.Basic
import Richat.Channel.Receiver
import Richat.Plugin.Message

/-!
# The channel of the plugin

A ring of encoded messages between the callbacks of the validator and the subscriptions of the servers.
`Shared.push` is `Sender::push` as a whole: the statuses that ancestors have missed, then the message, each
through `pushMsg`. The positions do not wrap around, and the bytes of a message are what the encoder of the
push returns for it.

A receiver does not wait for the lock of the state unless its cell is not the one it asks for, so it sees a
push in pieces. `Chan.step` is the channel with any number of receivers: a push, a close and a poll are cut
into what the others can see of them.
-/

namespace Richat.Plugin

open Lib

/-! ### Messages -/

inductive PluginNotification where
  | slot | account | transaction | entry | blockMeta
  -- Richat-only notifications
  | deshredTransaction | contactInfo | blockFooter | entryUpdateParent
  deriving DecidableEq

def SlotStatus.isConfirmed : SlotStatus → Bool
  | .confirmed => true
  | _ => false

def SlotStatus.isRooted : SlotStatus → Bool
  | .rooted => true
  | _ => false

variable {E C : Type}

def PluginNotification.ofMessage : ProtobufMessage E C → PluginNotification
  | .account .. => .account
  | .slot .. => .slot
  | .transaction .. => .transaction
  | .entry .. => .entry
  | .blockMeta .. => .blockMeta
  | .deshredTransaction .. | .deshredUpdateParent .. => .deshredTransaction
  | .contactInfo .. | .contactInfoRemoved .. => .contactInfo
  | .blockFooter .. => .blockFooter
  | .entryUpdateParent .. => .entryUpdateParent

def ProtobufMessage.getSlot : ProtobufMessage E C → Option Slot
  | .account s _ _ => some s.toNat
  | .slot s _ _ _ => some s.toNat
  | .transaction s _ _ => some s.toNat
  | .entry _ info => some info.slot.toNat
  | .blockMeta _ info => some info.slot.toNat
  | .deshredTransaction s _ => some s.toNat
  | .contactInfo _ | .contactInfoRemoved _ => none
  | .blockFooter s _ _ => some s.toNat
  | .entryUpdateParent info => some info.slot.toNat
  | .deshredUpdateParent info => some info.slot.toNat

/-! ### The shared state -/

structure ConfigChannel where
  maxMessages : ℕ
  maxBytes : ℕ

structure SlotInfo where
  head : ℕ
  parentSlot : Option UInt64
  confirmed : Bool
  finalized : Bool

structure State where
  head : ℕ
  tail : ℕ
  slots : SortedMap Slot SlotInfo
  bytesTotal : ℕ
  bytesMax : ℕ
  /-- the receivers that wait -/
  wakers : List ℕ

/-- A cell of the ring. -/
structure Item where
  pos : ℕ
  slot : Slot
  data : Option (PluginNotification × Bytes)
  closed : Bool

structure Shared where
  state : State
  mask : ℕ
  buffer : ℕ → Item

/-- What a message tells about its slot. -/
def SlotInfo.update (entry : SlotInfo) : ProtobufMessage E C → SlotInfo
  | .slot _ parent status _ =>
    { entry with
      parentSlot := parent.or entry.parentSlot
      confirmed := entry.confirmed || status.isConfirmed
      finalized := entry.finalized || status.isRooted }
  | _ => entry

namespace State

/-- The slot of a message: messages not related to any slot are attached to the latest known slot. -/
def messageSlot (state : State) (message : ProtobufMessage E C) : Slot :=
  match message.getSlot with
  | some slot => slot
  | none => state.slots.lastKey?.getD 0

/-- The slots after a message at the tail. -/
def trackSlot (state : State) (message : ProtobufMessage E C) : SortedMap Slot SlotInfo :=
  match message.getSlot with
  | some slot =>
    let entry := (state.slots.get? slot).getD ⟨state.tail, none, false, false⟩
    state.slots.insert slot (entry.update message)
  | none => state.slots

/-- The message of the head leaves its cell. -/
def evict (state : State) (data : Bytes) : State :=
  { state with
    head := state.head + 1
    bytesTotal := state.bytesTotal - data.length }

/-- Whether the slot misses the status. -/
def misses (status : SlotStatus) (entry : SlotInfo) : Bool :=
  status.isConfirmed && !entry.confirmed || status.isRooted && !entry.finalized

/-- The statuses for the ancestors of the slot, up to the first one that has the status or is not known. The
loop goes on as long as it finds a parent; `none` if it has found more of them than there are slots, and so
finds them again and again. -/
def missedStatuses (state : State) (status : SlotStatus) :
    ℕ → UInt64 → Option (List (ProtobufMessage E C))
  | 0, _ => none
  | n + 1, slot =>
    match (state.slots.get? slot.toNat).bind (·.parentSlot) with
    | none => some []
    | some parent =>
      match state.slots.get? parent.toNat with
      | none => some []
      | some entry =>
        if misses status entry then
          -- bank of the parent is not known here
          (state.missedStatuses status n parent).map (.slot parent entry.parentSlot status none :: ·)
        else some []

/-- The messages that a push pushes, in their order. -/
def messages (state : State) (message : ProtobufMessage E C) : Option (List (ProtobufMessage E C)) :=
  match message with
  | .slot slot _ status _ =>
    (state.missedStatuses status (state.slots.size + 1) slot).map fun missed => missed.reverse ++ [message]
  | _ => some [message]

end State

namespace Shared

def new (config : ConfigChannel) : Shared :=
  let maxMessages := nextPowerOfTwo config.maxMessages
  { state := ⟨maxMessages + 1, maxMessages, .empty, 0, config.maxBytes, []⟩
    mask := maxMessages - 1
    buffer := fun i => ⟨i, 0, none, false⟩ }

def getIdx (shared : Shared) (pos : ℕ) : ℕ := pos &&& shared.mask

/-- The cell of the position. -/
def item (shared : Shared) (pos : ℕ) : Item := shared.buffer (shared.getIdx pos)

def setItem (shared : Shared) (pos : ℕ) (item : Item) : Shared :=
  { shared with buffer := Function.update shared.buffer (shared.getIdx pos) item }

/-- The tail moves, and the cell of the new tail is written. The slot of the message that was in the cell
comes with it. -/
def store (shared : Shared) (message : ProtobufMessage E C) (data : Bytes) : Shared × Option Slot :=
  let state := { shared.state with tail := shared.state.tail + 1 }
  let slot := state.messageSlot message
  let state := { state with
    slots := state.trackSlot message
    bytesTotal := state.bytesTotal + data.length }
  let item := shared.item state.tail
  let item' := { item with
    pos := state.tail
    slot := slot
    data := some (.ofMessage message, data) }
  match item.data with
  | some (_, old) => ({ shared with state := state.evict old }.setItem state.tail item', some item.slot)
  | none => ({ shared with state }.setItem state.tail item', none)

/-- Whether messages have to leave because of their bytes. -/
def hasExtra (shared : Shared) : Bool :=
  shared.state.bytesTotal ≥ shared.state.bytesMax ∧ shared.state.head < shared.state.tail

/-- One turn of the loop that drops extra messages by max bytes; `none` is the panic "nothing to remove to
keep bytes under limit". -/
def dropHead (shared : Shared) (removed : Option Slot) : Option (Shared × Option Slot) :=
  let item := shared.item shared.state.head
  match item.data with
  | none => none
  | some (_, data) =>
    some ({ shared with state := shared.state.evict data }.setItem shared.state.head
        { item with data := none }, some (removed.elim item.slot (max item.slot)))

/-- The loop, for at most `n` turns. -/
def dropExtra : ℕ → Shared → Option Slot → Option (Shared × Option Slot)
  | 0, shared, removed => some (shared, removed)
  | n + 1, shared, removed =>
    if shared.hasExtra then
      match shared.dropHead removed with
      | none => none
      | some r => dropExtra n r.1 r.2
    else some (shared, removed)

/-- Slots that have lost messages are not complete. -/
def removeSlots (shared : Shared) : Option Slot → Shared
  | none => shared
  | some upto => { shared with state.slots := shared.state.slots.popWhile (· ≤ upto) }

def pushMsg (shared : Shared) (message : ProtobufMessage E C) (data : Bytes) : Option Shared :=
  let stored := shared.store message data
  match dropExtra (stored.1.state.tail - stored.1.state.head) stored.1 stored.2 with
  | none => none
  | some r => some (r.1.removeSlots r.2)

end Shared

/-- A message in the log of the channel. -/
structure Pushed (E C : Type) where
  message : ProtobufMessage E C
  data : Bytes
  pos : ℕ
  slot : Slot

/-- The cell that the message is written to. -/
def Pushed.item (pushed : Pushed E C) : Item where
  pos := pushed.pos
  slot := pushed.slot
  data := some (.ofMessage pushed.message, pushed.data)
  closed := false

/-- The next message of the log. -/
def Shared.pushed (shared : Shared) (message : ProtobufMessage E C) (data : Bytes) : Pushed E C where
  message := message
  data := data
  pos := shared.state.tail + 1
  slot := shared.state.messageSlot message

/-- A message with the encoder of its push: `encode` reads the clock. -/
structure PushInput (E C : Type) where
  message : ProtobufMessage E C
  encode : ProtobufMessage E C → Bytes

namespace Shared

/-- The messages of a push, one after the other. -/
def pushMessages (encode : ProtobufMessage E C → Bytes) :
    Shared → List (ProtobufMessage E C) → Option (Shared × List (Pushed E C))
  | shared, [] => some (shared, [])
  | shared, message :: messages =>
    match shared.pushMsg message (encode message) with
    | none => none
    | some shared' =>
      match pushMessages encode shared' messages with
      | none => none
      | some r => some (r.1, shared.pushed message (encode message) :: r.2)

/-- `Sender::push`; the wakers are taken at its end. -/
def push : Step Shared (PushInput E C) (Pushed E C) Stuck
  | shared, input =>
    match shared.state.messages input.message with
    | none => .error .order
    | some messages =>
      match shared.pushMessages input.encode messages with
      | none => .error .panic
      | some r => .ok ({ r.1 with state.wakers := [] }, r.2)

end Shared

/-! ### Receivers -/

structure RichatFilter where
  disableAccounts : Bool
  disableTransactions : Bool
  disableEntries : Bool
  enableDeshredTransactions : Bool
  enableContactInfo : Bool
  enableBlockFooters : Bool
  enableEntryUpdateParents : Bool

def RichatFilter.default : RichatFilter := ⟨false, false, false, false, false, false, false⟩

structure Receiver where
  next : ℕ
  finished : Bool
  enableNotificationsAccounts : Bool
  enableNotificationsTransactions : Bool
  enableNotificationsEntries : Bool
  enableNotificationsDeshredTransactions : Bool
  enableNotificationsContactInfo : Bool
  enableNotificationsBlockFooters : Bool
  enableNotificationsEntryUpdateParents : Bool

namespace Shared

/-- The first position of a receiver from the slot. -/
def subscribeNext (shared : Shared) : Option Slot → Except SubscribeError ℕ
  | some slot =>
    match shared.state.slots.get? slot with
    | some info => .ok info.head
    | none =>
      match shared.state.slots.firstKey? with
      | some firstAvailable => .error (.slotNotAvailable firstAvailable)
      | none => .error .notInitialized
  | none => .ok shared.state.tail

/-- `<Sender as Subscribe>::subscribe`. -/
def subscribe (shared : Shared) (replayFromSlot : Option Slot) (filter : Option RichatFilter) :
    Except SubscribeError Receiver :=
  match shared.subscribeNext replayFromSlot with
  | .error e => .error e
  | .ok next =>
    let filter := filter.getD .default
    .ok
      { next
        finished := false
        enableNotificationsAccounts := !filter.disableAccounts
        enableNotificationsTransactions := !filter.disableTransactions
        enableNotificationsEntries := !filter.disableEntries
        enableNotificationsDeshredTransactions := filter.enableDeshredTransactions
        enableNotificationsContactInfo := filter.enableContactInfo
        enableNotificationsBlockFooters := filter.enableBlockFooters
        enableNotificationsEntryUpdateParents := filter.enableEntryUpdateParents }

end Shared

/-- What `recv_ref` finds in the cell of its position. -/
inductive CellRead where
  | lagged
  | skip
  | item (data : Bytes)

namespace Receiver

def enabled (r : Receiver) : PluginNotification → Bool
  | .account => r.enableNotificationsAccounts
  | .transaction => r.enableNotificationsTransactions
  | .entry => r.enableNotificationsEntries
  | .deshredTransaction => r.enableNotificationsDeshredTransactions
  | .contactInfo => r.enableNotificationsContactInfo
  | .blockFooter => r.enableNotificationsBlockFooters
  | .entryUpdateParent => r.enableNotificationsEntryUpdateParents
  | .slot | .blockMeta => true

/-- The cell has the position of the receiver. -/
def readItem (r : Receiver) (item : Item) : Receiver × CellRead :=
  let r := { r with next := r.next + 1 }
  match item.data with
  | none => (r, .lagged)
  | some (notification, data) => (r, if r.enabled notification then .item data else .skip)

end Receiver

/-! ### The channel with its receivers -/

inductive Poll where
  /-- not polled, or the poll is ready, or the waker was woken -/
  | idle
  /-- at the top of the loop -/
  | reading
  /-- the cell has another position: the state is locked to store the waker -/
  | locking
  /-- registered, and not woken since -/
  | pending
  deriving DecidableEq

structure Task where
  receiver : Receiver
  poll : Poll

def Task.wake (task : Task) : Task :=
  match task.poll with
  | .pending => { task with poll := .idle }
  | _ => task

/-- A push that holds the lock of the state. -/
structure Pushing (E C : Type) where
  encode : ProtobufMessage E C → Bytes
  messages : List (ProtobufMessage E C)
  /-- a message is stored, with the highest slot that has lost a message -/
  removed : Option (Option Slot)

structure Chan (E C : Type) where
  shared : Shared
  pushing : Option (Pushing E C)
  /-- taken wakers: they are woken after the lock is released -/
  woken : List ℕ
  /-- for each close in progress, the cells that it has closed -/
  closing : List ℕ
  tasks : List Task

inductive ChanAction (E C : Type) where
  | push (input : PushInput E C)
  | store
  | dropHead
  | removeSlots
  /-- the push takes the wakers and releases the lock -/
  | unlock
  | wake (j : ℕ)
  | close
  | closeCell (j : ℕ)
  /-- the wakers are drained, and `Sender::close` returns -/
  | closeWake (j : ℕ)
  | subscribe (replayFromSlot : Option Slot) (filter : Option RichatFilter)
  | poll (i : ℕ)
  | read (i : ℕ)
  | register (i : ℕ)

inductive ChanEvent (E C : Type) where
  | pushed (pushed : Pushed E C)
  | refused (error : SubscribeError)
  /-- `Poll::Ready(Some(Ok(..)))` -/
  | item (i : ℕ) (data : Bytes)
  /-- `Poll::Ready(Some(Err(RecvError::Lagged)))` -/
  | lagged (i : ℕ)
  /-- `Poll::Ready(Some(Err(RecvError::Closed)))` -/
  | closed (i : ℕ)
  /-- `Poll::Pending` -/
  | pending (i : ℕ)
  /-- `Poll::Ready(None)` -/
  | finished (i : ℕ)

namespace Chan

def new (config : ConfigChannel) : Chan E C := ⟨.new config, none, [], [], []⟩

def setTask (s : Chan E C) (i : ℕ) (task : Task) : Chan E C := { s with tasks := s.tasks.set i task }

/-- The poll of a receiver is ready with an error. -/
def finish (s : Chan E C) (i : ℕ) (r : Receiver) : Chan E C :=
  s.setTask i ⟨{ r with finished := true }, .idle⟩

/-- The end of a turn of `recv_ref`: the cell has the position of the receiver. -/
def readItem (s : Chan E C) (i : ℕ) (r : Receiver) (item : Item) : Chan E C × List (ChanEvent E C) :=
  match r.readItem item with
  | (r, .lagged) => (s.finish i r, [.lagged i])
  | (r, .skip) => (s.setTask i ⟨r, .reading⟩, [])
  | (r, .item data) => (s.setTask i ⟨r, .idle⟩, [.item i data])

def step : Step (Chan E C) (ChanAction E C) (ChanEvent E C) Stuck
  | s, .push input =>
    match s.pushing, s.shared.state.messages input.message with
    | none, some messages => .ok ({ s with pushing := some ⟨input.encode, messages, none⟩ }, [])
    | _, _ => .error .order
  | s, .store =>
    match s.pushing with
    | some ⟨encode, message :: messages, none⟩ =>
      let stored := s.shared.store message (encode message)
      .ok ({ s with
          shared := stored.1
          pushing := some ⟨encode, messages, some stored.2⟩ },
        [.pushed (s.shared.pushed message (encode message))])
    | _ => .error .order
  | s, .dropHead =>
    match s.pushing with
    | some ⟨encode, messages, some removed⟩ =>
      if s.shared.hasExtra then
        match s.shared.dropHead removed with
        | none => .error .panic
        | some r => .ok ({ s with
            shared := r.1
            pushing := some ⟨encode, messages, some r.2⟩ }, [])
      else .error .order
    | _ => .error .order
  | s, .removeSlots =>
    match s.pushing with
    | some ⟨encode, messages, some removed⟩ =>
      if s.shared.hasExtra then .error .order
      else .ok ({ s with
          shared := s.shared.removeSlots removed
          pushing := some ⟨encode, messages, none⟩ }, [])
    | _ => .error .order
  | s, .unlock =>
    match s.pushing with
    | some ⟨_, [], none⟩ => .ok ({ s with
        shared := { s.shared with state.wakers := [] }
        pushing := none
        woken := s.woken ++ s.shared.state.wakers }, [])
    | _ => .error .order
  | s, .wake j =>
    match s.woken[j]? with
    | some i => .ok ({ s with
        woken := s.woken.eraseIdx j
        tasks := s.tasks.modify i .wake }, [])
    | none => .error .order
  | s, .close => .ok ({ s with closing := s.closing ++ [0] }, [])
  | s, .closeCell j =>
    match s.closing[j]? with
    | some idx =>
      if idx ≤ s.shared.mask then
        .ok ({ s with
          shared := s.shared.setItem idx { s.shared.item idx with closed := true }
          closing := s.closing.set j (idx + 1) }, [])
      else .error .order
    | none => .error .order
  | s, .closeWake j =>
    match s.pushing, s.closing[j]? with
    | none, some idx =>
      if idx ≤ s.shared.mask then .error .order
      else .ok ({ s with
        shared := { s.shared with state.wakers := [] }
        woken := s.woken ++ s.shared.state.wakers
        closing := s.closing.eraseIdx j }, [])
    | _, _ => .error .order
  | s, .subscribe replayFromSlot filter =>
    match s.pushing, s.shared.subscribe replayFromSlot filter with
    | none, .ok r => .ok ({ s with tasks := s.tasks ++ [⟨r, .idle⟩] }, [])
    | none, .error e => .ok (s, [.refused e])
    | some _, _ => .error .order
  | s, .poll i =>
    match s.tasks[i]? with
    | some ⟨r, .idle⟩ | some ⟨r, .pending⟩ =>
      if r.finished then .ok (s, [.finished i]) else .ok (s.setTask i ⟨r, .reading⟩, [])
    | _ => .error .order
  | s, .read i =>
    match s.tasks[i]? with
    | some ⟨r, .reading⟩ =>
      let item := s.shared.item r.next
      if item.closed then .ok (s.finish i r, [.closed i])
      else if item.pos ≠ r.next then .ok (s.setTask i ⟨r, .locking⟩, [])
      else .ok (s.readItem i r item)
    | _ => .error .order
  | s, .register i =>
    match s.pushing, s.tasks[i]? with
    | none, some ⟨r, .locking⟩ =>
      let item := s.shared.item r.next
      if item.closed then .ok (s.finish i r, [.closed i])
      else if item.pos ≠ r.next then
        if item.pos < r.next then
          .ok ({ s.setTask i ⟨r, .pending⟩ with
            shared := { s.shared with state.wakers := s.shared.state.wakers ++ [i] } }, [.pending i])
        else .ok (s.finish i r, [.lagged i])
      else .ok (s.readItem i r item)
    | _, _ => .error .order

end Chan

namespace ChanEvent

def pushed? : ChanEvent E C → Option (Pushed E C)
  | pushed p => some p
  | _ => none

def item? (i : ℕ) : ChanEvent E C → Option Bytes
  | item j data => if j = i then some data else none
  | _ => none

def isLagged (i : ℕ) : ChanEvent E C → Bool
  | lagged j => j = i
  | _ => false

end ChanEvent

/-- The messages pushed during a run. -/
def pushedItems (events : List (ChanEvent E C)) : List (Pushed E C) := events.filterMap (·.pushed?)

@[simp] theorem pushedItems_nil : pushedItems ([] : List (ChanEvent E C)) = [] := rfl

/-- What the receiver `i` has yielded. -/
def yieldedBy (i : ℕ) (events : List (ChanEvent E C)) : List Bytes := events.filterMap (·.item? i)

end Richat.Plugin
