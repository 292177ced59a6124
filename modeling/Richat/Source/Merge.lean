import Richat.Source.Replay

/-!
# The merged stream of the sources

`Subscriptions` polls the loops of its sources in turn, all in one task, and hands their items on in the
order in which they come out. A subscribe opens a connection: a task of its own puts what it receives into
the channel of the connection, from which the source takes it.

Connections are numbered in the order in which they are opened, and the trace has what is received on them
beside the items of the merged stream.
-/

namespace Richat

open Lib

/-- An item of the channel of a connection. -/
inductive ConnectionItem (μ : Type) where
  | message (message : μ)
  | replayFailed
  | error

def ConnectionItem.received {μ : Type} : ConnectionItem μ → SourceReceived
  | message _ => .message
  | replayFailed => .replayFailed
  | error => .error

structure Merge.Connection (μ : Type) where
  /-- what the source has not taken yet -/
  queue : List (ConnectionItem μ)
  /-- the task can still put items into the channel -/
  isOpen : Bool

/-- A source with the connection of its latest subscribe. -/
structure Feed where
  source : Source
  connection : ℕ

def Feed.new (config : ConfigChannelSourceGeneral) : Feed := ⟨.new config, 0⟩

structure Merge.Subscriptions (μ : Type) where
  replay : GlobalReplayFromSlot
  feeds : List Feed
  lastPolled : ℕ
  /-- the source at `lastPolled` is being polled -/
  polling : Bool
  connections : ℕ → Merge.Connection μ
  nextConnection : ℕ

inductive MergeEvent (μ : Type) where
  /-- a source calls `subscribe` -/
  | opens (connection : ℕ)
  /-- the task of the connection receives the message from the upstream -/
  | upstream (connection : ℕ) (message : μ)
  /-- the items of the merged stream -/
  | message (connection : ℕ) (message : μ)
  | replayGap (fromSlot : Slot)
  | error
  deriving DecidableEq

inductive MergeAction (μ : Type) where
  /-- the sender moves the cursor -/
  | store (slot : Slot)
  /-- `poll_next` goes on with the next source -/
  | next
  | poll
  | received
  | subscribed (result : SubscribeResult)
  | exclude
  | applyReload (toRemove : List SourceName) (toAdd : List ConfigChannelSourceGeneral)
  /-- the task of a connection puts an item into its channel -/
  | forward (connection : ℕ) (item : ConnectionItem μ)
  /-- the task of a connection ends -/
  | close (connection : ℕ)

namespace Merge.Subscriptions

variable {μ : Type}

def new (value : Option Slot) (sources : List ConfigChannelSourceGeneral) : Merge.Subscriptions μ where
  replay := .new value sources.length
  feeds := sources.map .new
  lastPolled := 0
  polling := false
  connections := fun _ => ⟨[], false⟩
  nextConnection := 0

def setConnection (s : Merge.Subscriptions μ) (i : ℕ) (connection : Merge.Connection μ) : Merge.Subscriptions μ :=
  { s with connections := Function.update s.connections i connection }

/-- The source that is polled. -/
def polled (s : Merge.Subscriptions μ) : Option Feed := if s.polling then s.feeds[s.lastPolled]? else none

/-- The source that is polled has changed; an item ends the poll. -/
def setPolled (s : Merge.Subscriptions μ) (feed : Feed) (events : List (MergeEvent μ)) : Merge.Subscriptions μ :=
  { s with
    feeds := s.feeds.set s.lastPolled feed
    polling := events.isEmpty }

/-- The items of a source on a connection. -/
def events (connection : ℕ) (item : Option μ) : SourceEvent → List (MergeEvent μ)
  | .message => item.toList.map (.message connection)
  | .replayGap fromSlot => [.replayGap fromSlot]
  | .error => [.error]

/-- The message of what is received. -/
def itemOf : ConnectionItem μ → Option μ
  | .message message => some message
  | _ => none

/-- A source stream that is `setStreams` by another: all polls start again. -/
def setFeeds (s : Merge.Subscriptions μ) (feeds : List Feed) : Merge.Subscriptions μ :=
  { s with
    replay := s.replay.updateSources feeds.length
    feeds
    lastPolled := 0
    polling := false }

/-- A source takes the next item of its connection; `none` while there is nothing to take. -/
def take (connection : Merge.Connection μ) : Option (SourceReceived × Option μ × Merge.Connection μ) :=
  match connection.queue with
  | item :: queue => some (item.received, itemOf item, { connection with queue })
  | [] => if connection.isOpen then none else some (.closed, none, connection)

def step : Step (Merge.Subscriptions μ) (MergeAction μ) (MergeEvent μ) Sources.Stuck
  | s, .store slot => .ok ({ s with replay := s.replay.store slot }, [])
  | s, .next =>
    if s.feeds.isEmpty then .error .order
    else .ok ({ s with lastPolled := (s.lastPolled + 1) % s.feeds.length, polling := true }, [])
  | s, .poll =>
    match s.polled with
    | none => .error .order
    | some feed =>
      match feed.source.poll s.replay with
      | none => .error .order
      | some (source, replay, sourceEvents) =>
        if source.phase = .subscribing then
          -- the request leaves with the cursor that was read
          .ok ({ (s.setPolled ⟨source, s.nextConnection⟩ []).setConnection s.nextConnection ⟨[], true⟩ with
              replay
              nextConnection := s.nextConnection + 1 }, [.opens s.nextConnection])
        else
          let out := sourceEvents.flatMap (events feed.connection none)
          .ok ({ s.setPolled ⟨source, feed.connection⟩ out with replay }, out)
  | s, .received =>
    match s.polled with
    | none => .error .order
    | some feed =>
      match take (s.connections feed.connection) with
      | none => .error .order
      | some (received, item, connection) =>
        match feed.source.received s.replay received with
        | none => .error .order
        | some (source, sourceEvents) =>
          let out := sourceEvents.flatMap (events feed.connection item)
          .ok ((s.setPolled ⟨source, feed.connection⟩ out).setConnection feed.connection connection, out)
  | s, .subscribed result =>
    match s.polled with
    | none => .error .order
    | some feed =>
      match feed.source.subscribed result with
      | none => .error .order
      | some source =>
        let s := s.setPolled ⟨source, feed.connection⟩ []
        -- an upstream that rejects the slot is only told by the channel
        if result = .stream .rejected then .ok (s.setConnection feed.connection ⟨[.replayFailed], false⟩, [])
        else .ok (s, [])
  | s, .exclude =>
    match s.polled with
    | none => .error .order
    | some feed =>
      if feed.source.phase = .finished ∧ feed.source.excludeOnFinish then
        .ok (s.setFeeds (s.feeds.eraseIdx s.lastPolled), [])
      else .error .order
  | s, .applyReload toRemove toAdd =>
    .ok (s.setFeeds (s.feeds.filter (·.source.name ∉ toRemove) ++ toAdd.map .new), [])
  | s, .forward i item =>
    let connection := s.connections i
    if connection.isOpen then
      .ok (s.setConnection i { connection with queue := connection.queue ++ [item] },
        (itemOf item).toList.map (.upstream i))
    else .error .order
  | s, .close i => .ok (s.setConnection i { s.connections i with isOpen := false }, [])

end Merge.Subscriptions

/-! ### The loop of the source task -/

/-- What the loop calls of the sender. -/
inductive SenderCall (μ : Type) where
  | push (message : μ)
  | beginLiveEpoch
  deriving DecidableEq

def MergeEvent.call {μ : Type} : MergeEvent μ → Option (SenderCall μ)
  | message _ msg => some (.push msg)
  | replayGap _ => some .beginLiveEpoch
  | opens _ | upstream .. | error => none

end Richat
