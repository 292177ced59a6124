import Mathlib.Data.Finset.Card
import Richat.Channel.Dedup
import Richat.Lib.Machine

/-!
# Sources and the replay cursor

Every source reconnects on its own, and asks its upstream for the history from the shared cursor on. A
source whose upstream does not have it anymore reports this to `fallbackToLive`; when all sources have,
the cursor is dropped and the history between is given up.

`Sources.step` interleaves the loops of `source_stream`: a source runs alone from one access of the
cursor to the next, and waits for its upstream at `received` and `subscribed`. The sender moves the cursor
with `store` in between.
-/

namespace Richat

open Lib

structure GlobalReplayFromSlot where
  value : Option Slot
  sourcesReplayFailed : Finset SourceName
  sourcesTotal : ℕ
  epoch : ℕ

namespace GlobalReplayFromSlot

def new (value : Option Slot) (sourcesTotal : ℕ) : GlobalReplayFromSlot := ⟨value, ∅, sourcesTotal, 0⟩

def store (replay : GlobalReplayFromSlot) (slot : Slot) : GlobalReplayFromSlot :=
  { replay with
    sourcesReplayFailed := if replay.value.all (· < slot) then ∅ else replay.sourcesReplayFailed
    value := some (max (replay.value.getD slot) slot) }

def fallbackToLive (replay : GlobalReplayFromSlot) (sourceName : SourceName) (requested : Option Slot)
    (epoch : ℕ) : GlobalReplayFromSlot × Bool :=
  if requested.isNone ∨ replay.value ≠ requested ∨ replay.epoch ≠ epoch then (replay, false)
  else
    let sourcesReplayFailed := insert sourceName replay.sourcesReplayFailed
    if sourcesReplayFailed.card < replay.sourcesTotal then ({ replay with sourcesReplayFailed }, false)
    else
      ({ replay with
          value := none
          epoch := replay.epoch + 1
          sourcesReplayFailed := ∅ }, true)

/-- Update the number of sources and clear the failed ones. -/
def updateSources (replay : GlobalReplayFromSlot) (newTotal : ℕ) : GlobalReplayFromSlot :=
  { replay with
    sourcesTotal := newTotal
    sourcesReplayFailed := ∅ }

end GlobalReplayFromSlot

/-! ### One source -/

/-- The receiver that a subscribe returns. -/
inductive Upstream where
  | accepted
  /-- it only holds `ReplayFailed`, as when a QUIC upstream rejects the slot -/
  | rejected
  deriving DecidableEq

inductive SubscribeResult where
  | stream (upstream : Upstream)
  | replaySlotNotAvailable
  | error
  deriving DecidableEq

/-- What a source receives from its stream. -/
inductive SourceReceived where
  | message
  | replayFailed
  | error
  | closed
  deriving DecidableEq

inductive ReceiveError where
  | replayFailed
  | sourceClosed
  | other
  deriving DecidableEq

/-- How an attempt to replay went. -/
inductive Outcome where
  | connected
  | rejected
  | failed
  deriving DecidableEq

structure Attempt where
  requested : Option Slot
  epoch : ℕ
  outcome : Outcome
  deriving DecidableEq

/-- Where the loop of a source is. -/
inductive SourcePhase where
  /-- the head of the loop -/
  | loop
  | dispatch
  | receiving
  | subscribing
  | failure (error : ReceiveError)
  /-- the stream of the source has ended -/
  | finished
  deriving DecidableEq

structure ConfigChannelSourceGeneral where
  name : SourceName
  /-- the source has a backoff -/
  reconnect : Bool
  excludeOnFinish : Bool

structure Source extends ConfigChannelSourceGeneral where
  stream : Option Upstream
  requested : Option Slot
  epoch : ℕ
  phase : SourcePhase
  /-- the latest attempt that has an outcome; no code reads it -/
  lastAttempt : Option Attempt

inductive SourceEvent where
  | message
  | replayGap (fromSlot : Slot)
  | error
  deriving DecidableEq

namespace Source

def new (config : ConfigChannelSourceGeneral) : Source := ⟨config, none, none, 0, .loop, none⟩

/-- The attempt of the source has an outcome. -/
def attempted (src : Source) (outcome : Outcome) : Source :=
  { src with lastAttempt := some ⟨src.requested, src.epoch, outcome⟩ }

/-- From one access of the cursor to the next one or to the next wait. -/
def poll (src : Source) (replay : GlobalReplayFromSlot) :
    Option (Source × GlobalReplayFromSlot × List SourceEvent) :=
  match src.phase with
  | .loop =>
    some ({ src with
      stream := if src.epoch ≠ replay.epoch then none else src.stream
      phase := .dispatch }, replay, [])
  | .dispatch =>
    if src.stream.isSome then some ({ src with phase := .receiving }, replay, [])
    else
      some ({ src with
        requested := replay.value
        epoch := replay.epoch
        phase := .subscribing }, replay, [])
  | .failure error =>
    if error = .sourceClosed ∧ ¬ src.reconnect then some ({ src with phase := .finished }, replay, [])
    else
      match error, src.requested with
      | .replayFailed, some fromSlot =>
        -- rejected or not: the source sleeps and tries again
        match replay.fallbackToLive src.name src.requested src.epoch with
        | (replay, true) => some ({ src with phase := .loop }, replay, [.replayGap fromSlot])
        | (replay, false) => some ({ src with phase := .loop }, replay, [])
      | _, _ =>
        if src.reconnect then some ({ src with phase := .loop }, replay, [])
        else some ({ src with phase := .finished }, replay, [.error])
  | .receiving | .subscribing | .finished => none

/-- The attempt has failed. -/
def failed (src : Source) (outcome : Outcome) (error : ReceiveError) : Source :=
  { src.attempted outcome with
    stream := none
    phase := .failure error }

/-- `stream.recv()` returns. -/
def received (src : Source) (replay : GlobalReplayFromSlot) (item : SourceReceived) :
    Option (Source × List SourceEvent) :=
  match src.phase, src.stream with
  | .receiving, some upstream =>
    if upstream = .rejected ∧ item ≠ .replayFailed then none
    else if src.epoch ≠ replay.epoch then
      -- another source gave up the history while this receive was pending
      some ({ src with
        stream := none
        phase := .loop }, [])
    else
      match item with
      | .message => some ({ src with phase := .loop }, [.message])
      | .replayFailed => some (src.failed .rejected .replayFailed, [])
      | .error => some (src.failed .failed .other, [])
      | .closed => some (src.failed .failed .sourceClosed, [])
  | _, _ => none

/-- `subscribe(requested)` returns. -/
def subscribed (src : Source) (result : SubscribeResult) : Option Source :=
  if src.phase ≠ .subscribing then none
  else
    match result with
    | .stream .accepted =>
      some { src.attempted .connected with
        stream := some .accepted
        phase := .loop }
    | .stream .rejected =>
      some { src.attempted .rejected with
        stream := some .rejected
        phase := .loop }
    | .replaySlotNotAvailable => some (src.failed .rejected .replayFailed)
    | .error => some (src.failed .failed .other)

end Source

/-! ### All sources -/

/-- `Subscriptions`, with the cursor that it shares with the sender. -/
structure Sources where
  replay : GlobalReplayFromSlot
  streams : List Source

namespace Sources

/-- The sources at the start, with a cursor for as many. -/
def new (value : Option Slot) (sources : List ConfigChannelSourceGeneral) : Sources :=
  ⟨.new value sources.length, sources.map .new⟩

inductive Action where
  /-- the sender moves the cursor -/
  | store (slot : Slot)
  | poll (i : ℕ)
  | received (i : ℕ) (item : SourceReceived)
  | subscribed (i : ℕ) (result : SubscribeResult)
  /-- a source that has ended is removed -/
  | exclude (i : ℕ)
  | applyReload (toRemove : List SourceName) (toAdd : List ConfigChannelSourceGeneral)

/-- The order of the actions is not one of the code. -/
inductive Stuck where
  | order

def setSource (s : Sources) (i : ℕ) (src : Source) : Sources :=
  { s with streams := s.streams.set i src }

def setStreams (s : Sources) (streams : List Source) : Sources :=
  ⟨s.replay.updateSources streams.length, streams⟩

def step : Step Sources Action SourceEvent Stuck
  | s, .store slot => .ok ({ s with replay := s.replay.store slot }, [])
  | s, .poll i =>
    match s.streams[i]? with
    | none => .error .order
    | some src =>
      match src.poll s.replay with
      | none => .error .order
      | some (src, replay, events) => .ok ({ s with replay }.setSource i src, events)
  | s, .received i item =>
    match s.streams[i]? with
    | none => .error .order
    | some src =>
      match src.received s.replay item with
      | none => .error .order
      | some (src, events) => .ok (s.setSource i src, events)
  | s, .subscribed i result =>
    match s.streams[i]? with
    | none => .error .order
    | some src =>
      match src.subscribed result with
      | none => .error .order
      | some src => .ok (s.setSource i src, [])
  | s, .exclude i =>
    match s.streams[i]? with
    | none => .error .order
    | some src =>
      if src.phase = .finished ∧ src.excludeOnFinish then .ok (s.setStreams (s.streams.eraseIdx i), [])
      else .error .order
  | s, .applyReload toRemove toAdd =>
    .ok (s.setStreams (s.streams.filter (·.name ∉ toRemove) ++ toAdd.map .new), [])

end Sources

end Richat
