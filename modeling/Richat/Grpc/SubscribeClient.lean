import Richat.Message
import Richat.Lib.Machine

/-!
# A client of the gRPC server

A client is a state behind a lock, a queue of messages without one, and the waker of its response
stream. The threads of the server share it: message workers and replay workers hold the lock for a
whole turn, the request handler holds it while it changes the state, and the ping and shutdown task
takes no lock at all. `Phase` is where a thread is with the client, and `SubscribeClient.step` is one
step of one thread or of the stream's `poll_next`: a pop, a push or a wake is a step of its own.

What a thread reads elsewhere comes with its action: the recovery epoch of the channel, the next
message of the channel or of the disk, the errors of a reader. Queue and waker are the ones of
`crossbeam` and `futures`: first in, first out, and a wake takes the waker that was registered last.
Messages are of any type `μ`, filters of any type `φ`, updates of any type `υ`; `MessageApi` is what the
workers ask of them.
-/

namespace Richat

open Lib

/-- Where a client reads next. -/
inductive IndexLocation where
  | unknown
  | storage (index : ℕ)
  | memory (position : ℕ)
  deriving DecidableEq

namespace IndexLocation

def isStorage : IndexLocation → Bool
  | storage _ => true
  | _ => false

def isMemory : IndexLocation → Bool
  | memory _ => true
  | _ => false

/-- The place of the next message. -/
def next : IndexLocation → IndexLocation
  | unknown => unknown
  | storage index => storage (index + 1)
  | memory position => memory (position + 1)

end IndexLocation

/-- The errors of a response stream. -/
inductive Status where
  | dataLoss (message : String)
  | internal (message : String)
  | invalidArgument (message : String)
  | resourceExhausted (message : String)
  deriving DecidableEq

def Status.gap : Status := .dataLoss "upstream history gap interrupted replay"
def Status.shutdown : Status := .internal "shutdown"

inductive RecvError where
  | lagged
  | closed

def RecvError.status : RecvError → Status
  | lagged => .dataLoss "lagged"
  | closed => .dataLoss "closed"

/-- What is queued for the client. -/
inductive SubscribeMessage (υ : Type*) where
  | update (data : υ)
  | ping
  | pong (id : ℤ)
  | error (status : Status)

structure SubscribeClientState (φ : Type*) where
  finished : Bool
  commitment : CommitmentLevel
  replayGeneration : ℕ
  recoveryEpoch : ℕ
  replayFromSlot : Option Slot
  head : IndexLocation
  filter : Option φ

def SubscribeClientState.new (φ : Type*) : SubscribeClientState φ where
  finished := false
  commitment := .finalized
  replayGeneration := 0
  recoveryEpoch := 0
  replayFromSlot := none
  head := .unknown
  filter := none

/-- Where a thread is with the client. -/
inductive Phase (υ : Type*) where
  | idle
  /-- in a turn, with the lock: the updates to push of the message taken last, and whether updates
  were pushed that nobody was woken for -/
  | turn (updates : List υ) (pushed : Bool)
  /-- in the loop of `push_error`, and whether it removed anything but pings and pongs -/
  | draining (error : Status) (dropped : Bool)
  /-- after that loop -/
  | failing (error : Status) (dropped : Bool)
  /-- after a push that is not followed by its wake yet -/
  | waking

structure SubscribeClient (ι φ υ : Type*) where
  state : SubscribeClientState φ
  /-- the thread that holds the lock of the state over several steps -/
  lock : Option ι
  messages : List (SubscribeMessage υ)
  waker : Option ℕ
  threads : ι → Phase υ
  /-- `ReceiverStream::finished` -/
  finished : Bool
  /-- the number of polls so far; a poll registers its number as its waker -/
  polls : ℕ
  /-- the poll that has registered its waker and not looked into the queue yet -/
  polling : Option ℕ
  /-- the last poll, if it returned `Pending` -/
  parked : Option ℕ

/-- The new place of a request, with what it was computed for. -/
structure NewHead where
  head : IndexLocation
  commitment : CommitmentLevel
  fromSlot : Option Slot
  recoveryEpoch : ℕ

/-- `ParsedMessage::slot`, and `Filter::get_updates_ref` with the encoding of its updates. -/
structure MessageApi (φ μ υ : Type*) where
  slot : μ → Slot
  getUpdates : φ → μ → CommitmentLevel → List υ

inductive ThreadAction (φ μ : Type*) where
  /-- `worker_messages` takes the client, and reads the epoch of the channel -/
  | beginMessages (epoch : ℕ)
  /-- `spawn_replay` takes its request -/
  | beginReplay (generation : ℕ) (readError : Option Status) (epoch : ℕ)
  /-- the next message of the turn, `none` for a record of the disk that is not selected -/
  | take (message : Option μ)
  | fail (error : RecvError)
  /-- the end of a replay: the rest is in memory from the position on -/
  | handOver (position : ℕ)
  | pushMessage
  | endTurn
  | ping
  | pong (id : ℤ)
  /-- a request is accepted, `head` is `none` when the place stays -/
  | setFilter (filter : φ) (head : Option NewHead)
  /-- a request is rejected -/
  | reject (error : Status)
  | shutdown
  | drain
  | pushError
  | wake

inductive ClientAction (ι φ μ : Type*) where
  | thread (i : ι) (action : ThreadAction φ μ)
  /-- `poll_next` up to the registration of its waker -/
  | register
  /-- the rest of it -/
  | pop
  /-- the response stream is dropped -/
  | dropStream

inductive ClientEvent (υ : Type*) where
  /-- a turn took the message of the place, which gives the updates -/
  | taken (location : IndexLocation) (updates : List υ)
  /-- the place of the client was set -/
  | moved (location : IndexLocation)
  | pushed (data : υ)
  | received (message : SubscribeMessage υ)
  | pending (waker : ℕ)
  | closed
  | woken (waker : ℕ)

/-- The action is not the next one of the thread, or it waits for the lock. -/
inductive Blocked where
  | blocked

namespace SubscribeMessage

variable {υ : Type*}

def update? : SubscribeMessage υ → Option υ
  | update data => some data
  | _ => none

def isError : SubscribeMessage υ → Bool
  | error _ => true
  | _ => false

/-- Whether the message is an update or an error. -/
def counts : SubscribeMessage υ → Bool
  | update _ | error _ => true
  | _ => false

end SubscribeMessage

namespace SubscribeClient

variable {ι φ μ υ : Type*} [DecidableEq ι]

def new (ι φ υ : Type*) : SubscribeClient ι φ υ where
  state := .new φ
  lock := none
  messages := []
  waker := none
  threads := fun _ => .idle
  finished := false
  polls := 0
  polling := none
  parked := none

def setPhase (s : SubscribeClient ι φ υ) (i : ι) (phase : Phase υ) : SubscribeClient ι φ υ :=
  { s with threads := Function.update s.threads i phase }

/-- A turn begins. -/
def beginTurn (s : SubscribeClient ι φ υ) (i : ι) : SubscribeClient ι φ υ :=
  { s.setPhase i (.turn [] false) with lock := some i }

/-- The client is finished with an error, under the lock. -/
def abort (s : SubscribeClient ι φ υ) (i : ι) (error : Status) : SubscribeClient ι φ υ :=
  { s.setPhase i (.draining error false) with
    lock := some i
    state := { s.state with finished := true } }

/-- A turn ends: the lock is free, and a wake is due for what was pushed. -/
def endTurn (s : SubscribeClient ι φ υ) (i : ι) (pushed : Bool) : SubscribeClient ι φ υ :=
  { s.setPhase i (if pushed then .waking else .idle) with lock := none }

/-- The thread puts a message into the queue. -/
def enqueue (s : SubscribeClient ι φ υ) (i : ι) (message : SubscribeMessage υ) (phase : Phase υ) :
    SubscribeClient ι φ υ :=
  { s.setPhase i phase with messages := s.messages ++ [message] }

/-- The waker is woken. -/
def wake (s : SubscribeClient ι φ υ) : SubscribeClient ι φ υ × List (ClientEvent υ) :=
  ({ s with waker := none }, (s.waker.map .woken).toList)

def setHead (state : SubscribeClientState φ) (filter : φ) (head : Option NewHead) :
    SubscribeClientState φ :=
  match head with
  | none => { state with filter := some filter }
  | some new =>
    { state with
      filter := some filter
      head := new.head
      commitment := new.commitment
      replayGeneration := state.replayGeneration + 1
      replayFromSlot := new.fromSlot
      recoveryEpoch := new.recoveryEpoch }

variable (api : MessageApi φ μ υ)

/-- The updates of a message: nothing below the slot of the replay. -/
def updates (state : SubscribeClientState φ) (filter : φ) : Option μ → List υ
  | none => []
  | some message =>
    if state.replayFromSlot.any (api.slot message < ·) then []
    else api.getUpdates filter message state.commitment

/-- A step of the thread `i`. -/
def threadStep (s : SubscribeClient ι φ υ) (i : ι) (action : ThreadAction φ μ) :
    Except Blocked (SubscribeClient ι φ υ × List (ClientEvent υ)) :=
  match s.threads i, action with
  | .idle, .beginMessages epoch =>
    if s.lock.isSome then .error .blocked
    else if s.state.finished then .ok (s, [])
    else if s.state.replayFromSlot.isSome ∧ s.state.recoveryEpoch ≠ epoch then
      .ok (s.abort i .gap, [])
    else if s.state.filter.isSome ∧ s.state.head.isMemory then .ok (s.beginTurn i, [])
    else .ok (s, [])
  | .idle, .beginReplay generation readError epoch =>
    if s.lock.isSome then .error .blocked
    else if s.state.finished ∨ s.state.replayGeneration ≠ generation ∨ ¬ s.state.head.isStorage then
      .ok (s, [])
    else
      match readError with
      | some error => .ok (s.abort i error, [])
      | none =>
        if s.state.recoveryEpoch ≠ epoch then .ok (s.abort i .gap, [])
        else .ok (s.beginTurn i, [])
  | .turn [] pushed, .take message =>
    match s.state.filter with
    | none => .error .blocked
    | some filter =>
      let us := updates api s.state filter message
      .ok ({ s.setPhase i (.turn us pushed) with state := { s.state with head := s.state.head.next } },
        [.taken s.state.head us])
  | .turn [] _, .fail error => .ok (s.setPhase i (.draining error.status false), [])
  | .turn [] pushed, .handOver position =>
    if s.state.head.isStorage then
      .ok ({ s.endTurn i pushed with state := { s.state with head := .memory position } },
        [.moved (.memory position)])
    else .error .blocked
  | .turn (u :: us) _, .pushMessage =>
    .ok (s.enqueue i (.update u) (.turn us true), [.pushed u])
  | .turn [] true, .wake =>
    let (s, woken) := s.wake
    .ok (s.setPhase i (.turn [] false), woken)
  | .turn [] pushed, .endTurn => .ok (s.endTurn i pushed, [])
  | .idle, .ping => .ok (s.enqueue i .ping .waking, [])
  | .idle, .pong id => .ok (s.enqueue i (.pong id) .waking, [])
  | .idle, .setFilter filter head =>
    if s.lock.isSome then .error .blocked
    else .ok ({ s with state := setHead s.state filter head },
      (head.map fun new => .moved new.head).toList)
  | .idle, .reject error =>
    if s.lock.isSome then .error .blocked
    else .ok ({ s.setPhase i (.draining error false) with state := { s.state with finished := true } },
      [])
  | .idle, .shutdown => .ok (s.setPhase i (.draining .shutdown false), [])
  | .draining error dropped, .drain =>
    match s.messages with
    | [] => .ok (s.setPhase i (.failing error dropped), [])
    | message :: messages =>
      .ok ({ s.setPhase i (.draining error (dropped || message.counts)) with messages }, [])
  | .failing error _, .pushError => .ok (s.enqueue i (.error error) .waking, [])
  | .waking, .wake =>
    let (s, woken) := s.wake
    .ok ({ s.setPhase i .idle with lock := if s.lock = some i then none else s.lock }, woken)
  | _, _ => .error .blocked

/-- One step of the client. -/
def step : Step (SubscribeClient ι φ υ) (ClientAction ι φ μ) (ClientEvent υ) Blocked
  | s, .thread i action => s.threadStep api i action
  | s, .register =>
    if s.finished then .ok (s, [.closed])
    else if s.polling.isSome then .error .blocked
    else .ok ({ s with
        waker := some s.polls
        polls := s.polls + 1
        polling := some s.polls
        parked := none }, [])
  | s, .pop =>
    match s.polling, s.messages with
    | none, _ => .error .blocked
    | some waker, [] => .ok ({ s with polling := none, parked := some waker }, [.pending waker])
    | some _, message :: messages =>
      .ok ({ s with messages, finished := message.isError, polling := none }, [.received message])
  | s, .dropStream =>
    if s.lock.isSome then .error .blocked
    else .ok ({ s with state := { s.state with finished := true } }, [])

end SubscribeClient

end Richat
