import Richat.Storage.Handoff

/-!
# The queue of the replay workers

Clients that start at a position of the journal wait in one queue for a replay worker. A worker takes the
first request that is ready, serves it for one turn, and brings it back when it takes the next one; a request
that could not go on is deferred. `len` counts the requests in the queue and those that the workers hold,
and bounds them by `capacity`.

`ReplayWorkers.step` interleaves the threads: each call on the queue holds its lock, so it is one step, and
the rest of a turn touches only the request of the worker. `TurnInput` is what a turn finds outside of its
request. What a turn pushes to the client is left out, and the shutdown. A request has a `ticket`, the number
of the requests accepted before, which the source does not have.
-/

namespace Richat

open Lib

structure ReplayRequest where
  retryAt : Option ℕ
  generation : ℕ
  state : ReplayState
  /-- which of the accepted requests it is -/
  ticket : ℕ

namespace ReplayRequest

/-- Is the request not deferred? -/
def ready (now : ℕ) (request : ReplayRequest) : Bool := request.retryAt.all (· ≤ now)

end ReplayRequest

structure ReplayQueue where
  capacity : ℕ
  len : ℕ
  requests : List ReplayRequest

namespace ReplayQueue

def new (capacity : ℕ) : ReplayQueue := ⟨capacity, 0, []⟩

/-- The loop of `pop_next`: a deferred request goes to the end. -/
def popLoop (now : ℕ) : ℕ → List ReplayRequest → Option ReplayRequest × List ReplayRequest
  | 0, requests => (none, requests)
  | _ + 1, [] => (none, []) -- no turn of the loop finds the queue empty
  | n + 1, request :: requests =>
    if request.ready now then (some { request with retryAt := none }, requests)
    else popLoop now n (requests ++ [request])

def popNext (now : ℕ) (prevRequest : Option ReplayRequest) (queue : ReplayQueue) :
    Option ReplayRequest × ReplayQueue :=
  let requests := if 0 < queue.len then queue.requests ++ prevRequest.toList else queue.requests
  let (request, requests) := popLoop now requests.length requests
  (request, { queue with requests })

def pushNew (queue : ReplayQueue) (request : ReplayRequest) : Option ReplayQueue :=
  if queue.len < queue.capacity then
    some { queue with len := queue.len + 1, requests := queue.requests ++ [request] }
  else none

def dropReq (queue : ReplayQueue) : ReplayQueue := { queue with len := queue.len - 1 }

end ReplayQueue

/-! ### The workers -/

/-- What a turn finds: the state of the client, the ring of its stream and the disk. -/
structure TurnInput where
  finished : Bool
  replayGeneration : ℕ
  head : IndexLocation
  recoveryEpoch : ℕ
  /-- `SharedChannel::recovery_epoch` -/
  messagesRecoveryEpoch : ℕ
  /-- how many records are popped until the queue of the client is full -/
  popped : ℕ
  getHeadByReplayIndex : ℕ → Option ℕ
  /-- the queue of the client is full when the records are popped -/
  full : Bool
  /-- what the loop that reads makes of the state -/
  read : ℕ → ReplayState → ReplayState

/-- `Duration::from_millis(1)`, in nanoseconds -/
def retryDelay : ℕ := 1000000

/-- A turn of `spawn_replay` from the state of the client on: the request, if it is to be served again. -/
def ReplayRequest.turn (now : ℕ) (input : TurnInput) (req : ReplayRequest) : Option ReplayRequest :=
  if input.finished ∨ input.replayGeneration ≠ req.generation then none
  else
    match input.head with
    | .unknown | .memory _ => none
    | .storage nextIndex =>
      if req.state.readError.isSome then none
      else if input.recoveryEpoch ≠ input.messagesRecoveryEpoch then none
      else
        let (nextIndex, state, _) := popMessages input.popped nextIndex req.state
        if state.readError.isNone ∧ (input.getHeadByReplayIndex nextIndex).isSome then none
        else
          let readMore := state.messages.isEmpty && !input.full
          let state := if readMore ∧ state.readError.isNone then input.read nextIndex state else state
          -- only this request is deferred
          let retryAt := if state.messages.isEmpty ∨ ¬readMore then some (now + retryDelay) else req.retryAt
          some { req with state, retryAt }

/-- Where a worker is. -/
inductive ReplayWorker where
  /-- before `pop_next` -/
  | looking (prevRequest : Option ReplayRequest)
  | serving (req : ReplayRequest)
  /-- before `drop_req` -/
  | dropping (req : ReplayRequest)

/-- The requests in the hands of a worker. -/
def ReplayWorker.held : ReplayWorker → List ReplayRequest
  | looking prevRequest => prevRequest.toList
  | serving req => [req]
  | dropping req => [req]

structure ReplayWorkers where
  now : ℕ
  queue : ReplayQueue
  workers : List ReplayWorker
  /-- how many requests were accepted -/
  accepted : ℕ

inductive ReplayAction where
  | tick (elapsed : ℕ)
  | pushNew (retryAt : Option ℕ) (generation : ℕ)
  | popNext (worker : ℕ)
  | turn (worker : ℕ) (input : TurnInput)
  | dropReq (worker : ℕ)

inductive ReplayEvent where
  | accepted (ticket : ℕ)
  /-- the queue is full -/
  | refused
  | popped (worker ticket : ℕ)
  /-- `pop_next` has returned nothing -/
  | idle (worker : ℕ)
  | dropped (ticket : ℕ)
  deriving DecidableEq

namespace ReplayWorkers

def new (capacity workers : ℕ) : ReplayWorkers := ⟨0, .new capacity, List.replicate workers (.looking none), 0⟩

/-- The requests in flight. -/
def held (s : ReplayWorkers) : List ReplayRequest := s.workers.flatMap ReplayWorker.held

def step : Step ReplayWorkers ReplayAction ReplayEvent Unit
  | s, .tick elapsed => .ok ({ s with now := s.now + elapsed }, [])
  | s, .pushNew retryAt generation =>
    match s.queue.pushNew ⟨retryAt, generation, .default, s.accepted⟩ with
    | some queue => .ok ({ s with queue, accepted := s.accepted + 1 }, [.accepted s.accepted])
    | none => .ok (s, [.refused])
  | s, .popNext worker =>
    match s.workers[worker]? with
    | some (.looking prevRequest) =>
      match s.queue.popNext s.now prevRequest with
      | (some req, queue) =>
        .ok ({ s with queue, workers := s.workers.set worker (.serving req) }, [.popped worker req.ticket])
      | (none, queue) =>
        .ok ({ s with queue, workers := s.workers.set worker (.looking none) }, [.idle worker])
    | _ => .error ()
  | s, .turn worker input =>
    match s.workers[worker]? with
    | some (.serving req) =>
      match req.turn s.now input with
      | some next => .ok ({ s with workers := s.workers.set worker (.looking (some next)) }, [])
      | none => .ok ({ s with workers := s.workers.set worker (.dropping req) }, [])
    | _ => .error ()
  | s, .dropReq worker =>
    match s.workers[worker]? with
    | some (.dropping req) =>
      .ok ({ s with queue := s.queue.dropReq, workers := s.workers.set worker (.looking none) },
        [.dropped req.ticket])
    | _ => .error ()

end ReplayWorkers

end Richat
