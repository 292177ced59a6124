import Richat.Grpc.SubscribeClient
import Richat.Lib.SortedMap
import Mathlib.Logic.Function.Basic

/-!
# The QUIC transport

The server spreads the messages of one subscription over `recv_streams` streams: the send loop gives the
next message to a stream that has nothing to write, and a task writes it. The client reads the streams in
turn and holds back what it must not yield yet.

A stream is what its writer has handed to it and its reader has not taken, in order: frames in flight,
frames that have arrived, and the end, which arrives last. A frame has arrived when its last byte has. Ids
are natural numbers: a subscription sends less than `u64::MAX` messages, the id of the close frame. The
network, the server and the polls of the client take their steps in any order; `poll_next` goes on reader by
reader. Messages are of any type `μ`.
-/

namespace Richat.Quic

open Lib

deriving instance DecidableEq for RecvError

/-- `QuicSubscribeCloseError as i32` -/
def closeError : RecvError → ℤ
  | .lagged => 0
  | .closed => 1

inductive ReceiveError where
  | unknown (error : ℤ)
  | lagged
  | closed
  deriving DecidableEq

/-- `From<QuicSubscribeClose>` -/
def ReceiveError.ofClose (error : ℤ) : ReceiveError :=
  if error = 0 then .lagged else if error = 1 then .closed else .unknown error

/-- What a task writes to its stream. -/
inductive Frame (μ : Type*) where
  | message (msgId : ℕ) (data : μ)
  | close (error : ℤ)
  deriving DecidableEq

/-! ### The send loop -/

structure Server (μ : Type*) where
  /-- the streams that no task writes to -/
  streams : List ℕ
  msgId : ℕ
  /-- the ids that are being written -/
  msgIds : SortedMap ℕ Unit
  nextMessage : Option μ
  /-- the tasks: the id and the stream that each returns -/
  set : List (ℕ × ℕ)
  /-- the source has not failed; one that has yields nothing more -/
  sourceOpen : Bool
  running : Bool

inductive ServerAction (μ : Type*) where
  | message (data : μ)
  /-- the source fails; the task that returns if there is no free stream -/
  | failed (error : RecvError) (task : ℕ)
  /-- the source ends, because it failed or the subscription is closed -/
  | ended
  | joined (task : ℕ)

inductive SendEvent (μ : Type*) where
  | accepted (data : μ)
  | failed (error : RecvError)
  | write (stream : ℕ) (frame : Frame μ)
  | finish (stream : ℕ)
  deriving DecidableEq

namespace Server

variable {μ : Type*}

def new (μ : Type*) (recvStreams : ℕ) : Server μ where
  streams := List.range recvStreams
  msgId := 0
  msgIds := .empty
  nextMessage := none
  set := []
  sourceOpen := true
  running := true

/-- The head of the loop: the next message goes to a free stream. -/
def loopHead (maxBacklog : ℕ) (s : Server μ) : Server μ × List (SendEvent μ) :=
  if s.msgId - s.msgIds.firstKey?.getD s.msgId < maxBacklog then
    match s.nextMessage, s.streams with
    | some data, stream :: streams =>
      ({ s with
          streams
          msgId := s.msgId + 1
          msgIds := s.msgIds.insert s.msgId ()
          nextMessage := none
          set := s.set ++ [(s.msgId, stream)] }, [.write stream (.message s.msgId data)])
    | _, _ => (s, [])
  else (s, [])

/-- A task returns. -/
def join (s : Server μ) (task : ℕ) : Option (Server μ) :=
  match s.set[task]? with
  | none => none
  | some (msgId, stream) =>
    some { s with
      set := s.set.eraseIdx task
      msgIds := s.msgIds.erase msgId
      streams := s.streams ++ [stream] }

/-- The close frame goes to a free stream. -/
def sendClose (s : Server μ) (error : RecvError) : Option (Server μ × List (SendEvent μ)) :=
  match s.streams with
  | [] => none
  | stream :: streams =>
    some ({ s with streams, set := s.set ++ [(s.msgId, stream)], sourceOpen := false },
      [.failed error, .write stream (.close (closeError error))])

/-- The branches of `select!`, without those that end the connection with an error of its own. -/
def select (s : Server μ) : ServerAction μ → Option (Server μ × List (SendEvent μ))
  | .message data =>
    if s.nextMessage.isNone ∧ s.sourceOpen then some ({ s with nextMessage := some data }, [.accepted data])
    else none
  | .failed error task =>
    if s.nextMessage.isNone ∧ s.sourceOpen then
      if s.streams.isEmpty then (s.join task).bind (·.sendClose error) else s.sendClose error
    else none
  | .ended =>
    -- all tasks are joined, then all streams are finished
    if s.nextMessage.isNone then
      some ({ s with streams := [], set := [], running := false },
        (s.set.map Prod.snd ++ s.streams).map .finish)
    else none
  | .joined task => (s.join task).map (·, [])

def step (maxBacklog : ℕ) : Step (Server μ) (ServerAction μ) (SendEvent μ) Unit
  | s, action =>
    if s.running then
      match s.select action with
      | none => .error ()
      | some (s, out) => .ok ((s.loopHead maxBacklog).1, out ++ (s.loopHead maxBacklog).2)
    else .error ()

end Server

/-! ### The streams -/

@[ext] structure UniStream (μ : Type*) where
  inFlight : List (Frame μ)
  arrived : List (Frame μ)
  /-- the writer has finished the stream -/
  finished : Bool
  /-- the end has arrived -/
  ended : Bool

namespace UniStream

variable {μ : Type*}

def new (μ : Type*) : UniStream μ := ⟨[], [], false, false⟩

/-- What the reader has not taken. -/
def queue (stream : UniStream μ) : List (Frame μ) := stream.arrived ++ stream.inFlight

def write (stream : UniStream μ) (frame : Frame μ) : UniStream μ :=
  { stream with inFlight := stream.inFlight ++ [frame] }

def finish (stream : UniStream μ) : UniStream μ := { stream with finished := true }

/-- The next frame arrives, or the end. -/
def arrive (stream : UniStream μ) : Option (UniStream μ) :=
  match stream.inFlight with
  | frame :: inFlight => some { stream with inFlight, arrived := stream.arrived ++ [frame] }
  | [] => if stream.finished ∧ ¬stream.ended then some { stream with ended := true } else none

end UniStream

/-- The streams after a step of the send loop. -/
def SendEvent.apply {μ : Type*} (streams : ℕ → UniStream μ) : SendEvent μ → ℕ → UniStream μ
  | .write i frame => Function.update streams i ((streams i).write frame)
  | .finish i => Function.update streams i (streams i).finish
  | .accepted _ | .failed _ => streams

/-! ### The client -/

/-- What `QuicClientStreamReader::poll_next` returns. -/
inductive ReaderPoll (μ : Type*) where
  | message (msgId : ℕ) (data : μ)
  | error (error : ReceiveError)
  | finished
  /-- the waker of the caller is registered with the stream -/
  | pending

/-- `QuicClientStreamReader::poll_next` -/
def UniStream.read {μ : Type*} (stream : UniStream μ) : ReaderPoll μ × UniStream μ :=
  match stream.arrived with
  | .message msgId data :: arrived => (.message msgId data, { stream with arrived })
  | .close error :: arrived => (.error (.ofClose error), { stream with arrived })
  | [] => if stream.ended then (.finished, stream) else (.pending, stream)

structure Client (μ : Type*) where
  messages : SortedMap ℕ μ
  msgId : ℕ
  index : ℕ
  /-- the readers that the `poll_next` in progress has polled, and whether each returned `Pending` -/
  polled : Option (List (ℕ × Bool))
  /-- an error or the end was returned: the stream is not polled again -/
  terminated : Bool

inductive PollEvent (μ : Type*) where
  | item (msgId : ℕ) (data : μ)
  | error (error : ReceiveError)
  | finished
  /-- `Poll::Pending`, with the streams that the waker is registered with -/
  | pending (registered : List ℕ)
  deriving DecidableEq

namespace Client

variable {μ : Type*}

def new (μ : Type*) : Client μ where
  messages := .empty
  msgId := 0
  index := 0
  polled := none
  terminated := false

/-- `QuicClientStream::poll_next` up to its loop. -/
def pollNext (client : Client μ) : Option (Client μ × List (PollEvent μ)) :=
  if client.terminated ∨ client.polled.isSome then none
  else
    match client.messages.get? client.msgId with
    | some data =>
      some ({ client with messages := client.messages.erase client.msgId, msgId := client.msgId + 1 },
        [.item client.msgId data])
    | none => some ({ client with polled := some [] }, [])

/-- The end of an iteration. -/
def polledReader (recvStreams : ℕ) (client : Client μ) (polled : List (ℕ × Bool)) :
    Client μ × List (PollEvent μ) :=
  if polled.length = recvStreams then
    ({ client with polled := none }, [.pending ((polled.filter Prod.snd).map Prod.fst)])
  else ({ client with polled := some polled }, [])

/-- The iteration after its reader was polled. -/
def received (recvStreams : ℕ) (client : Client μ) (polled : List (ℕ × Bool)) (value : ReaderPoll μ) :
    Client μ × List (PollEvent μ) :=
  let reader := client.index
  let client := { client with index := (reader + 1) % recvStreams }
  match value with
  | .message msgId data =>
    if client.msgId = msgId then
      ({ client with msgId := client.msgId + 1, polled := none }, [.item msgId data])
    else
      polledReader recvStreams { client with messages := client.messages.insert msgId data }
        (polled ++ [(reader, false)])
  | .error e => ({ client with polled := none, terminated := true }, [.error e])
  | .finished => ({ client with polled := none, terminated := true }, [.finished])
  | .pending => polledReader recvStreams client (polled ++ [(reader, true)])

end Client

/-! ### The whole -/

structure Transport (μ : Type*) where
  server : Server μ
  client : Client μ
  streams : ℕ → UniStream μ

inductive Action (μ : Type*) where
  | server (action : ServerAction μ)
  | arrive (stream : ℕ)
  /-- `poll_next` is called -/
  | pollNext
  /-- `poll_next` goes on with the reader at `index` -/
  | pollReader

inductive Event (μ : Type*) where
  | sent (event : SendEvent μ)
  | polled (event : PollEvent μ)
  deriving DecidableEq

namespace Transport

variable {μ : Type*}

def new (μ : Type*) (recvStreams : ℕ) : Transport μ where
  server := .new μ recvStreams
  client := .new μ
  streams := fun _ => .new μ

/-- The server has made a step. -/
def send (s : Transport μ) (server : Server μ) (out : List (SendEvent μ)) : Transport μ :=
  { s with server, streams := out.foldl SendEvent.apply s.streams }

def step (recvStreams maxBacklog : ℕ) : Step (Transport μ) (Action μ) (Event μ) Unit
  | s, .server action =>
    match s.server.step maxBacklog action with
    | .error e => .error e
    | .ok (server, out) => .ok (s.send server out, out.map .sent)
  | s, .arrive i =>
    match (s.streams i).arrive with
    | none => .error ()
    | some stream => .ok ({ s with streams := Function.update s.streams i stream }, [])
  | s, .pollNext =>
    match s.client.pollNext with
    | none => .error ()
    | some (client, out) => .ok ({ s with client }, out.map .polled)
  | s, .pollReader =>
    match s.client.polled with
    | none => .error ()
    | some polled =>
      let i := s.client.index
      if i < recvStreams then
        let (value, stream) := (s.streams i).read
        let (client, out) := s.client.received recvStreams polled value
        .ok ({ s with client, streams := Function.update s.streams i stream }, out.map .polled)
      else .error ()

end Transport

end Richat.Quic
