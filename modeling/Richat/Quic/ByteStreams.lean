import Richat.Lib.BigEndian
import Richat.Lib.ProtobufDecode
import Richat.Quic.Transport

/-!
# The QUIC streams as bytes

What a task writes to its stream is a list of buffers: the id, the length, and the message. The stream takes any
number of their bytes at a time, the network delivers any number of them, and a reader takes what is there and goes on
when more comes. The server and the polls of the client are those of `Transport`, which knows whole frames only.
-/

namespace Richat.Quic

open Lib Lib.Protobuf

inductive WireError where
  /-- the step is not possible now -/
  | idle
  /-- an index out of bounds -/
  | panic
  | writeZero
  /-- the stream ends in a message -/
  | finishedEarly
  | decode (error : DecodeError)

/-! ### The close frame -/

structure QuicSubscribeClose where
  error : Int32
  deriving DecidableEq

instance : WireMessage QuicSubscribeClose := .ofEncodeRaw fun m => plain int32.encode 0 1 m.error

namespace QuicSubscribeClose

def mergeField (msg : QuicSubscribeClose) (tag : ℕ) (wireType : WireType) (buf : Bytes) :
    Except DecodeError (QuicSubscribeClose × Bytes) :=
  if tag = 1 then do
    let (error, buf) ← atField "QuicSubscribeClose" "error" (int32.merge wireType buf)
    return ({ msg with error }, buf)
  else do return (msg, ← skipField wireType tag buf)

def decode (buf : Bytes) : Except DecodeError QuicSubscribeClose := mergeAll mergeField ⟨0⟩ buf

end QuicSubscribeClose

/-- The id of the close frame. -/
def closeId : ℕ := 2 ^ 64 - 1

/-! ### The writer -/

namespace WriteVectored

/-- The inner loop after a write of `n` bytes, over the buffers from `offset` on. -/
def advance : List Bytes → ℕ → Option (List Bytes)
  | [], n => if n = 0 then some [] else none
  | buffer :: buffers, n =>
    if n = 0 then some (buffer :: buffers)
    else if buffer.length ≤ n then advance buffers (n - buffer.length)
    else some (buffer.drop n :: buffers)

/-- The outer loop after the stream has taken `n` bytes. -/
def written (buffers : List Bytes) (n : ℕ) : Except WireError (List Bytes) :=
  if n = 0 then .error .writeZero
  else
    match advance buffers n with
    | none => .error .panic
    | some buffers => .ok buffers

end WriteVectored

/-- What a task has to write. -/
inductive WriteTask where
  /-- `WriteVectored`, its buffers from `offset` on -/
  | vectored (buffers : List Bytes)
  /-- `write_u64` and `write_all` -/
  | all (bytes : Bytes)

namespace WriteTask

def remaining : WriteTask → Bytes
  | vectored buffers => buffers.flatten
  | all bytes => bytes

def isDone : WriteTask → Bool
  | vectored buffers => buffers.isEmpty
  | all bytes => bytes.isEmpty

/-- The stream takes `n` bytes: some of those that are left, if there are any. -/
def write (task : WriteTask) (n : ℕ) : Except WireError WriteTask :=
  if task.isDone ∨ task.remaining.length < n ∨ n = 0 ∧ task.remaining ≠ [] then .error .idle
  else
    match task with
    | vectored buffers => return vectored (← WriteVectored.written buffers n)
    | all bytes => .ok (all (bytes.drop n))

end WriteTask

/-- What is written of a frame: the id, the length and the message. -/
def Frame.task : Frame Bytes → WriteTask
  | .message msgId data => .vectored [toBe 8 msgId, toBe 8 data.length, data]
  | .close error =>
    let message := WireMessage.encodeRaw (⟨Int32.ofInt error⟩ : QuicSubscribeClose)
    .all (toBe 8 closeId ++ toBe 8 message.length ++ message)

/-! ### The reader -/

/-- Bytes are taken until there are as many as `want`. -/
def fill (want : ℕ) (buf arrived : Bytes) : Bytes × Bytes :=
  (buf ++ arrived.take (want - buf.length), arrived.drop (want - buf.length))

/-- How far `QuicClient::recv` is, with the bytes of the number or of the message that it has. -/
inductive RecvState where
  | readMsgId (buf : Bytes)
  | readSize (msgId : ℕ) (buf : Bytes)
  | readExact (msgId size : ℕ) (buf : Bytes)

namespace RecvState

def init : RecvState := readMsgId []

/-- The bytes that are taken from the stream since the last frame. -/
def taken : RecvState → Bytes
  | readMsgId buf => buf
  | readSize msgId buf => toBe 8 msgId ++ buf
  | readExact msgId size buf => toBe 8 msgId ++ toBe 8 size ++ buf

/-- The poll of a reader, its state after it, and the bytes that are left. -/
abbrev Polled := Except WireError (ReaderPoll Bytes × RecvState × Bytes)

/-- The end of `QuicClient::recv`. -/
def finish (msgId : ℕ) (buffer arrived : Bytes) : Polled :=
  if msgId = closeId then
    match QuicSubscribeClose.decode buffer with
    | .error e => .error (.decode e)
    | .ok close => .ok (.error (.ofClose close.error.toInt), init, arrived)
  else .ok (.message msgId buffer, init, arrived)

/-- `read_exact` of a stream tells of its end by an error of its own. -/
def pollBody (ended : Bool) (msgId size : ℕ) (buf arrived : Bytes) : Polled :=
  let (buf, arrived) := fill size buf arrived
  if buf.length < size then
    if ended then .error .finishedEarly else .ok (.pending, readExact msgId size buf, arrived)
  else finish msgId buf arrived

/-- `read_u64` tells of the end by `UnexpectedEof`, which is the end for the reader too. -/
def pollSize (ended : Bool) (msgId : ℕ) (buf arrived : Bytes) : Polled :=
  let (buf, arrived) := fill 8 buf arrived
  if buf.length < 8 then .ok (if ended then .finished else .pending, readSize msgId buf, arrived)
  else pollBody ended msgId (ofBe buf) [] arrived

def pollMsgId (ended : Bool) (buf arrived : Bytes) : Polled :=
  let (buf, arrived) := fill 8 buf arrived
  if buf.length < 8 then .ok (if ended then .finished else .pending, readMsgId buf, arrived)
  else pollSize ended (ofBe buf) [] arrived

/-- `QuicClientStreamReader::poll_next`, over what has arrived. -/
def pollNext (ended : Bool) (arrived : Bytes) : RecvState → Polled
  | readMsgId buf => pollMsgId ended buf arrived
  | readSize msgId buf => pollSize ended msgId buf arrived
  | readExact msgId size buf => pollBody ended msgId size buf arrived

end RecvState

/-! ### The whole -/

structure ByteStream where
  /-- the last task that writes to the stream -/
  task : WriteTask
  inFlight : Bytes
  arrived : Bytes
  /-- the writer has finished the stream -/
  finished : Bool
  /-- the end has arrived -/
  ended : Bool
  reader : RecvState

namespace ByteStream

def new : ByteStream := ⟨.all [], [], [], false, false, .init⟩

def write (stream : ByteStream) (n : ℕ) : Except WireError ByteStream := do
  let task ← stream.task.write n
  return { stream with task, inFlight := stream.inFlight ++ stream.task.remaining.take n }

/-- Some of the bytes in flight arrive. -/
def deliver (stream : ByteStream) (n : ℕ) : Except WireError ByteStream :=
  if n = 0 ∨ stream.inFlight.length < n then .error .idle
  else .ok { stream with
    inFlight := stream.inFlight.drop n
    arrived := stream.arrived ++ stream.inFlight.take n }

/-- The end arrives. -/
def deliverEnd (stream : ByteStream) : Except WireError ByteStream :=
  if stream.inFlight = [] ∧ stream.finished ∧ ¬stream.ended then .ok { stream with ended := true }
  else .error .idle

def read (stream : ByteStream) : Except WireError (ReaderPoll Bytes × ByteStream) := do
  let (value, reader, arrived) ← stream.reader.pollNext stream.ended stream.arrived
  return (value, { stream with reader, arrived })

end ByteStream

/-- The streams after a step of the send loop. -/
def SendEvent.applyBytes (streams : ℕ → ByteStream) : SendEvent Bytes → ℕ → ByteStream
  | .write i frame => Function.update streams i { streams i with task := frame.task }
  | .finish i => Function.update streams i { streams i with finished := true }
  | .accepted _ | .failed _ => streams

structure Wire where
  server : Server Bytes
  client : Client Bytes
  streams : ℕ → ByteStream

inductive WireAction where
  | server (action : ServerAction Bytes)
  /-- the stream takes some bytes of its task -/
  | write (stream n : ℕ)
  | deliver (stream n : ℕ)
  | deliverEnd (stream : ℕ)
  | pollNext
  | pollReader

namespace Wire

def new (recvStreams : ℕ) : Wire where
  server := .new Bytes recvStreams
  client := .new Bytes
  streams := fun _ => .new

def taskDone (s : Wire) (i : ℕ) : Bool := (s.streams i).task.isDone

/-- The tasks that a branch of `select!` waits for have written everything. -/
def ready (s : Wire) : ServerAction Bytes → Bool
  | .message _ => true
  | .failed _ task => !s.server.streams.isEmpty || s.server.set[task]?.all (s.taskDone ·.2)
  | .ended => s.server.set.all (s.taskDone ·.2)
  | .joined task => s.server.set[task]?.all (s.taskDone ·.2)

/-- A step of a stream. -/
def onStream (s : Wire) (i : ℕ) (r : Except WireError ByteStream) : Except WireError (Wire × List (Event Bytes)) := do
  return ({ s with streams := Function.update s.streams i (← r) }, [])

def step (recvStreams maxBacklog : ℕ) : Step Wire WireAction (Event Bytes) WireError
  | s, .server action =>
    if s.ready action then
      match s.server.step maxBacklog action with
      | .error _ => .error .idle
      | .ok (server, out) =>
        .ok ({ s with server, streams := out.foldl SendEvent.applyBytes s.streams }, out.map .sent)
    else .error .idle
  | s, .write i n => s.onStream i ((s.streams i).write n)
  | s, .deliver i n => s.onStream i ((s.streams i).deliver n)
  | s, .deliverEnd i => s.onStream i (s.streams i).deliverEnd
  | s, .pollNext =>
    match s.client.pollNext with
    | none => .error .idle
    | some (client, out) => .ok ({ s with client }, out.map .polled)
  | s, .pollReader =>
    match s.client.polled with
    | none => .error .idle
    | some polled =>
      let i := s.client.index
      if i < recvStreams then
        match (s.streams i).read with
        | .error e => .error e
        | .ok (value, stream) =>
          let (client, out) := s.client.received recvStreams polled value
          .ok ({ s with client, streams := Function.update s.streams i stream }, out.map .polled)
      else .error .idle

end Wire

end Richat.Quic
