import Richat.Channel.Receiver
import Richat.Grpc.SubscribeClient
import Richat.Lib.BinarySearch
import Richat.Storage.Metadata

/-!
# From the disk to the ring

A client that starts at a position of the journal is served from the disk by a replay worker, until the
worker finds the place of the next record in the ring of the client's stream; from there on it is served
from the ring.

`Handoff.step` interleaves the threads that take part, for one stream and one client:

* the sender sends a record to the journal, and after that its push to the ring begins: `store`,
  `dropHead` and `publish` are the actions of `Channel.step`;
* the storage pipeline commits chunks of the records that were sent, and drops old chunks;
* the worker takes turns: it pops the records that it has read (`pop`), looks for the next one in the
  ring (`lookup`), and reads more (`read`);
* a gRPC worker receives from the ring (`recv`).

How many records a turn pops and reads depends on the queue of the client and on the settings, so the
actions say it. The lookup takes the lock of the slots, which the sender has during a push to the ring.
The encoded updates of the client's filter are left out.
-/

namespace Richat

open Lib

/-- `SharedChannel::get_head_by_replay_index`: the first position in the ring that is not before the
index, if it is known that none has left the ring. -/
def SharedChannel.getHeadByReplayIndex (shared : SharedChannel) (replayIndex : ℕ) : Option ℕ :=
  if replayIndex < shared.replayFloor then none
  else some (partitionPoint (fun mid => (shared.item mid).replayIndex < replayIndex)
    (shared.tail + 1 - shared.head) shared.head (shared.tail + 1))

/-- `ReceiverSync::try_recv`. -/
def SharedChannel.tryRecv (shared : SharedChannel) (head : ℕ) : Except RecvError (Option Item) :=
  if head ≤ shared.tail then
    let item := shared.item head
    if item.pos ≠ head then .error .lagged
    else if item.data.isNone then .error .lagged
    else .ok (some item)
  else .ok none

/-! ### The worker -/

structure JournalRecord where
  commitment : CommitmentLevel
  message : ParsedMessage

/-- `ReplaySelection`. -/
structure ReplaySelection where
  commitment : CommitmentLevel
  fromSlot : Option Slot

/-- A record whose message goes to the client. -/
def ReplaySelection.selects (selection : ReplaySelection) (record : JournalRecord) : Bool :=
  record.commitment = selection.commitment ∧ ¬ selection.fromSlot.any (record.message.slot < ·)

/-- A record as `DecompressedChunk::next_selected` gives it. -/
structure ScannedRecord where
  index : ℕ
  message : Option ParsedMessage

/-- A chunk of the catalog. -/
structure ChunkRange where
  firstIndex : ℕ
  lastIndex : ℕ

/-- What a replay request keeps between its turns. -/
structure ReplayState where
  messages : List ScannedRecord
  /-- the next index of the `SegmentReader` -/
  reader : Option ℕ
  /-- the next index and the last one of the chunk that is being read -/
  chunk : Option ChunkRange
  readError : Option Status

def ReplayState.default : ReplayState := ⟨[], none, none, none⟩

/-- Where the turn of a worker is. -/
inductive TurnPhase where
  | start
  | popped
  | reading
  deriving DecidableEq

structure Replay where
  selection : ReplaySelection
  /-- `SubscribeClientState::head` -/
  head : IndexLocation
  finished : Bool
  phase : TurnPhase
  state : ReplayState

/-- The loop over the records that were read, for at most `n` records: the next index, and what is
pushed to the client. -/
def popMessages : ℕ → ℕ → ReplayState → ℕ × ReplayState × List (ℕ × ParsedMessage)
  | 0, nextIndex, state => (nextIndex, state, [])
  | n + 1, nextIndex, state =>
    match state.messages with
    | [] => (nextIndex, state, [])
    | record :: messages =>
      if record.index ≠ nextIndex then
        (nextIndex, { state with
          messages, readError := some (.dataLoss "gap in disk replay journal") }, [])
      else
        let (next, state, pushed) := popMessages n (record.index + 1) { state with messages }
        (next, state, (record.message.map (record.index, ·)).toList ++ pushed)

/-! ### The threads -/

/-- What the processes before this one left: their records, and the chunks in the catalog. -/
structure DurableJournal where
  records : List JournalRecord
  chunks : List ChunkRange
  range : ∀ chunk ∈ chunks, chunk.firstIndex ≤ chunk.lastIndex ∧ chunk.lastIndex < records.length
  /-- an index is a `u64`, of which the last one is reserved -/
  length_le : records.length ≤ noReplayIndex

structure Handoff where
  /-- the records sent to the journal, each at its index -/
  records : List JournalRecord
  /-- the record of the stream whose push to the ring has not begun -/
  sending : Option ℕ
  channel : Channel
  chunks : List ChunkRange
  /-- the index after the last one committed -/
  written : ℕ
  replay : Option Replay

inductive HandoffAction where
  | send (record : JournalRecord)
  | store
  | dropHead
  | publish
  | commit (lastIndex : ℕ)
  | trim (n : ℕ)
  | subscribe (index : ℕ) (fromSlot : Option Slot)
  | pop (n : ℕ)
  | lookup
  /-- a record or a chunk is read; or it cannot be -/
  | read (fails : Bool)
  | endTurn
  | recv

inductive HandoffEvent where
  | channel (event : ChannelEvent)
  /-- a message is pushed to the client -/
  | offered (index : ℕ) (message : ParsedMessage)

namespace Handoff

/-- A process that starts, without clients. -/
def new (cfg : ConfigChannelInner) (durable : DurableJournal) : Handoff where
  records := durable.records
  sending := none
  channel :=
    let channel := Channel.new cfg
    { channel with sender := { channel.sender with
        shared := { channel.sender.shared with replayFloor := durable.records.length } } }
  chunks := durable.chunks
  written := durable.records.length
  replay := none

/-- An action of the sender on the ring. -/
def channelStep (size : ParsedMessage → ℕ) (s : Handoff) (sending : Option ℕ) (action : ChannelAction) :
    Except Blocked (Handoff × List HandoffEvent) :=
  match s.channel.step size action with
  | .error _ => .error .blocked
  | .ok (channel, events) => .ok ({ s with channel, sending }, events.map .channel)

/-- One turn of the inner loop that reads. -/
def readNext (s : Handoff) (replay : Replay) (nextIndex : ℕ) (fails : Bool) : ReplayState :=
  let state := replay.state
  let failed : ReplayState :=
    { state with readError := some (.dataLoss "failed to read the replay journal") }
  -- the reader begins where the client is
  let reader := state.reader.getD nextIndex
  match state.chunk.filter fun chunk => chunk.firstIndex ≤ chunk.lastIndex with
  | some chunk =>
    match s.records[chunk.firstIndex]? with
    | none => failed
    | some record =>
      if fails then failed
      else
        { state with
          reader := some reader
          chunk := some { chunk with firstIndex := chunk.firstIndex + 1 }
          messages := state.messages ++ [⟨chunk.firstIndex,
            if replay.selection.selects record then some record.message else none⟩] }
  | none =>
    match s.chunks.find? fun chunk => reader ≤ chunk.lastIndex with
    | none => { state with reader := some reader } -- the writer may still be flushing
    | some chunk =>
      if fails ∨ reader < chunk.firstIndex then failed
      else { state with reader := some (chunk.lastIndex + 1), chunk := some ⟨reader, chunk.lastIndex⟩ }

def step (size : ParsedMessage → ℕ) (commitment : CommitmentLevel) :
    Step Handoff HandoffAction HandoffEvent Blocked
  | s, .send record =>
    -- one push after the other; the last `u64` is no index
    if s.sending.isSome ∨ s.channel.pushing.isSome ∨ noReplayIndex ≤ s.records.length then
      .error .blocked
    else
      .ok ({ s with
          records := s.records ++ [record]
          sending := if record.commitment = commitment then some s.records.length else none }, [])
  | s, .store =>
    match s.sending with
    | none => .error .blocked
    | some index =>
      match s.records[index]? with
      | none => .error .blocked
      | some record =>
        s.channelStep size none (.store record.message.slot record.message (some index))
  | s, .dropHead => s.channelStep size s.sending .dropHead
  | s, .publish => s.channelStep size s.sending .publish
  | s, .commit lastIndex =>
    if s.written ≤ lastIndex ∧ lastIndex < s.records.length then
      .ok ({ s with
          chunks := s.chunks ++ [⟨s.written, lastIndex⟩]
          written := lastIndex + 1 }, [])
    else .error .blocked
  | s, .trim n => .ok ({ s with chunks := s.chunks.drop n }, [])
  | s, .subscribe index fromSlot =>
    -- the position is taken between two source events
    if s.replay.isSome ∨ s.sending.isSome ∨ s.channel.pushing.isSome ∨ s.records.length < index then
      .error .blocked
    else
      .ok ({ s with
          replay := some ⟨⟨commitment, fromSlot⟩, .storage index, false, .start, .default⟩ }, [])
  | s, .pop n =>
    match s.replay with
    | some ⟨selection, .storage nextIndex, false, .start, state⟩ =>
      if state.readError.isSome then
        .ok ({ s with replay := some ⟨selection, .storage nextIndex, true, .start, state⟩ }, [])
      else
        let (next, state, pushed) := popMessages n nextIndex state
        .ok ({ s with replay := some ⟨selection, .storage next, false, .popped, state⟩ },
          pushed.map fun p => .offered p.1 p.2)
    | _ => .error .blocked
  | s, .lookup =>
    match s.replay with
    | some ⟨selection, .storage nextIndex, false, .popped, state⟩ =>
      if s.channel.pushing.isSome then .error .blocked
      else
        let found := if state.readError.isNone then
          s.channel.sender.shared.getHeadByReplayIndex nextIndex else none
        match found with
        | some head =>
          .ok ({ s with replay := some ⟨selection, .memory head, false, .start, .default⟩ }, [])
        | none =>
          -- more is read when everything was popped
          let phase : TurnPhase := if state.messages.isEmpty then .reading else .start
          .ok ({ s with replay := some ⟨selection, .storage nextIndex, false, phase, state⟩ }, [])
    | _ => .error .blocked
  | s, .read fails =>
    match s.replay with
    | some ⟨selection, .storage nextIndex, false, .reading, state⟩ =>
      if state.readError.isSome then .error .blocked
      else
        let replay : Replay := ⟨selection, .storage nextIndex, false, .reading, state⟩
        .ok ({ s with replay := some { replay with state := s.readNext replay nextIndex fails } }, [])
    | _ => .error .blocked
  | s, .endTurn =>
    match s.replay with
    | some ⟨selection, .storage nextIndex, false, .reading, state⟩ =>
      .ok ({ s with replay := some ⟨selection, .storage nextIndex, false, .start, state⟩ }, [])
    | _ => .error .blocked
  | s, .recv =>
    match s.replay with
    | some ⟨selection, .memory head, false, phase, state⟩ =>
      match s.channel.sender.shared.tryRecv head with
      | .error _ =>
        .ok ({ s with replay := some ⟨selection, .memory head, true, phase, state⟩ }, [])
      | .ok none => .ok (s, [])
      | .ok (some item) =>
        let offered := match item.data with
          | none => []
          | some message =>
            if selection.fromSlot.any (message.slot < ·) then []
            else [HandoffEvent.offered item.replayIndex message]
        .ok ({ s with replay := some ⟨selection, .memory (head + 1), false, phase, state⟩ }, offered)
    | _ => .error .blocked

end Handoff

end Richat
