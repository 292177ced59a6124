import Richat.Channel.Journal
import Richat.Channel.SharedChannel
import Richat.Storage.Collector

/-!
# A node with its storage

A node is a sender, the streams of the three commitments, and the pipeline to the disk: the queue of
the commands, the collector, the compressor threads, and the segment writer, which brings the outputs
of the collector back into their order. On the disk are the catalog and the records of the chunks.

`Node.step` lets each thread take its steps at any time: the compressor threads finish in any order,
and the process can die between any two commits of the writer and start again from the disk
(`restart`). A source event and the start of a live epoch are one step, with the lock of the replay
map that both hold.

The payloads are kept as records, not as bytes, and `compressedSize` says how many bytes a chunk takes.
-/

namespace Richat

open Lib

/-- The settings of the storage. -/
structure ConfigStorage where
  chunkTargetSize : ℕ
  segmentTargetSize : ℕ
  /-- the tag of `chunk_compression` -/
  compressionTag : ℕ
  compressedSize : PendingChunk → ℕ

structure ConfigNode where
  channel : Config
  ring : ConfigChannelInner
  storage : ConfigStorage
  /-- `ParsedMessage::size` -/
  size : ParsedMessage → ℕ

/-! ### The disk -/

structure Disk where
  catalog : MetadataMirror
  /-- the records of the chunks that were ever written -/
  record : ℕ → Option RawRecord

/-- The record of the chunk at the index. -/
def PendingChunk.record? (chunk : PendingChunk) (index : ℕ) : Option RawRecord :=
  if chunk.firstIndex ≤ index then chunk.records[index - chunk.firstIndex]? else none

/-- The record at the index is in a chunk of the catalog. -/
def MetadataMirror.Retains (catalog : MetadataMirror) (index : ℕ) : Prop :=
  ∃ chunk ∈ catalog.chunks, chunk.firstIndex ≤ index ∧ index ≤ chunk.lastIndex

namespace Disk

def new : Disk := ⟨.new, fun _ => none⟩

/-- `ChunkLoader::payload_chunk`: whether there is a chunk with the index. -/
def payloadChunk (disk : Disk) (index : ℕ) : Bool :=
  (disk.catalog.chunks.find? fun chunk => index ≤ chunk.lastIndex).any (·.firstIndex ≤ index)

/-- `DecompressedChunk::read`: the commitment, the index of the payload and the payload. -/
def read (disk : Disk) (index : ℕ) : Option (CommitmentLevel × ℕ × ParsedMessage) :=
  match disk.record index with
  | none => none
  | some record =>
    match record.payload with
    | .message message => some (record.commitment, index, message)
    | .reference target =>
      if target < index ∧ disk.payloadChunk target then
        match disk.record target with
        | some ⟨_, slot, block, _, .message message⟩ =>
          if slot = record.slot ∧ block = record.block then
            some (record.commitment, target, message)
          else none
        | _ => none
      else none

/-- The indices that a `SegmentReader` reads from `next` on, `none` when some are not retained. -/
def readIndices : ℕ → List ChunkMeta → Option (List ℕ)
  | _, [] => some []
  | next, chunk :: chunks =>
    if chunk.lastIndex < next then readIndices next chunks
    else if chunk.firstIndex ≤ next then
      (readIndices (chunk.lastIndex + 1) chunks).map
        (List.range' next (chunk.lastIndex + 1 - next) ++ ·)
    else none

end Disk

/-! ### The start of a process -/

inductive StartError where
  /-- a record that cannot be read -/
  | replay
  /-- "failed to get replay info for existed message" -/
  | missingReplayInfo (slot : Slot)
  | panic (panic : Panic)
  /-- "missing active segment metadata" -/
  | missingActiveSegment

/-- A message of the slot is durable. -/
def ReplayInfo.restore (info : ReplayInfo) (id payloadIndex : ℕ) : ReplayInfo :=
  { info with
    messages := some (Function.update (info.messages.getD fun _ => none) id (some payloadIndex)) }

/-- The loop of `Messages::to_sender` over the records at the indices. -/
def loadReplay (hasher : RandomState) (disk : Disk) (finalized : Option Slot) :
    SortedMap Slot ReplayInfo → List ℕ → Except StartError (SortedMap Slot ReplayInfo)
  | replay, [] => .ok replay
  | replay, index :: indices =>
    match disk.read index with
    | none => .error .replay
    | some (commitment, payloadIndex, message) =>
      if commitment ≠ .processed ∨ finalized.any (message.slot ≤ ·) then
        loadReplay hasher disk finalized replay indices
      else
        match replay.get? message.slot with
        | none =>
          if finalized.isSome then .error (.missingReplayInfo message.slot)
          else loadReplay hasher disk finalized replay indices
        | some info =>
          match message.getId hasher with
          | .error e => .error (.panic e)
          | .ok id =>
            loadReplay hasher disk finalized
              (replay.insert message.slot (info.restore id payloadIndex)) indices

/-- The replay map of the slots. -/
def replaySlots (slots : List SlotMeta) : SortedMap Slot ReplayInfo :=
  slots.foldl (fun replay m => replay.insert m.slot (.new m.firstIndex)) .empty

/-- `Messages::to_sender`. -/
def toSender (cfg : Config) (hasher : RandomState) (disk : Disk) (nextArc : ℕ) :
    Except StartError Sender :=
  if cfg.storage.isNone then .ok { Sender.new with nextArc }
  else
    let index := disk.catalog.nextIndex
    let slots := disk.catalog.readSlots
    let finalized := ((slots.filter (·.finalized)).map (·.slot)).max?
    -- without a finalized slot everything is read
    let heads := (slots.filter fun m => finalized.all (· < m.slot)).map (·.firstIndex)
    match Disk.readIndices (heads.min?.getD index) disk.catalog.chunks with
    | none => .error .replay
    | some indices =>
      match loadReplay hasher disk finalized (replaySlots slots) indices with
      | .error e => .error e
      | .ok replay =>
        .ok { Sender.new with slotFinalized := finalized.getD 0, index, replay, nextArc }

/-! ### The segment writer -/

structure SegmentWriter where
  activeSegment : SegmentMeta
  /-- the last chunk filled the segment, which is not rotated yet -/
  rotating : Bool
  nextSeq : ℕ
  pending : SortedMap ℕ CollectorOutput

namespace SegmentWriter

/-- `SegmentWriter::open`. -/
def «open» (catalog : MetadataMirror) : Except StartError (MetadataMirror × SegmentWriter) :=
  let state := catalog.state
  let catalog :=
    if state.activeSegmentId = 0 then
      catalog.initializeEmpty ⟨state.nextSegmentId + 1, state.nextSegmentId⟩
        (.empty state.nextSegmentId 0)
    else catalog
  match catalog.segments.get? catalog.state.activeSegmentId with
  | none => .error .missingActiveSegment
  | some activeSegment => .ok (catalog, ⟨activeSegment, false, 0, .empty⟩)

/-- The compression byte of a chunk. -/
def compression (cfg : ConfigNode) : ℕ :=
  let mask := cfg.channel.storage.elim 0 (·.commitmentMask)
  cfg.storage.compressionTag ||| 0x80 ||| 0x40 ||| ((mask ||| 1) <<< 2)

/-- `SegmentWriter::append_chunk`, without the rotation. -/
def appendChunk (cfg : ConfigNode) (w : SegmentWriter) (disk : Disk) (chunk : PendingChunk) :
    SegmentWriter × Disk :=
  let chunkMeta : ChunkMeta :=
    { segmentId := w.activeSegment.segmentId
      offset := w.activeSegment.fileLen
      size := cfg.storage.compressedSize chunk
      compression := compression cfg
      firstIndex := chunk.firstIndex
      lastIndex := chunk.lastIndex }
  let commit := buildChunkCommit disk.catalog w.activeSegment chunkMeta chunk.pendingSlots
    chunk.pendingFinalized
  ({ w with
      activeSegment := commit.segment
      rotating := cfg.storage.segmentTargetSize ≤ commit.segment.fileLen },
    { catalog := disk.catalog.applyChunkCommit commit
      record := fun index => (chunk.record? index).or (disk.record index) })

/-- `SegmentWriter::rotate_segment`. -/
def rotateSegment (w : SegmentWriter) (disk : Disk) : SegmentWriter × Disk :=
  let commit := buildRotationCommit disk.catalog w.activeSegment
  ({ w with activeSegment := commit.newSegment, rotating := false },
    { disk with catalog := disk.catalog.applyRotationCommit commit })

/-- `SegmentWriter::handle_trim`. -/
def handleTrim (disk : Disk) (slot : Slot) (upTo : Option ℕ) : Disk :=
  { disk with catalog := disk.catalog.applyTrimCommit (buildTrimCommit disk.catalog slot upTo) }

/-- The next output in the order of the collector. -/
def handle (cfg : ConfigNode) (w : SegmentWriter) (disk : Disk) :
    CollectorOutput → SegmentWriter × Disk
  | .rawChunk chunk => w.appendChunk cfg disk chunk
  | .trim slot upTo => (w, handleTrim disk slot upTo)

end SegmentWriter

/-! ### The node -/

structure Node where
  disk : Disk
  hasher : RandomState
  sender : Sender
  streams : CommitmentLevel → SenderShared
  /-- the commands that the collector has not received -/
  queue : List WriterCommand
  /-- the sender is gone -/
  closed : Bool
  collector : Collector
  /-- the outputs of the collector that the compressor threads have -/
  compressing : List (ℕ × CollectorOutput)
  writer : SegmentWriter

inductive NodeAction where
  | push (input : PushInput)
  | beginLiveEpoch
  | close
  /-- the collector receives a command -/
  | collect
  | timeout
  /-- a compressor thread is done with the output at the place -/
  | compressed (i : ℕ)
  /-- the segment writer makes its next commit -/
  | write
  | restart (hasher : RandomState)

inductive NodeEvent where
  | sent (command : WriterCommand)
  | stored (commitment : CommitmentLevel) (item : Item)
  | epoch
  | collected (seq : ℕ) (output : CollectorOutput)
  | committed (seq : ℕ) (output : CollectorOutput)
  | started (index : ℕ)

inductive NodeError where
  | panic (panic : Panic)
  /-- "nothing to remove to keep bytes under limit" -/
  | nothingToRemove
  | collector (error : CollectorError)
  | start (error : StartError)
  /-- the thread has nothing to do -/
  | idle

namespace Node

/-- The sender's settings, with the random state of the process. -/
def config (cfg : ConfigNode) (hasher : RandomState) : Config := { cfg.channel with hasher }

/-- A process that has started. -/
def boot (cfg : ConfigNode) (hasher : RandomState) (disk : Disk) (writer : SegmentWriter)
    (sender : Sender) : Node :=
  let maxMessages := nextPowerOfTwo cfg.ring.maxMessages
  let shared : SharedChannel := { SharedChannel.new maxMessages with replayFloor := sender.index }
  { disk
    hasher
    sender
    streams := fun _ => .new shared maxMessages cfg.ring.maxBytes
    queue := []
    closed := false
    collector := .new
    compressing := []
    writer }

/-- The start of a process. -/
def start (cfg : ConfigNode) (hasher : RandomState) (disk : Disk) (nextArc : ℕ) :
    Except StartError Node :=
  match SegmentWriter.open disk.catalog with
  | .error e => .error e
  | .ok (catalog, writer) =>
    match toSender cfg.channel hasher disk nextArc with
    | .error e => .error e
    | .ok sender => .ok (boot cfg hasher { disk with catalog } writer sender)

/-- The first process, on an empty disk. -/
def new (cfg : ConfigNode) (hasher : RandomState) : Node :=
  let segment : SegmentMeta := .empty 1 0
  boot cfg hasher ⟨MetadataMirror.new.initializeEmpty ⟨2, 1⟩ segment, fun _ => none⟩
    ⟨segment, false, 0, .empty⟩ .new

/-- A process that has started. -/
theorem start_eq_ok {cfg : ConfigNode} {hasher : RandomState} {disk : Disk} {nextArc : ℕ} {s : Node}
    (h : start cfg hasher disk nextArc = .ok s) : ∃ catalog writer sender,
      SegmentWriter.open disk.catalog = .ok (catalog, writer) ∧
      toSender cfg.channel hasher disk nextArc = .ok sender ∧
      s = boot cfg hasher { disk with catalog } writer sender := by
  unfold start at h
  split at h
  · cases h
  · rename_i catalog writer hopen
    split at h
    · cases h
    · rename_i sender hsender
      cases h
      exact ⟨catalog, writer, sender, hopen, hsender, rfl⟩

/-- An effect of a push outside the sender. -/
def perform (cfg : ConfigNode) : Step (CommitmentLevel → SenderShared) Effect NodeEvent NodeError
  | streams, .ring commitment slot message replayIndex =>
    let stream := streams commitment
    match stream.push cfg.size slot message replayIndex with
    | none => .error .nothingToRemove
    | some stream' =>
      let item : Item := ⟨replayIndex.getD noReplayIndex, stream.tail + 1, slot, some message⟩
      .ok (Function.update streams commitment stream', [.stored commitment item])
  | streams, .writer command => .ok (streams, [.sent command])
  | streams, .received .. => .ok (streams, [])
  | streams, .replayFromSlot _ => .ok (streams, [])

/-- The collector hands its outputs on. -/
def collected (s : Node) (input : CollectorInput) (queue : List WriterCommand) (cfg : ConfigNode) :
    Except NodeError (Node × List NodeEvent) :=
  match s.collector.step cfg.size cfg.storage.chunkTargetSize input with
  | .error e => .error (.collector e)
  | .ok (collector, outputs) =>
    .ok ({ s with queue, collector, compressing := s.compressing ++ outputs },
      outputs.map fun output => .collected output.1 output.2)

def step (cfg : ConfigNode) : Step Node NodeAction NodeEvent NodeError
  | s, .push input =>
    if s.closed then .error .idle
    else
      match s.sender.push (config cfg s.hasher) input with
      | .error e => .error (.panic e)
      | .ok (sender, effects) =>
        match run (perform cfg) s.streams effects with
        | .error e => .error e
        | .ok (streams, events) =>
          .ok ({ s with sender, streams, queue := s.queue ++ commands effects }, events)
  | s, .beginLiveEpoch =>
    if s.closed then .error .idle
    else
      let index := s.sender.index
      .ok ({ s with
          disk := { s.disk with
            catalog := if cfg.channel.storage.isSome then s.disk.catalog.setReplayFloor index
              else s.disk.catalog }
          sender := s.sender.beginLiveEpoch
          streams := fun commitment => (s.streams commitment).beginLiveEpoch index },
        [.epoch])
  | s, .close => .ok ({ s with closed := true }, [])
  | s, .collect =>
    match s.queue with
    | command :: queue => s.collected (.command command) queue cfg
    | [] => if s.closed then s.collected .closed [] cfg else .error .idle
  | s, .timeout => s.collected .timeout s.queue cfg
  | s, .compressed i =>
    match s.compressing[i]? with
    | none => .error .idle
    | some output =>
      .ok ({ s with
          compressing := s.compressing.eraseIdx i
          writer := { s.writer with pending := s.writer.pending.insert output.1 output.2 } }, [])
  | s, .write =>
    if s.writer.rotating then
      let (writer, disk) := s.writer.rotateSegment s.disk
      .ok ({ s with writer, disk }, [])
    else
      match s.writer.pending.get? s.writer.nextSeq with
      | none => .error .idle
      | some output =>
        let seq := s.writer.nextSeq
        let (writer, disk) := s.writer.handle cfg s.disk output
        let writer := { writer with pending := writer.pending.erase seq, nextSeq := seq + 1 }
        .ok ({ s with writer, disk }, [.committed seq output])
  | s, .restart hasher =>
    match start cfg hasher s.disk s.sender.nextArc with
    | .error e => .error (.start e)
    | .ok s => .ok (s, [.started s.sender.index])

end Node

end Richat
