import Richat.Channel.Sender

/-!
# The catalog of the storage

The payloads of the journal are in segment files, the catalog says where: the first record of every
retained slot, the segments, and the chunks of records with the journal indices they cover. The
catalog is changed by three kinds of commits, each one batch of the metadata database:
`MetadataChunkCommit` after a chunk is on disk, `RotationCommit` when a segment is full, and
`MetadataTrimCommit` when a slot leaves the replay window.

`buildChunkCommit` and `buildTrimCommit` are what the segment writer makes of the catalog.
-/

namespace Richat

open Lib

structure MetadataState where
  nextSegmentId : ℕ
  /-- `0` before the first segment -/
  activeSegmentId : ℕ
  deriving DecidableEq

def MetadataState.default : MetadataState := ⟨1, 0⟩

/-- Where the replay of a slot begins. -/
structure SlotMeta where
  slot : Slot
  finalized : Bool
  firstIndex : ℕ
  segmentId : ℕ
  deriving DecidableEq

structure SegmentMeta where
  segmentId : ℕ
  isSealed : Bool
  lastIndex : ℕ
  fileLen : ℕ
  chunkCount : ℕ
  deriving DecidableEq

def SegmentMeta.empty (segmentId fileLen : ℕ) : SegmentMeta := ⟨segmentId, false, 0, fileLen, 0⟩

/-- A compressed chunk inside a segment file. -/
structure ChunkMeta where
  segmentId : ℕ
  offset : ℕ
  size : ℕ
  compression : ℕ
  firstIndex : ℕ
  lastIndex : ℕ
  deriving DecidableEq

structure MetadataChunkCommit where
  newSlots : List SlotMeta
  updatedSlots : List SlotMeta
  chunk : ChunkMeta
  segment : SegmentMeta
  state : MetadataState

structure MetadataTrimCommit where
  removedSlot : Slot
  deletedSlots : List Slot
  deletedSegments : List ℕ
  deletedChunks : List ℕ

structure RotationCommit where
  sealedSegment : SegmentMeta
  newSegment : SegmentMeta
  state : MetadataState

structure MetadataMirror where
  slots : SortedMap Slot SlotMeta
  segments : SortedMap ℕ SegmentMeta
  chunks : List ChunkMeta
  state : MetadataState
  replayFloor : ℕ

namespace MetadataMirror

def new : MetadataMirror where
  slots := .empty
  segments := .empty
  chunks := []
  state := .default
  replayFloor := 0

/-- The rows of the slots are written. -/
def insertSlots (slots : SortedMap Slot SlotMeta) (metas : List SlotMeta) : SortedMap Slot SlotMeta :=
  metas.foldl (fun slots m => slots.insert m.slot m) slots

def applyChunkCommit (catalog : MetadataMirror) (commit : MetadataChunkCommit) : MetadataMirror :=
  { catalog with
    slots := insertSlots (insertSlots catalog.slots commit.newSlots) commit.updatedSlots
    segments := catalog.segments.insert commit.segment.segmentId commit.segment
    chunks := catalog.chunks ++ [commit.chunk]
    state := commit.state }

def applyTrimCommit (catalog : MetadataMirror) (commit : MetadataTrimCommit) : MetadataMirror :=
  { catalog with
    slots := commit.deletedSlots.foldl (·.erase ·) (catalog.slots.erase commit.removedSlot)
    segments := commit.deletedSegments.foldl (·.erase ·) catalog.segments
    chunks := catalog.chunks.filter fun chunk => chunk.segmentId ∉ commit.deletedSegments }

def applyRotationCommit (catalog : MetadataMirror) (commit : RotationCommit) : MetadataMirror :=
  { catalog with
    segments := (catalog.segments.insert commit.sealedSegment.segmentId commit.sealedSegment).insert
      commit.newSegment.segmentId commit.newSegment
    state := commit.state }

/-- `Metadata::initialize_empty`: the first segment. -/
def initializeEmpty (catalog : MetadataMirror) (state : MetadataState) (segment : SegmentMeta) :
    MetadataMirror :=
  { catalog with segments := catalog.segments.insert segment.segmentId segment, state }

def setReplayFloor (catalog : MetadataMirror) (index : ℕ) : MetadataMirror :=
  { catalog with replayFloor := index }

/-- `Storage::next_index`: where the journal goes on after a start. -/
def nextIndex (catalog : MetadataMirror) : ℕ :=
  max (catalog.chunks.getLast?.elim 0 (·.lastIndex + 1)) catalog.replayFloor

/-- `Storage::read_slots`: the slots since the last live epoch. -/
def readSlots (catalog : MetadataMirror) : List SlotMeta :=
  catalog.slots.values.filter fun m => catalog.replayFloor ≤ m.firstIndex

end MetadataMirror

/-- Whether a chunk has the records of the commitment; a chunk of the old format has only processed
ones. -/
def ChunkMeta.hasCommitment (chunk : ChunkMeta) (commitment : CommitmentLevel) : Bool :=
  if chunk.compression &&& 0x80 = 0 then commitment = .processed
  else (chunk.compression >>> 2) &&& Storage.commitmentBit commitment ≠ 0

/-- `Storage::supports_commitment_replay`. -/
def MetadataMirror.supportsCommitmentReplay (catalog : MetadataMirror) (index : ℕ)
    (commitment : CommitmentLevel) : Bool :=
  (catalog.chunks.filter fun chunk => index ≤ chunk.lastIndex).all (·.hasCommitment commitment)

/-! ### The commits of the segment writer -/

/-- A slot whose first record is in the chunk. -/
structure PendingSlot where
  slot : Slot
  firstIndex : ℕ

/-- `SegmentWriter::build_chunk_commit`. -/
def buildChunkCommit (catalog : MetadataMirror) (activeSegment : SegmentMeta) (chunk : ChunkMeta)
    (pendingSlots : List PendingSlot) (pendingFinalized : List Slot) : MetadataChunkCommit :=
  let newSlots := pendingSlots.map fun pending =>
    ⟨pending.slot, pending.slot ∈ pendingFinalized, pending.firstIndex, chunk.segmentId⟩
  let updatedSlots := pendingFinalized.filterMap fun slot =>
    (catalog.slots.get? slot).bind fun m =>
      if newSlots.any (·.slot = slot) then none else some { m with finalized := true }
  { newSlots
    updatedSlots
    chunk
    segment :=
      { activeSegment with
        lastIndex := chunk.lastIndex
        fileLen := activeSegment.fileLen + chunk.size
        chunkCount := activeSegment.chunkCount + 1 }
    state := catalog.state }

/-- The segments that `SegmentWriter::build_trim_commit` deletes. -/
def deletedSegments (catalog : MetadataMirror) (upTo : Option ℕ) : List ℕ :=
  match upTo with
  | none => []
  | some floor =>
    (catalog.segments.values.filter fun segment =>
      segment.isSealed ∧ 0 < segment.chunkCount ∧ segment.lastIndex < floor).map (·.segmentId)

/-- `SegmentWriter::build_trim_commit`. -/
def buildTrimCommit (catalog : MetadataMirror) (slot : Slot) (upTo : Option ℕ) :
    MetadataTrimCommit :=
  let deleted := deletedSegments catalog upTo
  { removedSlot := slot
    deletedSlots := (catalog.slots.values.filter (·.segmentId ∈ deleted)).map (·.slot)
    deletedSegments := deleted
    deletedChunks := (catalog.chunks.filter (·.segmentId ∈ deleted)).map (·.firstIndex) }

/-- The commit of `SegmentWriter::rotate_segment`. -/
def buildRotationCommit (catalog : MetadataMirror) (activeSegment : SegmentMeta) : RotationCommit :=
  let segmentId := catalog.state.nextSegmentId
  { sealedSegment := { activeSegment with isSealed := true }
    newSegment := .empty segmentId 0
    state := ⟨segmentId + 1, segmentId⟩ }

end Richat
